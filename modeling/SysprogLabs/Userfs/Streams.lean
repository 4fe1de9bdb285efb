import SysprogLabs.Userfs.Flat
import SysprogLabs.Userfs.Transfers

/-! # A file as a stream

One descriptor stands at the end of a file and writes, another one reads, each in pieces of any size,
and in between anything may happen that does not write to the file or move one of the two.  What is
read are the bytes that were written, in their order, with none left out, doubled or changed
(`stream`).  The file may lose its name on the way.

The argument is about the flat model: `Stream` is what every call keeps.
-/

namespace SysprogLabs.Userfs

open Reference

/-! ## The ends of the stream -/

/-- What an event writes through `a`. -/
def written (a : Int) : Call × Out → List Byte
  | (.ufsWrite fd buf, out) => if fd = a ∧ out.ret ≠ -1 then buf else []
  | _ => []

/-- What an event reads through `b`. -/
def received (b : Int) : Call × Out → List Byte
  | (.ufsRead fd _, out) => if fd = b then out.bytes else []
  | _ => []

/-- The call closes neither `a` nor `b`, does not read through `a`, and does not go to the inode `i` with a
    write or a resize, unless it writes through `a`. -/
def Reference.State.Leaves (r : Reference.State) (a b : Int) (i : Nat) : Call → Prop
  | .ufsWrite fd _ => fd = a ∨ ∀ d, r.descriptor fd = some d → d.inode ≠ i
  | .ufsResize fd _ => ∀ d, r.descriptor fd = some d → d.inode ≠ i
  | .ufsRead fd _ => fd ≠ a
  | .ufsClose fd => fd ≠ a ∧ fd ≠ b
  | _ => True

/-- `a` writes behind the bytes `stored` of the inode `i`; `b` has read `got` from the position `k` on. -/
structure Stream (r : Reference.State) (a b : Int) (i k : Nat) (stored got : List Byte) : Prop where
  writer : ∃ d, r.descriptor a = some d ∧ d.inode = i ∧ d.position = stored.length ∧ d.canWrite = true
  reader : ∃ e, r.descriptor b = some e ∧ e.inode = i ∧ e.position = k + got.length ∧ e.canRead = true
  bytes : (r.inode i).bytes = stored
  old : i < r.next
  sent : got <+: stored.drop k

section

variable {r r' : Reference.State} {a b fd : Int} {i k : Nat} {stored got : List Byte} {d : Descriptor}

/-! ### Descriptors -/

theorem Reference.State.descriptor_nonneg (found : r.descriptor fd = some d) : 0 ≤ fd := by
  by_contra negative
  rw [Reference.State.descriptor, if_pos (by omega)] at found
  cases found

theorem Reference.State.descriptor_congr {other : Int} (found : r.descriptor other = some d)
    (same : ∀ j, j = other.toNat → slotAt r'.fds j = slotAt r.fds j) : r'.descriptor other = some d := by
  have nonneg := r.descriptor_nonneg found
  rw [Reference.State.descriptor, if_neg (by omega)] at found ⊢
  rw [same _ rfl, found]

/-- Another slot changes. -/
theorem Reference.State.descriptor_set {other : Int} {e : Descriptor} (found : r.descriptor fd = some d)
    (found' : r.descriptor other = some e) (apart : fd ≠ other) {new : Option Descriptor}
    (fds : r'.fds = r.fds.set fd.toNat new) : r'.descriptor other = some e := by
  have nonneg := r.descriptor_nonneg found
  have nonneg' := r.descriptor_nonneg found'
  refine r.descriptor_congr found' fun j here => ?_
  rw [fds, slotAt, slotAt, List.getElem?_set_ne (by omega)]

/-- The slot of an open descriptor changes. -/
theorem Reference.State.descriptor_moved (found : r.descriptor fd = some d) {new : Descriptor}
    (fds : r'.fds = r.fds.set fd.toNat (some new)) : r'.descriptor fd = some new := by
  have nonneg := r.descriptor_nonneg found
  rw [Reference.State.descriptor, if_neg (by omega)] at found ⊢
  have inside := (List.getElem?_eq_some_iff.mp (slotAt_eq_some.mp found)).1
  rw [fds, slotAt_set inside, if_pos rfl]

/-- A new descriptor takes no slot that is in use. -/
theorem Reference.State.descriptor_opened {j : Nat} {flags : Flags} (found : r.descriptor fd = some d) :
    (r.openInode j flags).2.descriptor fd = some d := by
  refine r.descriptor_congr found fun l here => ?_
  have nonneg := r.descriptor_nonneg found
  rw [Reference.State.descriptor, if_neg (by omega)] at found
  have free := (@lowestFree_spec _ r.fds).1
  show slotAt (place r.fds (lowestFree r.fds) _) l = _
  rw [slotAt_place lowestFree_le, if_neg]
  intro taken
  rw [← taken, here, found] at free
  cases free

/-! ### One call -/

namespace Stream

theorem opened (stream : Stream r a b i k stored got) (j : Nat) (flags : Flags) :
    Stream (r.openInode j flags).2 a b i k stored got := by
  obtain ⟨⟨d, at_a, writer⟩, ⟨e, at_b, reader⟩, bytes, old, sent⟩ := stream
  exact ⟨⟨d, Reference.State.descriptor_opened at_a, writer⟩,
    ⟨e, Reference.State.descriptor_opened at_b, reader⟩, bytes, old, sent⟩

/-- Something changes that is not part of the stream. -/
theorem elsewhere (stream : Stream r a b i k stored got) (fds : r'.fds = r.fds) (inode : r'.inode i = r.inode i)
    (next : r.next ≤ r'.next) : Stream r' a b i k stored got := by
  obtain ⟨⟨d, at_a, writer⟩, ⟨e, at_b, reader⟩, bytes, old, sent⟩ := stream
  have same : ∀ {fd d}, r.descriptor fd = some d → r'.descriptor fd = some d := fun found =>
    r.descriptor_congr found fun _ _ => by rw [fds]
  exact ⟨⟨d, same at_a, writer⟩, ⟨e, same at_b, reader⟩, by rw [inode, bytes], Nat.lt_of_lt_of_le old next, sent⟩

/-- Another descriptor is moved or closed, maybe after a change of another inode. -/
theorem replaced (stream : Stream r a b i k stored got) (found : r.descriptor fd = some d) (not_writer : fd ≠ a)
    (not_reader : fd ≠ b) {new : Option Descriptor} (fds : r'.fds = r.fds.set fd.toNat new)
    (inode : r'.inode i = r.inode i) (next : r'.next = r.next) : Stream r' a b i k stored got := by
  obtain ⟨⟨d, at_a, writer⟩, ⟨e, at_b, reader⟩, bytes, old, sent⟩ := stream
  exact ⟨⟨d, r.descriptor_set found at_a not_writer fds, writer⟩, ⟨e, r.descriptor_set found at_b not_reader fds, reader⟩,
    by rw [inode, bytes], by omega, sent⟩

/-- A write through `a`. -/
theorem write (stream : Stream r a b i k stored got) (apart : a ≠ b) (found : r.descriptor a = some d) (buf : List Byte) :
    Stream ((r.write d.inode d.position buf).move a d buf.length) a b i k (stored ++ buf) got := by
  obtain ⟨⟨d', at_a, at_inode, position, canWrite⟩, ⟨e, at_b, reader⟩, bytes, old, sent⟩ := stream
  rw [found] at at_a
  cases at_a
  refine ⟨⟨_, r.descriptor_moved found rfl, at_inode, ?_, canWrite⟩, ⟨e, r.descriptor_set found at_b apart rfl, reader⟩,
    ?_, old, ?_⟩
  · show d.position + buf.length = _
    rw [position, List.length_append]
  · show (if i = d.inode then _ else r.inode i : Inode).bytes = _
    rw [if_pos at_inode.symm, at_inode, bytes, position]
    simp [overwrite]
  · rw [List.drop_append]
    exact sent.trans (List.prefix_append ..)

/-- A read through `b`. -/
theorem read (stream : Stream r a b i k stored got) (apart : a ≠ b) (found : r.descriptor b = some d) (size : Nat)
    {bytes : List Byte} (result : bytes = ((r.inode d.inode).bytes.drop d.position).take size) :
    Stream (r.move b d bytes.length) a b i k stored (got ++ bytes) := by
  obtain ⟨⟨d', at_a, writer⟩, ⟨e, at_b, at_inode, position, canRead⟩, same, old, rest, sent⟩ := stream
  rw [found] at at_b
  cases at_b
  have later : stored.drop d.position = rest := by
    rw [position, ← List.drop_drop, ← sent, List.drop_left]
  rw [at_inode, same, later] at result
  refine ⟨⟨d', r.descriptor_set found at_a apart.symm rfl, writer⟩,
    ⟨_, r.descriptor_moved found rfl, at_inode, ?_, canRead⟩, same, old, ?_⟩
  · show d.position + bytes.length = _
    rw [position, List.length_append, Nat.add_assoc]
  · rw [← sent, result]
    exact (List.prefix_append_right_inj got).mpr (List.take_prefix ..)

/-- A call that fails. -/
theorem fail (stream : Stream r a b i k stored got) (code : ErrorCode) {call : Call} {out : Out}
    (failed : r.fail code = (out, r')) (wrote : out.ret = -1 → written a (call, out) = [])
    (read : out.bytes = [] → received b (call, out) = []) :
    Stream r' a b i k (stored ++ written a (call, out)) (got ++ received b (call, out)) := by
  cases failed
  rw [wrote rfl, read rfl, List.append_nil, List.append_nil]
  exact stream.elsewhere rfl rfl (Nat.le_refl _)

/-- Each call passes on what goes through the stream, and nothing else changes it. -/
theorem step {call : Call} {out : Out} (stream : Stream r a b i k stored got) (apart : a ≠ b)
    (leaves : r.Leaves a b i call) (responds : Respond r (call, out) r') :
    Stream r' a b i k (stored ++ written a (call, out)) (got ++ received b (call, out)) := by
  have answer : r.respond call = (out, r') := responds.2
  have wrote : out.ret = -1 → written a (call, out) = [] := fun failed => by
    cases call with
    | ufsWrite => simp [written, failed]
    | _ => rfl
  have read : out.bytes = [] → received b (call, out) = [] := fun nothing => by
    cases call with
    | ufsRead => simp [received, nothing]
    | _ => rfl
  cases call with
  | ufsOpen filename flags =>
    simp only [written, received, List.append_nil]
    simp only [Reference.State.respond, Reference.State.step] at answer
    split at answer
    · have state : (r.openInode _ flags).2 = r' := congrArg Prod.snd answer
      rw [← state]
      exact stream.opened _ _
    · split at answer
      · have created : Stream (r.create filename) a b i k stored got := by
          refine stream.elsewhere rfl ?_ (Nat.le_succ _)
          show (if i = r.next then _ else r.inode i) = _
          rw [if_neg (Nat.ne_of_lt stream.old)]
        have state : ((r.create filename).openInode _ flags).2 = r' := congrArg Prod.snd answer
        rw [← state]
        exact created.opened _ _
      · cases answer
        exact stream.elsewhere rfl rfl (Nat.le_refl _)
  | ufsDelete filename =>
    simp only [written, received, List.append_nil]
    simp only [Reference.State.respond, Reference.State.step] at answer
    split at answer
    · cases answer
      exact stream.elsewhere rfl rfl (Nat.le_refl _)
    · cases answer
      exact stream.elsewhere rfl rfl (Nat.le_refl _)
  | ufsWrite fd buf =>
    simp only [Reference.State.respond, Reference.State.step] at answer
    split at answer
    · exact stream.fail _ answer wrote read
    next d found =>
      by_cases allowed : d.canWrite = false
      · rw [if_pos allowed] at answer
        exact stream.fail _ answer wrote read
      by_cases fits : withinLimit (r.inode d.inode) d.position buf.length = false
      · rw [if_neg allowed, if_pos fits] at answer
        exact stream.fail _ answer wrote read
      rw [if_neg allowed, if_neg fits] at answer
      cases answer
      have some_written : (buf.length : Int) ≠ -1 := by omega
      by_cases here : fd = a
      · subst here
        simp only [written, received, true_and, List.append_nil]
        rw [if_pos some_written]
        exact stream.write apart found buf
      · simp only [written, received, here, false_and, if_false, List.append_nil]
        have other := leaves.resolve_left here d found
        have not_reader : fd ≠ b := by
          obtain ⟨e, at_b, at_inode, -⟩ := stream.reader
          rintro rfl
          rw [found] at at_b
          cases at_b
          exact other at_inode
        refine stream.replaced found here not_reader rfl ?_ rfl
        show (if i = d.inode then _ else r.inode i) = _
        rw [if_neg other.symm]
  | ufsRead fd size =>
    simp only [Reference.State.respond, Reference.State.step] at answer
    split at answer
    · exact stream.fail _ answer wrote read
    next d found =>
      by_cases allowed : d.canRead = false
      · rw [if_pos allowed] at answer
        exact stream.fail _ answer wrote read
      rw [if_neg allowed] at answer
      cases answer
      by_cases here : fd = b
      · subst here
        simp only [written, received, if_true, List.append_nil]
        exact stream.read apart found size rfl
      · simp only [written, received, here, if_false, List.append_nil]
        exact stream.replaced found leaves here rfl rfl rfl
  | ufsClose fd =>
    simp only [written, received, List.append_nil]
    simp only [Reference.State.respond, Reference.State.step] at answer
    split at answer
    · cases answer
      exact stream.elsewhere rfl rfl (Nat.le_refl _)
    next d found =>
      cases answer
      exact stream.replaced found leaves.1 leaves.2 rfl rfl rfl
  | ufsResize fd newSize =>
    simp only [Reference.State.respond] at answer
    split at answer
    · exact stream.fail _ answer wrote read
    next d found =>
      by_cases allowed : d.canWrite = false
      · rw [if_pos allowed] at answer
        exact stream.fail _ answer wrote read
      by_cases large : newSize.val > maxFileSize
      · rw [if_neg allowed, if_pos large] at answer
        exact stream.fail _ answer wrote read
      rw [if_neg allowed, if_neg large] at answer
      cases answer
      simp only [written, received, List.append_nil]
      refine stream.elsewhere rfl ?_ (Nat.le_refl _)
      show (if i = d.inode then _ else r.inode i) = _
      rw [if_neg (leaves d found).symm]

end Stream

end

/-! ## On the heap -/

/-- The model's state behind a view. -/
def View.flat (v : View) : Reference.State where
  names := v.disk.search
  inode f := match v.disk.file f with
    | some V => ⟨V.bytes, maxFileSize - V.bytesLeft⟩
    | none => ⟨[], 0⟩
  next := v.disk.next
  fds := v.table.handles.map (Option.map Filedesc.toDescriptor)
  errno := v.ufsErrorCode

theorem View.flat_mirrors (v : View) : Mirrors v v.flat where
  names _ := rfl
  contents f V stored := by simp [flat, stored]
  next := rfl
  fds i := by
    show ((v.table.handles.map (Option.map Filedesc.toDescriptor))[i]?).join = _
    rw [List.getElem?_map, slotAt]
    cases v.table.handles[i]? with
    | none => rfl
    | some slot => rfl
  errno := rfl

/-- The call does not interfere with the stream from `a` to `b` on the file `f`. -/
def Leaves (s : State) (a b : Int) (f : Nat) : Call → Prop
  | .ufsWrite fd _ => fd = a ∨ ∀ p d file, ¬ Opened s fd p d f file
  | .ufsResize fd _ => ∀ p d file, ¬ Opened s fd p d f file
  | .ufsRead fd _ => fd ≠ a
  | .ufsClose fd => fd ≠ a ∧ fd ≠ b
  | _ => True

def StreamStep (junk : Junk) (a b : Int) (f : Nat) (s : State) (event : Call × Out) (s' : State) : Prop :=
  Step junk s event s' ∧ event.1.Whole ∧ Leaves s a b f event.1

section

variable {junk : Junk} {s s' : State} {v : View} {r : Reference.State} {a b fd : Int} {f k p q : Nat} {d e : Filedesc}
  {file : File} {event : Call × Out} {events : List (Call × Out)} {stored got bytes : List Byte}

namespace Refines

/-- What an open descriptor is in the model. -/
theorem descriptor (refines : Refines s v r) (opened : Opened s fd p d f file) :
    r.descriptor fd = some d.toDescriptor ∧ d.toDescriptor.inode = f ∧ d.toDescriptor.position = d.offset.toNat := by
  obtain ⟨found, -⟩ := refines.abstracts.opened opened
  exact ⟨refines.mirrors.found refines.counted.exact found, Filedesc.toDescriptor_inode opened.target, rfl⟩

/-- A descriptor of the model is open on its inode. -/
theorem opened (refines : Refines s v r) {D : Descriptor} (found : r.descriptor fd = some D) :
    ∃ p d file, Opened s fd p d D.inode file := by
  obtain closed | ⟨p, d, f, V, found', target, stored, -⟩ := refines.counted.lookup refines.abstracts.2 fd
  · rw [refines.mirrors.found refines.counted.exact closed] at found
    cases found
  · rw [refines.mirrors.found refines.counted.exact found'] at found
    cases found
    obtain ⟨file, -, live, -⟩ := refines.abstracts.file stored
    rw [Filedesc.toDescriptor_inode target]
    exact ⟨p, d, file, by rw [refines.abstracts.1.table, found'], target, live⟩

theorem leaves (refines : Refines s v r) {call : Call} (leaves : Leaves s a b f call) : r.Leaves a b f call := by
  have away : ∀ {fd}, (∀ p d file, ¬ Opened s fd p d f file) → ∀ D, r.descriptor fd = some D → D.inode ≠ f := by
    intro fd closed D found here
    obtain ⟨p, d, file, opened⟩ := refines.opened found
    exact closed p d file (here ▸ opened)
  cases call with
  | ufsWrite fd buf => exact leaves.imp_right away
  | ufsResize fd newSize => exact away leaves
  | ufsRead | ufsClose | ufsOpen | ufsDelete => exact leaves

end Refines

theorem streams (zero : junk.ZeroSlots) (apart : a ≠ b) (refines : Refines s v r) (stream : Stream r a b f k stored got)
    (run : Run (StreamStep junk a b f) s events s') :
    ∃ v' r', Refines s' v' r' ∧
      Stream r' a b f k (stored ++ events.flatMap (written a)) (got ++ events.flatMap (received b)) := by
  induction run generalizing v r stored got with
  | nil => exact ⟨v, r, refines, by simpa using stream⟩
  | cons step _ ih =>
    obtain ⟨step, whole, leaves⟩ := step
    obtain ⟨r', w, responds, refines'⟩ := refines.step zero whole step
    obtain ⟨v'', r'', refines'', stream''⟩ := ih refines' (stream.step apart (refines.leaves leaves) responds)
    refine ⟨v'', r'', refines'', ?_⟩
    simpa using stream''

/-- The next read through `b` continues where the last one ended. -/
theorem Stream.next {rest : List Byte} (stream : Stream r a b f k stored got) (later : stored.drop k = got ++ rest)
    (size : SizeT) : ∃ out r', Respond r (.ufsRead b size, out) r' ∧ out.bytes = rest.take size ∧
      out.ret = (rest.take size).length := by
  obtain ⟨e, at_b, at_inode, position, canRead⟩ := stream.reader
  have left : (r.inode e.inode).bytes.drop e.position = rest := by
    rw [at_inode, stream.bytes, position, ← List.drop_drop, later, List.drop_left]
  refine ⟨_, _, ⟨trivial, rfl⟩, ?_⟩
  simp [at_b, canRead, left, Reference.State.reply]

/-- What `b` receives is what the file has and what `a` writes, in order, and what it has not received yet is
    what it receives next. -/
theorem received_in_order {file' : File} (zero : junk.ZeroSlots) (reachable : Reachable (Step junk) State.init s)
    (apart : a ≠ b) (writer : Opened s a p d f file) (canWrite : d.canWrite = true) (atEnd : d.offset = bytes.length)
    (reader : Opened s b q e f file') (canRead : e.canRead = true) (contents : s.disk.Contains f bytes)
    (start : e.offset ≤ bytes.length) (run : Run (StreamStep junk a b f) s events s') :
    s'.disk.Contains f (bytes ++ events.flatMap (written a)) ∧
    ∃ rest, bytes.drop e.offset.toNat ++ events.flatMap (written a) = events.flatMap (received b) ++ rest ∧
      ∀ size : SizeT, size.val < 9223372036854775808 → ∃ out s'', Step junk s' (.ufsRead b size, out) s'' ∧
        out.bytes = rest.take size ∧ out.ret = (rest.take size).length := by
  obtain ⟨v, abstracts, counted⟩ := reachable_counted zero reachable
  have refines : Refines s v v.flat := ⟨abstracts, counted, v.flat_mirrors⟩
  obtain ⟨-, nonneg, V, stored, -⟩ := abstracts.opened writer
  have same := (abstracts.contains stored).unique contents
  have stream : Stream v.flat a b f e.offset.toNat bytes [] := by
    obtain ⟨at_a, inode_a, position_a⟩ := refines.descriptor writer
    obtain ⟨at_b, inode_b, position_b⟩ := refines.descriptor reader
    refine ⟨⟨_, at_a, inode_a, by rw [position_a]; omega, canWrite⟩, ⟨_, at_b, inode_b, position_b, canRead⟩, ?_, ?_,
      List.nil_prefix⟩
    · rw [refines.mirrors.contents f V stored]
      exact same
    · by_contra beyond
      rw [abstracts.2.disk.fresh f (Nat.le_of_not_lt beyond)] at stored
      cases stored
  obtain ⟨v', r', refines', stream'⟩ := streams zero apart refines stream run
  rw [List.nil_append] at stream'
  obtain ⟨rest, sent⟩ := stream'.sent
  refine ⟨?_, rest, ?_, fun size small => ?_⟩
  · obtain ⟨D, at_b, at_inode, -⟩ := stream'.reader
    obtain ⟨p', d', file', opened⟩ := refines'.opened at_b
    obtain ⟨-, -, V', stored', -⟩ := refines'.abstracts.opened opened
    have bytes' := stream'.bytes
    rw [at_inode] at stored'
    rw [refines'.mirrors.contents f V' stored'] at bytes'
    rw [← bytes']
    exact refines'.abstracts.contains stored'
  · rw [sent, List.drop_append_of_le_length (by omega)]
  · obtain ⟨out, r'', responds, result⟩ := stream'.next sent.symm size
    obtain ⟨s'', w, step, -⟩ : ∃ s'' w, Step junk s' (.ufsRead b size, out) s'' ∧ Refines s'' w r'' :=
      refines'.back zero small responds
    exact ⟨out, s'', step, result⟩

/-- The file `a`, just created and opened twice. -/
def openedTwice : Reference.State :=
  ((Reference.init.respond (.ufsOpen [97] 1)).2.respond (.ufsOpen [97] 0)).2

theorem openedTwice_refined : ∃ s v p q d e file file', Reachable (Step Junk.zero) State.init s ∧
    Refines s v openedTwice ∧ Opened s 0 p d 0 file ∧ d.canWrite = true ∧ d.offset = 0 ∧
    Opened s 1 q e 0 file' ∧ e.canRead = true ∧ e.offset = 0 ∧ s.disk.Contains 0 [] := by
  have opens : Run Respond Reference.init [(.ufsOpen [97] 1, ⟨0, [], .noErr⟩), (.ufsOpen [97] 0, ⟨1, [], .noErr⟩)]
      openedTwice := .cons (.next trivial (by decide +kernel)) (.cons (.next trivial (by decide +kernel)) (.nil _))
  have zero : Junk.zero.ZeroSlots := fun _ _ => rfl
  obtain ⟨s, run, v, refines⟩ := Refines.init.run_back zero (by simp [Call.Whole, Call.Plain]) opens
  have first : openedTwice.descriptor 0 = some ⟨0, 0, true, true⟩ := by decide +kernel
  have second : openedTwice.descriptor 1 = some ⟨0, 0, true, true⟩ := by decide +kernel
  obtain ⟨p, d, file, writer⟩ := refines.opened first
  obtain ⟨q, e, file', reader⟩ := refines.opened second
  have at_a := first.symm.trans (refines.descriptor writer).1
  have at_b := second.symm.trans (refines.descriptor reader).1
  obtain ⟨-, nonneg, V, stored, -⟩ := refines.abstracts.opened writer
  obtain ⟨-, nonneg', -⟩ := refines.abstracts.opened reader
  have empty : (openedTwice.inode 0).bytes = V.bytes := by rw [refines.mirrors.contents 0 V stored]
  simp only [Filedesc.toDescriptor, Option.some.injEq, Descriptor.mk.injEq] at at_a at_b
  have contents := refines.abstracts.contains stored
  rw [← empty] at contents
  exact ⟨s, v, p, q, d, e, file, file', ⟨_, run⟩, refines, writer, at_a.2.2.2.symm, by omega, reader,
    at_b.2.2.1.symm, by omega, contents⟩

-- The file loses its name between two writes.
theorem received_after_delete : ∃ s s' : State, Run (StreamStep Junk.zero 0 1 0) s
    [(.ufsWrite 0 [1, 2], ⟨2, [], .noErr⟩), (.ufsRead 1 1, ⟨1, [1], .noErr⟩), (.ufsDelete [97], ⟨0, [], .noErr⟩),
      (.ufsWrite 0 [3], ⟨1, [], .noErr⟩)] s' ∧
    ∃ out s'', Step Junk.zero s' (.ufsRead 1 8, out) s'' ∧ out.bytes = [2, 3] := by
  obtain ⟨s, v, p, q, d, e, file, file', reachable, refines, writer, canWrite, atEnd, reader, canRead, start, contents⟩ :=
    openedTwice_refined
  have goes_on : ∃ r, Run Respond openedTwice [(.ufsWrite 0 [1, 2], ⟨2, [], .noErr⟩), (.ufsRead 1 1, ⟨1, [1], .noErr⟩),
      (.ufsDelete [97], ⟨0, [], .noErr⟩), (.ufsWrite 0 [3], ⟨1, [], .noErr⟩)] r :=
    ⟨_, .cons (.next trivial (by decide +kernel)) (.cons (.next trivial (by decide +kernel))
      (.cons (.next trivial (by decide +kernel)) (.cons (.next trivial (by decide +kernel)) (.nil _))))⟩
  obtain ⟨r, goes_on⟩ := goes_on
  have zero : Junk.zero.ZeroSlots := fun _ _ => rfl
  have small : (8 : SizeT).val < 9223372036854775808 := by decide
  have quiet : ∀ call ∈ [Call.ufsWrite 0 [1, 2], .ufsRead 1 1, .ufsDelete [97], .ufsWrite 0 [3]],
      call.Whole ∧ ∀ s, Leaves s 0 1 0 call := by
    simp [Call.Whole, Call.Plain, Leaves]
  obtain ⟨s', run, -⟩ := refines.run_back zero (fun event mem => (quiet event.1 (List.mem_map_of_mem mem)).1) goes_on
  have steps : Run (StreamStep Junk.zero 0 1 0) s _ s' := run.mono_of_labels fun s event s' mem step =>
    ⟨step, (quiet event.1 (List.mem_map_of_mem mem)).1, (quiet event.1 (List.mem_map_of_mem mem)).2 s⟩
  obtain ⟨-, rest, sent, reads⟩ := received_in_order zero reachable (by decide) writer canWrite (by rw [atEnd]; rfl) reader
    canRead contents (by rw [start]; exact Int.le_refl _) steps
  obtain ⟨out, s'', step, bytes, -⟩ := reads 8 small
  refine ⟨s, s', steps, out, s'', step, ?_⟩
  have sent : ([1, 2, 3] : List Byte) = [1] ++ rest := by simpa [written, received] using sent
  have rest_eq : rest = [2, 3] := (List.cons.inj sent).2.symm
  rw [bytes, rest_eq]
  rfl

end

end SysprogLabs.Userfs
