import SysprogLabs.Userfs.Invariants
import SysprogLabs.Userfs.Reference

/-! # What is written and what is read

The contents of a file are read off the heap: the occupied prefixes of its blocks, one
after the other.  On them a write through a descriptor overwrites from the position, or
from the end of the file if that comes first, and a read copies what lies behind the
position.
-/

namespace SysprogLabs.Userfs

open Prog

variable {junk : Junk} {s s' : State} {v : View} {fd : Int} {p f : Nat} {r : Filedesc} {file : File}

namespace Disk

/-- The occupied prefix of the memory of the block `p`. -/
def blockBytes (d : Disk) (p : Nat) : List Byte :=
  match d.blocks.cell p with
  | some b => match b.memory.bind d.memories.cell with
    | some m => m.bytes.take b.occupied.toNat
    | none => []
  | none => []

def bytesOf (d : Disk) (l : List Nat) : List Byte := l.flatMap d.blockBytes

/-- The live file `f` stores `bytes`. -/
def Contains (d : Disk) (f : Nat) (bytes : List Byte) : Prop :=
  ∃ file l, d.files.cell f = some file ∧ Chain d.nextBlock file.blockList l ∧ d.bytesOf l = bytes

theorem Contains.unique {d : Disk} {bytes bytes' : List Byte} (contains : d.Contains f bytes)
    (contains' : d.Contains f bytes') : bytes = bytes' := by
  obtain ⟨file, l, live, path, rfl⟩ := contains
  obtain ⟨file', l', live', path', rfl⟩ := contains'
  rw [live] at live'
  cases live'
  rw [path.unique path']

end Disk

/-- The descriptor `fd` has the record `r` at `p` and is opened on the live file `f`. -/
structure Opened (s : State) (fd : Int) (p : Nat) (r : Filedesc) (f : Nat) (file : File) : Prop where
  found : s.table.lookup fd = some (some (p, r))
  target : r.file = some f
  live : s.disk.files.cell f = some file

/-- The record of `fd` and its file, as far as the code can follow them. -/
def State.descriptor (s : State) (fd : Int) : Option (Nat × Filedesc × Nat × File) := do
  let (p, r) ← (s.table.lookup fd).join
  let f ← r.file
  let file ← s.disk.files.cell f
  return (p, r, f, file)

theorem State.descriptor_opened (follows : s.descriptor fd = some (p, r, f, file)) :
    Opened s fd p r f file := by
  simp only [descriptor, Option.bind_eq_bind, Option.bind_eq_some_iff, Option.pure_def, Option.some.injEq,
    Prod.mk.injEq, Prod.exists] at follows
  obtain ⟨q, t, found, g, target, record, live, same⟩ := follows
  obtain ⟨rfl, rfl, rfl, rfl⟩ := same
  exact ⟨Option.join_eq_some_iff.mp found, target, live⟩

/-! ## Contents on the heap and on views -/

theorem BlockRep.bytes {d : Disk} {data : List Byte} (rep : BlockRep d p data) : d.blockBytes p = data := by
  obtain ⟨b, m, mem, live, field, at_m, occupied, contents⟩ := rep
  simp only [Disk.blockBytes, live, field, Option.bind_some, at_m, occupied, Int.toNat_natCast]
  exact contents

theorem FileRep.bytes {d : Disk} {V : FileView} {l : List Nat} (rep : FileRep d file V l) :
    d.bytesOf l = V.bytes := by
  have blocks := rep.blocks
  rw [Disk.bytesOf, FileView.bytes]
  clear rep
  generalize V.blocks = bs at blocks
  induction blocks with
  | nil => rfl
  | cons here _ ih => rw [List.flatMap_cons, here.bytes, ih, List.flatten_cons]

theorem Abstracts.contains (abstracts : Abstracts s v) {V : FileView} (stored : v.disk.file f = some V) :
    s.disk.Contains f V.bytes := by
  obtain ⟨⟨⟨chain, rep⟩, -, -⟩, -⟩ := abstracts
  obtain ⟨file, live, fileRep⟩ := rep.live f V stored
  exact ⟨file, chain f, live, fileRep.path, fileRep.bytes⟩

/-- A file that is untouched on the view stores what it stored. -/
theorem Abstracts.kept {v' : View} (abstracts : Abstracts s v) (abstracts' : Abstracts s' v')
    (same : v'.disk.file f = v.disk.file f) {bytes : List Byte} (contains : s.disk.Contains f bytes) :
    s'.disk.Contains f bytes := by
  obtain ⟨file, l, live, path, contents⟩ := contains
  obtain ⟨chain, rep⟩ := abstracts.1.disk
  obtain ⟨V, stored, -⟩ := rep.file_stored live
  have here := abstracts.contains stored
  rw [here.unique ⟨file, l, live, path, contents⟩] at here
  have there := abstracts'.contains (same.trans stored)
  rwa [(abstracts.contains stored).unique here] at there

/-- What the view says of an opened descriptor. -/
theorem Abstracts.opened (abstracts : Abstracts s v) (opened : Opened s fd p r f file) :
    v.table.lookup fd = some (some (p, r)) ∧ 0 ≤ r.offset ∧
      ∃ V, v.disk.file f = some V ∧ V.bytesLeft = file.bytesLeft := by
  obtain ⟨rep, inv⟩ := abstracts
  have found := opened.found
  rw [rep.table] at found
  obtain ⟨-, -, live⟩ := Table.lookup_some found
  obtain ⟨-, -, -, nonneg⟩ := inv.table.record p r live
  obtain ⟨chain, diskRep⟩ := rep.disk
  obtain ⟨V, stored, fileRep⟩ := diskRep.file_stored opened.live
  exact ⟨found, nonneg, V, stored, fileRep.bytesLeft.symm⟩

theorem DiskView.fileAt_eq {w : DiskView} {V : FileView} (stored : w.file f = some V) :
    w.fileAt (some f) = some (f, V) := DiskView.fileAt_some.mpr ⟨rfl, stored⟩

theorem View.access_eq (found : v.table.lookup fd = some (some (p, r)))
    (opened : Nat → Filedesc → Option (Out × View)) : v.access fd opened = opened p r := by
  rw [View.access, found]

/-- Through a writable descriptor a write is refused when it is too long for `bytes_left`. -/
theorem View.write_refused (junk : Junk) (found : v.table.lookup fd = some (some (p, r))) (allowed : r.canWrite = true)
    (at_file : r.file = some f) {V : FileView} (stored : v.disk.file f = some V) {buf : List Byte}
    (tooMuch : V.bytesLeft < buf.length) :
    v.step junk (.ufsWrite fd buf) = some ({ ret := -1, bytes := [], errno := .noMem },
      { v with ufsErrorCode := .noMem }) := by
  rw [step, ufsWrite, access_eq found, allowed, at_file, DiskView.fileAt_eq stored]
  simp [tooMuch, fail, reply]

theorem View.write_accepted (junk : Junk) (found : v.table.lookup fd = some (some (p, r))) (allowed : r.canWrite = true)
    (at_file : r.file = some f) {V V' : FileView} (stored : v.disk.file f = some V) {buf : List Byte}
    (fits : buf.length ≤ V.bytesLeft) (written : V.write r.offset.toNat buf = some V') :
    v.step junk (.ufsWrite fd buf) = some ({ ret := buf.length, bytes := [], errno := v.ufsErrorCode },
      { v with disk := v.disk.setFile f V', table := v.table.advance p buf.length }) := by
  rw [step, ufsWrite, access_eq found, allowed, at_file, DiskView.fileAt_eq stored]
  simp [Nat.not_lt.mpr fits, written, reply]

theorem View.read_answered (junk : Junk) (found : v.table.lookup fd = some (some (p, r))) (allowed : r.canRead = true)
    (at_file : r.file = some f) {V : FileView} (stored : v.disk.file f = some V) (size : SizeT) :
    v.step junk (.ufsRead fd size) = some (
      { ret := (V.read r.offset.toNat size).length, bytes := V.read r.offset.toNat size, errno := v.ufsErrorCode },
      { v with table := v.table.advance p (V.read r.offset.toNat size).length }) := by
  rw [step, ufsRead, access_eq found, allowed, at_file, DiskView.fileAt_eq stored]
  simp [reply]

/-! ## On the heap -/

theorem Abstracts.answers (abstracts : Abstracts s v) {call : Call} {out : Out} {v' : View}
    (answer : v.step junk call = some (out, v')) : ∃ s', Step junk s (call, out) s' ∧ Abstracts s' v' := by
  have step : v.Step junk (call, out) v' := answer
  exact step.onHeap abstracts

theorem Abstracts.moved {v' : View} (abstracts : Abstracts s v) (abstracts' : Abstracts s' v')
    (opened : Opened s fd p r f file) {n : Nat} (table : v'.table = v.table.advance p n) :
    s'.table = { s.table with filedescs := s.table.filedescs.put p { r with offset := r.offset + n } } := by
  obtain ⟨-, -, live⟩ := Table.lookup_some opened.found
  rw [abstracts'.1.table, table, ← abstracts.1.table, Table.advance_facts live]

/-- A call that succeeds went through an open descriptor with the right permission. -/
theorem Step.opened (abstracts : Abstracts s v) {call : Call} {out : Out} (through : call.fd = some fd)
    (step : Step junk s (call, out) s') (success : out.ret ≠ -1) :
    ∃ p r f file, Opened s fd p r f file ∧ call.allowedBy r = true := by
  obtain ⟨v', stepped, -⟩ := step.onView abstracts
  have opened : ∀ {p f : Nat} {r : Filedesc} {V : FileView}, v.table.lookup fd = some (some (p, r)) →
      r.file = some f → v.disk.file f = some V → ∃ file, Opened s fd p r f file := by
    intro p f r V found target stored
    obtain ⟨file, -, live, -⟩ := abstracts.file stored
    exact ⟨file, by rw [abstracts.1.table]; exact found, target, live⟩
  cases View.step_effect stepped with
  | refused why => exact absurd rfl success
  | opened | created | deleted => cases through
  | wrote found allowed target stored | read found allowed target stored | resized found allowed target stored =>
    cases through
    obtain ⟨file, opened⟩ := opened found target stored
    exact ⟨_, _, _, file, opened, allowed⟩
  | closed found target stored =>
    cases through
    obtain ⟨file, opened⟩ := opened found target stored
    exact ⟨_, _, _, file, opened, rfl⟩

theorem Opened.contains (abstracts : Abstracts s v) (opened : Opened s fd p r f file) :
    ∃ bytes, s.disk.Contains f bytes := by
  obtain ⟨-, -, V, stored, -⟩ := abstracts.opened opened
  exact ⟨V.bytes, abstracts.contains stored⟩

/-- Where a run is before its last call, if that call succeeds through a descriptor. -/
theorem run_opened {events : List (Call × Out)} {call : Call} {out : Out}
    (run : Run (Step junk) State.init events s') (last : events.getLast? = some (call, out))
    (through : call.fd = some fd) (success : out.ret ≠ -1) :
    ∃ s p r f file bytes, Reachable (Step junk) State.init s ∧ Step junk s (call, out) s' ∧
      Opened s fd p r f file ∧ call.allowedBy r = true ∧ s.disk.Contains f bytes := by
  obtain ⟨s, before, step⟩ := run.last last
  obtain ⟨v, abstracts⟩ := reachable_onView ⟨_, before⟩
  obtain ⟨p, r, f, file, opened, allowed⟩ := step.opened abstracts through success
  obtain ⟨bytes, contains⟩ := opened.contains abstracts
  exact ⟨s, p, r, f, file, bytes, ⟨_, before⟩, step, opened, allowed, contains⟩

/-- A nonempty write that is not refused returns and overwrites the file from the position of
    the descriptor, or from the end of the file if the position lies beyond it.  A copy that
    left a block or the buffer would not return. -/
theorem write_overwrites (reachable : Reachable (Step junk) State.init s) (opened : Opened s fd p r f file)
    (allowed : r.canWrite = true) {old buf : List Byte} (contents : s.disk.Contains f old) (nonempty : buf ≠ [])
    (accepted : ∀ s', ¬ Step junk s (.ufsWrite fd buf, { ret := -1, bytes := [], errno := .noMem }) s') :
    0 ≤ r.offset ∧ ∃ s',
      Step junk s (.ufsWrite fd buf, { ret := buf.length, bytes := [], errno := s.ufsErrorCode }) s' ∧
      s'.disk.Contains f (old.take (min r.offset.toNat old.length) ++ buf ++
        old.drop (min r.offset.toNat old.length + buf.length)) ∧
      s'.table = { s.table with filedescs := s.table.filedescs.put p { r with offset := r.offset + buf.length } } ∧
      ∀ g ≠ f, ∀ bytes, s.disk.Contains g bytes → s'.disk.Contains g bytes := by
  obtain ⟨v, abstracts⟩ := reachable_onView reachable
  obtain ⟨found, nonneg, V, stored, -⟩ := abstracts.opened opened
  have packed := abstracts.2.disk.packed f V stored
  have same : V.bytes = old := (abstracts.contains stored).unique contents
  have fits : buf.length ≤ V.bytesLeft := by
    by_contra tooMuch
    have refused := View.write_refused junk found allowed opened.target stored (Nat.lt_of_not_le tooMuch)
    obtain ⟨s', step, -⟩ := abstracts.answers refused
    exact accepted s' step
  obtain ⟨V', written⟩ := write_total packed r.offset.toNat nonempty
  have answer := View.write_accepted junk found allowed opened.target stored fits written
  obtain ⟨s', step, abstracts'⟩ := abstracts.answers answer
  rw [← abstracts.1.errno] at step
  refine ⟨nonneg, s', step, ?_, abstracts.moved abstracts' opened rfl, fun g other bytes => ?_⟩
  · have there := abstracts'.contains (f := f) DiskView.setFile_stored
    rwa [FileView.write_bytes packed written, same] at there
  · exact abstracts.kept abstracts' (if_neg other)

-- The second descriptor has cut the file to one byte; the first one is still at position 3.
theorem write_overwrites_stale : ∃ s p r f file old, Reachable (Step Junk.zero) State.init s ∧
    Opened s 0 p r f file ∧ s.disk.Contains f old ∧ ∃ s' : State,
      s'.disk.Contains f (old.take (min r.offset.toNat old.length) ++ [9, 9] ++
        old.drop (min r.offset.toNat old.length + [9, 9].length)) := by
  obtain ⟨s', run⟩ := execute_answers Junk.zero
    (show (execute Junk.zero 9 [.ufsOpen [97] 1, .ufsWrite 0 [1, 2, 3], .ufsOpen [97] 0, .ufsResize 1 1,
      .ufsWrite 0 [9, 9]] State.init).map Prod.fst = some [⟨0, [], .noErr⟩, ⟨3, [], .noErr⟩, ⟨1, [], .noErr⟩,
        ⟨0, [], .noErr⟩, ⟨2, [], .noErr⟩] by decide +kernel)
  obtain ⟨s, p, r, f, file, old, reachable, step, opened, allowed, contents⟩ := run_opened run rfl rfl (by decide)
  have nonempty : ([9, 9] : List Byte) ≠ [] := by decide
  have accepted : ∀ s'', ¬ Step Junk.zero s (.ufsWrite 0 [9, 9], { ret := -1, bytes := [], errno := .noMem }) s'' := by
    intro s'' refused
    have same := (step.unique refused).1
    cases same
  obtain ⟨-, s'', -, contents', -⟩ := write_overwrites reachable opened allowed contents nonempty accepted
  exact ⟨s, p, r, f, file, old, reachable, opened, contents, s'', contents'⟩

/-- Reading changes nothing on the disk. -/
theorem readLoop_maintains (P : Disk → Prop) (vars : ReadVars) : (readLoop vars).Maintains P :=
  .loop (fun _ => .ite (.bind Lens.maintains_load fun _ => .ite .pure (.ite .pure
    (.bind Lens.maintains_load fun _ => .bind .require fun _ => .pure))) .pure) vars

theorem Step.read_disk {size : SizeT} {out : Out} (step : Step junk s (.ufsRead fd size, out) s') :
    s'.disk = s.disk := by
  have onTable : ∀ {α : Type} (q : Prog Table α), (Prog.zoom tablePart q).Maintains fun t => t.disk = s.disk :=
    fun q => .zoom (Q := fun _ => True) (fun _ _ _ _ _ => trivial) (fun _ _ => trivial) fun _ _ kept _ => kept
  have onDisk : ∀ {α : Type} {q : Prog Disk α}, q.Maintains (· = s.disk) →
      (Prog.zoom diskPart q).Maintains fun t => t.disk = s.disk :=
    fun inner => .zoom inner (fun _ kept => kept) fun _ _ _ kept => kept
  have failing : ∀ code, (do return (← fail code, []) : Prog State (Int × List Byte)).Maintains
      fun t => t.disk = s.disk :=
    fun code => .bind (.bind (.update fun _ kept => kept) fun _ => .pure) fun _ => .pure
  have reading : (Userfs.ufsRead fd size).Maintains fun t => t.disk = s.disk :=
    .bind (onTable _) fun _ => .ite (failing _)
      (.bind (onTable _) fun _ => .bind (onTable _) fun _ => .ite (failing _)
        (.bind (onDisk Lens.maintains_load) fun _ =>
         .bind (onDisk (readLoop_maintains _ _)) fun _ =>
         .bind (onTable _) fun _ => .pure))
  have run : ((Call.ufsRead fd size).run junk).Maintains fun t => t.disk = s.disk :=
    .bind reading fun _ => .bind .read fun _ => .pure
  exact run s out s' rfl step

/-- The body of the copy loop of `ufs_read`. -/
def readIteration (w : ReadVars) : Prog Disk (Flow ReadVars ReadVars) :=
  if w.fileBlock ≠ none ∧ w.size > 0 then readFromBlock w else pure (.done w)

theorem readLoop_eq : readLoop = Prog.loop readIteration := rfl

/-- The part of the block an iteration copies, if any, is inside the occupied prefix. -/
def CopiesOccupied (w : ReadVars) (d : Disk) : Prop :=
  ∀ q b, w.fileBlock = some q → d.blocks.cell q = some b →
    min w.offset blockSize ≠ blockSize →
    0 ≤ min (b.occupied - min w.offset blockSize) (toLongLong w.size) →
    0 ≤ min w.offset blockSize ∧
      min w.offset blockSize + min (b.occupied - min w.offset blockSize) (toLongLong w.size) ≤ b.occupied

theorem readIteration_offset {w : ReadVars} {d : Disk} :
    (readIteration w).Yields d fun flow _ => match flow with
      | .again w' => 0 ≤ w'.offset
      | .done _ => True := by
  simp only [readIteration, readFromBlock, yields_ite, yields_bind, Lens.yields_load, yields_pure,
    yields_require, implies_true, and_true]
  intro _ q _ b _
  constructor
  · intro skip
    omega
  · intro _
    exact ⟨trivial, fun _ m _ memory _ bytes _ => Int.le_refl 0⟩

theorem visits_copies {w w' : ReadVars} {d d' : Disk} (nonneg : 0 ≤ w.offset)
    (visits : Visits readIteration w d w' d') : CopiesOccupied w' d' := by
  have offset : 0 ≤ w'.offset := visits.invariant (fun w _ => 0 ≤ w.offset) nonneg
    fun w d w' d' _ step => readIteration_offset _ _ step
  intro q b _ _ _ _
  have := blockSize_eq
  omega

/-- Where the copy loop of `ufs_read` starts. -/
def readStart (r : Filedesc) (file : File) (size : Nat) : ReadVars :=
  { buf := [], bytesRead := 0, offset := r.offset, size := size, fileBlock := file.blockList }

/-- The answer to a read and the state behind it. -/
theorem Abstracts.reads (junk : Junk) (abstracts : Abstracts s v) (opened : Opened s fd p r f file)
    (allowed : r.canRead = true)
    {stored : List Byte} (contents : s.disk.Contains f stored) {size : SizeT}
    (small : size.val < 9223372036854775808) {n : Nat} (amount : n = min size.val (stored.length - r.offset.toNat)) :
    Step junk s
      (.ufsRead fd size, { ret := n, bytes := (stored.drop r.offset.toNat).take n, errno := s.ufsErrorCode })
      { s with table := { s.table with
          filedescs := s.table.filedescs.put p { r with offset := r.offset + n } } } := by
  obtain ⟨found, -, V, at_file, -⟩ := abstracts.opened opened
  have packed := abstracts.2.disk.packed f V at_file
  have same : V.bytes = stored := (abstracts.contains at_file).unique contents
  have answer := View.read_answered junk found allowed opened.target at_file size
  have bytes : V.read r.offset.toNat size = (stored.drop r.offset.toNat).take n := by
    rw [FileView.read_bytes packed, toLongLong_eq small, Int.toNat_natCast, same, amount, ← List.length_drop,
      ← List.take_eq_take_min]
  have length : (V.read r.offset.toNat size).length = n := by
    rw [bytes, List.length_take, List.length_drop]
    omega
  rw [length, bytes, ← abstracts.1.errno] at answer
  obtain ⟨s', step, abstracts'⟩ := abstracts.answers answer
  have disk := step.read_disk
  have table := abstracts.moved abstracts' opened rfl
  have errno : s'.ufsErrorCode = s.ufsErrorCode := abstracts'.1.errno
  obtain ⟨_, _, _⟩ := s'
  simp only at disk table errno
  subst disk table errno
  exact step

/-- A read of less than `2 ^ 63` bytes returns what the file stores behind the position of the
    descriptor, as much of it as was asked for, and only moves the position.  Every copy on
    the way takes a part of the occupied prefix of a block. -/
theorem read_copies (reachable : Reachable (Step junk) State.init s) (opened : Opened s fd p r f file)
    (allowed : r.canRead = true) {stored : List Byte} (contents : s.disk.Contains f stored) {size : SizeT}
    (small : size.val < 9223372036854775808) :
    0 ≤ r.offset ∧
    (∃ n : Nat, n = min size.val (stored.length - r.offset.toNat) ∧
      (n = 0 ↔ size.val = 0 ∨ stored.length ≤ r.offset.toNat) ∧
      Step junk s
        (.ufsRead fd size, { ret := n, bytes := (stored.drop r.offset.toNat).take n, errno := s.ufsErrorCode })
        { s with table := { s.table with
            filedescs := s.table.filedescs.put p { r with offset := r.offset + n } } }) ∧
    ∀ w d, Visits readIteration (readStart r file size) s.disk w d → CopiesOccupied w d := by
  obtain ⟨v, abstracts⟩ := reachable_onView reachable
  obtain ⟨-, nonneg, -⟩ := abstracts.opened opened
  refine ⟨nonneg, ⟨_, rfl, by omega, ?_⟩, fun w d visits => visits_copies nonneg visits⟩
  exact abstracts.reads junk opened allowed contents small rfl

-- Three bytes are asked for where one is left.
theorem read_copies_rest : ∃ s p r f file stored, Reachable (Step Junk.zero) State.init s ∧
    Opened s 1 p r f file ∧ s.disk.Contains f stored ∧
    ∃ (n : Nat) (s' : State), n = min 3 (stored.length - r.offset.toNat) ∧ Step Junk.zero s
      (.ufsRead 1 3, { ret := n, bytes := (stored.drop r.offset.toNat).take n, errno := s.ufsErrorCode }) s' := by
  obtain ⟨s', run⟩ := execute_answers Junk.zero
    (show (execute Junk.zero 9 [.ufsOpen [97] 1, .ufsWrite 0 [1, 2, 3], .ufsOpen [97] 0, .ufsRead 1 2,
      .ufsRead 1 3] State.init).map Prod.fst = some [⟨0, [], .noErr⟩, ⟨3, [], .noErr⟩, ⟨1, [], .noErr⟩,
        ⟨2, [1, 2], .noErr⟩, ⟨1, [3], .noErr⟩] by decide +kernel)
  obtain ⟨s, p, r, f, file, stored, reachable, -, opened, allowed, contents⟩ := run_opened run rfl rfl (by decide)
  have small : (3 : SizeT).val < 9223372036854775808 := by decide
  obtain ⟨-, ⟨n, result, -, answer⟩, -⟩ := read_copies reachable opened allowed contents small
  exact ⟨s, p, r, f, file, stored, reachable, opened, contents, n, _, result, answer⟩

end SysprogLabs.Userfs
