import SysprogLabs.Userfs.Shrinking

/-! # Positions beyond the end of a file

`ufs_resize` leaves the positions of the descriptors alone.  A position beyond the end of the
file reads nothing and writes at the end, just as the end itself would, and it stays beyond the
end or at it.  Only a write through another descriptor that makes the file longer can tell the
two apart: the end would read what was added, the stale position skips it.
-/

namespace SysprogLabs.Userfs

variable {junk : Junk} {s s' : State} {v w : View} {call : Call} {out : Out} {fd : Int} {p q f : Nat}
  {r : Filedesc} {file : File} {V : FileView} {position : Int}

/-! ## The state with another position -/

/-- The record `p` gets the position `offset`. -/
def Table.setOffset (t : Table) (p : Nat) (offset : Int) : Table :=
  match t.filedescs.cell p with
  | some r => { t with filedescs := t.filedescs.put p { r with offset } }
  | none => t

def State.setOffset (s : State) (p : Nat) (offset : Int) : State :=
  { s with table := s.table.setOffset p offset }

def View.setOffset (v : View) (p : Nat) (offset : Int) : View :=
  { v with table := v.table.setOffset p offset }

namespace Table

variable {t : Table}

theorem setOffset_eq (live : t.filedescs.cell p = some r) (offset : Int) :
    t.setOffset p offset = { t with filedescs := t.filedescs.put p { r with offset } } := by
  rw [setOffset, live]

theorem setOffset_live (live : t.filedescs.cell p = some r) (offset : Int) :
    (t.setOffset p offset).filedescs.cell p = some { r with offset } := by
  simp [setOffset_eq live, live]

/-- Setting a position back. -/
theorem setOffset_back (live : t.filedescs.cell p = some r) (offset : Int) :
    (t.setOffset p offset).setOffset p r.offset = t := by
  rw [setOffset_eq (setOffset_live live offset), setOffset_eq live]
  simp [Store.put_self live]

theorem lookup_setOffset_here (live : t.filedescs.cell p = some r)
    (found : t.lookup fd = some (some (p, r))) (offset : Int) :
    (t.setOffset p offset).lookup fd = some (some (p, { r with offset })) := by
  obtain ⟨nonneg, at_fd, -⟩ := lookup_some found
  have slots : (t.setOffset p offset).slots = t.slots := by rw [setOffset_eq live]; rfl
  rw [lookup, if_neg (by omega), slots, at_fd]
  simp [setOffset_live live]

theorem lookup_setOffset_other (live : t.filedescs.cell p = some r) {entry : Option (Nat × Filedesc)}
    (found : t.lookup fd = some entry) (other : ∀ r', entry ≠ some (p, r')) (offset : Int) :
    (t.setOffset p offset).lookup fd = some entry := by
  have slots : (t.setOffset p offset).slots = t.slots := by rw [setOffset_eq live]; rfl
  rw [← found, lookup, lookup, slots]
  rw [lookup] at found
  split
  · rfl
  next nonneg =>
    rw [if_neg nonneg] at found
    split
    next q at_fd =>
      simp only [at_fd] at found
      obtain ⟨r', live', same⟩ := Option.map_eq_some_iff.mp found
      have ne : q ≠ p := by
        intro here
        subst here
        exact other r' same.symm
      simp [setOffset_eq live, ne]
    · rfl

theorem setOffset_advance (live : t.filedescs.cell p = some r) (offset n : Int) :
    (t.setOffset p offset).advance p n = (t.advance p n).setOffset p (offset + n) := by
  have moved : (t.advance p n).filedescs.cell p = some { r with offset := r.offset + n } := by
    simp [advance_facts live, live]
  rw [advance_facts (setOffset_live live offset), setOffset_eq moved, setOffset_eq live, advance_facts live]
  simp

theorem setOffset_advance_other (live : t.filedescs.cell p = some r) {r' : Filedesc}
    (live' : t.filedescs.cell q = some r') (other : q ≠ p) (offset n : Int) :
    (t.setOffset p offset).advance q n = (t.advance q n).setOffset p offset := by
  have at_q : (t.setOffset p offset).filedescs.cell q = some r' := by
    simp [setOffset_eq live, other, live']
  have at_p : (t.advance q n).filedescs.cell p = some r := by
    simp [advance_facts live', other.symm, live]
  rw [advance_facts at_q, setOffset_eq at_p, setOffset_eq live, advance_facts live']
  simp [Store.put_comm other]

end Table

theorem Abstracts.setOffset (abstracts : Abstracts s v) (live : v.table.filedescs.cell p = some r)
    (nonneg : 0 ≤ position) : Abstracts (s.setOffset p position) (v.setOffset p position) := by
  obtain ⟨⟨disk, table, errno⟩, inv⟩ := abstracts
  refine ⟨⟨disk, by rw [State.setOffset, View.setOffset, table], errno⟩, inv.disk, ?_⟩
  rw [View.setOffset, Table.setOffset_eq live]
  refine ⟨inv.table.array, fun q r' at_q => ?_⟩
  simp only [Store.put_cell] at at_q
  split at at_q
  · next here =>
    rw [here, live] at at_q
    cases at_q
    obtain ⟨f, file, occupied, -⟩ := inv.table.record p r live
    exact ⟨f, file, occupied, nonneg⟩
  · exact inv.table.record q r' at_q

/-! ## Two positions that no call can tell apart -/

/-- `ufs_write` or `ufs_read`. -/
def Call.Transfers : Call → Prop
  | .ufsWrite _ _ | .ufsRead _ _ => True
  | _ => False

/-- The call is a write through another record than `p`, and it makes the file `f` longer. -/
def View.Lengthens (v : View) (p f : Nat) (call : Call) : Prop :=
  ∃ fd buf q r V, call = .ufsWrite fd buf ∧ v.table.lookup fd = some (some (q, r)) ∧ q ≠ p ∧ r.canWrite = true ∧
    r.file = some f ∧ v.disk.file f = some V ∧ buf.length ≤ V.bytesLeft ∧
    V.bytes.length < min r.offset.toNat V.bytes.length + buf.length

/-- The record `p` is opened on `f`, and its position is `position`, or both are at the end of
    the file or beyond it. -/
structure View.Alike (v : View) (p f : Nat) (r : Filedesc) (V : FileView) (position : Int) : Prop where
  live : v.table.filedescs.cell p = some r
  target : r.file = some f
  stored : v.disk.file f = some V
  apart : r.offset = position ∨ (V.bytes.length : Int) ≤ r.offset ∧ (V.bytes.length : Int) ≤ position

theorem FileView.write_behind {V : FileView} {offset : Nat} (packed : Packed blockSize V.blocks)
    (behind : V.bytes.length ≤ offset) (buf : List Byte) : V.write offset buf = V.write V.bytes.length buf := by
  rw [bytes] at behind ⊢
  rw [write, write, writeBlocks_behind packed behind]

theorem FileView.read_behind {V : FileView} {offset : Nat} (packed : Packed blockSize V.blocks)
    (behind : V.bytes.length ≤ offset) (size : Nat) : V.read offset size = [] := by
  rw [read_bytes packed, List.drop_eq_nil_of_le behind, List.take_nil]

namespace View.Alike

theorem write (alike : v.Alike p f r V position) (packed : Packed blockSize V.blocks) (buf : List Byte) :
    V.write position.toNat buf = V.write r.offset.toNat buf := by
  obtain same | ⟨behind, behind'⟩ := alike.apart
  · rw [same]
  · have first := FileView.write_behind packed (show V.bytes.length ≤ position.toNat by omega) buf
    have second := FileView.write_behind packed (show V.bytes.length ≤ r.offset.toNat by omega) buf
    rw [first, second]

theorem read (alike : v.Alike p f r V position) (packed : Packed blockSize V.blocks) (size : Nat) :
    V.read position.toNat size = V.read r.offset.toNat size := by
  obtain same | ⟨behind, behind'⟩ := alike.apart
  · rw [same]
  · rw [FileView.read_behind packed (by omega), FileView.read_behind packed (by omega)]

theorem found_here {r' : Filedesc} (alike : v.Alike p f r V position) (found : v.table.lookup fd = some (some (p, r'))) :
    r' = r ∧ (v.table.setOffset p position).lookup fd = some (some (p, { r with offset := position })) := by
  obtain ⟨-, -, live⟩ := Table.lookup_some found
  rw [alike.live] at live
  cases live
  exact ⟨rfl, Table.lookup_setOffset_here alike.live found _⟩

theorem found_other {r' : Filedesc} (alike : v.Alike p f r V position) (other : q ≠ p)
    (found : v.table.lookup fd = some (some (q, r'))) :
    (v.table.setOffset p position).lookup fd = some (some (q, r')) := by
  refine Table.lookup_setOffset_other alike.live found (fun _ same => ?_) _
  simp only [Option.some.injEq, Prod.mk.injEq] at same
  exact other same.1

/-- A call that fails fails with the other position as well. -/
theorem refused (alike : v.Alike p f r V position) (transfers : call.Transfers) {code : ErrorCode}
    (why : Refused v call code) : Refused (v.setOffset p position) call code := by
  cases why with
  | openMissing | deleteMissing | resizeTooMuch => cases transfers
  | notOpen through closed => exact .notOpen through (Table.lookup_setOffset_other alike.live closed nofun _)
  | @forbidden _ _ q _ through found off =>
    by_cases here : q = p
    · subst here
      obtain ⟨rfl, found'⟩ := alike.found_here found
      cases call with
      | ufsWrite | ufsRead => exact .forbidden through found' off
      | _ => cases transfers
    · exact .forbidden through (alike.found_other here found) off
  | @writeTooMuch _ _ q _ _ _ found allowed file stored tooMuch =>
    by_cases here : q = p
    · subst here
      obtain ⟨rfl, found'⟩ := alike.found_here found
      exact .writeTooMuch found' allowed file stored tooMuch
    · exact .writeTooMuch (alike.found_other here found) allowed file stored tooMuch

/-- Nothing but the record `p` and the file `f` matters. -/
theorem stays (alike : v.Alike p f r V position) (live : w.table.filedescs.cell p = some r) {W : FileView}
    (stored : w.disk.file f = some W)
    (apart : r.offset = position ∨ (W.bytes.length : Int) ≤ r.offset ∧ (W.bytes.length : Int) ≤ position) :
    w.Alike p f { r with offset := r.offset + (0 : Nat) } W (position + (0 : Nat)) := by
  simp only [Int.natCast_zero, Int.add_zero]
  exact ⟨live, alike.target, stored, apart⟩

/-- No call that leaves the end of the file where it is, or goes through `p` itself, can tell the
    two positions apart, and it moves both by the same distance. -/
theorem step (alike : v.Alike p f r V position) (inv : v.Inv) (transfers : call.Transfers)
    (still : r.offset ≠ position → ¬ v.Lengthens p f call) (effect : Effect junk v call out w) :
    ∃ (n : Nat) (V' : FileView),
      Effect junk (v.setOffset p position) call out (w.setOffset p (position + n)) ∧
      w.Alike p f { r with offset := r.offset + n } V' (position + n) := by
  have packed := inv.disk.packed f V alike.stored
  cases effect with
  | opened | created | closed | deleted | resized => cases transfers
  | @refused _ code why =>
    refine ⟨0, V, ?_, alike.stays (w := { v with ufsErrorCode := code }) alike.live alike.stored alike.apart⟩
    rw [Int.natCast_zero, Int.add_zero]
    exact .refused (alike.refused transfers why)
  | @wrote _ buf q g r' W W' found allowed file stored fits written =>
    obtain ⟨-, -, live'⟩ := Table.lookup_some found
    by_cases here : q = p
    · subst here
      obtain ⟨rfl, found'⟩ := alike.found_here found
      have same_file := file.symm.trans alike.target
      cases same_file
      have same_view := stored.symm.trans alike.stored
      cases same_view
      rw [← alike.write packed] at written
      have length := FileView.write_length packed written
      have moved : (v.table.advance q buf.length).filedescs.cell q = some { r' with offset := r'.offset + buf.length } := by
        simp [Table.advance_facts live', live']
      refine ⟨buf.length, W', ?_, moved, alike.target, DiskView.setFile_stored, ?_⟩
      · have effect : Effect junk (v.setOffset q position) _ _ _ := .wrote found' allowed file stored fits written
        have tables := Table.setOffset_advance live' position buf.length
        simp only [View.setOffset] at effect ⊢
        rw [← tables]
        exact effect
      · have apart := alike.apart
        show r'.offset + _ = position + _ ∨ _ ≤ r'.offset + _ ∧ _ ≤ position + _
        omega
    · have kept : (v.table.advance q buf.length).filedescs.cell p = some r := by
        simp [Table.advance_facts live', Ne.symm here, alike.live]
      have effect : Effect junk (v.setOffset p position) (.ufsWrite _ buf)
          { ret := buf.length, bytes := [], errno := v.ufsErrorCode }
          { v with disk := v.disk.setFile g W', table := (v.table.setOffset p position).advance q buf.length } :=
        .wrote (alike.found_other here found) allowed file stored fits written
      rw [Table.setOffset_advance_other alike.live live' here] at effect
      have unmoved : position + (0 : Nat) = position := Int.add_zero _
      by_cases other : f = g
      · subst other
        have same_view := stored.symm.trans alike.stored
        cases same_view
        refine ⟨0, W', unmoved.symm ▸ effect, alike.stays kept DiskView.setFile_stored ?_⟩
        -- The write is inside the file, unless both positions are the same.
        by_cases same : r.offset = position
        · exact .inl same
        · have inside : ¬ V.bytes.length < min r'.offset.toNat V.bytes.length + buf.length := fun longer =>
            still same ⟨_, buf, q, r', V, rfl, found, here, allowed, file, stored, fits, longer⟩
          have length := FileView.write_length packed written
          have apart := alike.apart
          omega
      · refine ⟨0, V, unmoved.symm ▸ effect, alike.stays kept ?_ alike.apart⟩
        rw [DiskView.setFile_file, if_neg other]
        exact alike.stored
  | @read _ size q g r' W bytes found allowed file stored result =>
    obtain ⟨-, -, live'⟩ := Table.lookup_some found
    by_cases here : q = p
    · subst here
      obtain ⟨rfl, found'⟩ := alike.found_here found
      have same_file := file.symm.trans alike.target
      cases same_file
      have same_view := stored.symm.trans alike.stored
      cases same_view
      rw [← alike.read packed] at result
      have moved : (v.table.advance q bytes.length).filedescs.cell q =
          some { r' with offset := r'.offset + bytes.length } := by
        simp [Table.advance_facts live', live']
      refine ⟨bytes.length, V, ?_, moved, alike.target, alike.stored, ?_⟩
      · have effect : Effect junk (v.setOffset q position) _ _ _ := .read found' allowed file stored result
        have tables := Table.setOffset_advance live' position bytes.length
        simp only [View.setOffset] at effect ⊢
        rw [← tables]
        exact effect
      · have apart := alike.apart
        show r'.offset + _ = position + _ ∨ _ ≤ r'.offset + _ ∧ _ ≤ position + _
        omega
    · have kept : (v.table.advance q bytes.length).filedescs.cell p = some r := by
        simp [Table.advance_facts live', Ne.symm here, alike.live]
      have effect : Effect junk (v.setOffset p position) (.ufsRead _ size)
          { ret := bytes.length, bytes, errno := v.ufsErrorCode }
          { v with table := (v.table.setOffset p position).advance q bytes.length } :=
        .read (alike.found_other here found) allowed file stored result
      rw [Table.setOffset_advance_other alike.live live' here] at effect
      have unmoved : position + (0 : Nat) = position := Int.add_zero _
      exact ⟨0, V, unmoved.symm ▸ effect, alike.stays kept alike.stored alike.apart⟩

/-- The roles of the two positions can be exchanged. -/
theorem swap (alike : v.Alike p f r V position) :
    (v.setOffset p position).Alike p f { r with offset := position } V r.offset ∧
      (v.setOffset p position).setOffset p r.offset = v := by
  refine ⟨⟨Table.setOffset_live alike.live position, alike.target, alike.stored, ?_⟩, ?_⟩
  · have apart := alike.apart
    show position = r.offset ∨ _ ≤ position ∧ _ ≤ r.offset
    omega
  · simp only [View.setOffset, Table.setOffset_back alike.live]

/-- The position of `p` does not matter to the writes through other records. -/
theorem lengthens (alike : v.Alike p f r V position) (lengthens : (v.setOffset p position).Lengthens p f call) :
    v.Lengthens p f call := by
  obtain ⟨fd, buf, q, r', W, same, found, other, rest⟩ := lengthens
  obtain ⟨swapped, back⟩ := alike.swap
  have found' : ((v.setOffset p position).setOffset p r.offset).table.lookup fd = _ := swapped.found_other other found
  rw [back] at found'
  exact ⟨fd, buf, q, r', W, same, found', other, rest⟩

end View.Alike

/-! ## On the heap -/

/-- The call is a write through another record than `p`, and it makes the file `f` longer. -/
def Lengthens (s : State) (p f : Nat) (call : Call) : Prop :=
  ∃ fd buf q r file bytes, call = .ufsWrite fd buf ∧ Opened s fd q r f file ∧ q ≠ p ∧ r.canWrite = true ∧
    buf.length ≤ file.bytesLeft ∧ s.disk.Contains f bytes ∧
    bytes.length < min r.offset.toNat bytes.length + buf.length

/-- The position of the record `p` lies beyond the end of the file `f`. -/
def Beyond (s : State) (p f : Nat) : Prop :=
  ∃ r bytes, s.table.filedescs.cell p = some r ∧ s.disk.Contains f bytes ∧ (bytes.length : Int) < r.offset

/-- A read or a write; while the position of `p` lies beyond the end of `f`, no write through
    another descriptor makes the file longer. -/
def SteadyStep (junk : Junk) (p f : Nat) (s : State) (event : Call × Out) (s' : State) : Prop :=
  Step junk s event s' ∧ event.1.Transfers ∧ ¬ (Beyond s p f ∧ Lengthens s p f event.1)

theorem View.Lengthens.onHeap (abstracts : Abstracts s v) (lengthens : v.Lengthens p f call) :
    Userfs.Lengthens s p f call := by
  obtain ⟨fd, buf, q, r, V, same, found, other, allowed, target, stored, fits, longer⟩ := lengthens
  obtain ⟨file, -, live, left, -⟩ := abstracts.file stored
  exact ⟨fd, buf, q, r, file, V.bytes, same, ⟨by rw [abstracts.1.table]; exact found, target, live⟩, other, allowed,
    left ▸ fits, abstracts.contains stored, longer⟩

/-- The second state is the first one with another position of `p`, which no call can tell apart
    from the position it has there. -/
structure Shadows (s s' : State) (v : View) (p f : Nat) (r : Filedesc) (V : FileView) (position : Int) : Prop where
  left : Abstracts s v
  right : Abstracts s' (v.setOffset p position)
  alike : v.Alike p f r V position
  below : position ≤ r.offset

namespace Shadows

variable {event : Call × Out} {events : List (Call × Out)} {s₁ : State}

theorem still (shadows : Shadows s s' v p f r V position) (steady : ¬ (Beyond s p f ∧ Lengthens s p f call)) :
    r.offset ≠ position → ¬ v.Lengthens p f call := by
  intro differ lengthens
  have apart := shadows.alike.apart
  have below := shadows.below
  have live := shadows.alike.live
  rw [← shadows.left.1.table] at live
  exact steady ⟨⟨r, V.bytes, live, shadows.left.contains shadows.alike.stored, by omega⟩,
    lengthens.onHeap shadows.left⟩

theorem step (shadows : Shadows s s' v p f r V position) (step : SteadyStep junk p f s event s₁) :
    ∃ s₁' v₁ r₁ V₁ position₁, Step junk s' event s₁' ∧ Shadows s₁ s₁' v₁ p f r₁ V₁ position₁ := by
  obtain ⟨step, transfers, steady⟩ := step
  obtain ⟨call, out⟩ := event
  obtain ⟨w, stepped, left₁⟩ := step.onView shadows.left
  obtain ⟨n, W, effect, alike₁⟩ :=
    shadows.alike.step shadows.left.2 transfers (shadows.still steady) (View.step_effect stepped)
  have stepped' : View.Step junk (v.setOffset p position) (call, out) (w.setOffset p (position + n)) := effect.stepped
  obtain ⟨s₁', step', right₁⟩ := stepped'.onHeap shadows.right
  exact ⟨s₁', w, _, W, _, step', left₁, right₁, alike₁, Int.add_le_add_right shadows.below _⟩

theorem run (shadows : Shadows s s' v p f r V position) (run : Run (SteadyStep junk p f) s events s₁) :
    ∃ s₁' v₁ r₁ V₁ position₁, Run (Step junk) s' events s₁' ∧ Shadows s₁ s₁' v₁ p f r₁ V₁ position₁ := by
  induction run generalizing s' v r V position with
  | nil => exact ⟨s', v, r, V, position, .nil _, shadows⟩
  | cons first _ ih =>
    obtain ⟨_, _, _, _, _, first', shadows₁⟩ := shadows.step first
    obtain ⟨s₂', v₂, r₂, V₂, position₂, later, shadows₂⟩ := ih shadows₁
    exact ⟨s₂', v₂, r₂, V₂, position₂, .cons first' later, shadows₂⟩

/-- The next call has the same answer in both states, if it has one in either. -/
theorem answers (shadows : Shadows s s' v p f r V position) (transfers : call.Transfers)
    (steady : ¬ (Beyond s p f ∧ Lengthens s p f call)) (out : Out) :
    (∃ s₁, Step junk s (call, out) s₁) ↔ ∃ s₁', Step junk s' (call, out) s₁' := by
  constructor
  · rintro ⟨s₁, step⟩
    obtain ⟨s₁', _, _, _, _, step', -⟩ := shadows.step ⟨step, transfers, steady⟩
    exact ⟨s₁', step'⟩
  · rintro ⟨s₁', step'⟩
    obtain ⟨w', stepped', -⟩ := step'.onView shadows.right
    obtain ⟨swapped, back⟩ := shadows.alike.swap
    have still : position ≠ r.offset → ¬ (v.setOffset p position).Lengthens p f call := fun differ lengthens =>
      shadows.still steady differ.symm (shadows.alike.lengthens lengthens)
    obtain ⟨n, -, effect, -⟩ := swapped.step shadows.right.2 transfers still (View.step_effect stepped')
    rw [back] at effect
    obtain ⟨s₁, step, -⟩ := shadows.left.answers effect.stepped
    exact ⟨s₁, step⟩

end Shadows

/-! ## After a shrink -/

/-- What a shrink does to the views. -/
theorem Abstracts.shrunk (abstracts : Abstracts s v) {r' : Filedesc} {file' : File} (through : Opened s fd q r' f file')
    (allowed : r'.canWrite = true) (stored : v.disk.file f = some V) {newSize : SizeT}
    (less : newSize.val < V.bytes.length) (shrunk : Step junk s (.ufsResize fd newSize, out) s') :
    ∃ V', Abstracts s' { v with disk := v.disk.setFile f V' } ∧ V'.bytes.length = newSize := by
  obtain ⟨w, stepped, abstracts'⟩ := shrunk.onView abstracts
  have packed := abstracts.2.disk.packed f V stored
  have quota := abstracts.2.disk.quota f V stored
  obtain ⟨found, -⟩ := abstracts.opened through
  cases View.step_effect stepped with
  | refused why =>
    cases why with
    | notOpen through' closed =>
      cases through'
      rw [found] at closed
      cases closed
    | forbidden through' found' off =>
      cases through'
      rw [found] at found'
      cases found'
      rw [show Call.allowedBy (.ufsResize fd newSize) r' = r'.canWrite from rfl, allowed] at off
      cases off
    | resizeTooMuch _ _ tooMuch =>
      have tooMuch : maxFileSize < newSize.val := tooMuch
      omega
  | resized found' _ target stored' _ resized =>
    rw [found] at found'
    cases found'
    have same_file := target.symm.trans through.target
    cases same_file
    have same_view := stored'.symm.trans stored
    cases same_view
    refine ⟨_, abstracts', ?_⟩
    rw [FileView.resize_bytes packed resized, List.length_take]
    omega

/-- Behind a shrink each descriptor whose position was beyond the new size answers all reads and
    writes as if its position were the new size, as long as no write through another descriptor
    makes the file longer while the position lies beyond its end. -/
theorem continues_from_end {events : List (Call × Out)} {s₁ s₂ : State} {fd' : Int} {r' : Filedesc} {file' : File}
    (reachable : Reachable (Step junk) State.init s) (opened : Opened s fd p r f file)
    (through : Opened s fd' q r' f file') (allowed : r'.canWrite = true) {old : List Byte}
    (contents : s.disk.Contains f old) {newSize : SizeT} (less : newSize.val < old.length)
    (behind : (newSize.val : Int) < r.offset) (shrunk : Step junk s (.ufsResize fd' newSize, out) s₁)
    (run : Run (SteadyStep junk p f) s₁ events s₂) :
    ∃ s₂', Run (Step junk) (s₁.setOffset p newSize.val) events s₂' ∧
      (∃ v position, Abstracts s₂ v ∧ Abstracts s₂' (v.setOffset p position)) ∧
      ∀ call out, call.Transfers → ¬ (Beyond s₂ p f ∧ Lengthens s₂ p f call) →
        ((∃ s₃, Step junk s₂ (call, out) s₃) ↔ ∃ s₃', Step junk s₂' (call, out) s₃') := by
  obtain ⟨v, abstracts⟩ := reachable_onView reachable
  obtain ⟨found, -, V, stored, -⟩ := abstracts.opened opened
  obtain ⟨-, -, live⟩ := Table.lookup_some found
  have same : V.bytes = old := (abstracts.contains stored).unique contents
  subst same
  obtain ⟨V', abstracts', length⟩ := abstracts.shrunk through allowed stored less shrunk
  have nonneg : (0 : Int) ≤ newSize.val := Int.natCast_nonneg _
  have shadows : Shadows s₁ (s₁.setOffset p newSize.val) { v with disk := v.disk.setFile f V' } p f r V' newSize.val :=
    ⟨abstracts', abstracts'.setOffset live nonneg, ⟨live, opened.target, DiskView.setFile_stored, by omega⟩,
      Int.le_of_lt behind⟩
  obtain ⟨s₂', w, _, _, position, run', shadows'⟩ := shadows.run run
  exact ⟨s₂', run', ⟨w, position, shadows'.left, shadows'.right⟩,
    fun call out transfers steady => shadows'.answers transfers steady out⟩

/-- The first descriptor is at position 6 when the second one cuts the file to two bytes. -/
theorem continues_from_end_read : ∃ (s₁ s₂' : State) (p : Nat),
    Run (Step Junk.zero) (s₁.setOffset p 2) [(.ufsRead 0 4, ⟨0, [], .noErr⟩)] s₂' := by
  obtain ⟨_, s, run, ends⟩ := execute_ends Junk.zero 9
    [.ufsOpen [97] 1, .ufsOpen [97] 1, .ufsWrite 0 [1, 2, 3, 4, 5, 6]] State.init
    (fun _ s => (s.descriptor 0).any (fun found => found.2.2.1 == 0 && found.2.2.2.blockList == some 0 &&
        found.2.1.offset == 6) &&
      (s.descriptor 1).any (fun found => found.2.2.1 == 0 && found.2.1.canWrite) &&
      s.disk.nextBlock 0 == none && s.disk.bytesOf [0] == [1, 2, 3, 4, 5, 6] &&
      (execute Junk.zero 9 [.ufsResize 1 2] s).any fun result => result.1 == [⟨0, [], .noErr⟩] &&
        (execute Junk.zero 9 [.ufsRead 0 4] result.2).map Prod.fst == some [⟨0, [], .noErr⟩]) (by decide +kernel)
  simp only [Bool.and_eq_true, beq_iff_eq] at ends
  obtain ⟨⟨⟨⟨first, second⟩, last⟩, bytes⟩, shrinks⟩ := ends
  obtain ⟨⟨p, r, f, file⟩, follows, known⟩ := (Option.any_eq_true _ _).mp first
  obtain ⟨⟨q, r', f', file'⟩, follows', known'⟩ := (Option.any_eq_true _ _).mp second
  simp only [Bool.and_eq_true, beq_iff_eq] at known known'
  obtain ⟨⟨rfl, blocks⟩, position⟩ := known
  obtain ⟨rfl, allowed⟩ := known'
  have opened := State.descriptor_opened follows
  have path : Chain s.disk.nextBlock file.blockList [0] := by
    rw [blocks]
    exact ⟨rfl, last⟩
  obtain ⟨outs, s₁, shrunk, ends⟩ := execute_ends Junk.zero 9 [.ufsResize 1 2] s
    (fun outs s₁ => outs == [⟨0, [], .noErr⟩] &&
      (execute Junk.zero 9 [.ufsRead 0 4] s₁).map Prod.fst == some [⟨0, [], .noErr⟩]) shrinks
  rw [Bool.and_eq_true, beq_iff_eq, beq_iff_eq] at ends
  obtain ⟨rfl, reads⟩ := ends
  obtain ⟨s₂, read⟩ := execute_answers Junk.zero reads
  cases shrunk with
  | cons shrink nil =>
    cases nil
    have steady : Run (SteadyStep Junk.zero p 0) s₁ [(.ufsRead 0 4, ⟨0, [], .noErr⟩)] s₂ := by
      cases read with
      | cons step nil =>
        cases nil
        exact .cons ⟨step, trivial, fun both => by obtain ⟨-, _, _, _, _, _, _, write, -⟩ := both; cases write⟩ (.nil _)
    have less : (2 : SizeT).val < ([1, 2, 3, 4, 5, 6] : List Byte).length := by decide
    have behind : ((2 : SizeT).val : Int) < r.offset := by rw [position]; decide
    obtain ⟨s₂', run', -⟩ := continues_from_end ⟨_, run⟩ opened (State.descriptor_opened follows') allowed
      ⟨file, [0], opened.live, path, bytes⟩ less behind shrink steady
    exact ⟨s₁, s₂', p, run'⟩

/-- The second descriptor writes eight bytes over the two that the shrink has left: the first one
    goes on behind the six it had written before, and not behind these two. -/
theorem skips_what_was_added : ∃ s₁ : State,
    Run (Step Junk.zero) State.init [(.ufsOpen [97] 1, ⟨0, [], .noErr⟩), (.ufsOpen [97] 1, ⟨1, [], .noErr⟩),
      (.ufsWrite 0 [1, 2, 3, 4, 5, 6], ⟨6, [], .noErr⟩), (.ufsResize 1 2, ⟨0, [], .noErr⟩)] s₁ ∧
    (s₁.table.lookup 0).map (Option.map fun (p, r) => (p, r.offset)) = some (some (0, 6)) ∧
    (∃ s₂, Run (Step Junk.zero) s₁ [(.ufsWrite 1 [1, 2, 3, 4, 5, 6, 7, 8], ⟨8, [], .noErr⟩),
      (.ufsRead 0 10, ⟨2, [7, 8], .noErr⟩)] s₂) ∧
    ∃ s₂, Run (Step Junk.zero) (s₁.setOffset 0 2) [(.ufsWrite 1 [1, 2, 3, 4, 5, 6, 7, 8], ⟨8, [], .noErr⟩),
      (.ufsRead 0 10, ⟨6, [3, 4, 5, 6, 7, 8], .noErr⟩)] s₂ := by
  obtain ⟨outs, s₁, run, ends⟩ := execute_ends Junk.zero 9
    [.ufsOpen [97] 1, .ufsOpen [97] 1, .ufsWrite 0 [1, 2, 3, 4, 5, 6], .ufsResize 1 2] State.init
    (fun outs s => decide (outs = [⟨0, [], .noErr⟩, ⟨1, [], .noErr⟩, ⟨6, [], .noErr⟩, ⟨0, [], .noErr⟩] ∧
      (s.table.lookup 0).map (Option.map fun (p, r) => (p, r.offset)) = some (some (0, 6)) ∧
      (execute Junk.zero 9 [.ufsWrite 1 [1, 2, 3, 4, 5, 6, 7, 8], .ufsRead 0 10] s).map Prod.fst =
        some [⟨8, [], .noErr⟩, ⟨2, [7, 8], .noErr⟩] ∧
      (execute Junk.zero 9 [.ufsWrite 1 [1, 2, 3, 4, 5, 6, 7, 8], .ufsRead 0 10] (s.setOffset 0 2)).map Prod.fst =
        some [⟨8, [], .noErr⟩, ⟨6, [3, 4, 5, 6, 7, 8], .noErr⟩])) (by decide +kernel)
  obtain ⟨rfl, position, stale, clamped⟩ := of_decide_eq_true ends
  exact ⟨s₁, run, position, execute_answers Junk.zero stale, execute_answers Junk.zero clamped⟩

end SysprogLabs.Userfs
