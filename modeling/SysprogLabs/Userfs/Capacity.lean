import SysprogLabs.Userfs.Transfers

/-! # What a write may add

`bytes_left` is what `ufs_write` admits.  The code takes the whole length of a write off
it, also where the write replaces bytes the file already stores, so it is the room left in
the file exactly as long as no write overwrites anything.
-/

namespace SysprogLabs.Userfs

open Prog

variable {junk : Junk} {s s' : State} {v v' : View} {call : Call} {out : Out}

/-- In each file `bytes_left` is what is missing to `MAX_FILE_SIZE`. -/
def State.CountsRoom (s : State) : Prop :=
  ∀ f file bytes, s.disk.files.cell f = some file → s.disk.Contains f bytes →
    file.bytesLeft + bytes.length = maxFileSize

/-- A write is refused for lack of room exactly when the file would grow beyond the limit. -/
def AdmitsByRoom (s : State) (event : Call × Out) : Prop :=
  ∀ fd buf p r f file bytes, event.1 = .ufsWrite fd buf → Opened s fd p r f file → r.canWrite = true →
    s.disk.Contains f bytes →
    (event.2.ret = -1 ∧ event.2.errno = .noMem ↔ maxFileSize < min r.offset.toNat bytes.length + buf.length)

/-- The call is no write of some bytes over stored ones that would stay within the limit. -/
def NoOverwrite (s : State) (event : Call × Out) : Prop :=
  ∀ fd buf p r f file bytes, event.1 = .ufsWrite fd buf → Opened s fd p r f file → r.canWrite = true →
    s.disk.Contains f bytes →
    buf = [] ∨ bytes.length ≤ r.offset.toNat ∨ maxFileSize < r.offset.toNat + buf.length

/-! ## One step on views -/

/-- `bytes_left` and the contents of each file of the view add up to the limit. -/
def DiskView.CountsRoom (w : DiskView) : Prop :=
  ∀ f V, w.file f = some V → V.bytesLeft + V.bytes.length = maxFileSize

namespace DiskView.CountsRoom

variable {w : DiskView} {f : Nat} {V : FileView}

theorem setFile (counts : w.CountsRoom) (room : V.bytesLeft + V.bytes.length = maxFileSize) :
    (w.setFile f V).CountsRoom := by
  intro g W at_g
  rw [setFile_file] at at_g
  split at at_g
  · cases at_g
    exact room
  · exact counts g W at_g

theorem collect (counts : (w.setFile f V).CountsRoom) : ((w.setFile f V).collect f).CountsRoom := by
  intro g W at_g
  rw [collect_file setFile_stored] at at_g
  split at at_g
  · cases at_g
  · exact counts g W at_g

theorem create (counts : w.CountsRoom) (filename : Name) : (w.create filename).CountsRoom := by
  intro g W at_g
  simp only [DiskView.create, DiskView.alloc] at at_g
  split at at_g
  · cases at_g
    simp [FileView.new, FileView.bytes]
  · exact counts g W at_g

end DiskView.CountsRoom

theorem Abstracts.countsRoom (abstracts : Abstracts s v) : s.CountsRoom ↔ v.disk.CountsRoom := by
  constructor
  · intro counts f V stored
    obtain ⟨file, -, live, left, -⟩ := abstracts.file stored
    rw [← left]
    exact counts f file V.bytes live (abstracts.contains stored)
  · intro counts f file bytes live contains
    obtain ⟨chain, rep⟩ := abstracts.1.disk
    obtain ⟨V, stored, fileRep⟩ := rep.file_stored live
    rw [← (abstracts.contains stored).unique contains, fileRep.bytesLeft]
    exact counts f V stored

/-- A write adds to the file what it stores behind the end. -/
theorem FileView.write_grows {V V' : FileView} {offset : Nat} {buf : List Byte}
    (packed : Packed blockSize V.blocks) (written : V.write offset buf = some V') :
    V'.bytes.length = max V.bytes.length (min offset V.bytes.length + buf.length) := by
  rw [FileView.write_bytes packed written, length_overwrite (Nat.min_le_right _ _)]

/-- Every call but an overwriting write keeps the count right. -/
theorem Effect.countsRoom (effect : Effect junk v call out v') (inv : v.Inv) (counts : v.disk.CountsRoom)
    (append : ∀ fd buf p r f V, call = .ufsWrite fd buf → v.table.lookup fd = some (some (p, r)) →
      v.disk.file f = some V → r.file = some f → r.canWrite = true → buf.length ≤ V.bytesLeft →
      buf = [] ∨ V.bytes.length ≤ r.offset.toNat) : v'.disk.CountsRoom := by
  cases effect with
  | refused why => exact counts
  | read found allowed file stored result => exact counts
  | @opened _ _ f _ V _ found stored installed => exact counts.setFile (counts f V stored)
  | @created filename _ _ _ missing create installed =>
    have created := counts.create filename
    have room := created v.disk.next (.new filename) (if_pos rfl)
    exact created.setFile room
  | @wrote fd buf p f r V V' found allowed file stored fits written =>
    apply counts.setFile
    have room := counts f V stored
    obtain ⟨-, -, -, left, -⟩ := FileView.write_fields written
    rw [left, FileView.write_grows (inv.disk.packed f V stored) written]
    obtain empty | beyond := append fd buf p r f V rfl found stored file allowed fits
    · subst empty
      simp only [List.length_nil] at fits ⊢
      omega
    · omega
  | @closed _ _ f _ V found file stored =>
    have room := counts f V stored
    apply DiskView.CountsRoom.collect
    exact counts.setFile room
  | @deleted _ f V found stored =>
    have room := counts f V stored
    have unlinked : (v.disk.unlink f).CountsRoom := counts
    apply DiskView.CountsRoom.collect
    exact unlinked.setFile room
  | @resized _ newSize _ f _ V V' found allowed file stored small resized =>
    apply counts.setFile
    have packed := inv.disk.packed f V stored
    obtain ⟨-, -, -, left, -⟩ := FileView.resize_fields resized
    have quota := inv.disk.quota f V stored
    rw [left, FileView.resize_bytes packed resized, List.length_take]
    omega

/-! ## Steps on the heap -/

/-- What an opened descriptor says about the view of its file. -/
theorem Opened.onView (abstracts : Abstracts s v) {fd : Int} {p f : Nat} {r : Filedesc} {file : File}
    {bytes : List Byte} (opened : Opened s fd p r f file) (contains : s.disk.Contains f bytes) :
    v.table.lookup fd = some (some (p, r)) ∧ ∃ V, v.disk.file f = some V ∧ V.bytes = bytes := by
  obtain ⟨found, -, V, stored, -⟩ := abstracts.opened opened
  exact ⟨found, V, stored, (abstracts.contains stored).unique contains⟩

/-- A write through a writable descriptor: it is refused when it is longer than `bytes_left`,
    and performed otherwise. -/
theorem Effect.write_cases {fd : Int} {buf : List Byte} {p f : Nat} {r : Filedesc} {V : FileView}
    (effect : Effect junk v (.ufsWrite fd buf) out v') (found : v.table.lookup fd = some (some (p, r)))
    (allowed : r.canWrite = true) (target : r.file = some f) (stored : v.disk.file f = some V) :
    (V.bytesLeft < buf.length ∧ out.ret = -1 ∧ out.errno = .noMem) ∨
    (buf.length ≤ V.bytesLeft ∧ out.ret ≠ -1 ∧
      ∃ V', V.write r.offset.toNat buf = some V' ∧ v'.disk = v.disk.setFile f V') := by
  cases effect with
  | refused why =>
    cases why with
    | notOpen through closed =>
      cases through
      rw [found] at closed
      cases closed
    | forbidden through found' off =>
      cases through
      rw [found] at found'
      cases found'
      have off : r.canWrite = false := off
      rw [allowed] at off
      cases off
    | writeTooMuch found' allowed' file stored' tooMuch =>
      rw [found] at found'
      cases found'
      rw [target] at file
      cases file
      rw [stored] at stored'
      cases stored'
      exact .inl ⟨tooMuch, rfl, rfl⟩
  | wrote found' allowed' file stored' fits written =>
    rw [found] at found'
    cases found'
    rw [target] at file
    cases file
    rw [stored] at stored'
    cases stored'
    exact .inr ⟨fits, by simp, _, written, rfl⟩

/-- A step that overwrites nothing keeps the count of the room right, and admits by it. -/
theorem Step.counts (abstracts : Abstracts s v) (counts : v.disk.CountsRoom)
    (step : Step junk s (call, out) s') (append : NoOverwrite s (call, out)) :
    AdmitsByRoom s (call, out) ∧ s'.CountsRoom := by
  obtain ⟨v', stepped, abstracts'⟩ := step.onView abstracts
  have effect := View.step_effect stepped
  constructor
  · intro fd buf p r f file bytes same opened allowed contains
    have same : call = .ufsWrite fd buf := same
    subst same
    obtain ⟨found, V, stored, rfl⟩ := opened.onView abstracts contains
    have room := counts f V stored
    have here := append fd buf p r f file V.bytes rfl opened allowed contains
    have length := List.length_eq_zero_iff (l := buf)
    rw [← length] at here
    obtain ⟨tooMuch, ret, errno⟩ | ⟨fits, ret, -⟩ := effect.write_cases found allowed opened.target stored
    · refine iff_of_true ⟨ret, errno⟩ ?_
      omega
    · refine iff_of_false (fun refused => ret refused.1) ?_
      omega
  · rw [abstracts'.countsRoom]
    apply effect.countsRoom abstracts.2 counts
    intro fd buf p r f V same found stored target allowed fits
    obtain ⟨file, -, live, -⟩ := abstracts.file stored
    have opened : Opened s fd p r f file := ⟨by rw [abstracts.1.table]; exact found, target, live⟩
    have here := append fd buf p r f file V.bytes same opened allowed (abstracts.contains stored)
    have room := counts f V stored
    obtain empty | beyond | tooMuch := here
    · exact .inl empty
    · exact .inr beyond
    · right
      omega

/-- A step that admits by the room and counts it right has overwritten nothing. -/
theorem Step.noOverwrite (abstracts : Abstracts s v) (step : Step junk s (call, out) s')
    (admits : AdmitsByRoom s (call, out)) (counts : s'.CountsRoom) : NoOverwrite s (call, out) := by
  intro fd buf p r f file bytes same opened allowed contains
  have same : call = .ufsWrite fd buf := same
  subst same
  obtain ⟨v', stepped, abstracts'⟩ := step.onView abstracts
  obtain ⟨found, V, stored, rfl⟩ := opened.onView abstracts contains
  have admitted := admits fd buf p r f file V.bytes rfl opened allowed contains
  rw [abstracts'.countsRoom] at counts
  have quota := abstracts.2.disk.quota f V stored
  rw [← List.length_eq_zero_iff]
  obtain ⟨tooMuch, ret, errno⟩ | ⟨fits, ret, V', written, disk⟩ :=
    (View.step_effect stepped).write_cases found allowed opened.target stored
  · have beyond := admitted.mp ⟨ret, errno⟩
    omega
  · have room := counts f V' (by rw [disk]; exact DiskView.setFile_stored)
    obtain ⟨-, -, -, left, -⟩ := FileView.write_fields written
    rw [left, FileView.write_grows (abstracts.2.disk.packed f V stored) written] at room
    omega

/-! ## Runs -/

/-- `ufs_write` admits by the size of the resulting file, and `bytes_left` is always the room
    left, in exactly those runs in which no write replaces stored bytes. -/
theorem room_counted {events : List (Call × Out)} :
    Run (fun s event s' => Step junk s event s' ∧ AdmitsByRoom s event ∧ s'.CountsRoom) State.init events s ↔
      Run (fun s event s' => Step junk s event s' ∧ NoOverwrite s event) State.init events s := by
  constructor
  · intro run
    apply run.strengthen (I := fun s => ∃ v, Abstracts s v) ⟨_, init_abstracts⟩
    intro s event s' ⟨v, abstracts⟩ ⟨step, admits, counts⟩
    obtain ⟨v', -, abstracts'⟩ := step.onView abstracts
    exact ⟨⟨step, step.noOverwrite abstracts admits counts⟩, v', abstracts'⟩
  · intro run
    apply run.strengthen (I := fun s => ∃ v, Abstracts s v ∧ v.disk.CountsRoom)
    · exact ⟨_, init_abstracts, fun f V stored => by cases stored⟩
    · intro s event s' ⟨v, abstracts, counts⟩ ⟨step, append⟩
      obtain ⟨v', -, abstracts'⟩ := step.onView abstracts
      obtain ⟨admits, counts'⟩ := step.counts abstracts counts append
      exact ⟨⟨step, admits, counts'⟩, v', abstracts', abstracts'.countsRoom.mp counts'⟩

-- Three bytes are written twice, through two descriptors; a write that would keep two bytes
-- below the limit is refused.
theorem overwrite_loses_room : ∃ s, Reachable (Step Junk.zero) State.init s ∧ ¬ s.CountsRoom ∧
    ∃ buf out s', Step Junk.zero s (.ufsWrite 1 buf, out) s' ∧ ¬ AdmitsByRoom s (.ufsWrite 1 buf, out) := by
  obtain ⟨_, s, run, ends⟩ := execute_ends Junk.zero 9 [.ufsOpen [97] 1, .ufsWrite 0 [1, 2, 3], .ufsOpen [97] 0,
    .ufsWrite 1 [4, 5, 6]] State.init (fun _ s => (s.descriptor 1).any fun (_, r, f, file) =>
      r.canWrite && r.offset == 3 && f == 0 && file.blockList == some 0 && file.bytesLeft + 6 == maxFileSize &&
      s.disk.nextBlock 0 == none && s.disk.bytesOf [0] == [4, 5, 6]) (by decide +kernel)
  obtain ⟨⟨p, r, f, file⟩, follows, known⟩ := (Option.any_eq_true _ _).mp ends
  simp only [Bool.and_eq_true, beq_iff_eq] at known
  obtain ⟨⟨⟨⟨⟨⟨allowed, offset⟩, target⟩, first⟩, left⟩, last⟩, bytes⟩ := known
  subst target
  have opened := State.descriptor_opened follows
  have contains : s.disk.Contains 0 [4, 5, 6] :=
    ⟨file, [0], opened.live, by rw [first]; exact ⟨rfl, last⟩, bytes⟩
  obtain ⟨v, abstracts⟩ := reachable_onView ⟨_, run⟩
  obtain ⟨found, -, V, stored, same_left⟩ := abstracts.opened opened
  have limit := maxFileSize_eq
  refine ⟨s, ⟨_, run⟩, fun counts => ?_, ?_⟩
  · have room := counts 0 file _ opened.live contains
    simp only [List.length_cons, List.length_nil] at room
    omega
  · have length : (List.replicate (maxFileSize - 5) (0 : Byte)).length = maxFileSize - 5 := List.length_replicate
    generalize List.replicate (maxFileSize - 5) (0 : Byte) = buf at length
    have tooMuch : V.bytesLeft < buf.length := by omega
    have refused := View.write_refused Junk.zero found allowed opened.target stored tooMuch
    obtain ⟨s', step, -⟩ := abstracts.answers refused
    refine ⟨buf, _, s', step, fun admits => ?_⟩
    have beyond := (admits 1 buf p r 0 file _ rfl opened allowed contains).mp ⟨rfl, rfl⟩
    simp only [offset, List.length_cons, List.length_nil] at beyond
    omega

end SysprogLabs.Userfs
