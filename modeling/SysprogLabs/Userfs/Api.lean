import SysprogLabs.Lib.Machine
import SysprogLabs.Userfs.Views

/-! # The API on the heap

`Call.run` makes a call on the heap.  `Call.run_realizes` says that the code returns
exactly when the view has a step, with the same answer; a run of the API on the heap
and the run on views therefore show the same calls and answers.
-/

namespace SysprogLabs.Userfs

open Prog

variable (junk : Junk)

/-- A call that stores nothing in a buffer, followed by `ufs_errno`. -/
def withErrno (call : Prog State Int) : Prog State Out := do
  let ret ← call
  let errno ← ufsErrno
  return { ret, bytes := [], errno }

def Call.run : Call → Prog State Out
  | .ufsOpen filename flags => withErrno (Userfs.ufsOpen junk filename flags)
  | .ufsWrite fd buf => withErrno (Userfs.ufsWrite junk fd buf buf.length)
  | .ufsRead fd size => do
    let (ret, bytes) ← Userfs.ufsRead fd size
    let errno ← ufsErrno
    return { ret, bytes, errno }
  | .ufsClose fd => withErrno (Userfs.ufsClose fd)
  | .ufsDelete filename => withErrno (Userfs.ufsDelete filename)
  | .ufsResize fd newSize => withErrno (Userfs.ufsResize junk fd newSize)

/-- One call of the API. -/
def Step (s : State) (event : Call × Out) (s' : State) : Prop :=
  (event.1.run junk).Returns s event.2 s'

/-- The heap lays out the view. -/
structure Rep (s : State) (v : View) : Prop where
  disk : ∃ chain, DiskRep s.disk v.disk chain
  table : s.table = v.table
  errno : s.ufsErrorCode = v.ufsErrorCode

theorem Rep.init : Rep State.init View.init := by
  refine ⟨⟨fun _ => [], ?_⟩, rfl, rfl⟩
  constructor
  · rfl
  · intro f V stored
    cases stored
  · intro f _
    rfl
  · exact ⟨rfl, .nil, fun _ head => by cases head⟩
  · intro f listed
    cases listed
  · exact ⟨fun _ _ live => (by cases live), fun _ _ _ _ live => (by cases live), fun _ _ live => (by cases live)⟩
  · exact ⟨fun _ _ live => (by cases live), fun _ _ _ _ live => (by cases live), fun _ _ live => (by cases live)⟩
  · intro f g V W p stored
    cases stored
  · intro p b live
    cases live

/-! ## The code computes the effect on the view -/

/-- The answer a call gives on the heap and on the view is the same, and so are the states. -/
def Answers (ret : Int) (bytes : List Byte) (s : State) (r : Out × View) : Prop :=
  r.1 = { ret, bytes, errno := s.ufsErrorCode } ∧ Rep s r.2

section

variable {s : State} {v : View} {fd : Int}

theorem Rep.answers (rep : Rep s v) (ret : Int) (bytes : List Byte) :
    Answers ret bytes s ({ ret, bytes, errno := v.ufsErrorCode }, v) :=
  ⟨by rw [rep.errno], rep⟩

theorem fail_unchanged (rep : Rep s v) (code : ErrorCode) :
    (fail code).Realizes s (v.fail code) fun ret s' r => Answers ret [] s' r ∧ s'.disk = s.disk := by
  simp only [fail, View.fail, View.reply, Realizes, ensures_bind, ensures_update, ensures_pure]
  have failed : Rep { s with ufsErrorCode := code } { v with ufsErrorCode := code } :=
    ⟨rep.disk, rep.table, rfl⟩
  exact ⟨failed.answers (-1) [], trivial⟩

theorem fail_realizes (rep : Rep s v) (code : ErrorCode) :
    (fail code).Realizes s (v.fail code) fun ret s' r => Answers ret [] s' r :=
  (fail_unchanged rep code).mono fun _ _ _ _ failed => failed.1

/-- The failure of `ufs_read`. -/
theorem fail_nothing_realizes (rep : Rep s v) (code : ErrorCode) :
    (do return (← fail code, []) : Prog State (Int × List Byte)).Realizes s (v.fail code)
      fun ret s' r => Answers ret.1 ret.2 s' r := by
  simp only [fail, View.fail, View.reply, Realizes, ensures_bind, ensures_update, ensures_pure]
  have failed : Rep { s with ufsErrorCode := code } { v with ufsErrorCode := code } :=
    ⟨rep.disk, rep.table, rfl⟩
  exact failed.answers (-1) []

theorem access_realizes {α : Type} (rep : Rep s v) (inv : TableInv v.table) {e : Prog State α}
    {k : Ptr → Filedesc → Prog State α} {opened : Nat → Filedesc → Option (Out × View)}
    {Post : α → State → Out × View → Prop}
    (closed : v.table.lookup fd = some none → e.Realizes s (v.fail .noFile) Post)
    (is_open : ∀ p r, v.table.lookup fd = some (some (p, r)) →
      (k (some p) r).Realizes s (opened p r) Post) :
    (do
      if (← .zoom tablePart (isValidFd fd)) = false then e
      else
        let p ← .zoom tablePart (slot fd)
        let filedesc ← .zoom tablePart (filedescHeap.load p)
        k p filedesc : Prog State α).Realizes s (v.access fd opened) Post := by
  rw [← rep.table] at inv is_open closed
  rw [View.access, ← rep.table]
  cases found : s.table.lookup fd with
  | none =>
    apply Realizes.stuck
    rw [noReturn_iff, ensures_zoom, tablePart_get, ensures_isValidFd inv, found]
    exact id
  | some entry =>
    apply Realizes.after
    rw [ensures_zoom, tablePart_get, ensures_isValidFd inv, found]
    cases entry with
    | none => exact closed found
    | some pr =>
      obtain ⟨p, r⟩ := pr
      obtain ⟨nonneg, at_fd, live⟩ := Table.lookup_some found
      simp only [Option.isSome_some, reduceCtorEq, if_false, tablePart_set]
      apply Realizes.after
      rw [ensures_zoom, tablePart_get, ensures_slot inv nonneg at_fd]
      apply Realizes.after
      simp only [ensures_zoom, tablePart_get, tablePart_set, Lens.ensures_load, filedescHeap_get,
        Option.some.injEq, exists_eq_left', live]
      exact is_open p r found

theorem loadFile_realizes {chain : Nat → List Nat} (rep : DiskRep s.disk v.disk chain) (file : Ptr) :
    (Prog.zoom diskPart (fileHeap.load file)).Realizes s (v.disk.fileAt file) fun loaded s' fV =>
      s' = s ∧ file = some fV.1 ∧ v.disk.file fV.1 = some fV.2 ∧
      FileRep s.disk loaded fV.2 (chain fV.1) := by
  cases file with
  | none =>
    rw [DiskView.fileAt, Option.bind_none, Realizes, noReturn_iff]
    simp
  | some f =>
    rw [DiskView.fileAt, Option.bind_some]
    cases stored : v.disk.file f with
    | none =>
      rw [Option.map_none, Realizes, noReturn_iff]
      simp [rep.dead f stored]
    | some V =>
      obtain ⟨loaded, live, fileRep⟩ := rep.live f V stored
      simpa [Realizes, live, stored] using fileRep

theorem openFile_realizes (rep : Rep s v) (inv : TableInv v.table) {f : Nat} {V : FileView}
    (stored : v.disk.file f = some V) (flags : Flags) :
    (openFile junk f flags).Realizes s (v.openFile junk f flags) fun ret s' r => Answers ret [] s' r := by
  obtain ⟨chain, diskRep⟩ := rep.disk
  obtain ⟨file, live, fileRep⟩ := diskRep.live f V stored
  have referenced := diskRep.setFields stored live (file.refs + 1) file.bytesLeft file.inList
  have refs : file.refs = V.refs := fileRep.refs
  have bytes_left : file.bytesLeft = V.bytesLeft := fileRep.bytesLeft
  have in_list : file.inList = V.inList := fileRep.inList
  rw [View.openFile, stored, Option.bind_some]
  apply Realizes.after
  simp only [ensures_zoom, Lens.ensures_modify, diskPart_get, fileHeap_get, fileHeap_set, diskPart_set,
    Option.some.injEq, exists_eq_left', live]
  rw [refs, bytes_left, in_list] at referenced ⊢
  rw [← rep.table] at inv ⊢
  have installs := newFd_spec junk inv f flags
  refine Realizes.process (Realizes.zoom tablePart installs) fun fd s' r installed result => ?_
  obtain ⟨t', rfl, rfl, rfl⟩ := result
  have opened : Rep { s with disk := { s.disk with files := _ }, table := r.2 }
      { v with disk := v.disk.setFile f { V with refs := V.refs + 1 }, table := r.2 } :=
    ⟨⟨chain, referenced⟩, rfl, rep.errno⟩
  exact ⟨_, rfl, opened.answers r.1 []⟩

theorem ufsOpen_realizes (rep : Rep s v) (inv : v.Inv) (filename : Name) (flags : Flags) :
    (ufsOpen junk filename flags).Realizes s (v.ufsOpen junk filename flags) fun ret s' r =>
      Answers ret [] s' r := by
  obtain ⟨chain, diskRep⟩ := rep.disk
  unfold ufsOpen
  apply Realizes.after
  rw [ensures_zoom]
  refine (searchFile_spec diskRep filename).mono fun found d' result => ?_
  obtain ⟨rfl, rfl⟩ := result
  simp only [View.ufsOpen]
  cases found : v.disk.search filename with
  | some f =>
    obtain ⟨V, stored⟩ := diskRep.onDisk f (List.mem_of_find?_eq_some found)
    exact openFile_realizes junk rep inv.table stored flags
  | none =>
    simp only
    split
    · apply Realizes.after
      rw [ensures_zoom]
      refine (createFile_spec junk diskRep filename).mono fun f d' created => ?_
      obtain ⟨rfl, chain', diskRep'⟩ := created
      have created : Rep { s with disk := d' } { v with disk := v.disk.create filename } :=
        ⟨⟨chain', diskRep'⟩, rep.table, rep.errno⟩
      exact openFile_realizes junk created inv.table (by simp [DiskView.create, DiskView.alloc]; rfl) flags
    · exact fail_realizes rep .noFile

theorem ufsWrite_realizes (rep : Rep s v) (inv : v.Inv) (fd : Int) (buf : List Byte) :
    (ufsWrite junk fd buf buf.length).Realizes s (v.ufsWrite fd buf) fun ret s' r =>
      Answers ret [] s' r := by
  obtain ⟨chain, diskRep⟩ := rep.disk
  refine access_realizes rep inv.table (fun _ => fail_realizes rep .noFile) fun p r found => ?_
  obtain ⟨-, -, live⟩ := Table.lookup_some found
  obtain ⟨f₀, -, -, nonneg⟩ := inv.table.record p r live
  split
  · exact fail_realizes rep .noPermission
  refine (loadFile_realizes diskRep r.file).bind fun file s' fV loaded result => ?_
  obtain ⟨rfl, file_eq, stored, fileRep⟩ := result
  obtain ⟨f, V⟩ := fV
  rw [fileRep.bytesLeft, file_eq]
  simp only at stored ⊢
  split
  · exact fail_realizes rep .noMem
  next fits =>
    have small : V.bytesLeft ≤ maxFileSize := Nat.le_trans (Nat.le_add_left _ _) (inv.disk.quota f V stored)
    have wrote := writeFile_spec junk r.offset.toNat diskRep stored (Nat.le_of_not_lt fits) small
    rw [Int.toNat_of_nonneg nonneg] at wrote
    refine (Realizes.zoom diskPart wrote).bind fun written s₁ V' _ result => ?_
    obtain ⟨d', rfl, rfl, chain', diskRep'⟩ := result
    rw [← rep.table] at live ⊢
    apply Realizes.after
    rw [ensures_zoom]
    refine (advance_spec live _).mono fun _ t' moved => ?_
    subst moved
    have written : Rep { s' with disk := d', table := s'.table.advance p buf.length }
        { v with disk := v.disk.setFile f V', table := s'.table.advance p buf.length } :=
      ⟨⟨chain', diskRep'⟩, rfl, rep.errno⟩
    exact ensures_pure.mpr (written.answers buf.length [])

theorem ufsRead_realizes (rep : Rep s v) (inv : v.Inv) (fd : Int) (size : SizeT) :
    (ufsRead fd size).Realizes s (v.ufsRead fd size) fun ret s' r => Answers ret.1 ret.2 s' r := by
  obtain ⟨chain, diskRep⟩ := rep.disk
  refine access_realizes rep inv.table (fun _ => fail_nothing_realizes rep .noFile) fun p r found => ?_
  obtain ⟨-, -, live⟩ := Table.lookup_some found
  obtain ⟨f₀, -, -, nonneg⟩ := inv.table.record p r live
  split
  · exact fail_nothing_realizes rep .noPermission
  refine (loadFile_realizes diskRep r.file).bind fun file s' fV loaded result => ?_
  obtain ⟨rfl, file_eq, stored, fileRep⟩ := result
  obtain ⟨f, V⟩ := fV
  have copied := readLoop_spec r.offset.toNat [] [] diskRep stored (List.nil_append _).symm rfl rfl size.isLt
  rw [Int.toNat_of_nonneg nonneg, ← Chain.head_eq fileRep.path] at copied
  apply Realizes.after
  rw [ensures_zoom]
  refine copied.mono fun w d' result => ?_
  obtain ⟨rfl, bytes, count⟩ := result
  rw [List.nil_append] at bytes
  rw [← rep.table] at live
  apply Realizes.after
  rw [ensures_zoom]
  refine (advance_spec live _).mono fun _ t' moved => ?_
  subst moved
  rw [count, bytes]
  have read : Rep { s' with table := s'.table.advance p (V.read r.offset.toNat size).length }
      { v with table := v.table.advance p (V.read r.offset.toNat size).length } :=
    ⟨⟨chain, diskRep⟩, by rw [rep.table], rep.errno⟩
  exact ensures_pure.mpr (read.answers (V.read r.offset.toNat size).length (V.read r.offset.toNat size))

/-- The call takes the last reference to the live file `f`. -/
def LastUse (s : State) (call : Call) (f : Nat) : Prop :=
  ∃ file, s.disk.files.cell f = some file ∧ match call with
    | .ufsClose fd => s.table.fileOf fd = some f ∧ file.refs = 1 ∧ file.inList = false
    | .ufsDelete filename =>
      (∃ n, file.name = some n ∧ s.disk.names.cell n = some filename) ∧ file.inList = true ∧ file.refs = 0
    | _ => False

/-- What a call releases: nothing, or the file it takes the last reference to, its name, its
    blocks and their memory. -/
def Discards (s : State) (call : Call) (s' : State) : Prop :=
  (∀ f, ¬ LastUse s call f) ∧ s'.disk.ledger = s.disk.ledger ∨
    ∃ f file n l, (∀ g, LastUse s call g ↔ g = f) ∧ s.disk.files.cell f = some file ∧ file.name = some n ∧
      Chain s.disk.nextBlock file.blockList l ∧ s'.disk.ledger = s.disk.bury f n l

theorem lastUse_close {f : Nat} {file : File} (opened : s.table.fileOf fd = some f)
    (live : s.disk.files.cell f = some file) (g : Nat) :
    LastUse s (.ufsClose fd) g ↔ g = f ∧ file.refs = 1 ∧ file.inList = false := by
  simp only [LastUse, opened, Option.some.injEq]
  constructor
  · rintro ⟨file', live', same, last⟩
    subst same
    rw [live] at live'
    cases live'
    exact ⟨rfl, last⟩
  · rintro ⟨same, last⟩
    subst same
    exact ⟨file, live, rfl, last⟩

theorem lastUse_delete {chain : Nat → List Nat} (rep : DiskRep s.disk v.disk chain) (inv : v.disk.Inv)
    (filename : Name) (g : Nat) :
    LastUse s (.ufsDelete filename) g ↔
      v.disk.search filename = some g ∧ ∃ V, v.disk.file g = some V ∧ V.refs = 0 := by
  constructor
  · rintro ⟨file, live, ⟨n, name, at_n⟩, listed, unused⟩
    obtain ⟨W, stored, fileRep⟩ := rep.file_stored live
    obtain ⟨k, name', at_k⟩ := fileRep.name
    rw [name] at name'
    cases name'
    rw [at_n] at at_k
    have named : filename = W.name := by simpa using at_k
    have in_list : file.inList = W.inList := fileRep.inList
    have refs : file.refs = W.refs := fileRep.refs
    rw [in_list, inv.listed g W stored] at listed
    cases found : v.disk.search filename with
    | none => exact absurd named.symm (DiskView.search_none found listed stored)
    | some f =>
      obtain ⟨V, at_f⟩ := inv.onDisk f (List.mem_of_find?_eq_some found)
      obtain ⟨listed', named'⟩ := DiskView.search_some found at_f
      have same := inv.names f g V W listed' listed at_f stored (named'.trans named)
      subst same
      exact ⟨rfl, W, stored, refs.symm.trans unused⟩
  · rintro ⟨found, V, stored, unused⟩
    obtain ⟨file, live, fileRep⟩ := rep.live g V stored
    obtain ⟨n, name, at_n⟩ := fileRep.name
    obtain ⟨listed, named⟩ := DiskView.search_some found stored
    have in_list : file.inList = V.inList := fileRep.inList
    have refs : file.refs = V.refs := fileRep.refs
    refine ⟨file, live, ⟨n, name, by rw [at_n, named]⟩, ?_, refs.trans unused⟩
    rw [in_list]
    exact (inv.listed g V stored).mpr listed

/-- The file is released when its record says that nothing refers to it. -/
theorem collect_spec {d : Disk} {w : DiskView} {chain : Nat → List Nat} {f : Nat} {V : FileView}
    (rep : DiskRep d w chain) (stored : w.file f = some V)
    (unlisted : V.inList = false → f ∉ w.order) :
    (if V.refs = 0 ∧ V.inList = false then do
      freeFileMemory (some f)
      fileHeap.free (some f)
    else pure () : Prog Disk Unit).Ensures d fun _ d' => DiskRep d' (w.collect f) chain ∧
      if V.refs = 0 ∧ V.inList = false then
        ∃ file n, d.files.cell f = some file ∧ file.name = some n ∧ d'.ledger = d.bury f n (chain f)
      else d'.ledger = d.ledger := by
  rw [DiskView.collect, stored]
  simp only
  split
  · next unreferenced => exact freeFile_spec rep stored (unlisted unreferenced.2)
  · exact ensures_pure.mpr ⟨rep, rfl⟩

theorem ufsClose_realizes (rep : Rep s v) (inv : v.Inv) (fd : Int) :
    (ufsClose fd).Realizes s (v.ufsClose fd) fun ret s' r =>
      Answers ret [] s' r ∧ Discards s (.ufsClose fd) s' := by
  obtain ⟨chain, diskRep⟩ := rep.disk
  apply access_realizes rep inv.table
  · intro closed
    refine (fail_unchanged rep .noFile).mono fun _ s' _ _ failed => ⟨failed.1, .inl ⟨?_, by rw [failed.2]⟩⟩
    intro f lastUse
    obtain ⟨_, -, here, -⟩ := lastUse
    rw [rep.table, Table.fileOf_closed closed] at here
    cases here
  intro p r found
  obtain ⟨-, -, live⟩ := Table.lookup_some found
  obtain ⟨f, file_eq, -⟩ := inv.table.record p r live
  simp only [file_eq, DiskView.fileAt, Option.bind_some]
  cases stored : v.disk.file f with
  | none =>
    apply Realizes.stuck
    rw [noReturn_iff]
    simp [diskRep.dead f stored]
  | some V =>
    obtain ⟨file, live_f, fileRep⟩ := diskRep.live f V stored
    have refs : file.refs = V.refs := fileRep.refs
    have bytes_left : file.bytesLeft = V.bytesLeft := fileRep.bytesLeft
    have in_list : file.inList = V.inList := fileRep.inList
    have dropped := diskRep.setFields stored live_f (file.refs - 1) file.bytesLeft file.inList
    rw [refs, bytes_left, in_list] at dropped
    have unlisted : V.inList = false → f ∉ v.disk.order := by
      intro off listed
      rw [(inv.disk.listed f V stored).mpr listed] at off
      cases off
    have collected := collect_spec dropped DiskView.setFile_stored unlisted
    apply Realizes.after
    simp only [ensures_zoom, ensures_bind, Lens.ensures_modify, Lens.ensures_load, diskPart_get,
      fileHeap_get, fileHeap_set, Option.some.injEq, exists_eq_left', live_f, Store.put_cell, if_true,
      Option.map_some]
    rw [refs, bytes_left, in_list]
    refine collected.mono fun _ d' after => ?_
    obtain ⟨rep', discarded⟩ := after
    rw [Option.bind_some, ← rep.table]
    rw [← rep.table] at found
    apply Realizes.after
    rw [ensures_zoom]
    have table_inv : TableInv s.table := by rw [rep.table]; exact inv.table
    refine (closeFd_spec table_inv found).mono fun _ t' closed => ?_
    subst closed
    have closed : Rep { s with disk := d', table := s.table.close fd.toNat p }
        { v with disk := (v.disk.setFile f { V with refs := V.refs - 1 }).collect f
                 table := s.table.close fd.toNat p } := ⟨⟨chain, rep'⟩, rfl, rep.errno⟩
    refine ensures_pure.mpr ⟨closed.answers 0 [], ?_⟩
    have lastUse := lastUse_close ((Table.fileOf_eq found).trans file_eq) live_f
    rw [refs, in_list] at lastUse
    by_cases unreferenced : V.refs - 1 = 0 ∧ V.inList = false
    · rw [if_pos unreferenced] at discarded
      obtain ⟨file₁, n, live₁, name, gone⟩ := discarded
      simp only [Store.put_cell, if_true, live_f, Option.map_some, Option.some.injEq] at live₁
      subst live₁
      refine .inr ⟨f, file, n, chain f, fun g => ?_, live_f, name, fileRep.path, gone⟩
      rw [lastUse]
      exact and_iff_left ⟨by omega, unreferenced.2⟩
    · rw [if_neg unreferenced] at discarded
      refine .inl ⟨fun g use => ?_, discarded⟩
      obtain ⟨-, last, off⟩ := (lastUse g).mp use
      exact unreferenced ⟨by omega, off⟩

theorem ufsDelete_realizes (rep : Rep s v) (inv : v.Inv) (filename : Name) :
    (ufsDelete filename).Realizes s (v.ufsDelete filename) fun ret s' r =>
      Answers ret [] s' r ∧ Discards s (.ufsDelete filename) s' := by
  obtain ⟨chain, diskRep⟩ := rep.disk
  have lastUse := lastUse_delete diskRep inv.disk filename
  unfold ufsDelete
  apply Realizes.after
  rw [ensures_zoom]
  refine (searchFile_spec diskRep filename).mono fun found d' result => ?_
  obtain ⟨rfl, rfl⟩ := result
  simp only [View.ufsDelete]
  cases found : v.disk.search filename with
  | none =>
    simp only [if_true]
    refine (fail_unchanged rep .noFile).mono fun _ s' _ _ failed => ⟨failed.1, .inl ⟨?_, by rw [failed.2]⟩⟩
    intro f use
    rw [lastUse, found] at use
    cases use.1
  | some f =>
    have listed := List.mem_of_find?_eq_some found
    obtain ⟨V, stored⟩ := diskRep.onDisk f listed
    simp only [stored, Option.bind_some, reduceCtorEq, if_false, diskPart_set]
    have unlisted : f ∉ (v.disk.unlink f).order := diskRep.list.nodup.not_mem_erase
    apply Realizes.after
    rw [ensures_zoom, ensures_bind]
    refine (unlinkFile_spec diskRep listed).mono fun _ d₁ unlinked => ?_
    obtain ⟨rep₁, same_ledger, same_blocks, same_name⟩ := unlinked
    have stored₁ : (v.disk.unlink f).file f = some V := stored
    obtain ⟨file, live, fileRep⟩ := rep₁.live f V stored₁
    have refs : file.refs = V.refs := fileRep.refs
    have bytes_left : file.bytesLeft = V.bytesLeft := fileRep.bytesLeft
    have marked := rep₁.setFields stored₁ live file.refs file.bytesLeft false
    rw [refs, bytes_left] at marked
    have collected := collect_spec marked DiskView.setFile_stored fun _ => unlisted
    simp only [ensures_bind, Lens.ensures_modify, Lens.ensures_load, fileHeap_get, fileHeap_set,
      Option.some.injEq, exists_eq_left', live, Store.put_cell, if_true, Option.map_some, and_true]
      at collected ⊢
    rw [refs, bytes_left]
    refine collected.mono fun _ d' after => ?_
    obtain ⟨rep', discarded⟩ := after
    have deleted : Rep { s with disk := d' }
        { v with disk := ((v.disk.unlink f).setFile f { V with inList := false }).collect f } :=
      ⟨⟨chain, rep'⟩, rep.table, rep.errno⟩
    refine ensures_pure.mpr ⟨deleted.answers 0 [], ?_⟩
    obtain ⟨file₀, live₀, fileRep₀⟩ := diskRep.live f V stored
    rw [live, live₀, Option.map_some, Option.map_some, Option.some.injEq] at same_name
    by_cases unreferenced : V.refs = 0
    · rw [if_pos unreferenced] at discarded
      obtain ⟨_, n, rfl, name, gone⟩ := discarded
      refine .inr ⟨f, file₀, n, chain f, fun g => ?_, live₀, same_name ▸ name, fileRep₀.path, ?_⟩
      · rw [lastUse, found, Option.some.injEq]
        constructor
        · exact fun use => use.1.symm
        · intro same
          subst same
          exact ⟨rfl, V, stored, unreferenced⟩
      · exact gone.trans (Disk.bury_congr same_ledger same_blocks f n (chain f))
    · rw [if_neg unreferenced] at discarded
      refine .inl ⟨fun g use => ?_, discarded.trans same_ledger⟩
      rw [lastUse, found, Option.some.injEq] at use
      obtain ⟨same, W, at_g, unused⟩ := use
      rw [← same, stored] at at_g
      cases at_g
      exact unreferenced unused

theorem ufsResize_realizes (rep : Rep s v) (inv : v.Inv) (fd : Int) (newSize : Nat) :
    (ufsResize junk fd newSize).Realizes s (v.ufsResize fd newSize) fun ret s' r =>
      Answers ret [] s' r := by
  obtain ⟨chain, diskRep⟩ := rep.disk
  refine access_realizes rep inv.table (fun _ => fail_realizes rep .noFile) fun p r found => ?_
  split
  · exact fail_realizes rep .noPermission
  split
  · exact fail_realizes rep .noMem
  next small =>
    obtain ⟨-, -, live⟩ := Table.lookup_some found
    obtain ⟨f, file_eq, -⟩ := inv.table.record p r live
    simp only [file_eq, DiskView.fileAt, Option.bind_some]
    cases stored : v.disk.file f with
    | none =>
      apply Realizes.stuck
      rw [noReturn_iff, ensures_zoom]
      simp [resizeFile, diskRep.dead f stored]
    | some V =>
      rw [Option.map_some, Option.bind_some]
      have resized := resizeFile_spec junk diskRep stored (inv.disk.packed f V stored) (Nat.le_of_not_lt small)
      refine (Realizes.zoom diskPart resized).bind fun _ s₁ V' _ result => ?_
      obtain ⟨d', rfl, chain', rep'⟩ := result
      have written : Rep { s with disk := d' } { v with disk := v.disk.setFile f V' } :=
        ⟨⟨chain', rep'⟩, rep.table, rep.errno⟩
      exact ensures_pure.mpr (written.answers 0 [])

theorem withErrno_realizes {call : Prog State Int} {r : Option (Out × View)}
    (realized : call.Realizes s r fun ret s' r => Answers ret [] s' r) :
    (withErrno call).Realizes s r fun out s' r => out = r.1 ∧ Rep s' r.2 := by
  cases r with
  | none => exact Realizes.stuck realized
  | some r =>
    apply Realizes.after
    refine Ensures.mono realized fun ret s' answers => ?_
    simp only [Realizes, ensures_bind, ufsErrno, ensures_read, ensures_pure]
    exact ⟨answers.1.symm, answers.2⟩

/-- The code returns exactly when the view has a step, with the same answer. -/
theorem Call.run_realizes (rep : Rep s v) (inv : v.Inv) (call : Call) :
    (call.run junk).Realizes s (v.step junk call) fun out s' r => out = r.1 ∧ Rep s' r.2 := by
  cases call with
  | ufsOpen filename flags => exact withErrno_realizes (ufsOpen_realizes junk rep inv filename flags)
  | ufsWrite fd buf => exact withErrno_realizes (ufsWrite_realizes junk rep inv fd buf)
  | ufsRead fd size =>
    have realized := ufsRead_realizes rep inv fd size
    simp only [Call.run, View.step]
    cases result : v.ufsRead fd size with
    | none =>
      rw [result] at realized
      exact Realizes.stuck realized
    | some r =>
      rw [result] at realized
      apply Realizes.after
      refine Ensures.mono realized fun ret s' answers => ?_
      simp only [Realizes, ensures_bind, ufsErrno, ensures_read, ensures_pure]
      exact ⟨answers.1.symm, answers.2⟩
  | ufsClose fd =>
    exact withErrno_realizes ((ufsClose_realizes rep inv fd).mono fun _ _ _ _ closed => closed.1)
  | ufsDelete filename =>
    exact withErrno_realizes ((ufsDelete_realizes rep inv filename).mono fun _ _ _ _ deleted => deleted.1)
  | ufsResize fd newSize => exact withErrno_realizes (ufsResize_realizes junk rep inv fd newSize)

end

/-! ## Runs -/

/-- One call of the API on a view. -/
def View.Step (v : View) (event : Call × Out) (v' : View) : Prop :=
  v.step junk event.1 = some (event.2, v')

section

variable {junk} {s s' : State} {v v' : View} {event : Call × Out} {events : List (Call × Out)}

/-- The heap lays out a view with the invariant. -/
def Abstracts (s : State) (v : View) : Prop := Rep s v ∧ v.Inv

theorem Step.onView (abstracts : Abstracts s v) (step : Step junk s event s') :
    ∃ v', v.Step junk event v' ∧ Abstracts s' v' := by
  obtain ⟨rep, inv⟩ := abstracts
  obtain ⟨call, out⟩ := event
  have realized := Call.run_realizes junk rep inv call
  obtain ⟨⟨out', v'⟩, stepped, same, rep'⟩ := realized.of_returns step
  have same : out = out' := same
  subst same
  exact ⟨v', stepped, rep', (View.step_effect stepped).inv inv⟩

theorem View.Step.onHeap (abstracts : Abstracts s v) (step : v.Step junk event v') :
    ∃ s', Userfs.Step junk s event s' ∧ Abstracts s' v' := by
  obtain ⟨rep, inv⟩ := abstracts
  obtain ⟨call, out⟩ := event
  have realized := Call.run_realizes junk rep inv call
  obtain ⟨out', s', returned, same, rep'⟩ := realized.returns step
  have same : out' = out := same
  subst same
  exact ⟨s', returned, rep', (View.step_effect step).inv inv⟩

theorem init_abstracts : Abstracts State.init View.init := ⟨Rep.init, View.init_inv⟩

/-- Every run on the heap is a run on views. -/
theorem run_onView (abstracts : Abstracts s v) (run : Run (Step junk) s events s') :
    ∃ v', Run (View.Step junk) v events v' ∧ Abstracts s' v' :=
  run.simulate abstracts fun _ _ _ _ related step => step.onView related

/-- Every run on views is a run on the heap. -/
theorem run_onHeap (abstracts : Abstracts s v) (run : Run (View.Step junk) v events v') :
    ∃ s', Run (Step junk) s events s' ∧ Abstracts s' v' :=
  run.simulate (R := fun v s => Abstracts s v) abstracts fun _ _ _ _ related step => step.onHeap related

/-- The states the API leads to. -/
theorem reachable_onView (reachable : Reachable (Step junk) State.init s) : ∃ v, Abstracts s v := by
  obtain ⟨events, run⟩ := reachable
  obtain ⟨v, -, abstracts⟩ := run_onView init_abstracts run
  exact ⟨v, abstracts⟩

end

/-! ## Executing calls -/

/-- Every byte, pointer and flag of a new object is zero. -/
def Junk.zero : Junk where
  memory _ := ⟨List.replicate blockSize 0, List.length_replicate⟩
  block _ := { memory := none, occupied := 0, next := none, prev := none }
  name _ := []
  file _ := { blockList := none, lastBlock := none, refs := 0, name := none, next := none, prev := none,
              bytesLeft := 0, inList := false }
  filedesc _ := { file := none, isOccupied := false, offset := 0, canRead := false, canWrite := false }
  slot _ _ := none

/-- The answers of a sequence of calls and the state behind it, each call with some fuel. -/
def execute (fuel : Nat) : List Call → State → Option (List Out × State)
  | [], s => some ([], s)
  | call :: calls, s =>
    match (call.run junk).run fuel s with
    | .ok (out, s') => (execute fuel calls s').map fun (outs, s'') => (out :: outs, s'')
    | .error _ => none

theorem execute_run {fuel : Nat} {calls : List Call} {s s' : State} {outs : List Out}
    (executed : execute junk fuel calls s = some (outs, s')) :
    Run (Step junk) s (calls.zip outs) s' := by
  induction calls generalizing s outs with
  | nil =>
    cases executed
    exact .nil _
  | cons call calls ih =>
    simp only [execute] at executed
    split at executed
    · next out s₁ returned =>
      obtain ⟨⟨outs', s₂⟩, later, same⟩ := Option.map_eq_some_iff.mp executed
      cases same
      exact .cons ⟨fuel, returned⟩ (ih later)
    · cases executed

/-- A sequence of calls with known answers is a run. -/
theorem execute_answers {fuel : Nat} {calls : List Call} {s : State} {outs : List Out}
    (answers : (execute junk fuel calls s).map Prod.fst = some outs) :
    ∃ s', Run (Step junk) s (calls.zip outs) s' := by
  obtain ⟨⟨outs', s'⟩, executed, same⟩ := Option.map_eq_some_iff.mp answers
  have same : outs' = outs := same
  subst same
  exact ⟨s', execute_run junk executed⟩

/-- Calls whose execution ends in a state with the property `p` lead there in a run. -/
theorem execute_ends (fuel : Nat) (calls : List Call) (s : State) (p : List Out → State → Bool)
    (ends : (execute junk fuel calls s).any (fun result => p result.1 result.2) = true) :
    ∃ outs s', Run (Step junk) s (calls.zip outs) s' ∧ p outs s' = true := by
  cases executed : execute junk fuel calls s with
  | none =>
    rw [executed] at ends
    cases ends
  | some result =>
    rw [executed] at ends
    exact ⟨result.1, result.2, execute_run junk executed, ends⟩

end SysprogLabs.Userfs
