import SysprogLabs.Userfs.Reference

/-! # The whole API on flat files

The reference model with `ufs_resize` as well.  A resize cuts the bytes of the inode and lets the size
limit count from what is left; to a larger size it changes no byte.  The descriptors stay where they
are, so a position may lie beyond the end: there nothing is read, and a write goes to the end.

`Respond` is one call of this model, in which a resize to a size that cannot be reached has no answer.
From the empty file system and on zeroed memory the code has exactly the runs of the model (`whole_api`).
-/

namespace SysprogLabs.Userfs

open Reference

namespace Reference.State

/-- The inode keeps its first `newSize` bytes. -/
def resize (r : Reference.State) (i newSize : Nat) : Reference.State :=
  { r with inode := fun j =>
      if j = i then { bytes := (r.inode i).bytes.take newSize
                      written := ((r.inode i).bytes.take newSize).length }
      else r.inode j }

/-- One call of the whole API. -/
def respond (r : Reference.State) : Call → Out × Reference.State
  | .ufsResize fd newSize =>
    match r.descriptor fd with
    | none => r.fail .noFile
    | some d =>
      if d.canWrite = false then r.fail .noPermission
      else if newSize > maxFileSize then r.fail .noMem
      else (r.resize d.inode newSize).reply 0 []
  | call => r.step withinLimit call

/-- The code gets to the end of the call. -/
def Ends (r : Reference.State) : Call → Prop
  | .ufsResize fd newSize => ∀ d, r.descriptor fd = some d → d.canWrite = true → newSize.val ≤ maxFileSize →
      newSize.val % blockSize = 0 ∨ newSize.val < (r.inode d.inode).bytes.length
  | _ => True

end Reference.State

def Respond (r : Reference.State) (event : Call × Out) (r' : Reference.State) : Prop :=
  r.Ends event.1 ∧ r.respond event.1 = (event.2, r')

theorem Respond.next {r : Reference.State} {call : Call} {out : Out} (ends : r.Ends call)
    (answer : (r.respond call).1 = out) : Respond r (call, out) (r.respond call).2 :=
  ⟨ends, by rw [← answer]⟩

/-- The calls the model stands for. -/
def Call.Whole : Call → Prop
  | .ufsResize _ newSize => 0 < newSize.val
  | call => call.Plain

/-! ## What a view stands for -/

structure Mirrors (v : View) (r : Reference.State) : Prop where
  names : ∀ name, r.names name = v.disk.search name
  contents : ∀ f V, v.disk.file f = some V → r.inode f = ⟨V.bytes, maxFileSize - V.bytesLeft⟩
  next : r.next = v.disk.next
  fds : ∀ i, slotAt r.fds i = (slotAt v.table.handles i).map Filedesc.toDescriptor
  errno : r.errno = v.ufsErrorCode

theorem Mirrors.init : Mirrors View.init Reference.init where
  names _ := rfl
  contents _ _ stored := by cases stored
  next := rfl
  fds _ := rfl
  errno := rfl

section

variable {junk : Junk} {v w : View} {r : Reference.State} {call : Call} {out : Out} {fd : Int} {f p : Nat}
  {d : Filedesc} {V W : FileView}

namespace Mirrors

theorem fail (mirrors : Mirrors v r) (code : ErrorCode) :
    Mirrors { v with ufsErrorCode := code } { r with errno := code } :=
  { mirrors with errno := rfl }

/-! ### Files -/

/-- No contents change. -/
theorem kept (mirrors : Mirrors v r) {disk' : DiskView} {names' : Name → Option Nat}
    (names : ∀ name, names' name = disk'.search name) (next : disk'.next = v.disk.next)
    (old : ∀ g U, disk'.file g = some U →
      ∃ V, v.disk.file g = some V ∧ U.bytes = V.bytes ∧ U.bytesLeft = V.bytesLeft) :
    Mirrors { v with disk := disk' } { r with names := names' } where
  names := names
  contents g U at_g := by
    obtain ⟨V, stored, bytes, left⟩ := old g U at_g
    rw [bytes, left]
    exact mirrors.contents g V stored
  next := mirrors.next.trans next.symm
  fds := mirrors.fds
  errno := mirrors.errno

theorem setRefs (mirrors : Mirrors v r) (stored : v.disk.file f = some V) (refs : Int) :
    Mirrors { v with disk := v.disk.setFile f { V with refs } } r := by
  refine mirrors.kept (fun name => ?_) rfl fun g U at_g => ?_
  · have renamed : ({ V with refs } : FileView).name = V.name := rfl
    rw [DiskView.search_setFile stored renamed, mirrors.names]
  · rw [DiskView.setFile_file] at at_g
    split at at_g
    · next here =>
      cases at_g
      exact ⟨V, by rw [here, stored], rfl, rfl⟩
    · exact ⟨U, at_g, rfl, rfl⟩

theorem collect (mirrors : Mirrors v r) (inv : v.disk.Inv) (f : Nat) :
    Mirrors { v with disk := v.disk.collect f } r := by
  refine mirrors.kept (fun name => ?_) DiskView.collect_next fun g U at_g => ⟨U, ?_, rfl, rfl⟩
  · rw [DiskView.search_collect inv, mirrors.names]
  · cases stored : v.disk.file f with
    | none => rwa [DiskView.collect, stored] at at_g
    | some V =>
      rw [DiskView.collect_file stored] at at_g
      split at at_g
      · cases at_g
      · exact at_g

theorem unlink (mirrors : Mirrors v r) (inv : v.disk.Inv) {filename : Name}
    (found : v.disk.search filename = some f) (stored : v.disk.file f = some V) :
    Mirrors { v with disk := (v.disk.unlink f).setFile f { V with inList := false } }
      { r with names := fun name => if name = filename then none else r.names name } := by
  refine mirrors.kept (fun name => ?_) rfl fun g U at_g => ?_
  · rw [DiskView.search_unlink inv found stored, mirrors.names]
  · rw [DiskView.setFile_file] at at_g
    split at at_g
    · next here =>
      cases at_g
      exact ⟨V, by rw [here, stored], rfl, rfl⟩
    · exact ⟨U, at_g, rfl, rfl⟩

/-- One file gets new contents. -/
theorem setFile (mirrors : Mirrors v r) (stored : v.disk.file f = some V) (name : W.name = V.name) {inode : Inode}
    (contents : inode = ⟨W.bytes, maxFileSize - W.bytesLeft⟩) :
    Mirrors { v with disk := v.disk.setFile f W } { r with inode := fun j => if j = f then inode else r.inode j } where
  names filename := by
    rw [DiskView.search_setFile stored name]
    exact mirrors.names filename
  contents g U at_g := by
    show (if g = f then inode else r.inode g) = _
    rw [DiskView.setFile_file] at at_g
    split at at_g
    · next here =>
      cases at_g
      rw [if_pos here, contents]
    · next other =>
      rw [if_neg other]
      exact mirrors.contents g U at_g
  next := mirrors.next
  fds := mirrors.fds
  errno := mirrors.errno

theorem write (mirrors : Mirrors v r) (inv : v.disk.Inv) {offset : Nat} {buf : List Byte}
    (stored : v.disk.file f = some V) (fits : buf.length ≤ V.bytesLeft) (written : V.write offset buf = some W) :
    Mirrors { v with disk := v.disk.setFile f W } (r.write f offset buf) := by
  obtain ⟨name, -, -, left, -⟩ := FileView.write_fields written
  have quota := inv.quota f V stored
  refine mirrors.setFile stored name ?_
  rw [mirrors.contents f V stored, FileView.write_bytes (inv.packed f V stored) written, left]
  simp only [Inode.mk.injEq]
  constructor
  · -- Beyond the end of the file the code writes at the end.
    rw [overwrite, overwrite,
      List.take_eq_take_iff.mpr (by omega : min (min offset V.bytes.length) V.bytes.length = min offset V.bytes.length)]
    by_cases inside : offset ≤ V.bytes.length
    · rw [Nat.min_eq_left inside]
    · rw [Nat.min_eq_right (by omega), List.drop_eq_nil_of_le (by omega), List.drop_eq_nil_of_le (by omega)]
  · omega

theorem resize (mirrors : Mirrors v r) (inv : v.disk.Inv) {newSize : Nat} (stored : v.disk.file f = some V)
    (resized : V.resize newSize = some W) :
    Mirrors { v with disk := v.disk.setFile f W } (r.resize f newSize) := by
  obtain ⟨name, -, -, left, -⟩ := FileView.resize_fields resized
  have bytes := FileView.resize_bytes (inv.packed f V stored) resized
  have quota := inv.quota f V stored
  refine mirrors.setFile stored name ?_
  rw [mirrors.contents f V stored, left, bytes]
  simp only [Inode.mk.injEq, true_and]
  have shorter : (V.bytes.take newSize).length ≤ V.bytes.length := List.length_take_le' ..
  omega

theorem create (mirrors : Mirrors v r) (inv : v.disk.Inv) {filename : Name} (missing : v.disk.search filename = none) :
    Mirrors { v with disk := v.disk.create filename } (r.create filename) where
  names name := by
    rw [DiskView.search_create inv missing, ← mirrors.names, ← mirrors.next]
    rfl
  contents g U at_g := by
    have file_eq : (v.disk.create filename).file g =
        if g = v.disk.next then some (.new filename) else v.disk.file g := rfl
    have inode_eq : (r.create filename).inode g =
        if g = r.next then { bytes := [], written := 0 } else r.inode g := rfl
    rw [file_eq] at at_g
    rw [inode_eq, mirrors.next]
    split at at_g
    · next here =>
      cases at_g
      simp [here, FileView.new, FileView.bytes]
    · next other =>
      rw [if_neg other]
      exact mirrors.contents g U at_g
  next := congrArg (· + 1) mirrors.next
  fds := mirrors.fds
  errno := mirrors.errno

/-! ### Descriptors -/

theorem found (mirrors : Mirrors v r) (exact : v.table.Exact) {entry : Option (Nat × Filedesc)}
    (found : v.table.lookup fd = some entry) : r.descriptor fd = entry.map fun pd => pd.2.toDescriptor := by
  obtain ⟨entry', found', handle⟩ := exact.lookup fd
  rw [found, Option.some.injEq] at found'
  subst found'
  have same : r.descriptor fd = (v.table.handle fd).map Filedesc.toDescriptor := by
    rw [Reference.State.descriptor, Table.handle]
    split
    · rfl
    · exact mirrors.fds _
  rw [same, ← handle, Option.map_map]
  rfl

theorem onTable (mirrors : Mirrors v r) {table' : Table} {fds' : List (Option Descriptor)}
    (fds : ∀ i, slotAt fds' i = (slotAt table'.handles i).map Filedesc.toDescriptor) :
    Mirrors { v with table := table' } { r with fds := fds' } :=
  { mirrors with fds := fds }

/-- An open descriptor is a place in both tables. -/
theorem place (mirrors : Mirrors v r) (found : v.table.lookup fd = some (some (p, d))) :
    fd.toNat < v.table.handles.length ∧ fd.toNat < r.fds.length := by
  have at_slot := (Table.lookup_handle found).2
  refine ⟨(List.getElem?_eq_some_iff.mp at_slot).1, ?_⟩
  by_contra beyond
  have closed := slotAt_beyond (Nat.le_of_not_lt beyond)
  rw [mirrors.fds, slotAt_eq_some.mpr at_slot] at closed
  cases closed

theorem move (mirrors : Mirrors v r) (exact : v.table.Exact) (found : v.table.lookup fd = some (some (p, d)))
    (nonneg : 0 ≤ d.offset) (n : Nat) :
    Mirrors { v with table := v.table.advance p n } (r.move fd d.toDescriptor n) := by
  obtain ⟨-, at_fd, live⟩ := Table.lookup_some found
  obtain ⟨in_handles, in_fds⟩ := mirrors.place found
  have moved : (d.offset + n).toNat = d.offset.toNat + n := by omega
  apply mirrors.onTable
  intro i
  rw [exact.advance_handles at_fd live n, slotAt_set in_fds, slotAt_set in_handles]
  split
  · simp [Filedesc.toDescriptor, moved]
  · exact mirrors.fds i

theorem close (mirrors : Mirrors v r) (exact : v.table.Exact) (inv : TableInv v.table)
    (found : v.table.lookup fd = some (some (p, d))) :
    Mirrors { v with table := v.table.close fd.toNat p } { r with fds := r.fds.set fd.toNat none } := by
  obtain ⟨in_handles, in_fds⟩ := mirrors.place found
  apply mirrors.onTable
  intro i
  rw [exact.close_handles inv found, slotAt_set in_fds, slotAt_set in_handles]
  split
  · rfl
  · exact mirrors.fds i

theorem install (mirrors : Mirrors v r) (exact : v.table.Exact) (inv : TableInv v.table) (zero : junk.ZeroSlots)
    {n : Nat} {flags : Flags} {table' : Table} (installed : v.table.install junk f flags = some (n, table')) :
    r.openInode f flags = (⟨n, [], r.errno⟩, (r.openInode f flags).2) ∧
      Mirrors { v with table := table' } (r.openInode f flags).2 := by
  obtain ⟨-, rfl, k, inside, handles⟩ := exact.install inv zero installed
  have same : lowestFree r.fds = lowestFree v.table.handles := lowestFree_congr fun i => by
    rw [mirrors.fds i, Option.map_eq_none_iff]
  have in_handles : lowestFree v.table.handles < (v.table.handles ++ List.replicate k none).length := by
    simpa using inside
  have in_fds : lowestFree v.table.handles ≤ r.fds.length := by
    rw [← same]
    exact lowestFree_le
  rw [Reference.State.openInode, same]
  refine ⟨rfl, mirrors.onTable fun i => ?_⟩
  rw [handles, slotAt_set in_handles, slotAt_append_free, slotAt_place in_fds]
  split
  · rfl
  · exact mirrors.fds i

end Mirrors

/-! ## One call -/

theorem Filedesc.toDescriptor_inode (file : d.file = some f) : d.toDescriptor.inode = f := by
  rw [toDescriptor, file]
  rfl

/-- A resize comes to its end where the model says so. -/
theorem FileView.resize_some_iff (packed : Packed blockSize V.blocks) {newSize : Nat} (some_left : 0 < newSize) :
    (∃ W, V.resize newSize = some W) ↔ newSize % blockSize = 0 ∨ newSize < V.bytes.length := by
  have never := resizeBlocks_none_iff (n := newSize) blockSize_pos packed
  have reaches : (∃ W, V.resize newSize = some W) ↔ resizeBlocks blockSize V.blocks newSize ≠ none := by
    rw [FileView.resize, if_neg fun nothing => some_left.ne' nothing.1, ← Option.ne_none_iff_exists', Ne,
      Option.map_eq_none_iff]
  rw [reaches, Ne, never]
  show _ ↔ _ ∨ newSize < V.blocks.flatten.length
  omega

theorem Refused.responds {code : ErrorCode} (why : Refused v call code) (mirrors : Mirrors v r)
    (exact : v.table.Exact) (quota : ∀ f V, v.disk.file f = some V → V.bytesLeft ≤ maxFileSize) :
    r.Ends call ∧ r.respond call = r.fail code := by
  cases why with
  | openMissing missing keep =>
    refine ⟨trivial, ?_⟩
    simp [Reference.State.respond, Reference.State.step, mirrors.names, missing, keep]
  | deleteMissing missing =>
    refine ⟨trivial, ?_⟩
    simp [Reference.State.respond, Reference.State.step, mirrors.names, missing]
  | notOpen through closed =>
    have none_there := mirrors.found exact closed
    cases call with
    | ufsOpen | ufsDelete => cases through
    | ufsWrite | ufsRead | ufsClose | ufsResize =>
      cases through
      simp [Reference.State.Ends, Reference.State.respond, Reference.State.step, none_there]
  | forbidden through found off =>
    have there := mirrors.found exact found
    cases call with
    | ufsOpen | ufsDelete => cases through
    | ufsClose => cases off
    | ufsWrite | ufsRead | ufsResize =>
      cases through
      simp only [Call.allowedBy] at off
      simp [Reference.State.Ends, Reference.State.respond, Reference.State.step, there, Filedesc.toDescriptor, off]
  | @writeTooMuch _ buf _ f d V found allowed file stored tooMuch =>
    have there := mirrors.found exact found
    have limit := quota f V stored
    refine ⟨trivial, ?_⟩
    have beyond : withinLimit (r.inode f) d.offset.toNat buf.length = false := by
      rw [withinLimit, mirrors.contents f V stored, decide_eq_false_iff_not]
      show ¬ maxFileSize - V.bytesLeft + buf.length ≤ maxFileSize
      omega
    simp [Reference.State.respond, Reference.State.step, there, Filedesc.toDescriptor, allowed, file, beyond]
  | resizeTooMuch found allowed tooMuch =>
    have there := mirrors.found exact found
    simp [Reference.State.Ends, Reference.State.respond, there, Filedesc.toDescriptor, allowed, tooMuch]

/-- Whatever the code does, the model does. -/
theorem Effect.responds (effect : Effect junk v call out w) (mirrors : Mirrors v r) (counted : v.Counted) (inv : v.Inv)
    (zero : junk.ZeroSlots) (whole : call.Whole) : ∃ r', Respond r (call, out) r' ∧ Mirrors w r' := by
  have quota : ∀ f V, v.disk.file f = some V → V.bytesLeft ≤ maxFileSize := fun f V stored =>
    Nat.le_of_add_left_le (inv.disk.quota f V stored)
  cases effect with
  | @refused _ code why =>
    obtain ⟨ends, failed⟩ := why.responds mirrors counted.exact quota
    exact ⟨_, ⟨ends, failed⟩, mirrors.fail code⟩
  | @opened filename flags f _ V _ found stored installed =>
    obtain ⟨same, opened⟩ := mirrors.install counted.exact inv.table zero installed
    refine ⟨_, ⟨trivial, ?_⟩, opened.setRefs stored (V.refs + 1)⟩
    simp only [Reference.State.respond, Reference.State.step, mirrors.names, found]
    rw [same, mirrors.errno]
  | @created filename flags _ _ missing create installed =>
    have made := mirrors.create inv.disk missing
    obtain ⟨same, opened⟩ := made.install counted.exact inv.table zero installed
    have at_next : (v.disk.create filename).file v.disk.next = some (.new filename) := if_pos rfl
    refine ⟨_, ⟨trivial, ?_⟩, opened.setRefs at_next 1⟩
    simp only [Reference.State.respond, Reference.State.step, mirrors.names, missing, create, if_true, mirrors.next]
    rw [same, ← mirrors.errno]
    rfl
  | @wrote fd buf p f d V W found allowed file stored fits written =>
    have there := mirrors.found counted.exact found
    obtain ⟨f', file', -, nonneg⟩ := inv.table.record p d (Table.lookup_some found).2.2
    have wrote := mirrors.write inv.disk stored fits written
    have within : withinLimit (r.inode f) d.offset.toNat buf.length = true := by
      have limit := quota f V stored
      rw [withinLimit, mirrors.contents f V stored, decide_eq_true_iff]
      show maxFileSize - V.bytesLeft + buf.length ≤ maxFileSize
      omega
    refine ⟨_, ⟨trivial, ?_⟩, wrote.move counted.exact found nonneg buf.length⟩
    simp [Reference.State.respond, Reference.State.step, there, Filedesc.toDescriptor, allowed, file, within,
      Reference.State.reply, Reference.State.move, Reference.State.write, mirrors.errno]
  | @read fd size p f d V bytes found allowed file stored result =>
    have there := mirrors.found counted.exact found
    obtain ⟨f', file', -, nonneg⟩ := inv.table.record p d (Table.lookup_some found).2.2
    rw [FileView.read_bytes (inv.disk.packed f V stored), toLongLong_eq whole] at result
    have result : bytes = (V.bytes.drop d.offset.toNat).take size := result
    refine ⟨_, ⟨trivial, ?_⟩, mirrors.move counted.exact found nonneg bytes.length⟩
    simp [Reference.State.respond, Reference.State.step, there, Filedesc.toDescriptor, allowed, file, result,
      mirrors.contents f V stored, Reference.State.reply, Reference.State.move, mirrors.errno]
  | @closed fd p f d V found file stored =>
    have there := mirrors.found counted.exact found
    have dropped := (mirrors.close counted.exact inv.table found).setRefs stored (V.refs - 1)
    refine ⟨_, ⟨trivial, ?_⟩, dropped.collect (inv.disk.setRefs stored _) f⟩
    simp [Reference.State.respond, Reference.State.step, there, Reference.State.reply, mirrors.errno]
  | @deleted filename f V found stored =>
    refine ⟨_, ⟨trivial, ?_⟩, (mirrors.unlink inv.disk found stored).collect (inv.disk.unlink stored) f⟩
    simp [Reference.State.respond, Reference.State.step, mirrors.names, found, Reference.State.reply, mirrors.errno]
  | @resized fd newSize p f d V W found allowed file stored small resized =>
    have there := mirrors.found counted.exact found
    refine ⟨_, ⟨?_, ?_⟩, mirrors.resize inv.disk stored resized⟩
    · intro d' at_fd _ _
      rw [there] at at_fd
      cases at_fd
      rw [Filedesc.toDescriptor_inode file, mirrors.contents f V stored]
      exact (FileView.resize_some_iff (inv.disk.packed f V stored) whole).mp ⟨W, resized⟩
    · simp [Reference.State.respond, there, Filedesc.toDescriptor, allowed, file, Nat.not_lt.mpr small,
        Reference.State.reply, Reference.State.resize, mirrors.errno]

/-- A descriptor number is free, or it leads to a stored file. -/
theorem View.Counted.lookup (counted : v.Counted) (inv : v.Inv) (fd : Int) :
    v.table.lookup fd = some none ∨ ∃ p d f V, v.table.lookup fd = some (some (p, d)) ∧ d.file = some f ∧
      v.disk.file f = some V ∧ v.disk.fileAt d.file = some (f, V) := by
  obtain ⟨entry, found, -⟩ := counted.exact.lookup fd
  cases entry with
  | none => exact .inl found
  | some pd =>
    obtain ⟨p, d⟩ := pd
    obtain ⟨f, file, -, -⟩ := inv.table.record p d (Table.lookup_some found).2.2
    cases stored : v.disk.file f with
    | none =>
      have referenced := Table.Exact.references_pos (Table.lookup_handle found).2 file
      rw [counted.held f stored] at referenced
      omega
    | some V => exact .inr ⟨p, d, f, V, found, file, stored, DiskView.fileAt_some.mpr ⟨file, stored⟩⟩

theorem View.access_found (found : v.table.lookup fd = some (some (p, d))) (opened : Nat → Filedesc → Option (Out × View)) :
    v.access fd opened = opened p d := by
  rw [access, found]

/-- Where the model has an answer, the code has one. -/
theorem Mirrors.answered (junk : Junk) (mirrors : Mirrors v r) (counted : v.Counted) (inv : v.Inv) (whole : call.Whole)
    (ends : r.Ends call) : ∃ out w, v.step junk call = some (out, w) := by
  cases call with
  | ufsOpen filename flags =>
    rw [View.step, View.ufsOpen]
    cases found : v.disk.search filename with
    | some f =>
      obtain ⟨V, stored⟩ := inv.disk.onDisk f (List.mem_of_find?_eq_some found)
      obtain ⟨n, table', installed⟩ : ∃ n t', v.table.install junk f flags = some (n, t') :=
        counted.exact.install_total inv.table f flags
      simp [View.openFile, stored, installed, View.reply]
    | none =>
      obtain ⟨n, table', installed⟩ : ∃ n t', v.table.install junk v.disk.next flags = some (n, t') :=
        counted.exact.install_total inv.table v.disk.next flags
      have at_next : (v.disk.create filename).file v.disk.next = some (.new filename) := if_pos rfl
      by_cases create : isPermitted flags ufsCreate = true
      · simp [create, View.openFile, at_next, installed, View.reply]
      · simp [create, View.fail, View.reply]
  | ufsWrite fd buf =>
    obtain closed | ⟨p, d, f, V, found, file, stored, at_file⟩ := counted.lookup inv fd
    · simp [View.step, View.ufsWrite, View.access, closed, View.fail, View.reply]
    · obtain ⟨W, written⟩ := write_total (inv.disk.packed f V stored) d.offset.toNat whole
      rw [View.step, View.ufsWrite, View.access_found found]
      split
      · exact ⟨_, _, rfl⟩
      · simp only [at_file, Option.bind_some, written]
        split
        · exact ⟨_, _, rfl⟩
        · exact ⟨_, _, rfl⟩
  | ufsRead fd size =>
    obtain closed | ⟨p, d, f, V, found, file, stored, at_file⟩ := counted.lookup inv fd
    · simp [View.step, View.ufsRead, View.access, closed, View.fail, View.reply]
    · rw [View.step, View.ufsRead, View.access_found found]
      split
      · exact ⟨_, _, rfl⟩
      · rw [at_file]
        exact ⟨_, _, rfl⟩
  | ufsClose fd =>
    obtain closed | ⟨p, d, f, V, found, file, stored, at_file⟩ := counted.lookup inv fd
    · simp [View.step, View.ufsClose, View.access, closed, View.fail, View.reply]
    · simp [View.step, View.ufsClose, View.access, found, at_file, View.reply]
  | ufsDelete filename =>
    rw [View.step, View.ufsDelete]
    cases found : v.disk.search filename with
    | none => exact ⟨_, _, rfl⟩
    | some f =>
      obtain ⟨V, stored⟩ := inv.disk.onDisk f (List.mem_of_find?_eq_some found)
      simp [stored, View.reply]
  | ufsResize fd newSize =>
    obtain closed | ⟨p, d, f, V, found, file, stored, at_file⟩ := counted.lookup inv fd
    · simp [View.step, View.ufsResize, View.access, closed, View.fail, View.reply]
    · rw [View.step, View.ufsResize, View.access_found found]
      split
      · exact ⟨_, _, rfl⟩
      · next allowed =>
        split
        · exact ⟨_, _, rfl⟩
        · next small =>
          have reached := ends _ (mirrors.found counted.exact found) (by simpa [Filedesc.toDescriptor] using allowed)
            (Nat.le_of_not_lt small)
          rw [Filedesc.toDescriptor_inode file, mirrors.contents f V stored] at reached
          obtain ⟨W, resized⟩ := (FileView.resize_some_iff (inv.disk.packed f V stored) whole).mpr reached
          simp [at_file, resized, View.reply]

/-! ## Whole runs -/

/-- The heap lays out a view which mirrors the model. -/
structure Refines (s : State) (v : View) (r : Reference.State) : Prop where
  abstracts : Abstracts s v
  counted : v.Counted
  mirrors : Mirrors v r

theorem Refines.init : Refines State.init View.init Reference.init := ⟨init_abstracts, .init, .init⟩

variable {s s' : State} {r' : Reference.State} {event : Call × Out}

namespace Refines

theorem step (refines : Refines s v r) (zero : junk.ZeroSlots) (whole : event.1.Whole) (step : Step junk s event s') :
    ∃ r' w, Respond r event r' ∧ Refines s' w r' := by
  obtain ⟨w, stepped, abstracts'⟩ := step.onView refines.abstracts
  have effect := View.step_effect stepped
  have inv := refines.abstracts.2
  obtain ⟨r', responds, mirrors'⟩ := effect.responds refines.mirrors refines.counted inv zero whole
  exact ⟨r', w, responds, abstracts', effect.counted zero inv refines.counted, mirrors'⟩

theorem back (refines : Refines s v r) (zero : junk.ZeroSlots) (whole : event.1.Whole) (responds : Respond r event r') :
    ∃ s' w, Step junk s event s' ∧ Refines s' w r' := by
  obtain ⟨call, out⟩ := event
  obtain ⟨ends, answer⟩ := responds
  obtain ⟨out', w, stepped⟩ := refines.mirrors.answered junk refines.counted refines.abstracts.2 whole ends
  have stepped : View.Step junk v (call, out') w := stepped
  obtain ⟨s', step', -⟩ := stepped.onHeap refines.abstracts
  obtain ⟨r'', w', responds', refines'⟩ : ∃ r'' w', Respond r (call, out') r'' ∧ Refines s' w' r'' :=
    refines.step zero whole step'
  rw [responds'.2] at answer
  cases answer
  exact ⟨s', w', step', refines'⟩

variable {events : List (Call × Out)}

theorem run (refines : Refines s v r) (zero : junk.ZeroSlots) (whole : ∀ event ∈ events, event.1.Whole)
    (run : Run (Step junk) s events s') : ∃ r', Run Respond r events r' ∧ ∃ w, Refines s' w r' := by
  have steps := run.mono_of_labels fun s event s' mem step => And.intro (whole event mem) step
  exact steps.simulate (R := fun s r => ∃ v, Refines s v r) ⟨v, refines⟩ fun s r event s' related step => by
    obtain ⟨v, refines⟩ := related
    obtain ⟨r', w, responds, refines'⟩ := refines.step zero step.1 step.2
    exact ⟨r', responds, w, refines'⟩

theorem run_back (refines : Refines s v r) (zero : junk.ZeroSlots) (whole : ∀ event ∈ events, event.1.Whole)
    (run : Run Respond r events r') : ∃ s', Run (Step junk) s events s' ∧ ∃ w, Refines s' w r' := by
  have steps := run.mono_of_labels fun r event r' mem responds => And.intro (whole event mem) responds
  exact steps.simulate (R := fun r s => ∃ v, Refines s v r) ⟨v, refines⟩ fun r s event r' related responds => by
    obtain ⟨v, refines⟩ := related
    obtain ⟨s', w, step', refines'⟩ := refines.back zero responds.1 responds.2
    exact ⟨s', step', w, refines'⟩

end Refines

/-- The code and the model have the same runs, whatever the calls. -/
theorem whole_api {events : List (Call × Out)} (zero : junk.ZeroSlots) (whole : ∀ event ∈ events, event.1.Whole) :
    (∃ s, Run (Step junk) State.init events s) ↔ ∃ r, Run Respond Reference.init events r := by
  constructor
  · rintro ⟨s, run⟩
    obtain ⟨r, responses, -⟩ := Refines.init.run zero whole run
    exact ⟨r, responses⟩
  · rintro ⟨r, run⟩
    obtain ⟨s, steps, -⟩ := Refines.init.run_back zero whole run
    exact ⟨s, steps⟩

-- Behind a shrink the first descriptor stands beyond the end: it reads nothing and writes at the end.
theorem whole_api_shrunk : ∃ s, Run (Step Junk.zero) State.init
    [(.ufsOpen [97] 1, ⟨0, [], .noErr⟩), (.ufsWrite 0 [1, 2, 3], ⟨3, [], .noErr⟩),
     (.ufsResize 0 2, ⟨0, [], .noErr⟩), (.ufsRead 0 8, ⟨0, [], .noErr⟩), (.ufsWrite 0 [4], ⟨1, [], .noErr⟩),
     (.ufsOpen [97] 0, ⟨1, [], .noErr⟩), (.ufsRead 1 8, ⟨3, [1, 2, 4], .noErr⟩)] s := by
  have whole : ∀ call ∈ [Call.ufsOpen [97] 1, .ufsWrite 0 [1, 2, 3], .ufsResize 0 2, .ufsRead 0 8, .ufsWrite 0 [4],
      .ufsOpen [97] 0, .ufsRead 1 8], call.Whole := by
    simp [Call.Whole, Call.Plain]
  refine (whole_api (fun _ _ => rfl) fun event mem => whole event.1 (List.mem_map_of_mem mem)).mpr
    ⟨_, .cons (.next trivial ?_) (.cons (.next trivial ?_) (.cons (.next ?_ ?_)
      (.cons (.next trivial ?_) (.cons (.next trivial ?_) (.cons (.next trivial ?_)
        (.cons (.next trivial ?_) (.nil _)))))))⟩
  case refine_3 =>
    intro d at_fd _ _
    have stands : some d = some ⟨0, 3, true, true⟩ := at_fd.symm.trans (by decide +kernel)
    cases stands
    exact .inr (by decide +kernel)
  all_goals decide +kernel

end

end SysprogLabs.Userfs
