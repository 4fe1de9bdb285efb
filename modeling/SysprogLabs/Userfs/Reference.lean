import SysprogLabs.Userfs.Sharing
import Mathlib.Data.Fin.Basic

/-! # The flat reference model

What `userfs` is for: names bound to inodes, each one a plain byte sequence, and open
descriptors with a position and two permission bits.  There are no blocks, lists or
tables here, and no object is ever released.

A write must leave the inode with at most `MAX_FILE_SIZE` bytes (`fitsFile`).  The code counts
something else: `bytes_left` goes down with every write, so an overwrite uses up the limit as
well (`withinLimit`).  `Models` relates a view to a state of the reference; on zeroed memory
every call answers as the reference does with the count of the code (`Agrees`).  The two limits
admit the same writes as long as no write replaces stored bytes.
-/

namespace SysprogLabs.Userfs

namespace Reference

structure Inode where
  bytes : List Byte
  /-- The sizes of all writes so far, added up. -/
  written : Nat
  deriving DecidableEq

structure Descriptor where
  inode : Nat
  position : Nat
  canRead : Bool
  canWrite : Bool
  deriving DecidableEq

structure State where
  names : Name → Option Nat
  inode : Nat → Inode
  next : Nat
  fds : List (Option Descriptor)
  errno : ErrorCode

def init : State where
  names _ := none
  inode _ := { bytes := [], written := 0 }
  next := 0
  fds := []
  errno := .noErr

namespace State

def reply (r : State) (ret : Int) (bytes : List Byte) : Out × State := ({ ret, bytes, errno := r.errno }, r)

def fail (r : State) (code : ErrorCode) : Out × State := { r with errno := code }.reply (-1) []

def descriptor (r : State) (fd : Int) : Option Descriptor :=
  if fd < 0 then none else slotAt r.fds fd.toNat

def openInode (r : State) (inode : Nat) (flags : Flags) : Out × State :=
  let fd := lowestFree r.fds
  { r with fds := place r.fds fd { inode, position := 0, canRead := canReadWith flags,
                                   canWrite := canWriteWith flags } }.reply fd []

/-- Binds `filename` to a new empty inode. -/
def create (r : State) (filename : Name) : State :=
  { r with names := fun name => if name = filename then some r.next else r.names name
           inode := fun i => if i = r.next then { bytes := [], written := 0 } else r.inode i
           next := r.next + 1 }

/-- Moves the position of `fd` behind the `n` bytes it has just read or written. -/
def move (r : State) (fd : Int) (d : Descriptor) (n : Nat) : State :=
  { r with fds := r.fds.set fd.toNat (some { d with position := d.position + n }) }

def write (r : State) (i position : Nat) (buf : List Byte) : State :=
  { r with inode := fun j =>
      if j = i then { bytes := overwrite (r.inode i).bytes position buf
                      written := (r.inode i).written + buf.length }
      else r.inode j }

/-- One call; `accepts` decides whether a write to an inode at a position is within the size
    limit.  The reference knows no `ufs_resize`. -/
def step (accepts : Inode → Nat → Nat → Bool) (r : State) : Call → Out × State
  | .ufsOpen filename flags =>
    match r.names filename with
    | some i => r.openInode i flags
    | none =>
      if isPermitted flags ufsCreate then (r.create filename).openInode r.next flags
      else r.fail .noFile
  | .ufsWrite fd buf =>
    match r.descriptor fd with
    | none => r.fail .noFile
    | some d =>
      if d.canWrite = false then r.fail .noPermission
      else if accepts (r.inode d.inode) d.position buf.length = false then r.fail .noMem
      else ((r.write d.inode d.position buf).move fd d buf.length).reply buf.length []
  | .ufsRead fd size =>
    match r.descriptor fd with
    | none => r.fail .noFile
    | some d =>
      if d.canRead = false then r.fail .noPermission
      else
        let bytes := ((r.inode d.inode).bytes.drop d.position).take size
        (r.move fd d bytes.length).reply bytes.length bytes
  | .ufsClose fd =>
    match r.descriptor fd with
    | none => r.fail .noFile
    | some _ => { r with fds := r.fds.set fd.toNat none }.reply 0 []
  | .ufsDelete filename =>
    match r.names filename with
    | none => r.fail .noFile
    | some _ => { r with names := fun name => if name = filename then none else r.names name }.reply 0 []
  | .ufsResize _ _ => r.fail .notImplemented

/-- The state behind a sequence of calls. -/
def after (accepts : Inode → Nat → Nat → Bool) : State → List Call → State
  | r, [] => r
  | r, call :: calls => after accepts (r.step accepts call).2 calls

/-- The answers to a sequence of calls. -/
def answers (accepts : Inode → Nat → Nat → Bool) : State → List Call → List Out
  | _, [] => []
  | r, call :: calls => (r.step accepts call).1 :: answers accepts (r.step accepts call).2 calls

end State

/-- The size limit: an inode has no more than `MAX_FILE_SIZE` bytes. -/
def fitsFile (inode : Inode) (position size : Nat) : Bool :=
  min position inode.bytes.length + size ≤ maxFileSize

/-- What the code admits: no more than `MAX_FILE_SIZE` bytes are ever written to an inode. -/
def withinLimit (inode : Inode) (_ size : Nat) : Bool := inode.written + size ≤ maxFileSize

theorem fitsFile_iff {inode : Inode} {position size : Nat} :
    fitsFile inode position size = true ↔ min position inode.bytes.length + size ≤ maxFileSize := decide_eq_true_iff

theorem withinLimit_iff {inode : Inode} {position size : Nat} :
    withinLimit inode position size = true ↔ inode.written + size ≤ maxFileSize := decide_eq_true_iff

/-- The call is no write over stored bytes within the size limit. -/
def State.Appends (r : State) : Call → Prop
  | .ufsWrite fd buf => ∀ d ∈ r.descriptor fd, d.canWrite = true →
      (r.inode d.inode).bytes.length ≤ d.position ∨ maxFileSize < d.position + buf.length
  | _ => True

/-- None of the calls is one. -/
def State.AllAppend : State → List Call → Prop
  | _, [] => True
  | r, call :: calls => r.Appends call ∧ AllAppend (r.step fitsFile call).2 calls

instance State.decidableAppends (r : State) : ∀ call, Decidable (r.Appends call)
  | .ufsWrite fd buf => inferInstanceAs (Decidable (∀ d ∈ r.descriptor fd, d.canWrite = true →
      (r.inode d.inode).bytes.length ≤ d.position ∨ maxFileSize < d.position + buf.length))
  | .ufsOpen _ _ | .ufsRead _ _ | .ufsClose _ | .ufsDelete _ | .ufsResize _ _ => .isTrue trivial

instance State.decidableAllAppend : ∀ (r : State) (calls : List Call), Decidable (r.AllAppend calls)
  | _, [] => .isTrue trivial
  | r, call :: calls =>
    have := decidableAllAppend (r.step fitsFile call).2 calls
    inferInstanceAs (Decidable (r.Appends call ∧ AllAppend (r.step fitsFile call).2 calls))

end Reference

/-- The calls the reference stands for. -/
def Call.Plain : Call → Prop
  | .ufsOpen _ _ | .ufsClose _ | .ufsDelete _ => True
  | .ufsWrite _ buf => buf ≠ []
  | .ufsRead _ size => size.val < 9223372036854775808
  | .ufsResize _ _ => False

open Reference

/-! ## The simulation -/

/-- What a descriptor record stands for. -/
def Filedesc.toDescriptor (d : Filedesc) : Descriptor where
  inode := d.file.getD 0
  position := d.offset.toNat
  canRead := d.canRead
  canWrite := d.canWrite

/-- The reference state a view stands for. -/
structure Models (v : View) (r : Reference.State) : Prop where
  names : ∀ name, r.names name = v.disk.search name
  bytes : ∀ f V, v.disk.file f = some V → (r.inode f).bytes = V.bytes
  written : ∀ f V, v.disk.file f = some V → (r.inode f).written + V.bytesLeft = maxFileSize
  next : r.next = v.disk.next
  fds : ∀ i, slotAt r.fds i = (slotAt v.table.handles i).map Filedesc.toDescriptor
  /-- Without `ufs_resize` no position is behind the end of its file. -/
  inside : ∀ i d f V, slotAt v.table.handles i = some d → d.file = some f → v.disk.file f = some V →
    d.offset.toNat ≤ V.bytes.length
  errno : r.errno = v.ufsErrorCode

theorem Models.init : Models View.init Reference.init where
  names _ := rfl
  bytes _ _ stored := by cases stored
  written _ _ stored := by cases stored
  next := rfl
  fds _ := rfl
  inside _ _ _ _ _ _ stored := by cases stored
  errno := rfl

section

variable {junk : Junk} {v v' : View} {r : Reference.State} {call : Call} {out : Out}

namespace Models

theorem fail (models : Models v r) (code : ErrorCode) :
    Models { v with ufsErrorCode := code } { r with errno := code } :=
  { models with errno := rfl }

theorem descriptor (models : Models v r) (fd : Int) :
    r.descriptor fd = (v.table.handle fd).map Filedesc.toDescriptor := by
  rw [Reference.State.descriptor, Table.handle]
  split
  · rfl
  · exact models.fds _

/-- What looking a descriptor up says about the reference. -/
theorem lookup (models : Models v r) (counted : v.Counted) (inv : v.Inv) (fd : Int) :
    (v.table.lookup fd = some none ∧ r.descriptor fd = none) ∨
    ∃ p d f V, v.table.lookup fd = some (some (p, d)) ∧ d.file = some f ∧ v.disk.file f = some V ∧
      0 ≤ d.offset ∧ d.offset.toNat ≤ V.bytes.length ∧ fd.toNat < v.table.handles.length ∧
      r.descriptor fd = some d.toDescriptor := by
  have at_fd := models.descriptor fd
  obtain ⟨entry, found, handle⟩ := counted.exact.lookup fd
  rw [← handle] at at_fd
  cases entry with
  | none => exact .inl ⟨found, at_fd⟩
  | some pd =>
    obtain ⟨p, d⟩ := pd
    obtain ⟨-, -, live⟩ := Table.lookup_some found
    obtain ⟨-, at_slot⟩ := Table.lookup_handle found
    obtain ⟨f, file, -, nonneg⟩ := inv.table.record p d live
    cases stored : v.disk.file f with
    | none =>
      have referenced := Table.Exact.references_pos at_slot file
      rw [counted.held f stored] at referenced
      omega
    | some V =>
      have at_slot' : slotAt v.table.handles fd.toNat = some d := slotAt_eq_some.mpr at_slot
      exact .inr ⟨p, d, f, V, found, file, stored, nonneg, models.inside _ d f V at_slot' file stored,
        (List.getElem?_eq_some_iff.mp at_slot).1, at_fd⟩

/-- The disk changes on both sides; no file that is open gets shorter. -/
theorem onDisk (models : Models v r) {disk' : DiskView} {names' : Name → Option Nat}
    {inode' : Nat → Inode} {next' : Nat} (names : ∀ name, names' name = disk'.search name)
    (next : next' = disk'.next)
    (contents : ∀ f W, disk'.file f = some W →
      (inode' f).bytes = W.bytes ∧ (inode' f).written + W.bytesLeft = maxFileSize)
    (grows : ∀ f W, disk'.file f = some W → v.table.references f = 0 ∨
      ∃ V, v.disk.file f = some V ∧ V.bytes.length ≤ W.bytes.length) :
    Models { v with disk := disk' } { r with names := names', inode := inode', next := next' } where
  names := names
  bytes f W stored := (contents f W stored).1
  written f W stored := (contents f W stored).2
  next := next
  fds := models.fds
  inside i d f W at_i file stored := by
    obtain unopened | ⟨V, stored', le⟩ := grows f W stored
    · have referenced : 0 < v.table.references f :=
        Table.Exact.references_pos (slotAt_eq_some.mp at_i) file
      omega
    · exact Nat.le_trans (models.inside i d f V at_i file stored') le
  errno := models.errno

theorem contents (models : Models v r) {f : Nat} {V : FileView} (stored : v.disk.file f = some V) :
    (r.inode f).bytes = V.bytes ∧ (r.inode f).written + V.bytesLeft = maxFileSize :=
  ⟨models.bytes f V stored, models.written f V stored⟩

/-- Counting descriptors is not visible. -/
theorem setRefs (models : Models v r) {f : Nat} {V : FileView}
    (stored : v.disk.file f = some V) (refs : Int) :
    Models { v with disk := v.disk.setFile f { V with refs } } r := by
  have old : ∀ g W, (v.disk.setFile f { V with refs }).file g = some W →
      ∃ U, v.disk.file g = some U ∧ W.bytes = U.bytes ∧ W.bytesLeft = U.bytesLeft := by
    intro g W at_g
    rw [DiskView.setFile_file] at at_g
    split at at_g
    · next here =>
      cases at_g
      exact ⟨V, by rw [here]; exact stored, rfl, rfl⟩
    · exact ⟨W, at_g, rfl, rfl⟩
  apply models.onDisk
  · intro name
    rw [models.names]
    have renamed : ({ V with refs } : FileView).name = V.name := rfl
    exact (DiskView.search_setFile stored renamed name).symm
  · exact models.next
  · intro g W at_g
    obtain ⟨U, at_g, bytes, left⟩ := old g W at_g
    rw [bytes, left]
    exact models.contents at_g
  · intro g W at_g
    obtain ⟨U, at_g, bytes, -⟩ := old g W at_g
    exact .inr ⟨U, at_g, by rw [bytes]⟩

/-- Releasing a file without a name and descriptors is not visible. -/
theorem collect (models : Models v r) (inv : v.disk.Inv) (f : Nat) :
    Models { v with disk := v.disk.collect f } r := by
  have old : ∀ g W, (v.disk.collect f).file g = some W → v.disk.file g = some W := by
    intro g W at_g
    cases stored : v.disk.file f with
    | none => rwa [DiskView.collect, stored] at at_g
    | some V =>
      rw [DiskView.collect_file stored] at at_g
      split at at_g
      · cases at_g
      · exact at_g
  apply models.onDisk
  · exact fun name => (models.names name).trans (DiskView.search_collect inv f name).symm
  · exact models.next.trans DiskView.collect_next.symm
  · exact fun g W at_g => models.contents (old g W at_g)
  · exact fun g W at_g => .inr ⟨W, old g W at_g, Nat.le_refl _⟩

theorem create (models : Models v r) (counted : v.Counted) (inv : v.disk.Inv) {filename : Name}
    (missing : v.disk.search filename = none) :
    Models { v with disk := v.disk.create filename } (r.create filename) := by
  have next := models.next
  have file_eq : ∀ g, (v.disk.create filename).file g =
      if g = v.disk.next then some (.new filename) else v.disk.file g := fun _ => rfl
  apply models.onDisk
  · intro name
    rw [DiskView.search_create inv missing, ← models.names, ← next]
  · exact congrArg (· + 1) next
  · intro g W at_g
    rw [file_eq] at at_g
    rw [next]
    split at at_g
    · next here =>
      cases at_g
      rw [if_pos here]
      simp [FileView.new, FileView.bytes]
    · next other =>
      rw [if_neg other]
      exact models.contents at_g
  · intro g W at_g
    rw [file_eq] at at_g
    split at at_g
    · next here => exact .inl (counted.held g (by rw [here]; exact inv.fresh _ (Nat.le_refl _)))
    · exact .inr ⟨W, at_g, Nat.le_refl _⟩

theorem unlink (models : Models v r) (inv : v.disk.Inv) {filename : Name} {f : Nat}
    {V : FileView} (found : v.disk.search filename = some f) (stored : v.disk.file f = some V) :
    Models { v with disk := (v.disk.unlink f).setFile f { V with inList := false } }
      { r with names := fun name => if name = filename then none else r.names name } := by
  have old : ∀ g W, ((v.disk.unlink f).setFile f { V with inList := false }).file g = some W →
      ∃ U, v.disk.file g = some U ∧ W.bytes = U.bytes ∧ W.bytesLeft = U.bytesLeft := by
    intro g W at_g
    rw [DiskView.setFile_file] at at_g
    split at at_g
    · next here =>
      cases at_g
      exact ⟨V, by rw [here]; exact stored, rfl, rfl⟩
    · exact ⟨W, at_g, rfl, rfl⟩
  apply models.onDisk
  · intro name
    rw [DiskView.search_unlink inv found stored, ← models.names]
  · exact models.next
  · intro g W at_g
    obtain ⟨U, at_g, bytes, left⟩ := old g W at_g
    rw [bytes, left]
    exact models.contents at_g
  · intro g W at_g
    obtain ⟨U, at_g, bytes, -⟩ := old g W at_g
    exact .inr ⟨U, at_g, by rw [bytes]⟩

theorem write (models : Models v r) (inv : v.disk.Inv) {f offset : Nat}
    {V V' : FileView} {buf : List Byte} (stored : v.disk.file f = some V) (inside : offset ≤ V.bytes.length)
    (fits : buf.length ≤ V.bytesLeft) (written : V.write offset buf = some V') :
    Models { v with disk := v.disk.setFile f V' } (r.write f offset buf) := by
  obtain ⟨name, -, -, left, -⟩ := FileView.write_fields written
  have packed := inv.packed f V stored
  have bytes := FileView.write_bytes packed written
  have length := FileView.write_length packed written
  obtain ⟨same, limit⟩ := models.contents stored
  rw [Nat.min_eq_left inside] at bytes
  apply models.onDisk
  · intro filename
    rw [DiskView.search_setFile stored name]
    exact models.names filename
  · exact models.next
  · intro g W at_g
    rw [DiskView.setFile_file] at at_g
    split at at_g
    · next here =>
      cases at_g
      rw [if_pos here]
      exact ⟨by rw [bytes, same], by simp only; omega⟩
    · next other =>
      rw [if_neg other]
      exact models.contents at_g
  · intro g W at_g
    rw [DiskView.setFile_file] at at_g
    split at at_g
    · next here =>
      cases at_g
      exact .inr ⟨V, by rw [here]; exact stored, by rw [length]; exact Nat.le_max_left _ _⟩
    · exact .inr ⟨W, at_g, Nat.le_refl _⟩

/-! ### Descriptors -/

/-- The descriptors change on both sides. -/
theorem onTable (models : Models v r) {table' : Table} {fds' : List (Option Descriptor)}
    (fds : ∀ i, slotAt fds' i = (slotAt table'.handles i).map Filedesc.toDescriptor)
    (inside : ∀ i d f V, slotAt table'.handles i = some d → d.file = some f → v.disk.file f = some V →
      d.offset.toNat ≤ V.bytes.length) :
    Models { v with table := table' } { r with fds := fds' } :=
  { models with fds := fds, inside := inside }

theorem lowestFree_eq (models : Models v r) : lowestFree r.fds = lowestFree v.table.handles := by
  apply lowestFree_congr
  intro i
  rw [models.fds i, Option.map_eq_none_iff]

theorem move (models : Models v r) (exact : v.table.Exact) {fd : Int} {p : Nat} {d : Filedesc}
    (found : v.table.lookup fd = some (some (p, d))) (nonneg : 0 ≤ d.offset) (n : Nat)
    (fits : ∀ f V, d.file = some f → v.disk.file f = some V → d.offset.toNat + n ≤ V.bytes.length) :
    Models { v with table := v.table.advance p n } (r.move fd d.toDescriptor n) := by
  obtain ⟨-, at_fd, live⟩ := Table.lookup_some found
  have at_slot := (Table.lookup_handle found).2
  have handles := exact.advance_handles at_fd live n
  have moved : (d.offset + n).toNat = d.offset.toNat + n := by omega
  have in_handles := (List.getElem?_eq_some_iff.mp at_slot).1
  have in_fds : fd.toNat < r.fds.length := by
    by_contra beyond
    have closed := slotAt_beyond (Nat.le_of_not_lt beyond)
    rw [models.fds, slotAt_eq_some.mpr at_slot] at closed
    cases closed
  apply models.onTable
  · intro i
    rw [handles, slotAt_set in_fds, slotAt_set in_handles]
    split
    · simp [Filedesc.toDescriptor, moved]
    · exact models.fds i
  · intro i e f V at_i file stored
    rw [handles, slotAt_set in_handles] at at_i
    split at at_i
    · cases at_i
      rw [moved]
      exact fits f V file stored
    · exact models.inside i e f V at_i file stored

theorem close (models : Models v r) (exact : v.table.Exact) (inv : TableInv v.table) {fd : Int} {p : Nat} {d : Filedesc}
    (found : v.table.lookup fd = some (some (p, d))) :
    Models { v with table := v.table.close fd.toNat p } { r with fds := r.fds.set fd.toNat none } := by
  have at_slot := (Table.lookup_handle found).2
  have handles := exact.close_handles inv found
  have in_handles := (List.getElem?_eq_some_iff.mp at_slot).1
  have in_fds : fd.toNat < r.fds.length := by
    by_contra beyond
    have closed := slotAt_beyond (Nat.le_of_not_lt beyond)
    rw [models.fds, slotAt_eq_some.mpr at_slot] at closed
    cases closed
  apply models.onTable
  · intro i
    rw [handles, slotAt_set in_fds, slotAt_set in_handles]
    split
    · rfl
    · exact models.fds i
  · intro i e f V at_i file stored
    rw [handles, slotAt_set in_handles] at at_i
    split at at_i
    · cases at_i
    · exact models.inside i e f V at_i file stored

theorem install (models : Models v r) (exact : v.table.Exact) (inv : TableInv v.table) (zero : junk.ZeroSlots)
    {f n : Nat} {flags : Flags} {table' : Table} (installed : v.table.install junk f flags = some (n, table')) :
    n = lowestFree r.fds ∧ Models { v with table := table' } (r.openInode f flags).2 := by
  obtain ⟨-, rfl, k, inside, handles⟩ := exact.install inv zero installed
  have in_handles : lowestFree v.table.handles < (v.table.handles ++ List.replicate k none).length := by
    simpa using inside
  refine ⟨models.lowestFree_eq.symm, ?_⟩
  rw [Reference.State.openInode, models.lowestFree_eq]
  apply models.onTable
  · intro i
    rw [handles, slotAt_set in_handles, slotAt_append_free, slotAt_place]
    · split
      · rfl
      · exact models.fds i
    · rw [← models.lowestFree_eq]
      exact lowestFree_le
  · intro i e g V at_i file stored
    rw [handles, slotAt_set in_handles, slotAt_append_free] at at_i
    split at at_i
    · cases at_i
      exact Nat.zero_le _
    · exact models.inside i e g V at_i file stored

end Models

/-! ## One call -/

/-- A view answers a call as the reference does. -/
def Agrees (junk : Junk) (v : View) (r : Reference.State) (call : Call) : Prop :=
  ∃ v', v.step junk call = some ((r.step withinLimit call).1, v') ∧
    Models v' (r.step withinLimit call).2

theorem agrees_reply {v' : View} {r' : Reference.State} (ret : Int) (bytes : List Byte) (models : Models v' r')
    (answered : v.step junk call = v'.reply ret bytes)
    (answered' : r.step withinLimit call = r'.reply ret bytes) : Agrees junk v r call := by
  rw [Agrees, answered, answered']
  exact ⟨v', by rw [View.reply, Reference.State.reply, models.errno], models⟩

theorem agrees_fail (models : Models v r) (code : ErrorCode) (failed : v.step junk call = v.fail code)
    (failed' : r.step withinLimit call = r.fail code) : Agrees junk v r call :=
  agrees_reply (-1) [] (models.fail code) failed failed'

theorem openFile_agrees (models : Models v r) (exact : v.table.Exact) (inv : TableInv v.table)
    (zero : junk.ZeroSlots) {f : Nat} {V : FileView} (stored : v.disk.file f = some V) (flags : Flags) :
    ∃ v', v.openFile junk f flags = some ((r.openInode f flags).1, v') ∧
      Models v' (r.openInode f flags).2 := by
  obtain ⟨n, table', installed⟩ := exact.install_total inv f flags
  obtain ⟨rfl, opened⟩ := models.install exact inv zero installed
  have counted : Models { v with disk := v.disk.setFile f { V with refs := V.refs + 1 }, table := table' }
      (r.openInode f flags).2 := opened.setRefs stored (V.refs + 1)
  refine ⟨_, ?_, counted⟩
  simp only [View.openFile, stored, Option.bind_some, installed, View.reply, Reference.State.openInode,
    Reference.State.reply, models.errno]

theorem ufsOpen_agrees (models : Models v r) (counted : v.Counted) (inv : v.Inv) (zero : junk.ZeroSlots)
    (filename : Name) (flags : Flags) : Agrees junk v r (.ufsOpen filename flags) := by
  have same := models.names filename
  simp only [Agrees, View.step, View.ufsOpen, Reference.State.step, same]
  cases found : v.disk.search filename with
  | some f =>
    obtain ⟨V, stored⟩ := inv.disk.onDisk f (List.mem_of_find?_eq_some found)
    exact openFile_agrees models counted.exact inv.table zero stored flags
  | none =>
    simp only
    split
    · have created := models.create counted inv.disk found
      have at_next : (v.disk.create filename).file v.disk.next = some (.new filename) := if_pos rfl
      rw [models.next]
      exact openFile_agrees created counted.exact inv.table zero at_next flags
    · exact ⟨_, rfl, models.fail .noFile⟩

/-- Writing something always leaves a block. -/
theorem write_total {V : FileView} (packed : Packed blockSize V.blocks) (offset : Nat) {buf : List Byte}
    (nonempty : buf ≠ []) : ∃ V', V.write offset buf = some V' := by
  rw [FileView.write, if_neg]
  · exact ⟨_, rfl⟩
  · intro empty
    have bytes := writeBlocks_flatten blockSize_pos packed offset buf
    rw [empty, List.flatten_nil] at bytes
    simp [overwrite] at bytes
    exact nonempty bytes.2.1

theorem ufsWrite_agrees (models : Models v r) (counted : v.Counted) (inv : v.Inv) (fd : Int)
    {buf : List Byte} (nonempty : buf ≠ []) : Agrees junk v r (.ufsWrite fd buf) := by
  obtain ⟨closed, closed'⟩ | ⟨p, d, f, V, found, file, stored, nonneg, inside, -, found'⟩ :=
    models.lookup counted inv fd
  · apply agrees_fail models .noFile
    · simp [View.step, View.ufsWrite, View.access, closed]
    · simp [Reference.State.step, closed']
  have at_file : v.disk.fileAt d.file = some (f, V) := DiskView.fileAt_some.mpr ⟨file, stored⟩
  have inode : d.toDescriptor.inode = f := by rw [Filedesc.toDescriptor, file]; rfl
  have canWrite : d.toDescriptor.canWrite = d.canWrite := rfl
  have position : d.toDescriptor.position = d.offset.toNat := rfl
  by_cases allowed : d.canWrite = false
  · apply agrees_fail models .noPermission
    · simp [View.step, View.ufsWrite, View.access, found, allowed]
    · simp [Reference.State.step, found', canWrite, allowed]
  -- The size limit is what `bytes_left` leaves.
  have limit := models.written f V stored
  have accepted : withinLimit (r.inode f) d.offset.toNat buf.length = decide (buf.length ≤ V.bytesLeft) := by
    rw [withinLimit, decide_eq_decide]
    omega
  by_cases tooMuch : V.bytesLeft < buf.length
  · have refused : ¬ buf.length ≤ V.bytesLeft := Nat.not_le_of_lt tooMuch
    apply agrees_fail models .noMem
    · simp [View.step, View.ufsWrite, View.access, found, allowed, at_file, tooMuch]
    · simp [Reference.State.step, found', canWrite, allowed, inode, position, accepted, tooMuch]
  have fits := Nat.le_of_not_lt tooMuch
  have packed := inv.disk.packed f V stored
  obtain ⟨V', written⟩ := write_total packed d.offset.toNat nonempty
  have length := FileView.write_length packed written
  rw [Nat.min_eq_left inside] at length
  have wrote := models.write inv.disk stored inside fits written
  have moved := wrote.move counted.exact found nonneg buf.length fun g W file' stored' => by
    rw [file] at file'
    cases file'
    have stored' : (v.disk.setFile f V').file f = some W := stored'
    rw [DiskView.setFile_stored] at stored'
    cases stored'
    omega
  apply agrees_reply buf.length [] moved
  · simp [View.step, View.ufsWrite, View.access, found, allowed, at_file, tooMuch, written]
  · simp [Reference.State.step, found', canWrite, allowed, inode, position, accepted, fits]

theorem ufsRead_agrees (models : Models v r) (counted : v.Counted) (inv : v.Inv) (fd : Int) {size : SizeT}
    (small : size.val < 9223372036854775808) : Agrees junk v r (.ufsRead fd size) := by
  obtain ⟨closed, closed'⟩ | ⟨p, d, f, V, found, file, stored, nonneg, inside, -, found'⟩ :=
    models.lookup counted inv fd
  · apply agrees_fail models .noFile
    · simp [View.step, View.ufsRead, View.access, closed]
    · simp [Reference.State.step, closed']
  have at_file : v.disk.fileAt d.file = some (f, V) := DiskView.fileAt_some.mpr ⟨file, stored⟩
  have inode : d.toDescriptor.inode = f := by rw [Filedesc.toDescriptor, file]; rfl
  have canRead : d.toDescriptor.canRead = d.canRead := rfl
  have position : d.toDescriptor.position = d.offset.toNat := rfl
  by_cases allowed : d.canRead = false
  · apply agrees_fail models .noPermission
    · simp [View.step, View.ufsRead, View.access, found, allowed]
    · simp [Reference.State.step, found', canRead, allowed]
  have bytes : V.read d.offset.toNat size = ((r.inode f).bytes.drop d.offset.toNat).take size := by
    rw [FileView.read_bytes (inv.disk.packed f V stored), toLongLong_eq small, models.bytes f V stored]
    rfl
  have moved := models.move counted.exact found nonneg (V.read d.offset.toNat size).length fun g W file' stored' => by
    rw [file] at file'
    cases file'
    rw [stored] at stored'
    cases stored'
    rw [bytes, models.bytes f V stored, List.length_take, List.length_drop]
    omega
  apply agrees_reply (V.read d.offset.toNat size).length (V.read d.offset.toNat size) moved
  · simp [View.step, View.ufsRead, View.access, found, allowed, at_file]
  · simp [Reference.State.step, found', canRead, allowed, inode, position, bytes]

theorem ufsClose_agrees (models : Models v r) (counted : v.Counted) (inv : v.Inv) (fd : Int) :
    Agrees junk v r (.ufsClose fd) := by
  obtain ⟨closed, closed'⟩ | ⟨p, d, f, V, found, file, stored, nonneg, inside, -, found'⟩ :=
    models.lookup counted inv fd
  · apply agrees_fail models .noFile
    · simp [View.step, View.ufsClose, View.access, closed]
    · simp [Reference.State.step, closed']
  have at_file : v.disk.fileAt d.file = some (f, V) := DiskView.fileAt_some.mpr ⟨file, stored⟩
  have dropped := (models.close counted.exact inv.table found).setRefs stored (V.refs - 1)
  have collected := dropped.collect (inv.disk.setRefs stored _) f
  apply agrees_reply 0 [] collected
  · simp [View.step, View.ufsClose, View.access, found, at_file]
  · simp [Reference.State.step, found']

theorem ufsDelete_agrees (models : Models v r) (inv : v.Inv) (filename : Name) :
    Agrees junk v r (.ufsDelete filename) := by
  have same := models.names filename
  cases found : v.disk.search filename with
  | none =>
    apply agrees_fail models .noFile
    · simp [View.step, View.ufsDelete, found]
    · simp [Reference.State.step, same, found]
  | some f =>
    obtain ⟨V, stored⟩ := inv.disk.onDisk f (List.mem_of_find?_eq_some found)
    have deleted := (models.unlink inv.disk found stored).collect (inv.disk.unlink stored) f
    apply agrees_reply 0 [] deleted
    · simp [View.step, View.ufsDelete, found, stored]
    · simp [Reference.State.step, same, found]

theorem step_agrees (models : Models v r) (counted : v.Counted) (inv : v.Inv) (zero : junk.ZeroSlots)
    (plain : call.Plain) : Agrees junk v r call := by
  cases call with
  | ufsOpen filename flags => exact ufsOpen_agrees models counted inv zero filename flags
  | ufsWrite fd buf => exact ufsWrite_agrees models counted inv fd plain
  | ufsRead fd size => exact ufsRead_agrees models counted inv fd plain
  | ufsClose fd => exact ufsClose_agrees models counted inv fd
  | ufsDelete filename => exact ufsDelete_agrees models inv filename
  | ufsResize fd newSize => exact absurd plain id

/-! ## Whole runs -/

theorem run_agrees {s : State} {calls : List Call} (abstracts : Abstracts s v) (counted : v.Counted)
    (models : Models v r) (zero : junk.ZeroSlots) (plain : ∀ call ∈ calls, call.Plain) :
    ∃ s', Run (Step junk) s (calls.zip (r.answers withinLimit calls)) s' := by
  induction calls generalizing s v r with
  | nil => exact ⟨s, .nil s⟩
  | cons call calls ih =>
    obtain ⟨v', stepped, models'⟩ := step_agrees models counted abstracts.2 zero
      (plain call List.mem_cons_self)
    have step : v.Step junk (call, (r.step withinLimit call).1) v' := stepped
    obtain ⟨s', step', abstracts'⟩ := step.onHeap abstracts
    have counted' := (View.step_effect stepped).counted zero abstracts.2 counted
    obtain ⟨s'', rest⟩ := ih abstracts' counted' models'
      fun call mem => plain call (List.mem_cons_of_mem _ mem)
    exact ⟨s'', .cons step' rest⟩

/-- The answers are those of the reference that counts like the code. -/
theorem answers_within_limit (junk : Junk) (calls : List Call) (zero : junk.ZeroSlots)
    (plain : ∀ call ∈ calls, call.Plain) :
    ∃ s, Run (Step junk) State.init (calls.zip (Reference.init.answers withinLimit calls)) s :=
  run_agrees init_abstracts .init .init zero plain

/-! ## Both limits -/

/-- As many bytes were written to each inode as it has. -/
def Reference.State.Exact (r : Reference.State) : Prop := ∀ i, (r.inode i).written = (r.inode i).bytes.length

namespace Reference.State

theorem Exact.write (exact : r.Exact) {i position : Nat} {buf : List Byte} (behind : (r.inode i).bytes.length ≤ position) :
    (r.write i position buf).Exact := by
  intro j
  simp only [State.write]
  split
  · have written := exact i
    rw [overwrite, List.take_of_length_le behind, List.drop_eq_nil_of_le (Nat.le_add_right_of_le behind),
      List.append_nil, List.length_append, written]
  · exact exact j

theorem Exact.create (exact : r.Exact) (filename : Name) : (r.create filename).Exact := by
  intro j
  simp only [State.create]
  split
  · rfl
  · exact exact j

/-- A write behind the end, or one that is too much in any case. -/
theorem Exact.admits (exact : r.Exact) {d : Descriptor} {size : Nat}
    (appends : (r.inode d.inode).bytes.length ≤ d.position ∨ maxFileSize < d.position + size) :
    fitsFile (r.inode d.inode) d.position size = withinLimit (r.inode d.inode) d.position size := by
  have written := exact d.inode
  rw [Bool.eq_iff_iff, fitsFile_iff, withinLimit_iff]
  omega

/-- As long as nothing is replaced, both limits admit the same. -/
theorem Exact.step (exact : r.Exact) (appends : r.Appends call) :
    r.step fitsFile call = r.step withinLimit call ∧ (r.step fitsFile call).2.Exact := by
  cases call with
  | ufsOpen filename flags =>
    refine ⟨rfl, ?_⟩
    simp only [State.step]
    split
    · exact exact
    · split
      · exact exact.create filename
      · exact exact
  | ufsWrite fd buf =>
    simp only [State.step]
    split
    · exact ⟨rfl, exact⟩
    next d found =>
      by_cases allowed : d.canWrite = false
      · rw [if_pos allowed, if_pos allowed]
        exact ⟨rfl, exact⟩
      · have here := appends d found (Bool.not_eq_false _ ▸ allowed)
        rw [if_neg allowed, if_neg allowed, ← exact.admits here]
        refine ⟨rfl, ?_⟩
        split
        · exact exact
        next fits =>
          -- It is admitted, so it is behind the end.
          have behind : (r.inode d.inode).bytes.length ≤ d.position := by
            rw [Bool.not_eq_false, fitsFile_iff] at fits
            omega
          exact exact.write behind
  | ufsRead fd size =>
    refine ⟨rfl, ?_⟩
    simp only [State.step]
    split
    · exact exact
    · split <;> exact exact
  | ufsClose fd =>
    refine ⟨rfl, ?_⟩
    simp only [State.step]
    split <;> exact exact
  | ufsDelete filename =>
    refine ⟨rfl, ?_⟩
    simp only [State.step]
    split <;> exact exact
  | ufsResize fd newSize => exact ⟨rfl, exact⟩

theorem Exact.answers {calls : List Call} (exact : r.Exact) (appends : r.AllAppend calls) :
    r.answers fitsFile calls = r.answers withinLimit calls := by
  induction calls generalizing r with
  | nil => rfl
  | cons call calls ih =>
    obtain ⟨same, exact'⟩ := exact.step appends.1
    rw [State.answers, State.answers, ih exact' appends.2, same]

end Reference.State

/-- On zeroed memory every sequence of calls in which no write replaces stored bytes is answered as
    the reference answers it. -/
theorem answers_as_reference (junk : Junk) (calls : List Call) (zero : junk.ZeroSlots)
    (plain : ∀ call ∈ calls, call.Plain) (appends : Reference.init.AllAppend calls) :
    ∃ s, Run (Step junk) State.init (calls.zip (Reference.init.answers fitsFile calls)) s := by
  rw [Reference.State.Exact.answers (fun _ => rfl) appends]
  exact answers_within_limit junk calls zero plain

theorem answers_as_reference_shared : ∃ s, Run (Step Junk.zero) State.init
    [(.ufsOpen [97] 1, ⟨0, [], .noErr⟩), (.ufsWrite 0 [1, 2], ⟨2, [], .noErr⟩), (.ufsWrite 0 [3], ⟨1, [], .noErr⟩),
     (.ufsOpen [97] 0, ⟨1, [], .noErr⟩), (.ufsDelete [97], ⟨0, [], .noErr⟩), (.ufsOpen [97] 1, ⟨2, [], .noErr⟩),
     (.ufsRead 2 8, ⟨0, [], .noErr⟩), (.ufsRead 1 8, ⟨3, [1, 2, 3], .noErr⟩)] s := by
  obtain ⟨s, run⟩ := answers_as_reference Junk.zero
    [.ufsOpen [97] 1, .ufsWrite 0 [1, 2], .ufsWrite 0 [3], .ufsOpen [97] 0, .ufsDelete [97], .ufsOpen [97] 1,
      .ufsRead 2 8, .ufsRead 1 8] (fun _ _ => rfl) (by simp [Call.Plain]) (by decide +kernel)
  have answers : Reference.init.answers fitsFile
      [.ufsOpen [97] 1, .ufsWrite 0 [1, 2], .ufsWrite 0 [3], .ufsOpen [97] 0, .ufsDelete [97], .ufsOpen [97] 1,
        .ufsRead 2 8, .ufsRead 1 8] =
      [⟨0, [], .noErr⟩, ⟨2, [], .noErr⟩, ⟨1, [], .noErr⟩, ⟨1, [], .noErr⟩, ⟨0, [], .noErr⟩, ⟨2, [], .noErr⟩,
        ⟨0, [], .noErr⟩, ⟨3, [1, 2, 3], .noErr⟩] := by
    decide +kernel
  rw [answers] at run
  exact ⟨s, run⟩

/-! ## Where they differ -/

theorem answers_unique {s s₁ s₂ : State} {calls : List Call} {outs₁ outs₂ : List Out}
    (length₁ : outs₁.length = calls.length) (length₂ : outs₂.length = calls.length)
    (run₁ : Run (Step junk) s (calls.zip outs₁) s₁) (run₂ : Run (Step junk) s (calls.zip outs₂) s₂) :
    outs₁ = outs₂ := by
  induction calls generalizing s outs₁ outs₂ with
  | nil =>
    rw [List.eq_nil_of_length_eq_zero length₁, List.eq_nil_of_length_eq_zero length₂]
  | cons call calls ih =>
    cases outs₁ with
    | nil => cases length₁
    | cons out₁ outs₁ =>
      cases outs₂ with
      | nil => cases length₂
      | cons out₂ outs₂ =>
        cases run₁ with
        | cons first₁ rest₁ =>
          cases run₂ with
          | cons first₂ rest₂ =>
            obtain ⟨rfl, rfl⟩ := Prog.Returns.unique first₁ first₂
            rw [ih (Nat.succ.inj length₁) (Nat.succ.inj length₂) rest₁ rest₂]

namespace Reference.State

variable {accepts accepts' : Inode → Nat → Nat → Bool}

theorem answers_length (r : Reference.State) (calls : List Call) :
    (r.answers accepts calls).length = calls.length := by
  induction calls generalizing r with
  | nil => rfl
  | cons call calls ih => rw [answers, List.length_cons, ih, List.length_cons]

theorem answers_append (r : Reference.State) (calls : List Call) (call : Call) :
    r.answers accepts (calls ++ [call]) =
      r.answers accepts calls ++ [((r.after accepts calls).step accepts call).1] := by
  induction calls generalizing r with
  | nil => rfl
  | cons c calls ih => rw [List.cons_append, answers, answers, ih, after, List.cons_append]

/-- What the answer to a write says about its acceptance. -/
theorem write_accepted {r : Reference.State} {fd : Int} {d : Descriptor} {buf : List Byte}
    (found : r.descriptor fd = some d) (allowed : d.canWrite = true) :
    accepts (r.inode d.inode) d.position buf.length = true ↔
      (r.step accepts (.ufsWrite fd buf)).1.ret ≠ -1 := by
  simp only [step, found, allowed, Bool.true_eq_false, if_false]
  cases accepts (r.inode d.inode) d.position buf.length with
  | false => simp [fail, reply]
  | true =>
    simp only [Bool.true_eq_false, if_false, true_iff]
    show (buf.length : Int) ≠ -1
    omega

end Reference.State

end

/-- The second descriptor writes over what the first one has written, and then `buf`. -/
def overwriting (buf : List Byte) : List Call :=
  [.ufsOpen [97] 1, .ufsWrite 0 [1, 2, 3], .ufsOpen [97] 0, .ufsWrite 1 [4, 5, 6]] ++ [.ufsWrite 1 buf]

-- The last write would leave the file with two bytes less than `MAX_FILE_SIZE`.
theorem overwrite_disagrees : Junk.zero.ZeroSlots ∧
    (∀ call ∈ overwriting (List.replicate (maxFileSize - 5) 0), call.Plain) ∧
    ¬ ∃ s, Run (Step Junk.zero) State.init ((overwriting (List.replicate (maxFileSize - 5) 0)).zip
      (Reference.init.answers fitsFile (overwriting (List.replicate (maxFileSize - 5) 0)))) s := by
  have size := maxFileSize_eq
  have length : (List.replicate (maxFileSize - 5) (0 : Byte)).length = maxFileSize - 5 := List.length_replicate
  generalize List.replicate (maxFileSize - 5) (0 : Byte) = buf at length
  have nonempty : buf ≠ [] := by
    rintro rfl
    rw [List.length_nil] at length
    omega
  have plain : ∀ call ∈ overwriting buf, call.Plain := by simp [overwriting, Call.Plain, nonempty]
  refine ⟨fun _ _ => rfl, plain, fun agrees => ?_⟩
  obtain ⟨s₁, run₁⟩ := agrees
  obtain ⟨s₂, run₂⟩ := answers_within_limit Junk.zero _ (fun _ _ => rfl) plain
  have same := answers_unique (Reference.State.answers_length _ _) (Reference.State.answers_length _ _) run₁ run₂
  rw [overwriting, Reference.State.answers_append, Reference.State.answers_append] at same
  have last := congrArg List.getLast? same
  rw [List.getLast?_concat, List.getLast?_concat, Option.some.injEq] at last
  generalize before : [Call.ufsOpen [97] 1, .ufsWrite 0 [1, 2, 3], .ufsOpen [97] 0, .ufsWrite 1 [4, 5, 6]] = calls at last
  have found : (Reference.init.after fitsFile calls).descriptor 1 = some ⟨0, 3, true, true⟩ := by
    rw [← before]
    decide +kernel
  have found' : (Reference.init.after withinLimit calls).descriptor 1 = some ⟨0, 3, true, true⟩ := by
    rw [← before]
    decide +kernel
  have inode : (Reference.init.after fitsFile calls).inode 0 = ⟨[4, 5, 6], 6⟩ := by
    rw [← before]
    decide +kernel
  have inode' : (Reference.init.after withinLimit calls).inode 0 = ⟨[4, 5, 6], 6⟩ := by
    rw [← before]
    decide +kernel
  have accepted : fitsFile ⟨[4, 5, 6], 6⟩ 3 buf.length = true := by
    refine Reference.fitsFile_iff.mpr ?_
    rw [length, size]
    decide
  have refused : ¬ withinLimit ⟨[4, 5, 6], 6⟩ 3 buf.length = true := by
    refine fun fits => absurd (Reference.withinLimit_iff.mp fits) ?_
    rw [length, size]
    decide
  rw [← inode, Reference.State.write_accepted found rfl, last] at accepted
  rw [← inode', Reference.State.write_accepted found' rfl] at refused
  exact refused accepted

end SysprogLabs.Userfs
