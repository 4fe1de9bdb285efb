import SysprogLabs.Userfs.Contents
import SysprogLabs.Userfs.Table

/-! # The calls of the API on views

A `Call` is one call of the API with its arguments, an `Out` what the caller sees of
it, the error code included.  `View.step` is the effect of a call on a view, where a
file is its name, the contents of its blocks and its counters; `none` means that the
code does not return.  `Effect` lists what a step can do, one constructor for each
way through the code, and `View.Inv` is the invariant all of them keep.
-/

namespace SysprogLabs.Userfs

/-- A `size_t` argument. -/
abbrev SizeT := Fin 18446744073709551616

inductive Call where
  | ufsOpen (filename : Name) (flags : Flags)
  | ufsWrite (fd : Int) (buf : List Byte)
  | ufsRead (fd : Int) (size : SizeT)
  | ufsClose (fd : Int)
  | ufsDelete (filename : Name)
  | ufsResize (fd : Int) (newSize : SizeT)

/-- The return value, the bytes stored in the caller's buffer, and `ufs_errno()` afterwards. -/
structure Out where
  ret : Int
  bytes : List Byte
  errno : ErrorCode
  deriving DecidableEq

variable (junk : Junk)

/-! ## Views -/

structure View where
  disk : DiskView
  table : Table
  ufsErrorCode : ErrorCode

/-- The file a pointer leads to. -/
def DiskView.fileAt (v : DiskView) (file : Ptr) : Option (Nat × FileView) :=
  file.bind fun f => (v.file f).map (f, ·)

/-- Releases the file `f` if nothing refers to it any more. -/
def DiskView.collect (v : DiskView) (f : Nat) : DiskView :=
  match v.file f with
  | some V => if V.refs = 0 ∧ V.inList = false then v.release f else v
  | none => v

namespace View

def init : View where
  disk := { file := fun _ => none, next := 0, order := [] }
  table := State.init.table
  ufsErrorCode := .noErr

def reply (v : View) (ret : Int) (bytes : List Byte) : Option (Out × View) :=
  some ({ ret, bytes, errno := v.ufsErrorCode }, v)

def fail (v : View) (code : ErrorCode) : Option (Out × View) :=
  { v with ufsErrorCode := code }.reply (-1) []

/-- The descriptor `fd` is looked up first; a wild pointer in its slot is followed. -/
def access (v : View) (fd : Int) (open' : Nat → Filedesc → Option (Out × View)) : Option (Out × View) :=
  match v.table.lookup fd with
  | none => none
  | some none => v.fail .noFile
  | some (some (p, r)) => open' p r

def openFile (v : View) (f : Nat) (flags : Flags) : Option (Out × View) :=
  (v.disk.file f).bind fun V =>
    (v.table.install junk f flags).bind fun (fd, table) =>
      { v with disk := v.disk.setFile f { V with refs := V.refs + 1 }, table }.reply fd []

def ufsOpen (v : View) (filename : Name) (flags : Flags) : Option (Out × View) :=
  match v.disk.search filename with
  | some f => v.openFile junk f flags
  | none =>
    if isPermitted flags ufsCreate then
      { v with disk := v.disk.create filename }.openFile junk v.disk.next flags
    else v.fail .noFile

def ufsWrite (v : View) (fd : Int) (buf : List Byte) : Option (Out × View) :=
  v.access fd fun p r =>
    if r.canWrite = false then v.fail .noPermission
    else (v.disk.fileAt r.file).bind fun (f, V) =>
      if buf.length > V.bytesLeft then v.fail .noMem
      else (V.write r.offset.toNat buf).bind fun V' =>
        { v with disk := v.disk.setFile f V'
                 table := v.table.advance p buf.length }.reply buf.length []

def ufsRead (v : View) (fd : Int) (size : Nat) : Option (Out × View) :=
  v.access fd fun p r =>
    if r.canRead = false then v.fail .noPermission
    else (v.disk.fileAt r.file).bind fun (_, V) =>
      let bytes := V.read r.offset.toNat size
      { v with table := v.table.advance p bytes.length }.reply bytes.length bytes

def ufsClose (v : View) (fd : Int) : Option (Out × View) :=
  v.access fd fun p r =>
    (v.disk.fileAt r.file).bind fun (f, V) =>
      { v with disk := (v.disk.setFile f { V with refs := V.refs - 1 }).collect f
               table := v.table.close fd.toNat p }.reply 0 []

def ufsDelete (v : View) (filename : Name) : Option (Out × View) :=
  match v.disk.search filename with
  | none => v.fail .noFile
  | some f => (v.disk.file f).bind fun V =>
    { v with disk := ((v.disk.unlink f).setFile f { V with inList := false }).collect f }.reply 0 []

def ufsResize (v : View) (fd : Int) (newSize : Nat) : Option (Out × View) :=
  v.access fd fun _ r =>
    if r.canWrite = false then v.fail .noPermission
    else if newSize > maxFileSize then v.fail .noMem
    else (v.disk.fileAt r.file).bind fun (f, V) =>
      (V.resize newSize).bind fun V' => { v with disk := v.disk.setFile f V' }.reply 0 []

/-- The effect of a call; `none` when it does not return. -/
def step (v : View) : Call → Option (Out × View)
  | .ufsOpen filename flags => v.ufsOpen junk filename flags
  | .ufsWrite fd buf => v.ufsWrite fd buf
  | .ufsRead fd size => v.ufsRead fd size
  | .ufsClose fd => v.ufsClose fd
  | .ufsDelete filename => v.ufsDelete filename
  | .ufsResize fd newSize => v.ufsResize fd newSize

/-! ## What a step can do -/

end View

/-! ## What a step can do -/

/-- The descriptor a call goes through. -/
def Call.fd : Call → Option Int
  | .ufsOpen _ _ | .ufsDelete _ => none
  | .ufsWrite fd _ | .ufsRead fd _ | .ufsClose fd | .ufsResize fd _ => some fd

/-- The permission bit a call needs. -/
def Call.allowedBy : Call → Filedesc → Bool
  | .ufsWrite _ _ | .ufsResize _ _ => Filedesc.canWrite
  | .ufsRead _ _ => Filedesc.canRead
  | .ufsOpen _ _ | .ufsDelete _ | .ufsClose _ => fun _ => true

/-- Why a call fails, and with which code. -/
inductive Refused (v : View) : Call → ErrorCode → Prop where
  | openMissing {filename : Name} {flags : Flags} (missing : v.disk.search filename = none)
      (keep : isPermitted flags ufsCreate = false) : Refused v (.ufsOpen filename flags) .noFile
  | deleteMissing {filename : Name} (missing : v.disk.search filename = none) :
      Refused v (.ufsDelete filename) .noFile
  | notOpen {call : Call} {fd : Int} (through : call.fd = some fd)
      (closed : v.table.lookup fd = some none) : Refused v call .noFile
  | forbidden {call : Call} {fd : Int} {p : Nat} {r : Filedesc} (through : call.fd = some fd)
      (found : v.table.lookup fd = some (some (p, r))) (off : call.allowedBy r = false) :
      Refused v call .noPermission
  | writeTooMuch {fd : Int} {buf : List Byte} {p f : Nat} {r : Filedesc} {V : FileView}
      (found : v.table.lookup fd = some (some (p, r))) (allowed : r.canWrite = true)
      (file : r.file = some f) (stored : v.disk.file f = some V) (tooMuch : V.bytesLeft < buf.length) :
      Refused v (.ufsWrite fd buf) .noMem
  | resizeTooMuch {fd : Int} {newSize : SizeT} {p : Nat} {r : Filedesc}
      (found : v.table.lookup fd = some (some (p, r))) (allowed : r.canWrite = true)
      (tooMuch : maxFileSize < newSize) : Refused v (.ufsResize fd newSize) .noMem

/-- Everything a step can do. -/
inductive Effect (v : View) : Call → Out → View → Prop where
  | refused {call : Call} {code : ErrorCode} (why : Refused v call code) :
      Effect v call { ret := -1, bytes := [], errno := code } { v with ufsErrorCode := code }
  | opened {filename : Name} {flags : Flags} {f fd : Nat} {V : FileView} {table : Table}
      (found : v.disk.search filename = some f) (stored : v.disk.file f = some V)
      (installed : v.table.install junk f flags = some (fd, table)) :
      Effect v (.ufsOpen filename flags) { ret := fd, bytes := [], errno := v.ufsErrorCode }
        { v with disk := v.disk.setFile f { V with refs := V.refs + 1 }, table }
  | created {filename : Name} {flags : Flags} {fd : Nat} {table : Table}
      (missing : v.disk.search filename = none) (create : isPermitted flags ufsCreate = true)
      (installed : v.table.install junk v.disk.next flags = some (fd, table)) :
      Effect v (.ufsOpen filename flags) { ret := fd, bytes := [], errno := v.ufsErrorCode }
        { v with disk := (v.disk.create filename).setFile v.disk.next { FileView.new filename with refs := 1 }
                 table }
  | wrote {fd : Int} {buf : List Byte} {p f : Nat} {r : Filedesc} {V V' : FileView}
      (found : v.table.lookup fd = some (some (p, r))) (allowed : r.canWrite = true)
      (file : r.file = some f) (stored : v.disk.file f = some V) (fits : buf.length ≤ V.bytesLeft)
      (written : V.write r.offset.toNat buf = some V') :
      Effect v (.ufsWrite fd buf) { ret := buf.length, bytes := [], errno := v.ufsErrorCode }
        { v with disk := v.disk.setFile f V', table := v.table.advance p buf.length }
  | read {fd : Int} {size : SizeT} {p f : Nat} {r : Filedesc} {V : FileView} {bytes : List Byte}
      (found : v.table.lookup fd = some (some (p, r))) (allowed : r.canRead = true)
      (file : r.file = some f) (stored : v.disk.file f = some V)
      (result : bytes = V.read r.offset.toNat size) :
      Effect v (.ufsRead fd size) { ret := bytes.length, bytes, errno := v.ufsErrorCode }
        { v with table := v.table.advance p bytes.length }
  | closed {fd : Int} {p f : Nat} {r : Filedesc} {V : FileView}
      (found : v.table.lookup fd = some (some (p, r))) (file : r.file = some f)
      (stored : v.disk.file f = some V) :
      Effect v (.ufsClose fd) { ret := 0, bytes := [], errno := v.ufsErrorCode }
        { v with disk := (v.disk.setFile f { V with refs := V.refs - 1 }).collect f
                 table := v.table.close fd.toNat p }
  | deleted {filename : Name} {f : Nat} {V : FileView} (found : v.disk.search filename = some f)
      (stored : v.disk.file f = some V) :
      Effect v (.ufsDelete filename) { ret := 0, bytes := [], errno := v.ufsErrorCode }
        { v with disk := ((v.disk.unlink f).setFile f { V with inList := false }).collect f }
  | resized {fd : Int} {newSize : SizeT} {p f : Nat} {r : Filedesc} {V V' : FileView}
      (found : v.table.lookup fd = some (some (p, r))) (allowed : r.canWrite = true)
      (file : r.file = some f) (stored : v.disk.file f = some V) (small : newSize ≤ maxFileSize)
      (resized : V.resize newSize = some V') :
      Effect v (.ufsResize fd newSize) { ret := 0, bytes := [], errno := v.ufsErrorCode }
        { v with disk := v.disk.setFile f V' }

variable {junk} {v v' : View} {call : Call} {out : Out}

theorem DiskView.fileAt_some {v : DiskView} {file : Ptr} {f : Nat} {V : FileView} :
    v.fileAt file = some (f, V) ↔ file = some f ∧ v.file f = some V := by
  cases file with
  | none => simp [DiskView.fileAt]
  | some g =>
    simp only [DiskView.fileAt, Option.bind_some, Option.map_eq_some_iff, Prod.mk.injEq, Option.some.injEq]
    constructor
    · rintro ⟨W, stored, same, same'⟩
      subst same same'
      exact ⟨rfl, stored⟩
    · rintro ⟨same, stored⟩
      subst same
      exact ⟨V, stored, rfl, rfl⟩

theorem View.access_some {fd : Int} {opened : Nat → Filedesc → Option (Out × View)} {r : Out × View}
    (result : v.access fd opened = some r) :
    (v.table.lookup fd = some none ∧ v.fail .noFile = some r) ∨
      ∃ p d, v.table.lookup fd = some (some (p, d)) ∧ opened p d = some r := by
  simp only [View.access] at result
  split at result
  · cases result
  · next closed => exact .inl ⟨closed, result⟩
  · next p d found => exact .inr ⟨p, d, found, result⟩

theorem View.fail_effect {code : ErrorCode} (why : Refused v call code)
    (result : v.fail code = some (out, v')) : Effect junk v call out v' := by
  cases result
  exact .refused why

theorem View.reply_effect {ret : Int} {bytes : List Byte} {w : View}
    (effect : Effect junk v call { ret, bytes, errno := w.ufsErrorCode } w)
    (result : w.reply ret bytes = some (out, v')) : Effect junk v call out v' := by
  cases result
  exact effect

theorem View.step_effect (stepped : v.step junk call = some (out, v')) : Effect junk v call out v' := by
  cases call with
  | ufsOpen filename flags =>
    simp only [step, ufsOpen] at stepped
    split at stepped
    · next f found =>
      obtain ⟨V, stored, stepped⟩ := Option.bind_eq_some_iff.mp stepped
      obtain ⟨r, installed, stepped⟩ := Option.bind_eq_some_iff.mp stepped
      exact reply_effect (.opened found stored installed) stepped
    next missing =>
      split at stepped
      · next create =>
        obtain ⟨V, stored, stepped⟩ := Option.bind_eq_some_iff.mp stepped
        obtain ⟨r, installed, stepped⟩ := Option.bind_eq_some_iff.mp stepped
        simp only [DiskView.create, DiskView.alloc, if_true, Option.some.injEq] at stored
        subst stored
        exact reply_effect (.created missing create installed) stepped
      · next keep => exact fail_effect (.openMissing missing (Bool.eq_false_iff.mpr keep)) stepped
  | ufsWrite fd buf =>
    obtain ⟨closed, failed⟩ | ⟨p, r, found, stepped⟩ := access_some stepped
    · exact fail_effect (.notOpen rfl closed) failed
    split at stepped
    · next off => exact fail_effect (.forbidden rfl found off) stepped
    next allowed =>
      rw [Bool.not_eq_false] at allowed
      obtain ⟨⟨f, V⟩, at_file, stepped⟩ := Option.bind_eq_some_iff.mp stepped
      obtain ⟨file, stored⟩ := DiskView.fileAt_some.mp at_file
      simp only at stepped
      split at stepped
      · next tooMuch => exact fail_effect (.writeTooMuch found allowed file stored tooMuch) stepped
      · next fits =>
        obtain ⟨V', written, stepped⟩ := Option.bind_eq_some_iff.mp stepped
        exact reply_effect (.wrote found allowed file stored (Nat.le_of_not_lt fits) written) stepped
  | ufsRead fd size =>
    obtain ⟨closed, failed⟩ | ⟨p, r, found, stepped⟩ := access_some stepped
    · exact fail_effect (.notOpen rfl closed) failed
    split at stepped
    · next off => exact fail_effect (.forbidden rfl found off) stepped
    next allowed =>
      rw [Bool.not_eq_false] at allowed
      obtain ⟨⟨f, V⟩, at_file, stepped⟩ := Option.bind_eq_some_iff.mp stepped
      obtain ⟨file, stored⟩ := DiskView.fileAt_some.mp at_file
      exact reply_effect (.read found allowed file stored rfl) stepped
  | ufsClose fd =>
    obtain ⟨closed, failed⟩ | ⟨p, r, found, stepped⟩ := access_some stepped
    · exact fail_effect (.notOpen rfl closed) failed
    obtain ⟨⟨f, V⟩, at_file, stepped⟩ := Option.bind_eq_some_iff.mp stepped
    obtain ⟨file, stored⟩ := DiskView.fileAt_some.mp at_file
    exact reply_effect (.closed found file stored) stepped
  | ufsDelete filename =>
    simp only [step, ufsDelete] at stepped
    split at stepped
    · next missing => exact fail_effect (.deleteMissing missing) stepped
    · next f found =>
      obtain ⟨V, stored, stepped⟩ := Option.bind_eq_some_iff.mp stepped
      exact reply_effect (.deleted found stored) stepped
  | ufsResize fd newSize =>
    obtain ⟨closed, failed⟩ | ⟨p, r, found, stepped⟩ := access_some stepped
    · exact fail_effect (.notOpen rfl closed) failed
    split at stepped
    · next off => exact fail_effect (.forbidden rfl found off) stepped
    next allowed =>
      rw [Bool.not_eq_false] at allowed
      split at stepped
      · next tooMuch => exact fail_effect (.resizeTooMuch found allowed tooMuch) stepped
      next small =>
        obtain ⟨⟨f, V⟩, at_file, stepped⟩ := Option.bind_eq_some_iff.mp stepped
        obtain ⟨file, stored⟩ := DiskView.fileAt_some.mp at_file
        obtain ⟨V', resized, stepped⟩ := Option.bind_eq_some_iff.mp stepped
        exact reply_effect (.resized found allowed file stored (Nat.le_of_not_lt small) resized) stepped

/-- A step can do all of it. -/
theorem Effect.stepped (effect : Effect junk v call out v') : v.step junk call = some (out, v') := by
  cases effect with
  | refused why =>
    cases why with
    | openMissing missing keep => simp [View.step, View.ufsOpen, missing, keep, View.fail, View.reply]
    | deleteMissing missing => simp [View.step, View.ufsDelete, missing, View.fail, View.reply]
    | notOpen through closed =>
      cases call with
      | ufsOpen | ufsDelete => cases through
      | _ =>
        cases through
        simp [View.step, View.ufsWrite, View.ufsRead, View.ufsClose, View.ufsResize, View.access, closed,
          View.fail, View.reply]
    | forbidden through found off =>
      cases call with
      | ufsOpen | ufsDelete => cases through
      | ufsClose => cases off
      | _ =>
        cases through
        simp only [Call.allowedBy] at off
        simp [View.step, View.ufsWrite, View.ufsRead, View.ufsResize, View.access, found, off, View.fail, View.reply]
    | writeTooMuch found allowed file stored tooMuch =>
      simp [View.step, View.ufsWrite, View.access, found, allowed, DiskView.fileAt, file, stored, tooMuch, View.fail,
        View.reply]
    | resizeTooMuch found allowed tooMuch =>
      simp [View.step, View.ufsResize, View.access, found, allowed, tooMuch, View.fail, View.reply]
  | opened found stored installed =>
    simp [View.step, View.ufsOpen, View.openFile, found, stored, installed, View.reply]
  | created missing create installed =>
    simp [View.step, View.ufsOpen, View.openFile, missing, create, installed, View.reply, DiskView.create,
      DiskView.alloc, FileView.new]
  | wrote found allowed file stored fits written =>
    simp [View.step, View.ufsWrite, View.access, found, allowed, DiskView.fileAt, file, stored,
      Nat.not_lt.mpr fits, written, View.reply]
  | read found allowed file stored result =>
    simp [View.step, View.ufsRead, View.access, found, allowed, DiskView.fileAt, file, stored, result, View.reply]
  | closed found file stored =>
    simp [View.step, View.ufsClose, View.access, found, DiskView.fileAt, file, stored, View.reply]
  | deleted found stored => simp [View.step, View.ufsDelete, found, stored, View.reply]
  | resized found allowed file stored small resized =>
    simp [View.step, View.ufsResize, View.access, found, allowed, DiskView.fileAt, file, stored,
      Nat.not_lt.mpr small, resized, View.reply]

/-! ## The invariant -/

/-- What holds of every disk: packed blocks, a quota that cannot wrap, and a `file_list`
    that agrees with the flags, without two files of one name. -/
structure DiskView.Inv (v : DiskView) : Prop where
  packed : ∀ f V, v.file f = some V → Packed blockSize V.blocks
  quota : ∀ f V, v.file f = some V → V.bytes.length + V.bytesLeft ≤ maxFileSize
  listed : ∀ f V, v.file f = some V → (V.inList = true ↔ f ∈ v.order)
  onDisk : ∀ f ∈ v.order, ∃ V, v.file f = some V
  fresh : ∀ f, v.next ≤ f → v.file f = none
  nodup : v.order.Nodup
  names : ∀ f g V W, f ∈ v.order → g ∈ v.order → v.file f = some V → v.file g = some W →
    V.name = W.name → f = g

structure View.Inv (v : View) : Prop where
  disk : v.disk.Inv
  table : TableInv v.table

namespace FileView

variable {V V' : FileView} {offset newSize : Nat} {buf : List Byte}

theorem write_fields (written : V.write offset buf = some V') :
    V'.name = V.name ∧ V'.refs = V.refs ∧ V'.inList = V.inList ∧
      V'.bytesLeft = V.bytesLeft - buf.length ∧
      V'.blocks = writeBlocks blockSize V.blocks offset buf := by
  simp only [write] at written
  split at written
  · cases written
  · cases written
    exact ⟨rfl, rfl, rfl, rfl, rfl⟩

theorem write_packed (packed : Packed blockSize V.blocks) (written : V.write offset buf = some V') :
    Packed blockSize V'.blocks := by
  rw [(write_fields written).2.2.2.2]
  exact writeBlocks_packed blockSize_pos packed offset buf

/-- A write behind the end of the file starts at the end. -/
theorem write_bytes (packed : Packed blockSize V.blocks) (written : V.write offset buf = some V') :
    V'.bytes = overwrite V.bytes (min offset V.bytes.length) buf := by
  rw [bytes, (write_fields written).2.2.2.2]
  exact writeBlocks_flatten blockSize_pos packed offset buf

theorem write_length (packed : Packed blockSize V.blocks) (written : V.write offset buf = some V') :
    V'.bytes.length = max V.bytes.length (min offset V.bytes.length + buf.length) := by
  rw [write_bytes packed written, length_overwrite (Nat.min_le_right _ _)]

theorem resize_fields (resized : V.resize newSize = some V') :
    V'.name = V.name ∧ V'.refs = V.refs ∧ V'.inList = V.inList ∧
      V'.bytesLeft = maxFileSize - V'.bytes.length ∧
      resizeBlocks blockSize V.blocks newSize = some V'.blocks := by
  simp only [resize] at resized
  split at resized
  · cases resized
  · obtain ⟨blocks, cut, same⟩ := Option.map_eq_some_iff.mp resized
    subst same
    exact ⟨rfl, rfl, rfl, rfl, cut⟩

theorem resize_packed (packed : Packed blockSize V.blocks) (resized : V.resize newSize = some V') :
    Packed blockSize V'.blocks :=
  resizeBlocks_packed blockSize_pos packed (resize_fields resized).2.2.2.2

theorem resize_bytes (packed : Packed blockSize V.blocks) (resized : V.resize newSize = some V') :
    V'.bytes = V.bytes.take newSize :=
  resizeBlocks_flatten blockSize_pos packed (resize_fields resized).2.2.2.2

theorem read_bytes (packed : Packed blockSize V.blocks) (offset size : Nat) :
    V.read offset size = (V.bytes.drop offset).take (toLongLong size).toNat :=
  readBlocks_eq blockSize_pos packed offset _

end FileView

namespace DiskView

variable {v : DiskView} {f : Nat} {V V' : FileView}

/-- `search_file` finds a listed file of that name. -/
theorem search_some {filename : Name} (found : v.search filename = some f) (stored : v.file f = some V) :
    f ∈ v.order ∧ V.name = filename := by
  have named := List.find?_some found
  rw [stored] at named
  exact ⟨List.mem_of_find?_eq_some found, by simpa using named⟩

theorem search_none {filename : Name} (missing : v.search filename = none) (listed : f ∈ v.order)
    (stored : v.file f = some V) : V.name ≠ filename := by
  have other := List.find?_eq_none.mp missing f listed
  rw [stored] at other
  simpa using other

/-- Nothing but the file itself is released, and only without a name and descriptors. -/
theorem collect_file (stored : v.file f = some V) (g : Nat) :
    (v.collect f).file g = if g = f ∧ V.refs = 0 ∧ V.inList = false then none else v.file g := by
  rw [collect, stored]
  simp only
  by_cases unreferenced : V.refs = 0 ∧ V.inList = false
  · simp [DiskView.release, unreferenced]
  · simp [unreferenced]

@[simp] theorem collect_next : (v.collect f).next = v.next := by
  unfold collect
  split
  · split <;> rfl
  · rfl

@[simp] theorem collect_order : (v.collect f).order = v.order := by
  unfold collect
  split
  · split <;> rfl
  · rfl

/-- Searching only looks at the names of the listed files. -/
theorem search_congr {v' : DiskView} (order : v'.order = v.order)
    (names : ∀ g ∈ v.order, (v'.file g).map FileView.name = (v.file g).map FileView.name) (filename : Name) :
    v'.search filename = v.search filename := by
  rw [search, search, order]
  have named : ∀ g ∈ v.order, ((v'.file g).any fun V => V.name = filename) =
      (v.file g).any fun V => V.name = filename := by
    intro g listed
    have same := congrArg (Option.any fun name => decide (name = filename)) (names g listed)
    rwa [Option.any_map, Option.any_map] at same
  generalize v.order = l at named
  induction l with
  | nil => rfl
  | cons g l ih =>
    rw [List.find?_cons, List.find?_cons, named g List.mem_cons_self,
      ih fun h listed => named h (List.mem_cons_of_mem g listed)]

theorem search_setFile (stored : v.file f = some V) (name : V'.name = V.name) (filename : Name) :
    (v.setFile f V').search filename = v.search filename := by
  refine search_congr setFile_order (fun g _ => ?_) filename
  rw [setFile_file]
  split
  · next here => rw [here, stored, Option.map_some, Option.map_some, name]
  · rfl

namespace Inv

/-- A file that keeps its name and its place in the list may change. -/
theorem setFile (inv : v.Inv) (stored : v.file f = some V) (name : V'.name = V.name)
    (inList : V'.inList = V.inList) (packed : Packed blockSize V'.blocks)
    (quota : V'.bytes.length + V'.bytesLeft ≤ maxFileSize) : (v.setFile f V').Inv := by
  have old : ∀ g W, (v.setFile f V').file g = some W →
      ∃ U, v.file g = some U ∧ W.name = U.name ∧ W.inList = U.inList := by
    intro g W at_g
    rw [setFile_file] at at_g
    split at at_g
    · next here =>
      cases at_g
      exact ⟨V, by rw [here]; exact stored, name, inList⟩
    · exact ⟨W, at_g, rfl, rfl⟩
  constructor
  · intro g W at_g
    rw [setFile_file] at at_g
    split at at_g
    · cases at_g
      exact packed
    · exact inv.packed g W at_g
  · intro g W at_g
    rw [setFile_file] at at_g
    split at at_g
    · cases at_g
      exact quota
    · exact inv.quota g W at_g
  · intro g W at_g
    obtain ⟨U, at_g, -, same⟩ := old g W at_g
    rw [same]
    exact inv.listed g U at_g
  · intro g listed
    obtain ⟨W, at_g⟩ := inv.onDisk g listed
    rw [setFile_file]
    split
    · exact ⟨V', rfl⟩
    · exact ⟨W, at_g⟩
  · intro g beyond
    rw [setFile_file, if_neg, inv.fresh g beyond]
    intro here
    rw [here] at beyond
    rw [inv.fresh f beyond] at stored
    cases stored
  · exact inv.nodup
  · intro g h W X listed_g listed_h at_g at_h same
    obtain ⟨W₀, at_g, name_g, -⟩ := old g W at_g
    obtain ⟨X₀, at_h, name_h, -⟩ := old h X at_h
    exact inv.names g h W₀ X₀ listed_g listed_h at_g at_h (by rw [← name_g, ← name_h, same])

/-- Only the counters change. -/
theorem setRefs (inv : v.Inv) (stored : v.file f = some V) (refs : Int) :
    (v.setFile f { V with refs }).Inv :=
  inv.setFile stored rfl rfl (inv.packed f V stored) (inv.quota f V stored)

theorem create (inv : v.Inv) {filename : Name} (missing : v.search filename = none) :
    (v.create filename).Inv := by
  have fresh := inv.fresh v.next (Nat.le_refl _)
  have old_ne : ∀ g ∈ v.order, g ≠ v.next := by
    intro g listed same
    obtain ⟨W, at_g⟩ := inv.onDisk g listed
    rw [same, fresh] at at_g
    cases at_g
  have file_eq : ∀ g, (v.create filename).file g =
      if g = v.next then some (.new filename) else v.file g := fun _ => rfl
  have order_eq : (v.create filename).order = v.order ++ [v.next] := rfl
  constructor
  · intro g W at_g
    rw [file_eq] at at_g
    split at at_g
    · cases at_g
      trivial
    · exact inv.packed g W at_g
  · intro g W at_g
    rw [file_eq] at at_g
    split at at_g
    · cases at_g
      simp [FileView.new, FileView.bytes]
    · exact inv.quota g W at_g
  · intro g W at_g
    rw [file_eq] at at_g
    rw [order_eq, List.mem_append, List.mem_singleton]
    split at at_g
    · next here =>
      cases at_g
      simp [FileView.new, here]
    · next other =>
      rw [inv.listed g W at_g]
      simp [other]
  · intro g listed
    rw [file_eq]
    split
    · exact ⟨_, rfl⟩
    · next other =>
      rw [order_eq, List.mem_append, List.mem_singleton] at listed
      exact inv.onDisk g (listed.resolve_right other)
  · intro g beyond
    have beyond : v.next + 1 ≤ g := beyond
    rw [file_eq, if_neg (by omega)]
    exact inv.fresh g (by omega)
  · rw [order_eq, List.nodup_append]
    refine ⟨inv.nodup, by simp, fun g listed h mem => ?_⟩
    rw [List.mem_singleton.mp mem]
    exact old_ne g listed
  · -- Two files of one name: both are old, as no old one has the name of the new one.
    intro g h W X listed_g listed_h at_g at_h same
    rw [file_eq] at at_g at_h
    rw [order_eq, List.mem_append, List.mem_singleton] at listed_g listed_h
    split at at_g
    · next here =>
      split at at_h
      · next here' => exact here.trans here'.symm
      · next other =>
        cases at_g
        exact absurd same.symm (search_none missing (listed_h.resolve_right other) at_h)
    · next other =>
      split at at_h
      · cases at_h
        exact absurd same (search_none missing (listed_g.resolve_right other) at_g)
      · next other' =>
        exact inv.names g h W X (listed_g.resolve_right other) (listed_h.resolve_right other') at_g at_h same

theorem unlink (inv : v.Inv) (stored : v.file f = some V) :
    ((v.unlink f).setFile f { V with inList := false }).Inv := by
  have file_eq : ∀ g, ((v.unlink f).setFile f { V with inList := false }).file g =
      if g = f then some { V with inList := false } else v.file g := fun _ => rfl
  have order_eq : ((v.unlink f).setFile f { V with inList := false }).order = v.order.erase f := rfl
  have other : ∀ g ∈ v.order.erase f, g ≠ f ∧ g ∈ v.order := fun g listed =>
    (inv.nodup.mem_erase_iff).mp listed
  constructor
  · intro g W at_g
    rw [file_eq] at at_g
    split at at_g
    · cases at_g
      exact inv.packed f V stored
    · exact inv.packed g W at_g
  · intro g W at_g
    rw [file_eq] at at_g
    split at at_g
    · cases at_g
      exact inv.quota f V stored
    · exact inv.quota g W at_g
  · intro g W at_g
    rw [file_eq] at at_g
    rw [order_eq, inv.nodup.mem_erase_iff]
    split at at_g
    · next here =>
      cases at_g
      simp [here]
    · next other =>
      rw [inv.listed g W at_g]
      simp [other]
  · intro g listed
    rw [file_eq, if_neg (other g listed).1]
    exact inv.onDisk g (other g listed).2
  · intro g beyond
    rw [file_eq, if_neg, inv.fresh g beyond]
    intro here
    rw [here] at beyond
    rw [inv.fresh f beyond] at stored
    cases stored
  · rw [order_eq]
    exact inv.nodup.erase f
  · intro g h W X listed_g listed_h at_g at_h same
    rw [file_eq, if_neg (other g listed_g).1] at at_g
    rw [file_eq, if_neg (other h listed_h).1] at at_h
    exact inv.names g h W X (other g listed_g).2 (other h listed_h).2 at_g at_h same

theorem release (inv : v.Inv) (unlisted : f ∉ v.order) : (v.release f).Inv := by
  have old : ∀ g W, (v.release f).file g = some W → v.file g = some W := by
    intro g W at_g
    simp only [DiskView.release] at at_g
    split at at_g
    · cases at_g
    · exact at_g
  constructor
  · exact fun g W at_g => inv.packed g W (old g W at_g)
  · exact fun g W at_g => inv.quota g W (old g W at_g)
  · exact fun g W at_g => inv.listed g W (old g W at_g)
  · intro g listed
    obtain ⟨W, at_g⟩ := inv.onDisk g listed
    have other : g ≠ f := by
      intro same
      exact unlisted (same ▸ listed)
    exact ⟨W, by simp [DiskView.release, other, at_g]⟩
  · intro g beyond
    simp only [DiskView.release]
    split
    · rfl
    · exact inv.fresh g beyond
  · exact inv.nodup
  · exact fun g h W X listed_g listed_h at_g at_h =>
      inv.names g h W X listed_g listed_h (old g W at_g) (old h X at_h)

theorem collect (inv : v.Inv) (f : Nat) : (v.collect f).Inv := by
  simp only [DiskView.collect]
  split
  · next V stored =>
    split
    · next unreferenced =>
      apply inv.release
      rw [← inv.listed f V stored, unreferenced.2]
      exact Bool.false_ne_true
    · exact inv
  · exact inv

end Inv

/-- As names are unique, a search finds the listed file of that name. -/
theorem search_iff (inv : v.Inv) {filename : Name} :
    v.search filename = some f ↔ f ∈ v.order ∧ ∃ V, v.file f = some V ∧ V.name = filename := by
  constructor
  · intro found
    obtain ⟨V, stored⟩ := inv.onDisk f (List.mem_of_find?_eq_some found)
    obtain ⟨listed, named⟩ := search_some found stored
    exact ⟨listed, V, stored, named⟩
  · rintro ⟨listed, V, stored, named⟩
    cases found : v.search filename with
    | none => exact absurd named (search_none found listed stored)
    | some g =>
      obtain ⟨W, stored'⟩ := inv.onDisk g (List.mem_of_find?_eq_some found)
      obtain ⟨listed', named'⟩ := search_some found stored'
      rw [inv.names g f W V listed' listed stored' stored (named'.trans named.symm)]

/-- The files found once one is created. -/
theorem search_create (inv : v.Inv) {filename : Name} (missing : v.search filename = none) (name : Name) :
    (v.create filename).search name = if name = filename then some v.next else v.search name := by
  have created := inv.create missing
  have at_next : (v.create filename).file v.next = some (.new filename) := if_pos rfl
  have order : (v.create filename).order = v.order ++ [v.next] := rfl
  split
  · next same =>
    rw [search_iff created]
    exact ⟨by simp [order], _, at_next, same.symm⟩
  · next other =>
    ext f
    rw [search_iff created, search_iff inv, order, List.mem_append, List.mem_singleton]
    constructor
    · rintro ⟨listed, V, stored, named⟩
      have old : f ≠ v.next := by
        intro here
        rw [here, at_next] at stored
        cases stored
        exact other named.symm
      exact ⟨listed.resolve_right old, V, (if_neg old).symm.trans stored, named⟩
    · rintro ⟨listed, V, stored, named⟩
      have old : f ≠ v.next := by
        intro here
        rw [here, inv.fresh v.next (Nat.le_refl _)] at stored
        cases stored
      exact ⟨.inl listed, V, (if_neg old).trans stored, named⟩

/-- The files found once `f` is unlinked. -/
theorem search_unlink (inv : v.Inv) {filename : Name} (found : v.search filename = some f)
    (stored : v.file f = some V) (name : Name) :
    ((v.unlink f).setFile f { V with inList := false }).search name =
      if name = filename then none else v.search name := by
  obtain ⟨listed, named⟩ := search_some found stored
  have unlinked := inv.unlink stored
  have still : ∀ g, g ∈ ((v.unlink f).setFile f { V with inList := false }).order ↔ g ≠ f ∧ g ∈ v.order :=
    fun g => inv.nodup.mem_erase_iff
  have kept : ∀ g, g ≠ f → ((v.unlink f).setFile f { V with inList := false }).file g = v.file g :=
    fun g other => if_neg other
  ext g
  rw [search_iff unlinked, still]
  split
  · next same =>
    constructor
    · rintro ⟨⟨other, listed'⟩, W, stored', named'⟩
      rw [kept g other] at stored'
      exact absurd (inv.names g f W V listed' listed stored' stored (named'.trans (same.trans named.symm))) other
    · intro none
      cases none
  · next different =>
    rw [search_iff inv]
    constructor
    · rintro ⟨⟨other, listed'⟩, W, stored', named'⟩
      exact ⟨listed', W, (kept g other).symm.trans stored', named'⟩
    · rintro ⟨listed', W, stored', named'⟩
      have other : g ≠ f := by
        intro here
        subst here
        rw [stored] at stored'
        cases stored'
        exact different (named'.symm.trans named)
      exact ⟨⟨other, listed'⟩, W, (kept g other).trans stored', named'⟩

theorem search_collect (inv : v.Inv) (f : Nat) (name : Name) : (v.collect f).search name = v.search name := by
  ext g
  rw [search_iff (inv.collect f), search_iff inv, collect_order]
  apply and_congr_right
  intro listed
  have kept : (v.collect f).file g = v.file g := by
    cases stored : v.file f with
    | none => rw [collect, stored]
    | some V =>
      rw [collect_file stored, if_neg]
      rintro ⟨here, _, off⟩
      subst here
      rw [(inv.listed g V stored).mpr listed] at off
      cases off
  rw [kept]

end DiskView

namespace View

theorem init_inv : init.Inv where
  disk := by
    refine ⟨?_, ?_, ?_, ?_, fun _ _ => rfl, .nil, ?_⟩
    · exact fun _ _ stored => by cases stored
    · exact fun _ _ stored => by cases stored
    · exact fun _ _ stored => by cases stored
    · exact fun _ listed => by cases listed
    · exact fun _ _ _ _ listed => by cases listed
  table := ⟨.inl ⟨rfl, rfl⟩, fun _ _ live => by cases live⟩

end View

/-- Every step keeps the invariant. -/
theorem Effect.inv (effect : Effect junk v call out v') (inv : v.Inv) : v'.Inv := by
  cases effect with
  | refused why => exact ⟨inv.disk, inv.table⟩
  | @opened _ _ f _ V _ found stored installed =>
    obtain ⟨_, -, -, table, -⟩ := Table.install_some junk inv.table installed
    exact ⟨inv.disk.setRefs stored _, table⟩
  | @created filename _ _ _ missing create installed =>
    obtain ⟨_, -, -, table, -⟩ := Table.install_some junk inv.table installed
    have created := inv.disk.create missing
    have at_next : (v.disk.create filename).file v.disk.next = some (.new filename) := if_pos rfl
    exact ⟨created.setRefs at_next 1, table⟩
  | @wrote _ buf p f r V V' found allowed file stored fits written =>
    obtain ⟨-, -, live⟩ := Table.lookup_some found
    obtain ⟨name, -, inList, left, -⟩ := FileView.write_fields written
    have packed := inv.disk.packed f V stored
    have quota := inv.disk.quota f V stored
    refine ⟨inv.disk.setFile stored name inList (FileView.write_packed packed written) ?_,
      inv.table.advance live (Int.natCast_nonneg _)⟩
    rw [FileView.write_length packed written, left]
    omega
  | read found allowed file stored result =>
    obtain ⟨-, -, live⟩ := Table.lookup_some found
    exact ⟨inv.disk, inv.table.advance live (Int.natCast_nonneg _)⟩
  | @closed _ _ f _ V found file stored =>
    obtain ⟨table, -⟩ := Table.close_facts inv.table found
    exact ⟨(inv.disk.setRefs stored _).collect f, table⟩
  | @deleted _ f V found stored => exact ⟨(inv.disk.unlink stored).collect f, inv.table⟩
  | @resized _ newSize _ f _ V V' found allowed file stored small resized =>
    obtain ⟨name, -, inList, left, -⟩ := FileView.resize_fields resized
    have packed := inv.disk.packed f V stored
    refine ⟨inv.disk.setFile stored name inList (FileView.resize_packed packed resized) ?_, inv.table⟩
    rw [left, FileView.resize_bytes packed resized, List.length_take]
    omega

end SysprogLabs.Userfs
