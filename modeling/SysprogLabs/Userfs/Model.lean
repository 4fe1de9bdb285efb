import SysprogLabs.Lib.Store
import Mathlib.Data.Int.Init

/-! # The in-memory file system of `userfs.c`

Every function of `userfs.c` as a `Prog` over its static variables and its heap.
The state has two parts: the `Disk` (files, their blocks and `file_list`) and the
`Table` (`file_descriptors` and the descriptor records).

* Each struct has a heap of its own; a pointer is an `Ptr`.
* `malloc` never fails.  What a fresh object holds is chosen by a `Junk`, and
  every field keeps that value until the code assigns it.
* A dereference of `NULL` or of a released object, a double `free`, an access
  outside an array, a `memcpy` past the end of a buffer and so on are faults.
* `size_t` arithmetic is taken modulo `2 ^ 64`.  `int` and `ssize_t` are `Int`:
  they only ever hold byte positions inside a file and counts of live objects.
-/

namespace SysprogLabs.Userfs

abbrev Byte := UInt8

/-- A C string without its terminator. -/
abbrev Name := List Byte

@[irreducible] def blockSize : Nat := 512

@[irreducible] def maxFileSize : Nat := 1024 * 1024 * 100

theorem blockSize_eq : blockSize = 512 := by
  unfold blockSize
  rfl

theorem maxFileSize_eq : maxFileSize = 104857600 := by
  unfold maxFileSize
  rfl

inductive ErrorCode where
  | noErr
  | noFile
  | noMem
  | notImplemented
  | noPermission
  deriving DecidableEq, Repr

/-- An `int` holding a combination of `enum open_flags`. -/
abbrev Flags := BitVec 32

def ufsCreate : Flags := 1
def ufsReadOnly : Flags := 2
def ufsWriteOnly : Flags := 4
def ufsReadWrite : Flags := 8

/-- The value in `size_t`, modulo `2 ^ 64`. -/
def toSizeT (x : Int) : Nat := (x % 18446744073709551616).toNat

/-- The value of a `size_t` in `long long`. -/
def toLongLong (n : Nat) : Int := Int.bmod n 18446744073709551616

/-! ## Objects -/

/-- The `BLOCK_SIZE` bytes behind `block->memory`. -/
structure Memory where
  bytes : List Byte
  size : bytes.length = blockSize

structure Block where
  memory : Ptr
  occupied : Int
  next : Ptr
  prev : Ptr

structure File where
  blockList : Ptr
  lastBlock : Ptr
  refs : Int
  name : Ptr
  next : Ptr
  prev : Ptr
  bytesLeft : Nat
  inList : Bool

structure Filedesc where
  file : Ptr
  isOccupied : Bool
  offset : Int
  canRead : Bool
  canWrite : Bool

/-- The initial contents of the objects `malloc` returns, by address. -/
structure Junk where
  memory : Nat → Memory
  block : Nat → Block
  name : Nat → Name
  file : Nat → File
  filedesc : Nat → Filedesc
  slot : Nat → Nat → Ptr

/-- `file_list` and everything reachable from a file. -/
structure Disk where
  memories : Store Memory
  blocks : Store Block
  names : Store Name
  files : Store File
  fileList : Ptr

/-- `file_descriptors`, its sizes and the descriptor records. -/
structure Table where
  filedescs : Store Filedesc
  arrays : Store (List Ptr)
  fileDescriptors : Ptr
  fileDescriptorCount : Int
  fileDescriptorCapacity : Int

structure State where
  disk : Disk
  table : Table
  ufsErrorCode : ErrorCode

def State.init : State where
  disk := { memories := .empty, blocks := .empty, names := .empty, files := .empty, fileList := none }
  table := { filedescs := .empty, arrays := .empty, fileDescriptors := none,
             fileDescriptorCount := 0, fileDescriptorCapacity := 0 }
  ufsErrorCode := .noErr

/-! ## Parts of the state -/

def diskPart : Lens State Disk := ⟨State.disk, fun d s => { s with disk := d },
  fun _ _ => rfl, fun _ _ _ => rfl, fun _ => rfl⟩

def tablePart : Lens State Table := ⟨State.table, fun t s => { s with table := t },
  fun _ _ => rfl, fun _ _ _ => rfl, fun _ => rfl⟩

def memoryHeap : Lens Disk (Store Memory) := ⟨Disk.memories, fun h d => { d with memories := h },
  fun _ _ => rfl, fun _ _ _ => rfl, fun _ => rfl⟩

def blockHeap : Lens Disk (Store Block) := ⟨Disk.blocks, fun h d => { d with blocks := h },
  fun _ _ => rfl, fun _ _ _ => rfl, fun _ => rfl⟩

def nameHeap : Lens Disk (Store Name) := ⟨Disk.names, fun h d => { d with names := h },
  fun _ _ => rfl, fun _ _ _ => rfl, fun _ => rfl⟩

def fileHeap : Lens Disk (Store File) := ⟨Disk.files, fun h d => { d with files := h },
  fun _ _ => rfl, fun _ _ _ => rfl, fun _ => rfl⟩

def filedescHeap : Lens Table (Store Filedesc) := ⟨Table.filedescs, fun h t => { t with filedescs := h },
  fun _ _ => rfl, fun _ _ _ => rfl, fun _ => rfl⟩

def arrayHeap : Lens Table (Store (List Ptr)) := ⟨Table.arrays, fun h t => { t with arrays := h },
  fun _ _ => rfl, fun _ _ _ => rfl, fun _ => rfl⟩

@[simp] theorem diskPart_get (s : State) : diskPart.get s = s.disk := rfl
@[simp] theorem diskPart_set (d : Disk) (s : State) : diskPart.set d s = { s with disk := d } := rfl
@[simp] theorem tablePart_get (s : State) : tablePart.get s = s.table := rfl
@[simp] theorem tablePart_set (t : Table) (s : State) : tablePart.set t s = { s with table := t } := rfl
@[simp] theorem memoryHeap_get (d : Disk) : memoryHeap.get d = d.memories := rfl
@[simp] theorem memoryHeap_set (h : Store Memory) (d : Disk) :
    memoryHeap.set h d = { d with memories := h } := rfl
@[simp] theorem blockHeap_get (d : Disk) : blockHeap.get d = d.blocks := rfl
@[simp] theorem blockHeap_set (h : Store Block) (d : Disk) :
    blockHeap.set h d = { d with blocks := h } := rfl
@[simp] theorem nameHeap_get (d : Disk) : nameHeap.get d = d.names := rfl
@[simp] theorem nameHeap_set (h : Store Name) (d : Disk) :
    nameHeap.set h d = { d with names := h } := rfl
@[simp] theorem fileHeap_get (d : Disk) : fileHeap.get d = d.files := rfl
@[simp] theorem fileHeap_set (h : Store File) (d : Disk) :
    fileHeap.set h d = { d with files := h } := rfl
@[simp] theorem filedescHeap_get (t : Table) : filedescHeap.get t = t.filedescs := rfl
@[simp] theorem filedescHeap_set (h : Store Filedesc) (t : Table) :
    filedescHeap.set h t = { t with filedescs := h } := rfl
@[simp] theorem arrayHeap_get (t : Table) : arrayHeap.get t = t.arrays := rfl
@[simp] theorem arrayHeap_set (h : Store (List Ptr)) (t : Table) :
    arrayHeap.set h t = { t with arrays := h } := rfl

/-! ## `memcpy` -/

/-- `memcpy(memory + offset, src, …)` -/
def Memory.write (m : Memory) (offset : Int) (src : List Byte) : Option Memory :=
  if inside : 0 ≤ offset ∧ offset + src.length ≤ blockSize then
    some ⟨m.bytes.take offset.toNat ++ src ++ m.bytes.drop (offset.toNat + src.length), by
      have := m.size
      simp only [List.length_append, List.length_take, List.length_drop]
      omega⟩
  else none

/-- `memcpy(…, memory + offset, n)` -/
def Memory.read (m : Memory) (offset n : Int) : Option (List Byte) :=
  if 0 ≤ offset ∧ 0 ≤ n ∧ offset + n ≤ blockSize then
    some ((m.bytes.drop offset.toNat).take n.toNat)
  else none

/-- `memcpy(…, buf + offset, n)` from the caller's buffer. -/
def slice (buf : List Byte) (offset n : Int) : Option (List Byte) :=
  if 0 ≤ offset ∧ 0 ≤ n ∧ offset + n ≤ buf.length then
    some ((buf.drop offset.toNat).take n.toNat)
  else none

variable (junk : Junk)

/-! ## Files and blocks -/

def isPermitted (flags flag : Flags) : Bool := flags &&& flag == flag

def searchFile (filename : Name) : Prog Disk Ptr := do
  let f ← .read Disk.fileList
  .loop (fun f => match f with
    | none => return .done none
    | some _ => do
      let file ← fileHeap.load f
      let name ← nameHeap.load file.name
      if name ≠ filename then return .again file.next else return .done f) f

def appendFile (newFile : Nat) : Prog Disk Unit := do
  let f ← .read Disk.fileList
  match f with
  | none => .update fun d => { d with fileList := some newFile }
  | some _ =>
    let last ← .loop (fun f => do
      let file ← fileHeap.load f
      if file.next ≠ none then return .again file.next else return .done f) f
    fileHeap.modify last fun file => { file with next := some newFile }
    fileHeap.modify (some newFile) fun file => { file with prev := last }

-- The branch of `ufs_open` that creates a file.
def createFile (filename : Name) : Prog Disk Nat := do
  let f ← fileHeap.malloc junk.file
  fileHeap.modify (some f) fun file => { file with blockList := none }
  fileHeap.modify (some f) fun file => { file with lastBlock := none }
  fileHeap.modify (some f) fun file => { file with prev := none }
  fileHeap.modify (some f) fun file => { file with next := none }
  let name ← nameHeap.malloc junk.name
  fileHeap.modify (some f) fun file => { file with name := some name }
  nameHeap.modify (some name) fun _ => filename
  fileHeap.modify (some f) fun file => { file with refs := 0 }
  fileHeap.modify (some f) fun file => { file with bytesLeft := maxFileSize }
  fileHeap.modify (some f) fun file => { file with inList := true }
  appendFile f
  return f

def createBlock (file : Ptr) : Prog Disk Ptr := do
  match file with
  | none => return none
  | some _ =>
    let newBlock ← blockHeap.malloc junk.block
    let memory ← memoryHeap.malloc junk.memory
    blockHeap.modify (some newBlock) fun b => { b with memory := some memory }
    blockHeap.modify (some newBlock) fun b => { b with occupied := 0 }
    blockHeap.modify (some newBlock) fun b => { b with next := none }
    let f ← fileHeap.load file
    if f.lastBlock = none then
      fileHeap.modify file fun f => { f with lastBlock := some newBlock, blockList := some newBlock }
    else
      blockHeap.modify f.lastBlock fun b => { b with next := some newBlock }
      blockHeap.modify (some newBlock) fun b => { b with prev := f.lastBlock }
      fileHeap.modify file fun f => { f with lastBlock := some newBlock }
    return some newBlock

/-- The loop that releases the blocks from `block` on, in `free_file_memory` and in
    `ufs_resize`. -/
def freeBlocks (block : Ptr) : Prog Disk Unit :=
  .loop (fun block => do
    if block ≠ none then
      let copy := block
      let b ← blockHeap.load block
      memoryHeap.free b.memory
      blockHeap.free copy
      return .again b.next
    else return .done ()) block

def freeFileMemory (file : Ptr) : Prog Disk Unit := do
  let f ← fileHeap.load file
  freeBlocks f.blockList
  let f ← fileHeap.load file
  nameHeap.free f.name
  fileHeap.modify file fun f => { f with bytesLeft := maxFileSize }
  fileHeap.modify file fun f => { f with blockList := none, lastBlock := none }

/-! ## The descriptor table -/

def slot (fd : Int) : Prog Table Ptr := do
  let array ← .read Table.fileDescriptors
  let slots ← arrayHeap.load array
  if fd < 0 then .fault else .require slots[fd.toNat]?

def setSlot (fd : Int) (filedesc : Ptr) : Prog Table Unit := do
  let array ← .read Table.fileDescriptors
  let slots ← arrayHeap.load array
  if 0 ≤ fd ∧ fd < slots.length then arrayHeap.modify array fun slots => slots.set fd.toNat filedesc
  else .fault

def isValidFd (fd : Int) : Prog Table Bool := do
  let capacity ← .read Table.fileDescriptorCapacity
  if fd < 0 ∨ fd ≥ capacity then return false
  else
    let filedesc ← slot fd
    if filedesc = none then return false
    else
      let filedesc ← filedescHeap.load filedesc
      if filedesc.file = none ∨ filedesc.isOccupied = false then return false else return true

def mallocSlots (capacity : Int) : Prog Table Nat :=
  arrayHeap.malloc fun array => (List.range capacity.toNat).map (junk.slot array)

def getFd : Prog Table Int := do
  let t ← .read id
  let fd ← if t.fileDescriptors = none then do
      .update fun t => { t with fileDescriptorCapacity := 10 }
      let array ← mallocSlots junk 10
      .update fun t => { t with fileDescriptors := some array }
      pure 0
    else if t.fileDescriptorCount = t.fileDescriptorCapacity then do
      let capacity := t.fileDescriptorCapacity * 2
      .update fun t => { t with fileDescriptorCapacity := capacity }
      let newFdList ← mallocSlots junk capacity
      let old ← arrayHeap.load t.fileDescriptors
      if old.length < (capacity / 2).toNat then .fault
      else
        arrayHeap.modify (some newFdList) fun new =>
          old.take (capacity / 2).toNat ++ new.drop (capacity / 2).toNat
        arrayHeap.free t.fileDescriptors
        .update fun t => { t with fileDescriptors := some newFdList }
        pure t.fileDescriptorCount
    else
      .loop (fun i => do
        if i < t.fileDescriptorCapacity then
          let filedesc ← slot i
          if filedesc = none then return .done i else return .again (i + 1)
        else return .done (-1)) (0 : Int)
  .update fun t => { t with fileDescriptorCount := t.fileDescriptorCount + 1 }
  return fd

/-! ## The API -/

def fail (code : ErrorCode) : Prog State Int := do
  .update fun s => { s with ufsErrorCode := code }
  return -1

def ufsErrno : Prog State ErrorCode := .read State.ufsErrorCode

def canReadWith (flags : Flags) : Bool :=
  flags == 0 || isPermitted flags ufsCreate || isPermitted flags ufsReadOnly ||
    isPermitted flags ufsReadWrite

def canWriteWith (flags : Flags) : Bool :=
  flags == 0 || isPermitted flags ufsCreate || isPermitted flags ufsWriteOnly ||
    isPermitted flags ufsReadWrite

-- The end of `ufs_open`, which opens a descriptor on the file.
def newFd (f : Nat) (flags : Flags) : Prog Table Int := do
  let fd ← getFd junk
  let filedesc ← filedescHeap.malloc junk.filedesc
  filedescHeap.modify (some filedesc) fun d => { d with file := some f }
  filedescHeap.modify (some filedesc) fun d => { d with isOccupied := true }
  filedescHeap.modify (some filedesc) fun d => { d with offset := 0 }
  filedescHeap.modify (some filedesc) fun d => { d with canRead := canReadWith flags }
  filedescHeap.modify (some filedesc) fun d => { d with canWrite := canWriteWith flags }
  setSlot fd (some filedesc)
  return fd

-- The rest of `ufs_open`, once the file is found or created.
def openFile (f : Nat) (flags : Flags) : Prog State Int := do
  .zoom diskPart (fileHeap.modify (some f) fun file => { file with refs := file.refs + 1 })
  .zoom tablePart (newFd junk f flags)

def ufsOpen (filename : Name) (flags : Flags) : Prog State Int := do
  let f ← .zoom diskPart (searchFile filename)
  match f with
  | some f => openFile junk f flags
  | none =>
    if isPermitted flags ufsCreate then
      let f ← .zoom diskPart (createFile junk filename)
      openFile junk f flags
    else fail .noFile

structure WriteVars where
  bufOffset : Int
  offset : Int
  size : Nat
  block : Ptr

-- The body of the copy loop of `ufs_write`, once `block` is not `NULL`.
def writeToBlock (buf : List Byte) (v : WriteVars) : Prog Disk WriteVars := do
  let b ← blockHeap.load v.block
  let blockOffset := min v.offset b.occupied
  if blockOffset = blockSize then
    return { v with offset := v.offset - blockSize, block := b.next }
  else
    let writeBytes := min (toLongLong v.size) (blockSize - blockOffset)
    let src ← .require (slice buf v.bufOffset writeBytes)
    let memory ← memoryHeap.load b.memory
    let memory' ← .require (memory.write blockOffset src)
    memoryHeap.modify b.memory fun _ => memory'
    blockHeap.modify v.block fun b => { b with occupied := max (blockOffset + writeBytes) b.occupied }
    return { bufOffset := v.bufOffset + writeBytes, offset := 0, size := toSizeT (v.size - writeBytes),
             block := b.next }

def writeLoop (file : Ptr) (buf : List Byte) : WriteVars → Prog Disk WriteVars :=
  .loop fun v => do
    if v.size > 0 then
      if v.block = none then
        let block ← createBlock junk file
        return .again (← writeToBlock buf { v with block := block, offset := 0 })
      else return .again (← writeToBlock buf v)
    else return .done v

/-- `while (block->next != NULL) block = block->next;` -/
def walkToLast (block : Ptr) : Prog Disk Ptr :=
  .loop (fun block => do
    let b ← blockHeap.load block
    if b.next ≠ none then return .again b.next else return .done block) block

/-- `ufs_write` behind its checks: the new contents and the number of bytes written. -/
def writeFile (file : Ptr) (offset : Int) (buf : List Byte) (size : Nat) : Prog Disk Int := do
  let f ← fileHeap.load file
  let v ← writeLoop junk file buf { bufOffset := 0, offset := offset, size := size, block := f.blockList }
  let f ← fileHeap.load file
  let last ← walkToLast f.blockList
  fileHeap.modify file fun f => { f with bytesLeft := toSizeT (f.bytesLeft - v.bufOffset) }
  fileHeap.modify file fun f => { f with lastBlock := last }
  return v.bufOffset

def ufsWrite (fd : Int) (buf : List Byte) (size : Nat) : Prog State Int := do
  if (← .zoom tablePart (isValidFd fd)) = false then fail .noFile
  else
    let p ← .zoom tablePart (slot fd)
    let filedesc ← .zoom tablePart (filedescHeap.load p)
    if filedesc.canWrite = false then fail .noPermission
    else
      let file ← .zoom diskPart (fileHeap.load filedesc.file)
      if size > file.bytesLeft then fail .noMem
      else
        let written ← .zoom diskPart (writeFile junk filedesc.file filedesc.offset buf size)
        .zoom tablePart (filedescHeap.modify p fun d => { d with offset := d.offset + written })
        return written

/-- The variables of the copy loop of `ufs_read`; `buf` is what it has stored so far. -/
structure ReadVars where
  buf : List Byte
  bytesRead : Int
  offset : Int
  size : Nat
  fileBlock : Ptr

-- The body of the copy loop of `ufs_read`.
def readFromBlock (v : ReadVars) : Prog Disk (Flow ReadVars ReadVars) := do
  let b ← blockHeap.load v.fileBlock
  let occupied := b.occupied
  let blockOffset := min v.offset blockSize
  if blockOffset = blockSize then
    return .again { v with offset := v.offset - blockSize, fileBlock := b.next }
  else
    let bytesToRead := min (occupied - blockOffset) (toLongLong v.size)
    if bytesToRead < 0 then return .done v
    else
      let memory ← memoryHeap.load b.memory
      let bytes ← .require (memory.read blockOffset bytesToRead)
      return .again { buf := v.buf ++ bytes, bytesRead := v.bytesRead + bytesToRead, offset := 0,
                      size := toSizeT (v.size - bytesToRead), fileBlock := b.next }

def readLoop : ReadVars → Prog Disk ReadVars :=
  .loop fun v => do
    if v.fileBlock ≠ none ∧ v.size > 0 then readFromBlock v
    else return .done v

/-- `ufs_read`: the return value and the bytes stored in `buf`. -/
def ufsRead (fd : Int) (size : Nat) : Prog State (Int × List Byte) := do
  if (← .zoom tablePart (isValidFd fd)) = false then return (← fail .noFile, [])
  else
    let p ← .zoom tablePart (slot fd)
    let filedesc ← .zoom tablePart (filedescHeap.load p)
    if filedesc.canRead = false then return (← fail .noPermission, [])
    else
      let file ← .zoom diskPart (fileHeap.load filedesc.file)
      let v ← .zoom diskPart (readLoop
        { buf := [], bytesRead := 0, offset := filedesc.offset, size := size, fileBlock := file.blockList })
      .zoom tablePart (filedescHeap.modify p fun d => { d with offset := d.offset + v.bytesRead })
      return (v.bytesRead, v.buf)

def ufsClose (fd : Int) : Prog State Int := do
  if (← .zoom tablePart (isValidFd fd)) = false then fail .noFile
  else
    let p ← .zoom tablePart (slot fd)
    let filedesc ← .zoom tablePart (filedescHeap.load p)
    .zoom diskPart do
      fileHeap.modify filedesc.file fun f => { f with refs := f.refs - 1 }
      let file ← fileHeap.load filedesc.file
      if file.refs = 0 ∧ file.inList = false then
        freeFileMemory filedesc.file
        fileHeap.free filedesc.file
      else pure ()
    .zoom tablePart do
      filedescHeap.free p
      setSlot fd none
      .update fun t => { t with fileDescriptorCount := t.fileDescriptorCount - 1 }
    return 0

-- The part of `ufs_delete` that takes `file` out of `file_list`.
def unlinkFile (file : Ptr) : Prog Disk Unit := do
  let f ← fileHeap.load file
  let prevFile := f.prev
  let nextFile := f.next
  if prevFile = none then
    .update fun d => { d with fileList := nextFile }
    if nextFile ≠ none then fileHeap.modify nextFile fun f => { f with prev := none } else pure ()
  else
    fileHeap.modify prevFile fun f => { f with next := nextFile }
    if nextFile ≠ none then fileHeap.modify nextFile fun f => { f with prev := prevFile } else pure ()

def ufsDelete (filename : Name) : Prog State Int := do
  let file ← .zoom diskPart (searchFile filename)
  if file = none then fail .noFile
  else
    .zoom diskPart do
      unlinkFile file
      fileHeap.modify file fun f => { f with inList := false }
      let f ← fileHeap.load file
      if f.refs = 0 then
        freeFileMemory file
        fileHeap.free file
      else pure ()
    return 0

-- The first loop of `ufs_destroy`.
def destroyFiles (file : Ptr) : Prog Disk Unit :=
  .loop (fun file => do
    if file ≠ none then
      let copy := file
      let f ← fileHeap.load file
      freeFileMemory copy
      fileHeap.free copy
      return .again f.next
    else return .done ()) file

-- One iteration of its second loop.
def destroyFd (i : Int) : Prog State Unit := do
  let fd ← .zoom tablePart (slot i)
  if fd = none then pure ()
  else
    let d ← .zoom tablePart (filedescHeap.load fd)
    .zoom diskPart do
      if d.file ≠ none then
        let file ← fileHeap.load d.file
        if file.inList = false then
          freeFileMemory d.file
          fileHeap.free d.file
        else pure ()
      else pure ()
    .zoom tablePart do
      filedescHeap.free fd
      setSlot i none

def ufsDestroy : Prog State Unit := do
  let file ← .read fun s => s.disk.fileList
  .zoom diskPart (destroyFiles file)
  .loop (fun i => do
    let capacity ← .read fun s => s.table.fileDescriptorCapacity
    if i < capacity then do
      destroyFd i
      return .again (i + 1)
    else return .done ()) (0 : Int)
  let fileList ← .read fun s => s.disk.fileList
  .zoom diskPart (fileHeap.free fileList)
  let fileDescriptors ← .read fun s => s.table.fileDescriptors
  .zoom tablePart (arrayHeap.free fileDescriptors)

-- The branch of `ufs_resize` that cuts the contents of `block` to `newSize` bytes.
def cutBlock (block : Ptr) (newSize : Nat) : Prog Disk Unit := do
  let newMemory ← memoryHeap.malloc junk.memory
  let b ← blockHeap.load block
  let old ← memoryHeap.load b.memory
  let new ← memoryHeap.load (some newMemory)
  let kept ← .require (old.read 0 newSize)
  let new ← .require (new.write 0 kept)
  memoryHeap.modify (some newMemory) fun _ => new
  memoryHeap.free b.memory
  blockHeap.modify block fun b => { b with memory := some newMemory }
  blockHeap.modify block fun b => { b with occupied := newSize }

-- The body of the first loop of `ufs_resize`.
def resizeBlock (file : Ptr) (newSize : Nat) (block : Ptr) : Prog Disk (Nat × Ptr) := do
  if block = none then
    let block ← createBlock junk file
    let b ← blockHeap.load block
    return (toSizeT (newSize - blockSize), b.next)
  else
    let b ← blockHeap.load block
    if newSize ≥ blockSize then return (toSizeT (newSize - blockSize), b.next)
    else if newSize < toSizeT b.occupied then
      cutBlock junk block newSize
      return (0, b.next)
    else return (newSize, b.next)

/-- The first loop of `ufs_resize`, from `block` with `newSize` bytes to go. -/
def resizeLoop (file : Ptr) (newSize : Nat) (block : Ptr) : Prog Disk Ptr :=
  .loop (fun (newSize, block) => do
    if newSize > 0 then return .again (← resizeBlock junk file newSize block)
    else return .done block) (newSize, block)

-- The part of `ufs_resize` that cuts the chain in front of `block`.
def cutBefore (file block : Ptr) : Prog Disk Unit := do
  if block = none then pure ()
  else
    let b ← blockHeap.load block
    if b.prev = none then pure ()
    else
      fileHeap.modify file fun f => { f with lastBlock := b.prev }
      blockHeap.modify b.prev fun b => { b with next := none }

-- The last loop of `ufs_resize`, which computes `new_file_size`.
def sumBlocks (file : Ptr) (newFileSize : Nat) (block : Ptr) : Prog Disk Nat :=
  .loop (fun (newFileSize, block) => do
    if block ≠ none then
      let b ← blockHeap.load block
      fileHeap.modify file fun f => { f with lastBlock := block }
      return .again (toSizeT (newFileSize + b.occupied), b.next)
    else return .done newFileSize) (newFileSize, block)

/-- `ufs_resize` behind its checks. -/
def resizeFile (file : Ptr) (newSize : Nat) : Prog Disk Unit := do
  let f ← fileHeap.load file
  let block ← resizeLoop junk file newSize f.blockList
  cutBefore file block
  freeBlocks block
  let f ← fileHeap.load file
  let newFileSize ← sumBlocks file 0 f.blockList
  fileHeap.modify file fun f => { f with bytesLeft := toSizeT (maxFileSize - newFileSize) }

def ufsResize (fd : Int) (newSize : Nat) : Prog State Int := do
  if (← .zoom tablePart (isValidFd fd)) = false then fail .noFile
  else
    let p ← .zoom tablePart (slot fd)
    let filedesc ← .zoom tablePart (filedescHeap.load p)
    if filedesc.canWrite = false then fail .noPermission
    else if newSize > maxFileSize then fail .noMem
    else
      .zoom diskPart (resizeFile junk filedesc.file newSize)
      return 0

end SysprogLabs.Userfs
