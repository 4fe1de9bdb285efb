import SysprogLabs.Lib.Store
import Mathlib.Algebra.Order.Ring.Int
import Mathlib.Tactic.Simps.Basic

/-! # The heap tracker of `heap_help.c`

The functions that `heap_help.c` redefines (the hooks) with the bookkeeping behind them, from the end of
the initialisation to the exit handler.  Their code is written once for all that it is run in (`Site`);
`alone` is a single thread, whose calls of `malloc`, `calloc`, `realloc` and `free` are the steps.

* An address is a number, and `NULL` is 0.
* The records of the tracker live in mapped batches, so a `struct allocation *` is the number of a
  batch and an index into its array.
* What the system decides is a `System`: the allocator's answer, whether `mmap` succeeds, and the
  stack trace.  The blocks the allocator has given out are part of the state.
* A failed assertion ends the process and is a fault, like undefined behaviour: no call returns.
* `size_t` arithmetic is taken modulo `2 ^ 64`.
-/

namespace SysprogLabs.HeapHelp

universe u

abbrev Address := Nat

@[irreducible] def allocationBatchSize : Nat := 1024

/-- A `struct allocation *` that is not `NULL`. -/
structure AllocationPtr where
  batch : Nat
  index : Nat
  deriving DecidableEq

/-- `trace_size` is the length of `trace`. -/
structure Allocation where
  trace : List Address
  mem : Address
  size : Nat
  next : Option AllocationPtr

/-- The array has `allocationBatchSize` elements. -/
structure AllocationBatch where
  allocs : Nat → Allocation
  used : Nat

/-- The variables behind `allocs_lock`, and the mapped batches. -/
structure Records where
  batches : Store AllocationBatch
  allocsLock : Bool
  allocCount : Int
  allocCountTotal : Nat
  allocs : Option AllocationPtr
  allocPool : Option AllocationPtr
  allocBatch : Ptr

/-- Blocks by address. -/
abbrev BlocksWith (β : Type) := List (Address × β)

/-- Blocks by address and size. -/
abbrev Blocks := BlocksWith Nat

structure State where
  records : Records
  isInitDone : Bool
  isExitDone : Bool
  depth : Int
  staticSize : Nat
  staticBuf : Address
  /-- What the system allocator has given out and not taken back. -/
  blocks : Blocks

/-- How the system answers during one call. -/
structure System where
  /-- What the allocator returns. -/
  result : Address
  /-- Whether a `realloc` that returns `NULL` has released the block. -/
  released : Bool
  /-- Whether `mmap` succeeds. -/
  mapped : Bool
  /-- What `backtrace` captures. -/
  trace : List Address

/-- How the system answers during one call of any hook. -/
structure Answer extends System where
  /-- What `getaddrinfo` returns. -/
  rc : Int
  /-- The length of the string at the result. -/
  length : Nat
  /-- The size of the block behind the result of `getline` or `getaddrinfo`. -/
  capacity : Nat

/-- `sizeof(struct addrinfo)` -/
def addrinfoSize : Nat := 48

/-- The tracker when its initialisation is done.  The static buffer is mapped if something was
    allocated during the initialisation, and `NULL` otherwise. -/
def State.start (staticBuf : Address) : State where
  records := { batches := .empty, allocsLock := false, allocCount := 0, allocCountTotal := 0,
               allocs := none, allocPool := none, allocBatch := none }
  isInitDone := true
  isExitDone := false
  depth := 0
  staticSize := if staticBuf = 0 then 0 else 16 * 1024
  staticBuf := staticBuf
  blocks := []

def recordsPart : Lens State Records := ⟨State.records, fun r s => { s with records := r },
  fun _ _ => rfl, fun _ _ _ => rfl, fun _ => rfl⟩

def batchHeap : Lens Records (Store AllocationBatch) := ⟨Records.batches, fun h r => { r with batches := h },
  fun _ _ => rfl, fun _ _ _ => rfl, fun _ => rfl⟩

@[simp] theorem recordsPart_get (s : State) : recordsPart.get s = s.records := rfl
@[simp] theorem recordsPart_set (r : Records) (s : State) : recordsPart.set r s = { s with records := r } := rfl
@[simp] theorem batchHeap_get (r : Records) : batchHeap.get r = r.batches := rfl
@[simp] theorem batchHeap_set (h : Store AllocationBatch) (r : Records) :
    batchHeap.set h r = { r with batches := h } := rfl

/-! ## Records -/

def heaphAssert {σ : Type} (flag : Prop) [Decidable flag] : Prog σ Unit :=
  if flag then pure () else .fault

-- Alone in its process, a thread that finds the lock taken spins forever.
def spinlockAcq : Prog Records Unit :=
  .loop (fun _ => do
    let held ← .read Records.allocsLock
    .update fun r => { r with allocsLock := true }
    if held then return .again () else return .done ()) ()

def spinlockRel : Prog Records Unit := do
  let held ← .read Records.allocsLock
  heaphAssert (held = true)
  .update fun r => { r with allocsLock := false }

def loadRecord (a : AllocationPtr) : Prog Records Allocation := do
  let batch ← batchHeap.load (some a.batch)
  if a.index < allocationBatchSize then return batch.allocs a.index else .fault

def modifyRecord (a : AllocationPtr) (f : Allocation → Allocation) : Prog Records Unit :=
  if a.index < allocationBatchSize then
    batchHeap.modify (some a.batch) fun batch =>
      { batch with allocs := Function.update batch.allocs a.index (f (batch.allocs a.index)) }
  else .fault

/-- The contents of a mapped batch: all zeroes. -/
def AllocationBatch.zero : AllocationBatch where
  allocs _ := { trace := [], mem := 0, size := 0, next := none }
  used := 0

-- `alloc_trace_new`: mapping a new batch.
def mapBatch (mapped : Bool) : Prog Records Ptr := do
  heaphAssert (mapped = true)
  let batch ← batchHeap.malloc fun _ => .zero
  .update fun r => { r with allocBatch := some batch }
  batchHeap.modify (some batch) fun b => { b with used := 0 }
  return some batch

-- `alloc_trace_new`: the current batch, or a new one if there is none or it is used up.
def currentBatch (mapped : Bool) : Prog Records Ptr := do
  let current ← .read Records.allocBatch
  if current = none then mapBatch mapped
  else
    let batch ← batchHeap.load current
    if batch.used = allocationBatchSize then mapBatch mapped
    else
      heaphAssert (batch.used < allocationBatchSize)
      return current

/-- The first critical section of `alloc_trace_new`. -/
def takeRecord (mapped : Bool) : Prog Records AllocationPtr := do
  spinlockAcq
  let pool ← .read Records.allocPool
  let a ← match pool with
    | some a => do
      let record ← loadRecord a
      .update fun r => { r with allocPool := record.next }
      pure a
    | none => do
      let current ← currentBatch mapped
      let batch ← batchHeap.load current
      batchHeap.modify current fun b => { b with used := b.used + 1 }
      let number ← .require current
      pure ⟨number, batch.used⟩
  spinlockRel
  return a

/-- The second critical section of `alloc_trace_new`. -/
def linkRecord (a : AllocationPtr) : Prog Records Unit := do
  spinlockAcq
  let first ← .read Records.allocs
  modifyRecord a fun record => { record with next := first }
  .update fun r => { r with allocs := some a }
  .update fun r => { r with allocCount := r.allocCount + 1 }
  .update fun r => { r with allocCountTotal := (r.allocCountTotal + 1) % 2 ^ 64 }
  spinlockRel

-- `alloc_free`: taking `a` behind `prev` out of `allocs` and putting it into the pool.
def unlinkRecord (a : AllocationPtr) (prev next : Option AllocationPtr) : Prog Records Unit := do
  match prev with
  | none => .update fun r => { r with allocs := next }
  | some prev => modifyRecord prev fun record => { record with next := next }
  let pool ← .read Records.allocPool
  modifyRecord a fun record => { record with next := pool }
  .update fun r => { r with allocPool := some a }
  .update fun r => { r with allocCount := r.allocCount - 1 }
  let newCount ← .read Records.allocCount
  spinlockRel
  heaphAssert (0 ≤ newCount)

/-- The loop of `alloc_free` over `a` and `prev`: whether the record was found. -/
def removeRecord (ptr : Address) : Option AllocationPtr × Option AllocationPtr → Prog Records Bool :=
  .loop fun (a, prev) => match a with
    | none => do
      spinlockRel
      return .done false
    | some a => do
      let record ← loadRecord a
      if record.mem = ptr then
        unlinkRecord a prev record.next
        return .done true
      else return .again (record.next, some a)

def freeRecord (ptr : Address) : Prog Records Unit := do
  spinlockAcq
  let first ← .read Records.allocs
  let found ← removeRecord ptr (first, none)
  heaphAssert (found = true)

/-! ## The tracker -/

def State.allocIsStatic (s : State) (ptr : Address) : Prop :=
  ptr ≠ 0 ∧ s.staticBuf ≤ ptr ∧ ptr ≤ s.staticBuf + s.staticSize

instance (s : State) (ptr : Address) : Decidable (s.allocIsStatic ptr) :=
  inferInstanceAs (Decidable (_ ∧ _ ∧ _))

/-! ## The system allocator -/

/-- The blocks but the one at `ptr`. -/
def BlocksWith.without {β : Type} (blocks : BlocksWith β) (ptr : Address) : BlocksWith β :=
  blocks.filter fun b => b.1 ≠ ptr

def State.addBlock (s : State) (block : Address × Nat) : State := { s with blocks := block :: s.blocks }

def State.dropBlock (s : State) (ptr : Address) : State := { s with blocks := s.blocks.without ptr }

/-- `default_malloc` -/
def defaultMalloc (sys : System) (size : Nat) : Prog State Address := do
  .when (sys.result ≠ 0) (.update fun s => s.addBlock (sys.result, size))
  return sys.result

/-- `default_free`: only a live block may be released. -/
def defaultFree (ptr : Address) : Prog State Unit := do
  let s ← .read id
  if ptr ∈ s.blocks.map Prod.fst then .update fun s => s.dropBlock ptr else .fault

/-- `default_realloc`: it moves the block, leaves it in place with its new size, fails and leaves
    it alone, or releases it. -/
def defaultRealloc (sys : System) (ptr : Address) (size : Nat) : Prog State Address := do
  if ptr = 0 then defaultMalloc sys size
  else if sys.result = 0 ∧ sys.released = false then
    let s ← .read id
    if ptr ∈ s.blocks.map Prod.fst then return 0 else .fault
  else
    defaultFree ptr
    defaultMalloc sys size

/-- `default_getaddrinfo`: without success there is no `*res`. -/
def defaultGetaddrinfo (sys : Answer) : Prog State Address :=
  if sys.rc = 0 then defaultMalloc sys.toSystem sys.capacity else return 0

-- Once the initialisation is done there is nothing to do; the model does not start before.
def heaphTouch : Prog State Unit := do
  let s ← .read id
  if s.isInitDone then return () else .fault

def enter : Prog State Unit := .update fun s => { s with depth := s.depth + 1 }

def leave : Prog State Unit := .update fun s => { s with depth := s.depth - 1 }

/-! ## The hooks -/

/-- What the code of the hooks runs in: how it gets at the variables of the tracker, and what it calls. -/
structure Site (m : Type → Type u) where
  read {α : Type} (f : State → α) : m α
  heaphAssert (flag : Prop) [Decidable flag] : m Unit
  /-- What is done to the records without a pause. -/
  records {α : Type} (p : Prog Records α) : m α
  enter : m Unit
  leave : m Unit
  heaphTouch : m Unit
  defaultMalloc (sys : System) (size : Nat) : m Address
  defaultCalloc (sys : System) (num size : Nat) : m Address
  defaultRealloc (sys : System) (ptr : Address) (size : Nat) : m Address
  defaultFree (ptr : Address) : m Unit
  defaultStrdup (sys : Answer) (ptr : Address) : m Address
  defaultGetline (sys : Answer) (lineOld : Address) : m Address
  defaultGetaddrinfo (sys : Answer) : m Address
  defaultFreeaddrinfo (ai : Address) : m Unit

inductive Call where
  | malloc (size : Nat)
  | calloc (num size : Nat)
  | realloc (ptr : Address) (size : Nat)
  | free (ptr : Address)
  deriving DecidableEq

/-- A call of one of the hooks. -/
inductive Hook where
  | heap (call : Call)
  | strdup (ptr : Address)
  | getline (lineOld : Address)
  | getaddrinfo
  | freeaddrinfo (ai : Address)
  deriving DecidableEq

namespace Site

variable {m : Type → Type u} [Monad m] (site : Site m)

def allocTraceNew (sys : System) (ptr : Address) (size : Nat) : m Unit := do
  let s ← site.read id
  if s.allocIsStatic ptr then return ()
  else if s.depth > 1 then return ()
  else do
    site.heaphAssert (s.depth > 0)
    site.heaphAssert (s.isInitDone = true)
    let isExitDone ← site.read State.isExitDone
    if isExitDone then return ()
    else do
      let a ← site.records (takeRecord sys.mapped)
      site.records (modifyRecord a fun record => { record with mem := ptr })
      site.records (modifyRecord a fun record => { record with size := size })
      let trace := if s.depth = 1 then sys.trace else []
      site.records (modifyRecord a fun record => { record with trace := trace })
      site.records (linkRecord a)

def allocFree (ptr : Address) : m Unit := do
  let s ← site.read id
  if s.allocIsStatic ptr then return ()
  else if s.depth > 1 then return ()
  else do
    site.heaphAssert (s.isInitDone = true)
    let isExitDone ← site.read State.isExitDone
    if isExitDone then return ()
    else site.records (freeRecord ptr)

def malloc (sys : System) (size : Nat) : m Address := do
  site.heaphTouch
  site.enter
  let res ← site.defaultMalloc sys size
  if res ≠ 0 then site.allocTraceNew sys res size
  site.leave
  return res

def calloc (sys : System) (num size : Nat) : m Address := do
  site.heaphTouch
  site.enter
  let res ← site.defaultCalloc sys num size
  if res ≠ 0 then site.allocTraceNew sys res (num * size % 2 ^ 64)
  site.leave
  return res

def realloc (sys : System) (ptr : Address) (size : Nat) : m Address := do
  site.heaphTouch
  site.enter
  let s ← site.read id
  let ptr := if s.allocIsStatic ptr then 0 else ptr
  let res ← site.defaultRealloc sys ptr size
  if ptr = 0 ∧ res ≠ 0 then site.allocTraceNew sys res size
  else if ptr ≠ 0 ∧ res = 0 then site.allocFree ptr
  else if ptr ≠ 0 ∧ res ≠ ptr then do
    site.allocFree ptr
    site.allocTraceNew sys res size
  site.leave
  return res

def free (ptr : Address) : m Unit := do
  let s ← site.read id
  if ptr = 0 then return ()
  else if s.allocIsStatic ptr then return ()
  else do
    site.heaphTouch
    site.enter
    site.allocFree ptr
    site.defaultFree ptr
    site.leave

def strdup (sys : Answer) (ptr : Address) : m Address := do
  site.heaphTouch
  let isExitDone ← site.read State.isExitDone
  site.heaphAssert (isExitDone = false)
  let s ← site.read id
  site.heaphAssert (¬ s.allocIsStatic ptr)
  site.enter
  let res ← site.defaultStrdup sys ptr
  if res ≠ 0 then site.allocTraceNew sys.toSystem res (sys.length + 1)
  site.leave
  return res

/-- `lineOld` is what `*linep` is before the call; the result is what it is behind it. -/
def getline (sys : Answer) (lineOld : Address) : m Address := do
  site.heaphTouch
  site.enter
  let s ← site.read id
  site.heaphAssert (¬ s.allocIsStatic lineOld)
  let line ← site.defaultGetline sys lineOld
  if lineOld = 0 ∧ line ≠ 0 then site.allocTraceNew sys.toSystem line (sys.length + 1)
  else if lineOld ≠ 0 ∧ line = 0 then site.heaphAssert False
  else if lineOld ≠ 0 ∧ line ≠ 0 ∧ lineOld ≠ line then do
    site.allocFree lineOld
    site.allocTraceNew sys.toSystem line (sys.length + 1)
  else if lineOld ≠ line then site.heaphAssert False
  site.leave
  return line

/-- The result is `*res`. -/
def getaddrinfo (sys : Answer) : m Address := do
  site.heaphTouch
  site.enter
  let res ← site.defaultGetaddrinfo sys
  if sys.rc = 0 ∧ res ≠ 0 then site.allocTraceNew sys.toSystem res addrinfoSize
  site.leave
  return res

def freeaddrinfo (ai : Address) : m Unit := do
  if ai = 0 then return ()
  else do
    let s ← site.read id
    site.heaphAssert (¬ s.allocIsStatic ai)
    site.heaphTouch
    site.enter
    site.allocFree ai
    site.defaultFreeaddrinfo ai
    site.leave

/-- The result is the block that the caller has behind the call; 0 if there is none. -/
def call (sys : System) : Call → m Address
  | .malloc size => site.malloc sys size
  | .calloc num size => site.calloc sys num size
  | .realloc ptr size => site.realloc sys ptr size
  | .free ptr => do
    site.free ptr
    return 0

def hook (sys : Answer) : Hook → m Address
  | .heap call => site.call sys.toSystem call
  | .strdup ptr => site.strdup sys ptr
  | .getline lineOld => site.getline sys lineOld
  | .getaddrinfo => site.getaddrinfo sys
  | .freeaddrinfo ai => do
    site.freeaddrinfo ai
    return 0

end Site

/-- A thread that is alone in its process. -/
@[simps]
def alone : Site (Prog State) where
  read f := .read f
  heaphAssert flag := HeapHelp.heaphAssert flag
  records p := .zoom recordsPart p
  enter := enter
  leave := leave
  heaphTouch := heaphTouch
  defaultMalloc := defaultMalloc
  defaultCalloc sys num size := defaultMalloc sys (num * size)
  defaultRealloc := defaultRealloc
  defaultFree := defaultFree
  defaultStrdup sys _ := defaultMalloc sys.toSystem (sys.length + 1)
  defaultGetline sys lineOld := defaultRealloc sys.toSystem lineOld sys.capacity
  defaultGetaddrinfo := defaultGetaddrinfo
  defaultFreeaddrinfo := defaultFree

/-! ## Steps -/

def Call.run (sys : System) (call : Call) : Prog State Unit := do
  let _ ← alone.call sys call

/-- Two blocks have no byte in common; one of size 0 has its address for itself. -/
def Apart (a b : Address × Nat) : Prop := a.1 + max a.2 1 ≤ b.1 ∨ b.1 + max b.2 1 ≤ a.1

/-- The block lies in the address space, off the other blocks and off the static buffer. -/
def State.Fits (s : State) (others : Blocks) (block : Address × Nat) : Prop :=
  block.1 + block.2 ≤ 2 ^ 64 ∧ (∀ b ∈ others, Apart block b) ∧ Apart block (s.staticBuf, s.staticSize)

instance (a b : Address × Nat) : Decidable (Apart a b) := inferInstanceAs (Decidable (_ ∨ _))

instance (s : State) (others : Blocks) (block : Address × Nat) : Decidable (s.Fits others block) :=
  inferInstanceAs (Decidable (_ ∧ _ ∧ _))

/-- The block that a call replaces; 0 if there is none. -/
def State.replaced (s : State) : Call → Address
  | .realloc ptr _ => if s.allocIsStatic ptr then 0 else ptr
  | _ => 0

/-- The size of the block that a call asks for. -/
def Call.size : Call → Nat
  | .malloc size => size
  | .calloc num size => num * size
  | .realloc _ size => size
  | .free _ => 0

/-- What the system may answer: the new block fits, and only a `realloc` to size 0 releases the block. -/
structure System.Possible (sys : System) (s : State) (call : Call) : Prop where
  fits : sys.result ≠ 0 → s.Fits (s.blocks.without (s.replaced call)) (sys.result, call.size)
  released : sys.released = true → call.size = 0

/-- One call of the user, with the answers of the system. -/
def Step (s : State) (event : Call × System) (s' : State) : Prop :=
  event.2.Possible s event.1 ∧ (event.1.run event.2).Returns s () s'

end SysprogLabs.HeapHelp
