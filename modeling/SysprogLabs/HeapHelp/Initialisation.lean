import SysprogLabs.HeapHelp.Interleaving
import SysprogLabs.HeapHelp.Nesting

/-! # The initialisation

What comes before the tracker of the other modules: all the variables of `heap_help.c` at the start of
the process, the static allocator, and `heaph_touch` with `heaph_init`.

* `dlsym` and `atexit` call the hooks themselves; a `World` says which of them they call.  `mmap`
  fails for the static buffer if the world has no address for it.
* A `default_` pointer is `NULL`, a function of the static allocator or a function of the system,
  which `dlsym` finds.
* A call of the static allocator is one action: only the thread that has `init_lock` gets through it.
* `again` is what a nested call of `heaph_touch` would initialise.  It never does, since its thread
  already has the lock.
-/

namespace SysprogLabs.HeapHelp

open Prog

/-- What a `default_` pointer points to. -/
inductive Default where
  | null
  | static
  | system
  deriving DecidableEq

structure Defaults where
  malloc : Default
  free : Default
  calloc : Default
  realloc : Default
  strdup : Default
  getline : Default
  getaddrinfo : Default
  freeaddrinfo : Default
  deriving DecidableEq

def Defaults.null : Defaults := ⟨.null, .null, .null, .null, .null, .null, .null, .null⟩

def Defaults.system : Defaults := ⟨.system, .system, .system, .system, .system, .system, .system, .system⟩

/-- The variables of `heap_help.c`. -/
structure Globals where
  tracker : State
  initLock : Bool
  initLockCount : Int
  staticUsed : Nat
  defaults : Defaults
  reportMode : ReportMode
  /-- How often `heaph_atexit` is registered. -/
  exitHandlers : Nat

/-- At the start of the process. -/
def Globals.zero : Globals where
  tracker := { State.start 0 with isInitDone := false }
  initLock := false
  initLockCount := 0
  staticUsed := 0
  defaults := .null
  reportMode := .leaks
  exitHandlers := 0

def trackerLens : Lens Globals State := ⟨Globals.tracker, fun s g => { g with tracker := s },
  fun _ _ => rfl, fun _ _ _ => rfl, fun _ => rfl⟩

@[simp] theorem trackerLens_get (g : Globals) : trackerLens.get g = g.tracker := rfl
@[simp] theorem trackerLens_set (s : State) (g : Globals) : trackerLens.set s g = { g with tracker := s } := rfl

structure World where
  /-- Where the static buffer is mapped. -/
  buffer : Option Address
  /-- The calls that `dlsym` makes to look a function up. -/
  dlsym : String → List (Hook × Answer)
  hhReport : Option String
  /-- The calls that `atexit` makes. -/
  atexit : List (Hook × Answer)
  nonnull : ∀ b, buffer = some b → b ≠ 0
  /-- A block of the system is off the static buffer. -/
  apart : ∀ event ∈ atexit, event.2.result ≠ 0 → ∀ b, buffer = some b → ¬ (State.start b).allocIsStatic event.2.result

/-! ## The static allocator -/

def staticAllocatorTouch (buffer : Option Address) : Prog Globals Unit := do
  let g ← .read id
  if g.tracker.staticBuf ≠ 0 then return ()
  else
    let buf ← .require buffer
    .update fun g => { g with tracker := { g.tracker with staticSize := 16 * 1024, staticBuf := buf } }

def staticMalloc (buffer : Option Address) (size : Nat) : Prog Globals Address := do
  let g ← .read id
  heaphAssert (g.tracker.isInitDone = false)
  heaphAssert (g.initLock = true)
  staticAllocatorTouch buffer
  let g ← .read id
  heaphAssert (g.staticUsed ≤ g.tracker.staticSize)
  heaphAssert (size < g.tracker.staticSize - g.staticUsed)
  .update fun g => { g with staticUsed := g.staticUsed + size }
  return g.tracker.staticBuf + g.staticUsed

def staticFree (buffer : Option Address) (ptr : Address) : Prog Globals Unit := do
  let g ← .read id
  heaphAssert (g.tracker.isInitDone = false)
  heaphAssert (g.initLock = true)
  staticAllocatorTouch buffer
  let g ← .read id
  heaphAssert (ptr = 0 ∨ g.tracker.allocIsStatic ptr)

def staticCalloc (buffer : Option Address) (count size : Nat) : Prog Globals Address :=
  staticMalloc buffer (size * count % 2 ^ 64)

/-! ## The hooks

A hook calls what its `default_` pointer points to. -/

/-- A call through a `default_` pointer. -/
def callDefault {α : Type} (pointer : Defaults → Default) (static : Prog Globals α) (system : Prog State α) :
    Prog Globals α := do
  let default ← .read fun g => pointer g.defaults
  match default with
  | .null => .fault
  | .static => static
  | .system => .zoom trackerLens system

namespace Startup

/-- A thread of a process that `touch` may have to initialise.  Of the pointers only `default_malloc`,
    `default_free` and `default_calloc` ever point to the static allocator. -/
@[simps]
def startup (touch : Code Globals Unit) (buffer : Option Address) : Site (Code Globals) where
  read f := .lift (.read fun g => f g.tracker)
  heaphAssert flag := .lift (HeapHelp.heaphAssert flag)
  records p := .lift (.zoom trackerLens (.zoom recordsPart p))
  enter := .lift (.zoom trackerLens enter)
  leave := .lift (.zoom trackerLens leave)
  heaphTouch := touch
  defaultMalloc sys size := .lift (callDefault Defaults.malloc (staticMalloc buffer size) (defaultMalloc sys size))
  defaultCalloc sys num size :=
    .lift (callDefault Defaults.calloc (staticCalloc buffer num size) (defaultMalloc sys (num * size)))
  defaultRealloc sys ptr size := .lift (callDefault Defaults.realloc .fault (defaultRealloc sys ptr size))
  defaultFree ptr := .lift (callDefault Defaults.free (staticFree buffer ptr) (defaultFree ptr))
  defaultStrdup sys _ := .lift (callDefault Defaults.strdup .fault (defaultMalloc sys.toSystem (sys.length + 1)))
  defaultGetline sys lineOld :=
    .lift (callDefault Defaults.getline .fault (defaultRealloc sys.toSystem lineOld sys.capacity))
  defaultGetaddrinfo sys := .lift (callDefault Defaults.getaddrinfo .fault (defaultGetaddrinfo sys))
  defaultFreeaddrinfo ai := .lift (callDefault Defaults.freeaddrinfo .fault (defaultFree ai))

section

variable (touch : Code Globals Unit) (buffer : Option Address)

def hook (sys : Answer) (hook : Hook) : Code Globals Address := (startup touch buffer).hook sys hook

/-- Hook calls one after the other. -/
def hooks : List (Hook × Answer) → Code Globals Unit
  | [] => return ()
  | event :: events => do
    let _ ← hook touch buffer event.2 event.1
    hooks events

end

/-! ## The lock -/

-- `init_lock` is taken from here on until `heaph_unlock`.
def spinlockAcq : Prog Globals Unit :=
  .loop (fun _ => do
    let held ← .read Globals.initLock
    .update fun g => { g with initLock := true }
    if held then return .again () else return .done ()) ()

def spinlockRel : Prog Globals Unit := do
  let held ← .read Globals.initLock
  heaphAssert (held = true)
  .update fun g => { g with initLock := false }

def heaphLock : Prog Globals Unit := do
  let count ← .read Globals.initLockCount
  .when (count = 0) spinlockAcq
  .update fun g => { g with initLockCount := g.initLockCount + 1 }

def heaphUnlock : Prog Globals Unit := do
  let count ← .read Globals.initLockCount
  heaphAssert (0 < count)
  .update fun g => { g with initLockCount := g.initLockCount - 1 }
  .when (count - 1 = 0) spinlockRel

/-! ## `heaph_init` and `heaph_touch` -/

/-- `__atomic_exchange_n(&is_init_done, true, …)` -/
def exchangeInitDone : Prog Globals Bool := do
  let old ← .read fun g => g.tracker.isInitDone
  .update fun g => { g with tracker := { g.tracker with isInitDone := true } }
  return old

/-- What `heaph_touch` does when it has found that nothing is initialised. -/
def initialise (init : Code Globals Unit) : Code Globals Unit := do
  .lift heaphLock
  init
  let old ← .lift exchangeInitDone
  .lift heaphUnlock
  .lift (heaphAssert (old = false))

def heaphTouch (init : Code Globals Unit) : Code Globals Unit := do
  let isInitDone ← .lift (.read fun g => g.tracker.isInitDone)
  if isInitDone then return ()
  else do
    let count ← .lift (.read Globals.initLockCount)
    if count > 0 then return ()
    else initialise init

-- `heaph_init`: the part behind `getenv`.
def chooseMode : Option String → Prog Globals Unit
  | none => return ()
  | some hhReport =>
    if hhReport = "v" then .update fun g => { g with reportMode := .verbose }
    else if hhReport = "l" then .update fun g => { g with reportMode := .leaks }
    else .when (hhReport = "q") (.update fun g => { g with reportMode := .quiet })

section

variable (again : Code Globals Unit) (w : World)

def dlsym (name : String) : Code Globals Default := do
  hooks (heaphTouch again) w.buffer (w.dlsym name)
  return .system

def atexit : Code Globals Unit := do
  hooks (heaphTouch again) w.buffer w.atexit
  .lift (.update fun g => { g with exitHandlers := g.exitHandlers + 1 })

def heaphInit : Code Globals Unit := do
  .lift (.update fun g => { g with defaults := { g.defaults with malloc := .static } })
  .lift (.update fun g => { g with defaults := { g.defaults with free := .static } })
  .lift (.update fun g => { g with defaults := { g.defaults with calloc := .static } })
  let symMalloc ← dlsym again w "malloc"
  let symFree ← dlsym again w "free"
  let symCalloc ← dlsym again w "calloc"
  let symRealloc ← dlsym again w "realloc"
  let symStrdup ← dlsym again w "strdup"
  let symGetline ← dlsym again w "getline"
  let symGetaddrinfo ← dlsym again w "getaddrinfo"
  let symFreeaddrinfo ← dlsym again w "freeaddrinfo"
  .lift (.update fun g => { g with defaults := { g.defaults with malloc := symMalloc } })
  .lift (.update fun g => { g with defaults := { g.defaults with free := symFree } })
  .lift (.update fun g => { g with defaults := { g.defaults with calloc := symCalloc } })
  .lift (.update fun g => { g with defaults := { g.defaults with realloc := symRealloc } })
  .lift (.update fun g => { g with defaults := { g.defaults with strdup := symStrdup } })
  .lift (.update fun g => { g with defaults := { g.defaults with getline := symGetline } })
  .lift (.update fun g => { g with defaults := { g.defaults with getaddrinfo := symGetaddrinfo } })
  .lift (.update fun g => { g with defaults := { g.defaults with freeaddrinfo := symFreeaddrinfo } })
  .lift (chooseMode w.hhReport)
  atexit again w

/-- `heaph_init`, where initialisations inside of it go down to depth `n`: there are none, whatever `n` is. -/
def initAt : Nat → Code Globals Unit
  | 0 => heaphInit (.lift .fault) w
  | n + 1 => heaphInit (initAt n) w

end

end Startup

end SysprogLabs.HeapHelp
