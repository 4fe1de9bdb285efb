import SysprogLabs.Lib.Store

/-! # The coroutines of `libcoro.c`

`coro_new`, `coro_yield`, `coro_sched_wait` and `coro_body`, with the list of the coroutines and
the contexts they jump between.

* The body of a coroutine is the sequence of calls it makes.
* A saved context is the place in the code where `sigsetjmp` was called, with the local variables
  that are used behind it and the stack it runs on; `siglongjmp` goes on from there.
* `Control` is where the processor is.  `coro_this_ptr` is a variable of its own and nothing but
  the code keeps it up to date.
* `main` may do anything but finish: create coroutines, wait, yield, and delete a coroutine that
  `coro_sched_wait` has returned.
-/

namespace SysprogLabs.Libcoro

/-- What a `coro_f` does. -/
inductive Body where
  /-- `return value;` -/
  | ret (value : Int)
  /-- `coro_yield(); …` -/
  | yield (rest : Body)
  /-- `coro_new(body, …); …` -/
  | new (body rest : Body)

/-- A `struct coro *` that is not `NULL`: `&coro_sched` or a coroutine. -/
inductive Who where
  | sched
  | coro (c : Nat)
  deriving DecidableEq, Repr

inductive Context where
  /-- In `coro_body` of the coroutine `c`, before it calls `func`. -/
  | start (c : Nat)
  /-- In `coro_yield_to` with the local variable `from`, called by the body of `c`. -/
  | yielded (c : Nat) (source : Who) (rest : Body)
  /-- In `coro_yield_to`, called by `coro_sched_wait`. -/
  | waiting (source : Who)
  /-- In `coro_yield_to`, called by `main` through `coro_yield`. -/
  | main (source : Who)

inductive Control where
  /-- In `main`, outside of the library. -/
  | main
  /-- At the head of the loop of `coro_sched_wait`. -/
  | waiting
  /-- On the stack of `c`, before the rest of its body. -/
  | body (c : Nat) (rest : Body)
  /-- The process has exited. -/
  | exited

structure Coro where
  ret : Int
  func : Body
  ctx : Option Context
  isFinished : Bool
  switchCount : Int
  next : Ptr
  prev : Ptr

structure State where
  coros : Store Coro
  coroSched : Coro
  isSchedWaiting : Bool
  coroThisPtr : Option Who
  coroList : Ptr
  control : Control
  /-- What `coro_sched_wait` has returned, the last one first; the code does not have it. -/
  returned : List Nat

/-- Behind `coro_sched_init`. -/
def State.init : State where
  coros := .empty
  coroSched := { ret := 0, func := .ret 0, ctx := none, isFinished := false, switchCount := 0,
                 next := none, prev := none }
  isSchedWaiting := false
  coroThisPtr := some .sched
  coroList := none
  control := .main
  returned := []

def coroHeap : Lens State (Store Coro) := ⟨State.coros, fun h s => { s with coros := h },
  fun _ _ => rfl, fun _ _ _ => rfl, fun _ => rfl⟩

@[simp] theorem coroHeap_get (s : State) : coroHeap.get s = s.coros := rfl
@[simp] theorem coroHeap_set (h : Store Coro) (s : State) : coroHeap.set h s = { s with coros := h } := rfl

/-! ## The list -/

def coroListAdd (c : Nat) : Prog State Unit := do
  let first ← .read State.coroList
  coroHeap.modify (some c) fun x => { x with next := first }
  coroHeap.modify (some c) fun x => { x with prev := none }
  .when (first ≠ none) (coroHeap.modify first fun x => { x with prev := some c })
  .update fun s => { s with coroList := some c }

def coroListDelete (c : Nat) : Prog State Unit := do
  let x ← coroHeap.load (some c)
  .when (x.prev ≠ none) (coroHeap.modify x.prev fun y => { y with next := x.next })
  .when (x.next ≠ none) (coroHeap.modify x.next fun y => { y with prev := x.prev })
  .when (x.prev = none) (.update fun s => { s with coroList := x.next })

/-! ## Switching -/

def loadCoro : Who → Prog State Coro
  | .sched => .read State.coroSched
  | .coro c => coroHeap.load (some c)

def modifyCoro : Who → (Coro → Coro) → Prog State Unit
  | .sched, f => .update fun s => { s with coroSched := f s.coroSched }
  | .coro c, f => coroHeap.modify (some c) f

def this : Prog State Who := do
  let s ← .read id
  .require s.coroThisPtr

def setThis (who : Option Who) : Prog State Unit := .update fun s => { s with coroThisPtr := who }

def goto (control : Control) : Prog State Unit := .update fun s => { s with control := control }

/-- Where a context goes on. -/
def resume : Context → Prog State Unit
  | .start c => do
    setThis (some (.coro c))
    let x ← loadCoro (.coro c)
    goto (.body c x.func)
  | .yielded c source rest => do
    setThis (some source)
    goto (.body c rest)
  | .waiting source => do
    setThis (some source)
    .update fun s => { s with isSchedWaiting := false }
    goto .waiting
  | .main source => do
    setThis (some source)
    goto .main

/-- `siglongjmp(to->ctx, 1)`: what is in `ctx` before a `sigsetjmp` is no context. -/
def jump (target : Who) : Prog State Unit := do
  let x ← loadCoro target
  let ctx ← .require x.ctx
  resume ctx

/-- `save` is the context of the call, by the value of `from`. -/
def coroYieldTo (save : Who → Context) (target : Who) : Prog State Unit := do
  let source ← this
  modifyCoro source fun x => { x with switchCount := x.switchCount + 1 }
  modifyCoro source fun x => { x with ctx := some (save source) }
  jump target

/-- It also tells to whom. -/
def coroYield (save : Who → Context) : Prog State Who := do
  let source ← this
  let x ← loadCoro source
  let target := match x.next with
    | none => Who.sched
    | some c => Who.coro c
  coroYieldTo save target
  return target

/-! ## Coroutines -/

/-- The signal handler runs on the new stack until the context of `coro_body` is saved. -/
def coroNew (body : Body) : Prog State Nat := do
  let c ← coroHeap.malloc fun _ =>
    { ret := 0, func := body, ctx := none, isFinished := false, switchCount := 0, next := none, prev := none }
  let old ← .read State.coroThisPtr
  setThis (some (.coro c))
  let handled ← this
  setThis none
  modifyCoro handled fun x => { x with ctx := some (.start c) }
  setThis old
  coroListAdd c
  return c

/-- The loop that looks for a finished coroutine. -/
def findFinished (first : Ptr) : Prog State Ptr :=
  .loop (fun p => match p with
    | none => return .done none
    | some c => do
      let x ← coroHeap.load (some c)
      if x.isFinished then return .done (some c) else return .again x.next) first

inductive Label where
  /-- A coroutine is created. -/
  | new (c : Nat)
  /-- `main` calls `coro_sched_wait`. -/
  | wait
  /-- `main` deletes a coroutine. -/
  | delete (c : Nat)
  /-- Control is transferred. -/
  | switch (target : Who)
  /-- A coroutine finishes, which transfers control to the scheduler. -/
  | finish (c : Nat)
  /-- `coro_sched_wait` returns. -/
  | returned (c : Ptr)
  | exit
  deriving DecidableEq, Repr

/-- One round of the loop of `coro_sched_wait`. -/
def coroSchedWait : Prog State Label := do
  let first ← .read State.coroList
  match first with
  | none =>
    goto .main
    return .returned none
  | some c =>
    let finished ← findFinished (some c)
    match finished with
    | some c =>
      coroListDelete c
      .update fun s => { s with returned := c :: s.returned }
      goto .main
      return .returned (some c)
    | none =>
      .update fun s => { s with isSchedWaiting := true }
      let first ← .read State.coroList
      let target ← .require first
      coroYieldTo .waiting (.coro target)
      return .switch (.coro target)

/-- The end of `coro_body`. -/
def finish (c : Nat) (value : Int) : Prog State Label := do
  coroHeap.modify (some c) fun x => { x with ret := value }
  coroHeap.modify (some c) fun x => { x with isFinished := true }
  let s ← .read id
  if s.isSchedWaiting = false then
    goto .exited
    return .exit
  else
    jump .sched
    return .finish c

/-- What the code of the coroutine `c` does next. -/
def runBody (c : Nat) : Body → Prog State Label
  | .ret value => finish c value
  | .yield rest => do
    let target ← coroYield fun source => .yielded c source rest
    return .switch target
  | .new body rest => do
    let new ← coroNew body
    goto (.body c rest)
    return .new new

/-! ## Steps -/

inductive MainCall where
  | new (body : Body)
  | wait
  | yield
  | delete (c : Nat)

def MainCall.run : MainCall → Prog State Label
  | .new body => do
    let c ← coroNew body
    return .new c
  | .wait => do
    goto .waiting
    return .wait
  | .yield => do
    let target ← coroYield .main
    return .switch target
  | .delete c => do
    coroHeap.free (some c)
    return .delete c

/-- `main` only deletes what `coro_sched_wait` has returned, and only once. -/
def MainCall.Allowed (call : MainCall) (s : State) : Prop :=
  match call with
  | .delete c => c ∈ s.returned ∧ s.coros.cell c ≠ none
  | _ => True

/-- `main` chooses its calls, and everything else is determined. -/
def Step (s : State) (label : Label) (s' : State) : Prop :=
  match s.control with
  | .main => ∃ call : MainCall, call.Allowed s ∧ call.run.Returns s label s'
  | .waiting => coroSchedWait.Returns s label s'
  | .body c rest => (runBody c rest).Returns s label s'
  | .exited => False

end SysprogLabs.Libcoro
