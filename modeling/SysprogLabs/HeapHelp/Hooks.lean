import SysprogLabs.HeapHelp.Calls
import SysprogLabs.Lib.Threads

/-! # The hooks under several threads

All functions that `heap_help.c` redefines, as code whose actions other threads may come between: a
critical section under `allocs_lock` is one action, and so is every access to a shared variable
outside of them, every write to a record in hand and every call of a function of the system.

`depth` is a thread's own: `Threads` puts it in place for the actions of its thread.  Where a call runs
alone, it does what the calls of the single thread do (`Hook.straight`).
-/

namespace SysprogLabs.HeapHelp

theorem State.depth_eta (s : State) : { s with depth := s.depth } = s := rfl

def depthPart : Lens State Int := ⟨State.depth, fun d s => { s with depth := d },
  fun _ _ => rfl, fun _ _ _ => rfl, State.depth_eta⟩

@[simp] theorem depthPart_get (s : State) : depthPart.get s = s.depth := rfl
@[simp] theorem depthPart_set (d : Int) (s : State) : depthPart.set d s = { s with depth := d } := rfl

/-- A thread among others: everything that it does is one action. -/
@[simps]
def threaded : Site (Code State) where
  read f := .lift (.read f)
  heaphAssert flag := .lift (HeapHelp.heaphAssert flag)
  records p := .lift (.zoom recordsPart p)
  enter := .lift enter
  leave := .lift leave
  heaphTouch := .lift heaphTouch
  defaultMalloc sys size := .lift (defaultMalloc sys size)
  defaultCalloc sys num size := .lift (defaultMalloc sys (num * size))
  defaultRealloc sys ptr size := .lift (defaultRealloc sys ptr size)
  defaultFree ptr := .lift (defaultFree ptr)
  defaultStrdup sys _ := .lift (defaultMalloc sys.toSystem (sys.length + 1))
  defaultGetline sys lineOld := .lift (defaultRealloc sys.toSystem lineOld sys.capacity)
  defaultGetaddrinfo sys := .lift (defaultGetaddrinfo sys)
  defaultFreeaddrinfo ai := .lift (defaultFree ai)

def Hook.code (sys : Answer) (hook : Hook) : Code State Address := threaded.hook sys hook

/-! ## Running alone -/

section Straight

variable {s : State} {sys : Answer}

open Prog

theorem allocTraceNew_straight {sys : System} {ptr size : Nat} {Q : Unit → State → Prop} :
    (threaded.allocTraceNew sys ptr size).straight.Ensures s Q ↔ (alone.allocTraceNew sys ptr size).Ensures s Q := by
  simp only [Site.allocTraceNew, threaded, alone, Code.ensures_straight_bind, Code.ensures_straight_lift,
    Code.ensures_straight_ite, Code.ensures_straight_pure, ensures_bind, ensures_ite, ensures_pure]

theorem allocFree_straight {ptr : Address} {Q : Unit → State → Prop} :
    (threaded.allocFree ptr).straight.Ensures s Q ↔ (alone.allocFree ptr).Ensures s Q := by
  simp only [Site.allocFree, threaded, alone, Code.ensures_straight_bind, Code.ensures_straight_lift,
    Code.ensures_straight_ite, Code.ensures_straight_pure, ensures_bind, ensures_ite, ensures_pure]

/-- A call that runs alone does what it does in a single thread. -/
theorem Hook.straight (hook : Hook) {Q : Address → State → Prop} :
    (hook.code sys).straight.Ensures s Q ↔ (alone.hook sys hook).Ensures s Q := by
  cases hook with
  | heap call =>
    cases call with
    | malloc size => simp [Hook.code, Site.hook, Site.call, Site.malloc, allocTraceNew_straight]
    | calloc num size => simp [Hook.code, Site.hook, Site.call, Site.calloc, allocTraceNew_straight]
    | realloc ptr size =>
      simp [Hook.code, Site.hook, Site.call, Site.realloc, allocTraceNew_straight, allocFree_straight]
    | free ptr => simp [Hook.code, Site.hook, Site.call, Site.free, allocFree_straight]
  | strdup ptr => simp [Hook.code, Site.hook, Site.strdup, allocTraceNew_straight]
  | getline lineOld => simp [Hook.code, Site.hook, Site.getline, allocTraceNew_straight, allocFree_straight]
  | getaddrinfo => simp [Hook.code, Site.hook, Site.getaddrinfo, allocTraceNew_straight]
  | freeaddrinfo ai => simp [Hook.code, Site.hook, Site.freeaddrinfo, allocFree_straight]

end Straight

end SysprogLabs.HeapHelp
