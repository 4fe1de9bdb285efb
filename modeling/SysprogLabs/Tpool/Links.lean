import SysprogLabs.Tpool.Sections
import SysprogLabs.Lib.Links

/-! # The links

The other half of the heap: the pointers that tie the instances of a pool together.
Three pieces of code move them; each is a function on `Links`, and every other section
keeps them.
-/

namespace SysprogLabs.Tpool

open Prog

variable {junk : Nat → Value}

structure Links where
  next : Nat → Ptr
  prev : Nat → Ptr
  task : Nat → Ptr
  lastTask : Nat → Ptr
  fresh : Nat

def Heap.links (h : Heap) : Links where
  next p := (h.tpTasks.cell p).bind ThreadPoolTask.next
  prev p := (h.tpTasks.cell p).bind ThreadPoolTask.prev
  task P := (h.pools.cell P).bind ThreadPool.task
  lastTask P := (h.pools.cell P).bind ThreadPool.lastTask
  fresh := h.tpTasks.next

namespace Links

def setNext (k : Links) (p : Nat) (v : Ptr) : Links := { k with next := Function.update k.next p v }

def setPrev (k : Links) (p : Nat) (v : Ptr) : Links := { k with prev := Function.update k.prev p v }

def setTask (k : Links) (P : Nat) (v : Ptr) : Links := { k with task := Function.update k.task P v }

def setLastTask (k : Links) (P : Nat) (v : Ptr) : Links := { k with lastTask := Function.update k.lastTask P v }

/-- What `thread_pool_push_task` does with the new instance. -/
def push (k : Links) (P : Nat) : Links :=
  let k₁ := { k with fresh := k.fresh + 1 }.setNext k.fresh (k.task P)
  let k₂ := match k.task P with
    | some first => k₁.setPrev first (some k.fresh)
    | none => k₁
  let k₃ := k₂.setTask P (some k.fresh)
  if k.lastTask P = none then k₃.setLastTask P (some k.fresh) else k₃

/-- What the worker does with the first instance, which it has picked up. -/
def moveToEnd (k : Links) (P p : Nat) : Links :=
  if k.lastTask P = some p then k
  else match k.next p, k.lastTask P with
    | some second, some last =>
      (((((k.setTask P (some second)).setPrev second none).setPrev p (some last)).setNext last (some p)).setNext p
        none).setLastTask P (some p)
    | _, _ => k

/-- What `delete_task` does with one instance. -/
def unlink (k : Links) (P p : Nat) : Links :=
  let k₁ := if k.lastTask P = some p then k.setLastTask P (k.prev p) else k
  let k₂ := match k.next p with
    | some second => k₁.setPrev second (k.prev p)
    | none => k₁
  let k₃ := match k.prev p with
    | some before => k₂.setNext before (k.next p)
    | none => k₂.setTask P (k.next p)
  (k₃.setNext p none).setPrev p none

def unlinkAll (k : Links) (P : Nat) (list : List Nat) : Links := list.foldl (fun k p => k.unlink P p) k

/-- The pool is released. -/
def dropPool (k : Links) (P : Nat) : Links := (k.setTask P none).setLastTask P none

end Links

/-! ## What the operations on objects do to the links -/

section

variable {h : Heap} {p P : Nat}

theorem links_put_tpTask {old new : ThreadPoolTask} (live : h.tpTasks.cell p = some old) :
    Heap.links { h with tpTasks := h.tpTasks.put p new } = (h.links.setNext p new.next).setPrev p new.prev := by
  simp only [Heap.links, Links.setNext, Links.setPrev, Links.mk.injEq, and_true, Store.put_next]
  exact ⟨Store.put_bind live _ _, Store.put_bind live _ _⟩

theorem links_free_tpTask :
    Heap.links { h with tpTasks := h.tpTasks.free p } = (h.links.setNext p none).setPrev p none := by
  simp only [Heap.links, Links.setNext, Links.setPrev, Links.mk.injEq, and_true, Store.free_next]
  exact ⟨Store.free_bind _ _ _, Store.free_bind _ _ _⟩

/-- A fresh instance is not linked yet. -/
theorem links_alloc_tpTask {new : ThreadPoolTask} (next : new.next = none) (prev : new.prev = none) :
    Heap.links { h with tpTasks := h.tpTasks.alloc new } = { h.links with fresh := h.links.fresh + 1 } := by
  simp only [Heap.links, Links.mk.injEq, and_true, Store.alloc_next]
  exact ⟨Store.alloc_bind _ next, Store.alloc_bind _ prev⟩

theorem links_put_pool {old new : ThreadPool} (live : h.pools.cell P = some old) :
    Heap.links { h with pools := h.pools.put P new } =
      (h.links.setTask P new.task).setLastTask P new.lastTask := by
  simp only [Heap.links, Links.setTask, Links.setLastTask, Links.mk.injEq, and_true, true_and]
  exact ⟨Store.put_bind live _ _, Store.put_bind live _ _⟩

theorem links_free_pool :
    Heap.links { h with pools := h.pools.free P } = h.links.dropPool P := by
  simp only [Heap.links, Links.dropPool, Links.setTask, Links.setLastTask, Links.mk.injEq, and_true, true_and]
  exact ⟨Store.free_bind _ _ _, Store.free_bind _ _ _⟩

theorem links_alloc_pool {new : ThreadPool} (task : new.task = none) (lastTask : new.lastTask = none) :
    Heap.links { h with pools := h.pools.alloc new } = h.links := by
  simp only [Heap.links, Links.mk.injEq, and_true, true_and]
  exact ⟨Store.alloc_bind _ task, Store.alloc_bind _ lastTask⟩

end

/-! ## Rules for the operations of the code -/

section

variable {k : Links} {p t P : Nat} {ptr v : Ptr}

theorem Links.setNext_self : k.setNext p (k.next p) = k := by
  rw [setNext, Function.update_eq_self]

theorem Links.setPrev_self : k.setPrev p (k.prev p) = k := by
  rw [setPrev, Function.update_eq_self]

theorem Links.setTask_self : k.setTask P (k.task P) = k := by
  rw [setTask, Function.update_eq_self]

theorem Links.setLastTask_self : k.setLastTask P (k.lastTask P) = k := by
  rw [setLastTask, Function.update_eq_self]

theorem links_tpTask {h : Heap} {i : ThreadPoolTask} (live : h.tpTasks.cell p = some i) :
    h.links.next p = i.next ∧ h.links.prev p = i.prev := by
  simp only [Heap.links, live, Option.bind_some, and_self]

theorem links_pool {h : Heap} {pool : ThreadPool} (live : h.pools.cell P = some pool) :
    h.links.task P = pool.task ∧ h.links.lastTask P = pool.lastTask := by
  simp only [Heap.links, live, Option.bind_some, and_self]

theorem load_tpTask_links {Q : ThreadPoolTask → Links → Prop}
    (holds : ∀ p i, ptr = some p → k.next p = i.next → k.prev p = i.prev → Q i k) :
    (tpTaskHeap.load ptr).YieldsOn Heap.links k Q := by
  intro h shown
  rw [Lens.yields_load]
  intro p at_p i live
  subst shown
  exact holds p i at_p (links_tpTask live).1 (links_tpTask live).2

theorem load_task_links {Q : ThreadTask → Links → Prop} (holds : ∀ task, Q task k) :
    (taskHeap.load ptr).YieldsOn Heap.links k Q := by
  intro h shown
  rw [Lens.yields_load]
  intro t at_t task live
  subst shown
  exact holds task

theorem load_pool_links {Q : ThreadPool → Links → Prop}
    (holds : ∀ P pool, ptr = some P → k.task P = pool.task → k.lastTask P = pool.lastTask → Q pool k) :
    (poolHeap.load ptr).YieldsOn Heap.links k Q := by
  intro h shown
  rw [Lens.yields_load]
  intro P at_P pool live
  subst shown
  exact holds P pool at_P (links_pool live).1 (links_pool live).2

theorem links_put_same {h : Heap} {old : ThreadPoolTask} (new : ThreadPoolTask) (live : h.tpTasks.cell p = some old)
    (kept : new.next = old.next ∧ new.prev = old.prev) :
    Heap.links { h with tpTasks := h.tpTasks.put p new } = h.links := by
  obtain ⟨at_next, at_prev⟩ := links_tpTask live
  rw [links_put_tpTask live, kept.1, kept.2, ← at_next, Links.setNext_self, ← at_prev, Links.setPrev_self]

theorem links_pool_same {h : Heap} {old : ThreadPool} (new : ThreadPool) (live : h.pools.cell P = some old)
    (kept : new.task = old.task ∧ new.lastTask = old.lastTask) :
    Heap.links { h with pools := h.pools.put P new } = h.links := by
  obtain ⟨at_task, at_last⟩ := links_pool live
  rw [links_put_pool live, kept.1, kept.2, ← at_task, Links.setTask_self, ← at_last, Links.setLastTask_self]

/-- The fields of an instance that are no links. -/
theorem modify_tpTask_links {f : ThreadPoolTask → ThreadPoolTask} {Q : Unit → Links → Prop}
    (kept : ∀ i, (f i).next = i.next ∧ (f i).prev = i.prev) (holds : Q () k) :
    (tpTaskHeap.modify ptr f).YieldsOn Heap.links k Q := by
  intro h shown
  rw [Lens.yields_modify]
  intro p at_p i live
  subst shown
  rw [← links_put_same _ live (kept i)] at holds
  exact holds

theorem modify_next {f : ThreadPoolTask → ThreadPoolTask} {Q : Unit → Links → Prop}
    (sets : ∀ i, (f i).next = v ∧ (f i).prev = i.prev)
    (holds : ∀ p, ptr = some p → Q () (k.setNext p v)) :
    (tpTaskHeap.modify ptr f).YieldsOn Heap.links k Q := by
  intro h shown
  rw [Lens.yields_modify]
  intro p at_p i live
  subst shown
  have same : Heap.links { h with tpTasks := h.tpTasks.put p (f i) } = h.links.setNext p v := by
    have at_prev : (h.links.setNext p v).prev p = i.prev := (links_tpTask live).2
    rw [links_put_tpTask live, (sets i).1, (sets i).2, ← at_prev, Links.setPrev_self]
  have result := holds p at_p
  rw [← same] at result
  exact result

theorem modify_prev {f : ThreadPoolTask → ThreadPoolTask} {Q : Unit → Links → Prop}
    (sets : ∀ i, (f i).next = i.next ∧ (f i).prev = v)
    (holds : ∀ p, ptr = some p → Q () (k.setPrev p v)) :
    (tpTaskHeap.modify ptr f).YieldsOn Heap.links k Q := by
  intro h shown
  rw [Lens.yields_modify]
  intro p at_p i live
  subst shown
  have same : Heap.links { h with tpTasks := h.tpTasks.put p (f i) } = h.links.setPrev p v := by
    rw [links_put_tpTask live, (sets i).1, (sets i).2, ← (links_tpTask live).1, Links.setNext_self]
  have result := holds p at_p
  rw [← same] at result
  exact result

theorem modify_task_links {f : ThreadTask → ThreadTask} {Q : Unit → Links → Prop} (holds : Q () k) :
    (taskHeap.modify ptr f).YieldsOn Heap.links k Q := by
  intro h shown
  rw [Lens.yields_modify]
  intro t at_t task live
  subst shown
  exact holds

/-- The fields of a pool that are no links. -/
theorem modify_pool_links {f : ThreadPool → ThreadPool} {Q : Unit → Links → Prop}
    (kept : ∀ pool, (f pool).task = pool.task ∧ (f pool).lastTask = pool.lastTask)
    (holds : Q () k) : (poolHeap.modify ptr f).YieldsOn Heap.links k Q := by
  intro h shown
  rw [Lens.yields_modify]
  intro P at_P pool live
  subst shown
  rw [← links_pool_same _ live (kept pool)] at holds
  exact holds

theorem when_modify_pool_links {c : Prop} [Decidable c] {f : ThreadPool → ThreadPool} {Q : Unit → Links → Prop}
    (kept : ∀ pool, (f pool).task = pool.task ∧ (f pool).lastTask = pool.lastTask) (holds : Q () k) :
    (Prog.when c (poolHeap.modify ptr f)).YieldsOn Heap.links k Q :=
  .when (fun _ => modify_pool_links kept holds) fun _ => holds

theorem modify_first {f : ThreadPool → ThreadPool} {Q : Unit → Links → Prop}
    (sets : ∀ pool, (f pool).task = v ∧ (f pool).lastTask = pool.lastTask)
    (holds : ∀ P, ptr = some P → Q () (k.setTask P v)) :
    (poolHeap.modify ptr f).YieldsOn Heap.links k Q := by
  intro h shown
  rw [Lens.yields_modify]
  intro P at_P pool live
  subst shown
  have same : Heap.links { h with pools := h.pools.put P (f pool) } = h.links.setTask P v := by
    have at_last : (h.links.setTask P v).lastTask P = pool.lastTask := (links_pool live).2
    rw [links_put_pool live, (sets pool).1, (sets pool).2, ← at_last, Links.setLastTask_self]
  have result := holds P at_P
  rw [← same] at result
  exact result

theorem modify_last {f : ThreadPool → ThreadPool} {Q : Unit → Links → Prop}
    (sets : ∀ pool, (f pool).task = pool.task ∧ (f pool).lastTask = v)
    (holds : ∀ P, ptr = some P → Q () (k.setLastTask P v)) :
    (poolHeap.modify ptr f).YieldsOn Heap.links k Q := by
  intro h shown
  rw [Lens.yields_modify]
  intro P at_P pool live
  subst shown
  have same : Heap.links { h with pools := h.pools.put P (f pool) } = h.links.setLastTask P v := by
    rw [links_put_pool live, (sets pool).1, (sets pool).2, ← (links_pool live).1, Links.setTask_self]
  have result := holds P at_P
  rw [← same] at result
  exact result

theorem free_tpTask_links {Q : Unit → Links → Prop} (holds : Q () ((k.setNext p none).setPrev p none)) :
    (tpTaskHeap.free (some p)).YieldsOn Heap.links k Q := by
  intro h shown
  rw [Lens.yields_free]
  intro i live
  subst shown
  rw [← links_free_tpTask] at holds
  exact holds

theorem free_task_links {Q : Unit → Links → Prop} (holds : Q () k) :
    (taskHeap.free (some t)).YieldsOn Heap.links k Q := by
  intro h shown
  rw [Lens.yields_free]
  intro task live
  subst shown
  exact holds

theorem free_pool_links {Q : Unit → Links → Prop} (holds : Q () (k.dropPool P)) :
    (poolHeap.free (some P)).YieldsOn Heap.links k Q := by
  intro h shown
  rw [Lens.yields_free]
  intro pool live
  subst shown
  rw [← links_free_pool] at holds
  exact holds

theorem malloc_tpTask_links {new : Nat → ThreadPoolTask} {Q : Nat → Links → Prop}
    (apart : ∀ p, (new p).next = none ∧ (new p).prev = none)
    (holds : Q k.fresh { k with fresh := k.fresh + 1 }) :
    (tpTaskHeap.malloc new).YieldsOn Heap.links k Q := by
  intro h shown
  rw [Lens.yields_malloc]
  subst shown
  rw [← links_alloc_tpTask (apart h.tpTasks.next).1 (apart h.tpTasks.next).2] at holds
  exact holds

theorem malloc_task_links {new : Nat → ThreadTask} {Q : Nat → Links → Prop} (holds : ∀ t, Q t k) :
    (taskHeap.malloc new).YieldsOn Heap.links k Q := by
  intro h shown
  rw [Lens.yields_malloc]
  subst shown
  exact holds _

theorem malloc_pool_links {new : Nat → ThreadPool} {Q : Nat → Links → Prop}
    (empty : ∀ P, (new P).task = none ∧ (new P).lastTask = none) (holds : ∀ P, Q P k) :
    (poolHeap.malloc new).YieldsOn Heap.links k Q := by
  intro h shown
  rw [Lens.yields_malloc]
  subst shown
  have same := links_alloc_pool (h := h) (empty h.pools.next).1 (empty h.pools.next).2
  have result := holds h.pools.next
  rw [← same] at result
  exact result

end

end SysprogLabs.Tpool
