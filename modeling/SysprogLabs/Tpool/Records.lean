import SysprogLabs.Tpool.Model

/-! # The heap without the links

What the code leaves in the objects of the heap, apart from the pointers that tie the
instances of a pool together.  A section of the code acts on these records in one way,
whatever the pointers are; where it follows them, the records only say which instance
it may have come to.
-/

namespace SysprogLabs.Tpool

/-- An instance without `next` and `prev`. -/
structure Fields where
  threadTask : Nat
  result : Value
  isFinished : Bool
  isRunning : Bool
  isPushed : Bool
  isJoined : Bool
  isDetached : Bool
  pool : Ptr

def ThreadPoolTask.fields (t : ThreadPoolTask) : Fields where
  threadTask := t.threadTask
  result := t.result
  isFinished := t.isFinished
  isRunning := t.isRunning
  isPushed := t.isPushed
  isJoined := t.isJoined
  isDetached := t.isDetached
  pool := t.pool

/-- What `make_thread_pool_task` makes. -/
def Fields.made (threadTask : Nat) (result : Value) : Fields where
  threadTask := threadTask
  result := result
  isFinished := false
  isRunning := false
  isPushed := false
  isJoined := false
  isDetached := false
  pool := none

/-- Pushed, and no worker has taken it yet. -/
def Fields.Pending (f : Fields) : Prop := f.isRunning = false ∧ f.isFinished = false

/-- The test of `delete_task`. -/
def Fields.deletable (f : Fields) : Bool := f.isJoined || (f.isDetached && f.isFinished)

/-- A pool without `task` and `last_task`. -/
structure Counters where
  maxThreadsCnt : Int
  threadsCnt : Int
  activeThreadsCnt : Int
  isActive : Bool
  tasksCnt : Int

def ThreadPool.counters (pool : ThreadPool) : Counters where
  maxThreadsCnt := pool.maxThreadsCnt
  threadsCnt := pool.threadsCnt
  activeThreadsCnt := pool.activeThreadsCnt
  isActive := pool.isActive
  tasksCnt := pool.tasksCnt

/-- The test of `thread_pool_push_task` for a new thread. -/
def Counters.AllBusy (c : Counters) : Prop :=
  c.activeThreadsCnt = c.threadsCnt ∧ c.threadsCnt < c.maxThreadsCnt

instance (c : Counters) : Decidable c.AllBusy := inferInstanceAs (Decidable (_ ∧ _))

structure Records where
  instances : Nat → Option Fields
  tasks : Nat → Option ThreadTask
  pools : Nat → Option Counters
  nextInstance : Nat
  nextTask : Nat
  nextPool : Nat

def Heap.records (h : Heap) : Records where
  instances p := (h.tpTasks.cell p).map ThreadPoolTask.fields
  tasks := h.tasks.cell
  pools P := (h.pools.cell P).map ThreadPool.counters
  nextInstance := h.tpTasks.next
  nextTask := h.tasks.next
  nextPool := h.pools.next

namespace Records

def setInstance (r : Records) (p : Nat) (f : Option Fields) : Records :=
  { r with instances := fun q => if q = p then f else r.instances q }

def setTask (r : Records) (t : Nat) (task : Option ThreadTask) : Records :=
  { r with tasks := fun u => if u = t then task else r.tasks u }

def setPool (r : Records) (P : Nat) (c : Option Counters) : Records :=
  { r with pools := fun Q => if Q = P then c else r.pools Q }

def addInstance (r : Records) (f : Fields) : Records :=
  { r with instances := fun q => if q = r.nextInstance then some f else r.instances q,
           nextInstance := r.nextInstance + 1 }

def addTask (r : Records) (task : ThreadTask) : Records :=
  { r with tasks := fun u => if u = r.nextTask then some task else r.tasks u, nextTask := r.nextTask + 1 }

def addPool (r : Records) (c : Counters) : Records :=
  { r with pools := fun Q => if Q = r.nextPool then some c else r.pools Q, nextPool := r.nextPool + 1 }

/-- `pool` of the newest instance of a task. -/
def newestPool (r : Records) (task : ThreadTask) : Ptr :=
  task.list.head?.bind fun p => (r.instances p).bind Fields.pool

/-- A successful push. -/
def push (r : Records) (junk : Nat → Value) (P t : Nat) (task : ThreadTask) (c : Counters) : Records where
  instances p := if p = r.nextInstance then
    some { Fields.made t (junk r.nextInstance) with isPushed := true, pool := some P }
    else r.instances p
  tasks u := if u = t then some { task with list := r.nextInstance :: task.list } else r.tasks u
  pools Q := if Q = P then some { c with threadsCnt := if c.AllBusy then c.threadsCnt + 1 else c.threadsCnt,
                                         tasksCnt := c.tasksCnt + 1 } else r.pools Q
  nextInstance := r.nextInstance + 1
  nextTask := r.nextTask
  nextPool := r.nextPool

/-- A successful release of a task with all its instances. -/
def release (r : Records) (t : Nat) (task : ThreadTask) : Records :=
  { r with
    instances := fun p => if p ∈ task.list then none else r.instances p
    tasks := fun u => if u = t then none else r.tasks u
    pools := fun P => if r.newestPool task = some P then
      (r.pools P).map fun c => { c with tasksCnt := c.tasksCnt - task.list.length } else r.pools P }

theorem setInstance_some {r : Records} {p q : Nat} {f g : Fields}
    (found : (r.setInstance p (some f)).instances q = some g) :
    (q = p ∧ g = f) ∨ (q ≠ p ∧ r.instances q = some g) := by
  by_cases here : q = p
  · subst here
    cases (if_pos rfl).symm.trans found
    exact .inl ⟨rfl, rfl⟩
  · exact .inr ⟨here, (if_neg here).symm.trans found⟩

theorem release_empty {r : Records} {t : Nat} {task : ThreadTask} (empty : task.list = []) :
    r.release t task = r.setTask t none := by
  simp [release, setTask, newestPool, empty]

theorem release_eq {r : Records} {t P : Nat} {task : ThreadTask} {c : Counters}
    (pool : r.newestPool task = some P) (live : r.pools P = some c) :
    r.release t task = ((Records.setTask
      { r with instances := fun p => if p ∈ task.list then none else r.instances p } t none).setPool P
      (some { c with tasksCnt := c.tasksCnt - task.list.length })) := by
  simp only [release, setTask, setPool, mk.injEq, true_and, and_true, pool, Option.some.injEq]
  funext Q
  by_cases here : Q = P
  · rw [if_pos here, if_pos here.symm, here, live]
    rfl
  · rw [if_neg here, if_neg (Ne.symm here)]

/-- What `delete_task` returns and does. -/
inductive Deletes (r : Records) (t : Nat) : Int → Records → Prop where
  | refused {task : ThreadTask} {p : Nat} {f : Fields} (live : r.tasks t = some task) (mem : p ∈ task.list)
      (found : r.instances p = some f) (kept : f.deletable = false) : Deletes r t tpoolErrTaskInPool r
  | released {task : ThreadTask} (live : r.tasks t = some task)
      (all : ∀ p ∈ task.list, ∃ f, r.instances p = some f ∧ f.deletable = true)
      (pool : task.list ≠ [] → ∃ P c, r.newestPool task = some P ∧ r.pools P = some c) :
      Deletes r t 0 (r.release t task)

end Records

/-! ## What the operations on objects do to the records -/

section

variable {h : Heap} {p t P : Nat}

theorem records_instance {i : ThreadPoolTask} (live : h.tpTasks.cell p = some i) :
    h.records.instances p = some i.fields := by
  show (h.tpTasks.cell p).map _ = _
  rw [live]
  rfl

theorem records_pool {pool : ThreadPool} (live : h.pools.cell P = some pool) :
    h.records.pools P = some pool.counters := by
  show (h.pools.cell P).map _ = _
  rw [live]
  rfl

theorem records_put_tpTask {old new : ThreadPoolTask} (live : h.tpTasks.cell p = some old) :
    Heap.records { h with tpTasks := h.tpTasks.put p new } = h.records.setInstance p (some new.fields) := by
  simp only [Heap.records, Records.setInstance, Records.mk.injEq, and_true, Store.put_next]
  funext q
  rw [Store.put_cell]
  by_cases here : q = p
  · rw [if_pos here, if_pos here, here, live]
    rfl
  · rw [if_neg here, if_neg here]

theorem records_alloc_tpTask {new : ThreadPoolTask} :
    Heap.records { h with tpTasks := h.tpTasks.alloc new } = h.records.addInstance new.fields := by
  simp only [Heap.records, Records.addInstance, Records.mk.injEq, and_true, Store.alloc_next]
  funext q
  rw [Store.alloc_cell, apply_ite (Option.map ThreadPoolTask.fields)]
  rfl

theorem records_free_tpTask :
    Heap.records { h with tpTasks := h.tpTasks.free p } = h.records.setInstance p none := by
  simp only [Heap.records, Records.setInstance, Records.mk.injEq, and_true, Store.free_next]
  funext q
  rw [Store.free_cell]
  by_cases here : q = p
  · rw [if_pos here, if_pos here]
    rfl
  · rw [if_neg here, if_neg here]

theorem records_put_task {old new : ThreadTask} (live : h.tasks.cell t = some old) :
    Heap.records { h with tasks := h.tasks.put t new } = h.records.setTask t (some new) := by
  simp only [Heap.records, Records.setTask, Records.mk.injEq, true_and, and_true, Store.put_next]
  funext u
  rw [Store.put_cell]
  by_cases here : u = t
  · rw [if_pos here, if_pos here, here, live]
    rfl
  · rw [if_neg here, if_neg here]

theorem records_free_task :
    Heap.records { h with tasks := h.tasks.free t } = h.records.setTask t none := by
  simp only [Heap.records, Records.setTask, Records.mk.injEq, true_and, and_true, Store.free_next]
  funext u
  rw [Store.free_cell]

theorem records_put_pool {old new : ThreadPool} (live : h.pools.cell P = some old) :
    Heap.records { h with pools := h.pools.put P new } = h.records.setPool P (some new.counters) := by
  simp only [Heap.records, Records.setPool, Records.mk.injEq, true_and, and_true, Store.put_next]
  funext Q
  rw [Store.put_cell]
  by_cases here : Q = P
  · rw [if_pos here, if_pos here, here, live]
    rfl
  · rw [if_neg here, if_neg here]

theorem records_alloc_pool {new : ThreadPool} :
    Heap.records { h with pools := h.pools.alloc new } = h.records.addPool new.counters := by
  simp only [Heap.records, Records.addPool, Records.mk.injEq, true_and, and_true, Store.alloc_next]
  funext Q
  rw [Store.alloc_cell, apply_ite (Option.map ThreadPool.counters)]
  rfl

theorem records_free_pool :
    Heap.records { h with pools := h.pools.free P } = h.records.setPool P none := by
  simp only [Heap.records, Records.setPool, Records.mk.injEq, true_and, and_true, Store.free_next]
  funext Q
  rw [Store.free_cell]
  by_cases here : Q = P
  · rw [if_pos here, if_pos here]
    rfl
  · rw [if_neg here, if_neg here]

theorem Records.setInstance_self {r : Records} {f : Fields} (found : r.instances p = some f) :
    r.setInstance p (some f) = r := by
  have same : (fun q => if q = p then some f else r.instances q) = r.instances := by
    funext q
    by_cases here : q = p
    · rw [if_pos here, here, found]
    · rw [if_neg here]
  rw [setInstance, same]

theorem Records.setPool_self {r : Records} {c : Counters} (found : r.pools P = some c) :
    r.setPool P (some c) = r := by
  have same : (fun Q => if Q = P then some c else r.pools Q) = r.pools := by
    funext Q
    by_cases here : Q = P
    · rw [if_pos here, here, found]
    · rw [if_neg here]
  rw [setPool, same]

end

/-! ## Rules for the operations of the code -/

section

variable {r : Records} {p t P : Nat} {ptr : Ptr}

theorem load_tpTask {Q : ThreadPoolTask → Records → Prop}
    (holds : ∀ p t, ptr = some p → r.instances p = some t.fields → Q t r) :
    (tpTaskHeap.load ptr).YieldsOn Heap.records r Q := by
  intro h shown
  rw [Lens.yields_load]
  intro p at_p t live
  subst shown
  exact holds p t at_p (records_instance live)

theorem load_task {Q : ThreadTask → Records → Prop} (holds : ∀ task, r.tasks t = some task → Q task r) :
    (taskHeap.load (some t)).YieldsOn Heap.records r Q := by
  intro h shown
  rw [Lens.yields_load]
  intro t at_t task live
  cases at_t
  subst shown
  exact holds task live

theorem load_pool {Q : ThreadPool → Records → Prop}
    (holds : ∀ P pool, ptr = some P → r.pools P = some pool.counters → Q pool r) :
    (poolHeap.load ptr).YieldsOn Heap.records r Q := by
  intro h shown
  rw [Lens.yields_load]
  intro P at_P pool live
  subst shown
  exact holds P pool at_P (records_pool live)

theorem modify_tpTask {f : ThreadPoolTask → ThreadPoolTask} (g : Fields → Fields)
    (shows : ∀ t, (f t).fields = g t.fields) {Q : Unit → Records → Prop}
    (holds : ∀ p x, ptr = some p → r.instances p = some x → Q () (r.setInstance p (some (g x)))) :
    (tpTaskHeap.modify ptr f).YieldsOn Heap.records r Q := by
  intro h shown
  rw [Lens.yields_modify]
  intro p at_p t live
  subst shown
  have found : h.records.instances p = some t.fields := records_instance live
  have result := holds p t.fields at_p found
  rw [← shows, ← records_put_tpTask live] at result
  exact result

/-- An assignment to `next` or `prev` does not show. -/
theorem modify_link {f : ThreadPoolTask → ThreadPoolTask} {Q : Unit → Records → Prop}
    (link : ∀ t, (f t).fields = t.fields) (holds : Q () r) :
    (tpTaskHeap.modify ptr f).YieldsOn Heap.records r Q := by
  apply modify_tpTask id link
  intro p x _ found
  rw [id, Records.setInstance_self found]
  exact holds

theorem when_modify_link {c : Prop} [Decidable c] {f : ThreadPoolTask → ThreadPoolTask}
    {Q : Unit → Records → Prop} (link : ∀ t, (f t).fields = t.fields) (holds : Q () r) :
    (Prog.when c (tpTaskHeap.modify ptr f)).YieldsOn Heap.records r Q :=
  .when (fun _ => modify_link link holds) fun _ => holds

theorem modify_task {f : ThreadTask → ThreadTask} {Q : Unit → Records → Prop}
    (holds : ∀ task, r.tasks t = some task → Q () (r.setTask t (some (f task)))) :
    (taskHeap.modify (some t) f).YieldsOn Heap.records r Q := by
  intro h shown
  rw [Lens.yields_modify]
  intro t at_t task live
  cases at_t
  subst shown
  have result := holds task live
  rw [← records_put_task live] at result
  exact result

theorem modify_pool {f : ThreadPool → ThreadPool} (g : Counters → Counters)
    (shows : ∀ pool, (f pool).counters = g pool.counters) {Q : Unit → Records → Prop}
    (holds : ∀ P c, ptr = some P → r.pools P = some c → Q () (r.setPool P (some (g c)))) :
    (poolHeap.modify ptr f).YieldsOn Heap.records r Q := by
  intro h shown
  rw [Lens.yields_modify]
  intro P at_P pool live
  subst shown
  have found : h.records.pools P = some pool.counters := records_pool live
  have result := holds P pool.counters at_P found
  rw [← shows, ← records_put_pool live] at result
  exact result

/-- An assignment to `task` or `last_task` does not show. -/
theorem modify_end {f : ThreadPool → ThreadPool} {Q : Unit → Records → Prop}
    (link : ∀ pool, (f pool).counters = pool.counters) (holds : Q () r) :
    (poolHeap.modify ptr f).YieldsOn Heap.records r Q := by
  apply modify_pool id link
  intro P c _ found
  rw [id, Records.setPool_self found]
  exact holds

theorem when_modify_end {c : Prop} [Decidable c] {f : ThreadPool → ThreadPool}
    {Q : Unit → Records → Prop} (link : ∀ pool, (f pool).counters = pool.counters) (holds : Q () r) :
    (Prog.when c (poolHeap.modify ptr f)).YieldsOn Heap.records r Q :=
  .when (fun _ => modify_end link holds) fun _ => holds

theorem free_tpTask {Q : Unit → Records → Prop}
    (holds : ∀ f, r.instances p = some f → Q () (r.setInstance p none)) :
    (tpTaskHeap.free (some p)).YieldsOn Heap.records r Q := by
  intro h shown
  rw [Lens.yields_free]
  intro t live
  subst shown
  have result := holds t.fields (records_instance live)
  rw [← records_free_tpTask] at result
  exact result

theorem free_task {Q : Unit → Records → Prop}
    (holds : ∀ task, r.tasks t = some task → Q () (r.setTask t none)) :
    (taskHeap.free (some t)).YieldsOn Heap.records r Q := by
  intro h shown
  rw [Lens.yields_free]
  intro task live
  subst shown
  have result := holds task live
  rw [← records_free_task] at result
  exact result

theorem free_pool {Q : Unit → Records → Prop}
    (holds : ∀ c, r.pools P = some c → Q () (r.setPool P none)) :
    (poolHeap.free (some P)).YieldsOn Heap.records r Q := by
  intro h shown
  rw [Lens.yields_free]
  intro pool live
  subst shown
  have result := holds pool.counters (records_pool live)
  rw [← records_free_pool] at result
  exact result

theorem malloc_tpTask {fresh : Nat → ThreadPoolTask} {Q : Nat → Records → Prop}
    (holds : Q r.nextInstance (r.addInstance (fresh r.nextInstance).fields)) :
    (tpTaskHeap.malloc fresh).YieldsOn Heap.records r Q := by
  intro h shown
  rw [Lens.yields_malloc]
  subst shown
  rw [← records_alloc_tpTask] at holds
  exact holds

theorem malloc_task {fresh : Nat → ThreadTask} {Q : Nat → Records → Prop}
    (holds : Q r.nextTask (r.addTask (fresh r.nextTask))) :
    (taskHeap.malloc fresh).YieldsOn Heap.records r Q := by
  intro h shown
  rw [Lens.yields_malloc]
  subst shown
  exact holds

theorem malloc_pool {fresh : Nat → ThreadPool} {Q : Nat → Records → Prop}
    (holds : Q r.nextPool (r.addPool (fresh r.nextPool).counters)) :
    (poolHeap.malloc fresh).YieldsOn Heap.records r Q := by
  intro h shown
  rw [Lens.yields_malloc]
  subst shown
  rw [← records_alloc_pool] at holds
  exact holds

end

end SysprogLabs.Tpool
