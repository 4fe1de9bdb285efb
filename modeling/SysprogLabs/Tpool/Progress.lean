import SysprogLabs.Tpool.Lists

/-! # Workers never fault

Reading or writing a released object is a fault, and a step exists only where there is
none.  If a worker has a live instance in hand and the list of its pool consists of live
instances, then the worker can always go on.
-/

namespace SysprogLabs.Tpool

open Prog

section

variable {h h₀ : Heap} {p t P : Nat}

/-- What is live in `h₀` is live in `h`. -/
structure Heap.Keeps (h₀ h : Heap) : Prop where
  tpTasks : ∀ p i, h₀.tpTasks.cell p = some i → ∃ i', h.tpTasks.cell p = some i'
  tasks : ∀ t task, h₀.tasks.cell t = some task → ∃ task', h.tasks.cell t = some task'
  pools : ∀ P pool, h₀.pools.cell P = some pool → ∃ pool', h.pools.cell P = some pool'

theorem Heap.Keeps.refl (h : Heap) : h.Keeps h :=
  ⟨fun _ i live => ⟨i, live⟩, fun _ t live => ⟨t, live⟩, fun _ c live => ⟨c, live⟩⟩

theorem Heap.Keeps.putTpTask (keeps : h₀.Keeps h) (i : ThreadPoolTask) :
    h₀.Keeps { h with tpTasks := h.tpTasks.put p i } where
  tpTasks q j live := by
    obtain ⟨j', live'⟩ := keeps.tpTasks q j live
    exact Store.put_live live'
  tasks := keeps.tasks
  pools := keeps.pools

theorem Heap.Keeps.putPool (keeps : h₀.Keeps h) (pool : ThreadPool) :
    h₀.Keeps { h with pools := h.pools.put P pool } where
  tpTasks := keeps.tpTasks
  tasks := keeps.tasks
  pools Q c live := by
    obtain ⟨c', live'⟩ := keeps.pools Q c live
    exact Store.put_live live'

theorem modify_tpTask_completes {f : ThreadPoolTask → ThreadPoolTask} {i : ThreadPoolTask}
    (live : h₀.tpTasks.cell p = some i) : (tpTaskHeap.modify (some p) f).Completes h₀.Keeps := by
  intro h keeps
  obtain ⟨i', live'⟩ := keeps.tpTasks p i live
  rw [Lens.ensures_modify]
  exact ⟨p, rfl, i', live', keeps.putTpTask _⟩

theorem modify_pool_completes {f : ThreadPool → ThreadPool} {pool : ThreadPool}
    (live : h₀.pools.cell P = some pool) : (poolHeap.modify (some P) f).Completes h₀.Keeps := by
  intro h keeps
  obtain ⟨pool', live'⟩ := keeps.pools P pool live
  rw [Lens.ensures_modify]
  exact ⟨P, rfl, pool', live', keeps.putPool _⟩

/-! ## The sections of a worker -/

theorem moveToEnd_returns {rest : List Nat} (line : Line h.links P (p :: rest)) {pool : ThreadPool}
    (live : h.pools.cell P = some pool) (inside : ∀ x ∈ p :: rest, ∃ i, h.tpTasks.cell x = some i) :
    (moveToEnd P p).Ensures h fun _ _ => True := by
  obtain ⟨i, live_p⟩ := inside p List.mem_cons_self
  have task : pool.task = some p := (links_pool live).1.symm.trans line.task_eq
  have last : pool.lastTask = (p :: rest).getLast? := (links_pool live).2.symm.trans line.last
  have whole : DList h.links.next h.links.prev (h.links.task P) ([] ++ p :: rest) := line.list
  have next : i.next = rest.head? := (links_tpTask live_p).1.symm.trans whole.next_eq
  rw [moveToEnd, ensures_bind, Lens.ensures_load]
  refine ⟨P, rfl, pool, live, ?_⟩
  rw [ensures_ite]
  split
  · next behind =>
    -- Another instance is the last one, so that the list goes on behind `p`.
    cases rest with
    | nil => exact absurd last.symm behind
    | cons second more =>
      obtain ⟨tail, at_tail⟩ : ∃ tail, (p :: second :: more).getLast? = some tail :=
        ⟨_, List.getLast?_eq_some_getLast (by simp)⟩
      obtain ⟨j, live_second⟩ := inside second (by simp)
      obtain ⟨k, live_tail⟩ := inside tail (List.mem_of_getLast? at_tail)
      have completes : (do
          poolHeap.modify (some P) fun state => { state with task := some second }
          tpTaskHeap.modify (some second) fun t => { t with prev := none }
          tpTaskHeap.modify (some p) fun t => { t with prev := some tail }
          tpTaskHeap.modify (some tail) fun t => { t with next := some p }
          tpTaskHeap.modify (some p) fun t => { t with next := none }
          poolHeap.modify (some P) fun state => { state with lastTask := some p } : Prog Heap Unit).Completes h.Keeps :=
        .bind (modify_pool_completes live) fun _ => .bind (modify_tpTask_completes live_second) fun _ =>
          .bind (modify_tpTask_completes live_p) fun _ => .bind (modify_tpTask_completes live_tail) fun _ =>
          .bind (modify_tpTask_completes live_p) fun _ => modify_pool_completes live
      rw [ensures_bind, Lens.ensures_load]
      refine ⟨p, rfl, i, live_p, ?_⟩
      simp only [next, last, at_tail, List.head?_cons]
      exact (completes h (.refl h)).mono fun _ _ _ => trivial
  · rw [ensures_pure]
    trivial

theorem workerCall_returns {i : ThreadPoolTask} {task : ThreadTask} (live : h.tpTasks.cell p = some i)
    (known : h.tasks.cell i.threadTask = some task) : (workerCall p).Ensures h fun _ _ => True := by
  rw [workerCall, ensures_bind, Lens.ensures_load]
  refine ⟨p, rfl, i, live, ?_⟩
  rw [ensures_bind, Lens.ensures_load]
  refine ⟨i.threadTask, rfl, task, known, ?_⟩
  rw [ensures_pure]
  trivial

theorem workerStore_returns {call : Invocation} {value : Value} {i : ThreadPoolTask}
    (live : h.tpTasks.cell call.tpTask = some i) : (workerStore call value).Ensures h fun _ _ => True := by
  rw [workerStore, ensures_bind, Lens.ensures_modify]
  refine ⟨call.tpTask, rfl, i, live, ?_⟩
  rw [ensures_pure]
  trivial

theorem lock_returns {pool : ThreadPool} (live : h.pools.cell P = some pool) :
    (lock (some P)).Ensures h fun _ h' => h' = h := by
  rw [lock, ensures_bind, Lens.ensures_load]
  refine ⟨P, rfl, pool, live, ?_⟩
  rw [ensures_pure]

/-- The completion of an instance, if `delete_task` returns behind it. -/
theorem workerComplete_returns {i : ThreadPoolTask} {pool : ThreadPool} (live : h.tpTasks.cell p = some i)
    (livePool : h.pools.cell P = some pool)
    (deleted : ∀ h₁ : Heap, i.isDetached = true → h₁.links = h.links → h₁.tasks = h.tasks →
      h₁.records = h.records.complete P p i.fields pool.counters →
      (deleteTask i.threadTask).Ensures h₁ fun _ _ => True) :
    (workerComplete P p).Ensures h fun _ _ => True := by
  rw [workerComplete, ensures_bind]
  refine (lock_returns livePool).mono ?_
  rintro _ h₁ rfl
  have live₁ : (h₁.tpTasks.put p { i with isFinished := true }).cell p = some { i with isFinished := true } := by
    simp [show h₁.tpTasks.cell p = some i from live]
  rw [ensures_bind, Lens.ensures_modify]
  refine ⟨p, rfl, i, live, ?_⟩
  rw [ensures_bind, Lens.ensures_modify]
  refine ⟨p, rfl, _, live₁, ?_⟩
  simp only [tpTaskHeap_get, tpTaskHeap_set, Store.put_put]
  rw [ensures_bind, Lens.ensures_modify]
  refine ⟨P, rfl, pool, livePool, ?_⟩
  rw [ensures_bind, Lens.ensures_load]
  refine ⟨p, rfl, { i with isFinished := true, isRunning := false }, ?_, ?_⟩
  · simp [show h₁.tpTasks.cell p = some i from live]
  · rw [ensures_ite]
    split
    · next detached =>
      have finished := @records_put_tpTask _ _ _ { i with isFinished := true, isRunning := false } live
      have free := @records_put_pool
        { h₁ with tpTasks := h₁.tpTasks.put p { i with isFinished := true, isRunning := false } }
        P pool { pool with activeThreadsCnt := pool.activeThreadsCnt - 1 } livePool
      rw [finished] at free
      have linked := @links_pool_same P
        { h₁ with tpTasks := h₁.tpTasks.put p { i with isFinished := true, isRunning := false } }
        pool { pool with activeThreadsCnt := pool.activeThreadsCnt - 1 } livePool ⟨rfl, rfl⟩
      rw [links_put_same { i with isFinished := true, isRunning := false } live ⟨rfl, rfl⟩] at linked
      rw [ensures_bind]
      refine (deleted _ detached linked rfl free).mono fun _ _ _ => ?_
      rw [ensures_pure]
      trivial
    · rw [ensures_pure]
      trivial

/-- The pickup, in a pool whose list is a queue. -/
theorem workerPickUp_returns {q : Nat → Queue} (queued : Queued h.records h.links q) {pool : ThreadPool}
    (live : h.pools.cell P = some pool) : (workerPickUp P).Ensures h fun _ _ => True := by
  have counters : h.records.pools P = some pool.counters := records_pool live
  rw [workerPickUp, ensures_bind]
  refine (queued.getTask_returns live).mono ?_
  rintro found h' ⟨first, rfl⟩
  rw [workerTake, ensures_bind, Lens.ensures_load]
  refine ⟨P, rfl, pool, live, ?_⟩
  rw [ensures_ite]
  split
  · rw [ensures_pure]
    trivial
  · next awake =>
    rw [ensures_bind, Lens.ensures_modify]
    refine ⟨P, rfl, pool, live, ?_⟩
    rw [ensures_ite]
    split
    · have completes : (do
          poolHeap.modify (some P) fun state => { state with threadsCnt := state.threadsCnt - 1 }
          poolHeap.modify (some P) fun state => { state with activeThreadsCnt := state.activeThreadsCnt - 1 }
          return { next := .exited, signals := [.signalFinish P] } : Prog Heap (Turn WorkerPc)).Completes h'.Keeps :=
        .bind (modify_pool_completes live) fun _ => .bind (modify_pool_completes live) fun _ => .pure
      exact (completes _ ((Heap.Keeps.refl h').putPool _)).mono fun _ _ _ => trivial
    · next active =>
      -- The pool is active, so that an instance was found.
      cases shape : (q P).waiting with
      | nil =>
        rw [shape] at first
        exact absurd ⟨first, by simpa using active⟩ awake
      | cons p rest =>
        rw [shape] at first
        subst first
        have line := queued.line P _ counters
        rw [Queue.tasks, shape] at line
        have inside : ∀ x ∈ p :: (rest ++ (q P).begun), ∃ i, h'.tpTasks.cell x = some i := by
          intro x mem
          have mem : x ∈ (q P).tasks := by
            rw [Queue.tasks, shape]
            exact mem
          obtain ⟨b, at_x⟩ := (queued.mem_tasks counters).mp mem
          obtain ⟨f, found, -⟩ := Option.map_eq_some_iff.mp at_x
          obtain ⟨i, live, -⟩ := Option.map_eq_some_iff.mp found
          exact ⟨i, live⟩
        obtain ⟨i, live_p⟩ := inside p List.mem_cons_self
        rw [ensures_bind, ensures_require]
        refine ⟨p, rfl, ?_⟩
        rw [ensures_bind, Lens.ensures_modify]
        refine ⟨p, rfl, i, live_p, ?_⟩
        rw [ensures_bind]
        -- Neither the counter nor the flag is a link.
        have links₁ := links_pool_same { pool with activeThreadsCnt := pool.activeThreadsCnt + 1 } live ⟨rfl, rfl⟩
        have links₂ := @links_put_same p
          { h' with pools := h'.pools.put P { pool with activeThreadsCnt := pool.activeThreadsCnt + 1 } } i
          { i with isRunning := true } live_p ⟨rfl, rfl⟩
        have line' := line
        rw [← links₁, ← links₂] at line'
        have live' : (h'.pools.put P { pool with activeThreadsCnt := pool.activeThreadsCnt + 1 }).cell P =
            some { pool with activeThreadsCnt := pool.activeThreadsCnt + 1 } := by
          rw [Store.put_cell, if_pos rfl, live]
          rfl
        have inside' : ∀ x ∈ p :: (rest ++ (q P).begun),
            ∃ j, (h'.tpTasks.put p { i with isRunning := true }).cell x = some j := by
          intro x mem
          obtain ⟨j, live_x⟩ := inside x mem
          exact Store.put_live live_x
        refine (moveToEnd_returns line' live' inside').mono ?_
        intro _ _ _
        rw [ensures_pure]
        trivial

end

/-! ## Steps -/

variable {junk : Nat → Value} {s s' : System}

theorem wakesOne_all (waits : Client → Bool) (clients : List Client) :
    wakesOne waits (List.range clients.length) clients = true := by
  rw [wakesOne, Bool.or_eq_true]
  by_cases quiet : clients.all (fun client => !waits client) = true
  · exact .inl quiet
  · right
    obtain ⟨client, mem, waiting⟩ := List.all_eq_false.mp (Bool.eq_false_iff.mpr quiet)
    obtain ⟨i, here⟩ := List.mem_iff_getElem?.mp mem
    refine List.any_eq_true.mpr ⟨i, List.mem_range.mpr (List.getElem?_eq_some_iff.mp here).1, ?_⟩
    rw [here]
    simpa using waiting

/-- Signals can always be delivered, for example to all who wait. -/
theorem deliver_returns {woken : List Nat} (signals : List Signal) (s : System)
    (all : woken = List.range s.clients.length) : (deliver woken signals).Ensures s fun _ _ => True := by
  subst all
  induction signals generalizing s with
  | nil => exact ensures_pure.mpr trivial
  | cons sig signals ih =>
    rw [deliver, ensures_bind]
    have tells : ∀ waits, (signal waits (List.range s.clients.length)).Ensures s fun _ s' =>
        s'.clients.length = s.clients.length := by
      intro waits
      rw [signal, ensures_step]
      exact ⟨(), _, if_pos (wakesOne_all waits s.clients), List.length_mapIdx⟩
    have delivered : (sig.deliver (List.range s.clients.length)).Ensures s fun _ s' =>
        s'.clients.length = s.clients.length := by
      cases sig with
      | create | broadcastWork => exact ensures_update.mpr rfl
      | signalFinish P => exact tells _
      | signalEnd p =>
        rw [Signal.deliver, ensures_bind]
        refine (tells _).mono fun _ s₁ same => ?_
        rw [ensures_update]
        split
        · exact same
        · exact same
    refine delivered.mono fun _ s₁ same => ?_
    rw [← same]
    exact ih s₁

theorem Step.ofSection {w : Nat} {worker : Worker} {value : Value} (here : s.workers[w]? = some worker)
    (returns : (worker.proceed value).Ensures s.heap fun _ _ => True) :
    ∃ woken out s', Step junk s (.work w value woken, out) s' := by
  refine ⟨List.range s.clients.length, ?_⟩
  have runs : ((Action.work w value (List.range s.clients.length)).run junk).Ensures s fun _ _ => True := by
    rw [Action.run, ensures_bind, ensures_read, ensures_bind, ensures_require]
    refine ⟨worker, here, ?_⟩
    rw [ensures_bind, ensures_zoom]
    refine returns.mono fun turn h' _ => ?_
    rw [ensures_bind, ensures_update, ensures_bind]
    refine Ensures.mono (deliver_returns turn.signals _ ?_) ?_
    · rfl
    · intro _ _ _
      rw [ensures_pure]
      trivial
  obtain ⟨out, s', step, -⟩ := runs
  exact ⟨out, s', step⟩

/-- No worker of a live pool is stuck: it has left its loop, or it can go on. -/
theorem worker_goes_on (orderly : Orderly s) (alive : s.shape.Alive)
    (tasks : ∀ p i, s.heap.tpTasks.cell p = some i → ∃ task, s.heap.tasks.cell i.threadTask = some task)
    {w : Nat} {worker : Worker} (here : s.workers[w]? = some worker) (stays : worker.pc ≠ .exited)
    {pool : ThreadPool} (live : s.heap.pools.cell worker.pool = some pool)
    (completes : ∀ p i, worker.pc = .returned p → s.heap.tpTasks.cell p = some i →
      (workerComplete worker.pool p).Ensures s.heap fun _ _ => True) (value : Value) :
    ∃ woken out s', Step junk s (.work w value woken, out) s' := by
  obtain ⟨P, pc⟩ := worker
  obtain ⟨q, queued⟩ := orderly.queued
  have inHand : ∀ p, pc.tpTask = some p → ∃ i, s.heap.tpTasks.cell p = some i := by
    intro p hand
    obtain ⟨f, found⟩ := alive w pc p (duty_some.mpr ⟨_, here, rfl, by rw [hand]; rfl⟩) hand
    obtain ⟨i, live, -⟩ := System.object found
    exact ⟨i, live⟩
  apply Step.ofSection here
  cases pc with
  | ready => exact workerPickUp_returns queued live
  | asleep notified => exact workerPickUp_returns queued live
  | picked p =>
    obtain ⟨i, live_p⟩ := inHand p rfl
    obtain ⟨task, known⟩ := tasks p i live_p
    exact workerCall_returns live_p known
  | running call =>
    obtain ⟨i, live_p⟩ := inHand call.tpTask rfl
    exact workerStore_returns live_p
  | returned p =>
    obtain ⟨i, live_p⟩ := inHand p rfl
    exact completes p i rfl live_p
  | exited => exact absurd rfl stays

end SysprogLabs.Tpool
