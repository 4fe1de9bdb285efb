import SysprogLabs.Tpool.Progress

/-! # `delete_task` never faults

If the lists of the pools consist of live instances, and the instances of the task have one
pool, `delete_task` unlinks and releases them without touching a released object.
-/

namespace SysprogLabs.Tpool

open Prog

section

variable {h h₀ h' : Heap} {p t P : Nat} {q : Nat → Queue} {pool : ThreadPool}

theorem deletable_returns {list : List Nat} (inside : ∀ p ∈ list, ∃ i, h.tpTasks.cell p = some i) :
    (deletable list).Ensures h fun yes h' => h' = h ∧
      (yes = true → ∀ p ∈ list, ∃ f, h.records.instances p = some f ∧ f.deletable = true) := by
  induction list with
  | nil =>
    rw [deletable, ensures_pure]
    exact ⟨rfl, fun _ => nofun⟩
  | cons p list ih =>
    obtain ⟨i, live⟩ := inside p List.mem_cons_self
    rw [deletable, ensures_bind, Lens.ensures_load]
    refine ⟨p, rfl, i, live, ?_⟩
    rw [ensures_ite]
    split
    · rw [ensures_pure]
      exact ⟨rfl, nofun⟩
    · next test =>
      have first : i.fields.deletable = true := by
        simpa [Fields.deletable, ThreadPoolTask.fields, or_iff_not_imp_left] using test
      refine (ih fun x mem => inside x (List.mem_cons_of_mem p mem)).mono ?_
      rintro yes h' ⟨rfl, all⟩
      refine ⟨rfl, fun holds => List.forall_mem_cons.mpr ⟨?_, all holds⟩⟩
      exact ⟨i.fields, records_instance live, first⟩

theorem Queued.inside {c : Counters} {x : Nat} (queued : Queued h.records h.links q)
    (live : h.records.pools P = some c) (mem : x ∈ (q P).tasks) : ∃ i, h.tpTasks.cell x = some i := by
  obtain ⟨b, at_x⟩ := (queued.mem_tasks live).mp mem
  obtain ⟨f, found, -⟩ := Option.map_eq_some_iff.mp at_x
  obtain ⟨i, live, -⟩ := Option.map_eq_some_iff.mp found
  exact ⟨i, live⟩

/-- The neighbours, if there are any, are live. -/
theorem unlinkFromNeighbours_completes {tpPrev tpNext : Ptr} (live : h₀.pools.cell P = some pool)
    (before : ∀ x, tpPrev = some x → ∃ i, h₀.tpTasks.cell x = some i)
    (behind : ∀ x, tpNext = some x → ∃ i, h₀.tpTasks.cell x = some i) :
    (unlinkFromNeighbours (some P) tpPrev tpNext).Completes h₀.Keeps := by
  have next : ∀ f : ThreadPoolTask → ThreadPoolTask,
      (Prog.when (tpNext ≠ none) (tpTaskHeap.modify tpNext f)).Completes h₀.Keeps := by
    intro f
    apply Completes.when
    intro some
    obtain ⟨x, rfl⟩ := Option.ne_none_iff_exists'.mp some
    obtain ⟨i, live⟩ := behind x rfl
    exact modify_tpTask_completes live
  apply Completes.ite
  · intro _
    exact .bind (next _) fun _ => modify_pool_completes live
  · intro some
    obtain ⟨x, rfl⟩ := Option.ne_none_iff_exists'.mp some
    obtain ⟨i, live⟩ := before x rfl
    exact .bind (next _) fun _ => modify_tpTask_completes live

theorem unlinkTask_returns {l₁ l₂ : List Nat} (line : Line h.links P (l₁ ++ p :: l₂))
    (live : h.pools.cell P = some pool) (inside : ∀ x ∈ l₁ ++ p :: l₂, ∃ i, h.tpTasks.cell x = some i) :
    (unlinkTask (some P) p).Ensures h fun _ h' =>
      h'.records = h.records.setInstance p none ∧ h'.links = h.links.unlink P p := by
  obtain ⟨i, live_p⟩ := inside p (by simp)
  obtain ⟨next, prev⟩ := links_tpTask live_p
  have completes : (do
      Prog.when (pool.lastTask = some p) do
        poolHeap.modify (some P) fun state => { state with lastTask := i.prev }
      unlinkFromNeighbours (some P) i.prev i.next : Prog Heap Unit).Completes h.Keeps := by
    apply Completes.bind (.when fun _ => modify_pool_completes live)
    intro _
    apply unlinkFromNeighbours_completes live
    · intro x at_x
      rw [← prev, line.list.prev_eq] at at_x
      exact inside x (List.mem_append_left _ (List.mem_of_getLast? at_x))
    · intro x at_x
      rw [← next, line.list.next_eq] at at_x
      exact inside x (List.mem_append_right _ (List.mem_cons_of_mem p (List.mem_of_head? at_x)))
  have returns : (unlinkTask (some P) p).Ensures h fun _ _ => True := by
    rw [unlinkTask, ensures_bind, Lens.ensures_load]
    refine ⟨p, rfl, i, live_p, ?_⟩
    rw [ensures_bind, Lens.ensures_load]
    refine ⟨P, rfl, pool, live, ?_⟩
    have first := completes h (.refl h)
    rw [ensures_bind] at first ⊢
    refine first.mono fun _ h₁ rest => ?_
    rw [ensures_bind]
    refine rest.mono fun _ h₂ keeps => ?_
    obtain ⟨i', live'⟩ := keeps.tpTasks p i live_p
    rw [Lens.ensures_free_some]
    exact ⟨i', live', trivial⟩
  obtain ⟨_, h', returned, -⟩ := returns
  refine returned.ensures ⟨?_, ?_⟩
  · exact unlinkTask_yields (Q := fun _ r' => r' = h.records.setInstance p none) rfl h rfl _ h' returned
  · exact unlinkTask_links h rfl _ h' returned

theorem unlinkTasks_returns {list : List Nat} (queued : Queued h.records h.links q)
    (live : h.pools.cell P = some pool) (bound : P < h.records.nextPool) (nodup : list.Nodup)
    (uniform : ∀ p ∈ list, ∃ b, h.records.place p = some (some P, b)) :
    (unlinkTasks (some P) list).Ensures h fun _ _ => True := by
  induction list generalizing h q pool with
  | nil =>
    rw [unlinkTasks, ensures_pure]
    trivial
  | cons p list ih =>
    have counters : h.records.pools P = some pool.counters := records_pool live
    obtain ⟨outside, rest⟩ := List.nodup_cons.mp nodup
    obtain ⟨b, at_p⟩ := uniform p List.mem_cons_self
    -- The instance is somewhere in the list of its pool.
    obtain ⟨l₁, l₂, split⟩ := List.append_of_mem ((queued.mem_tasks counters).mpr ⟨b, at_p⟩)
    have line := queued.line P _ counters
    rw [split] at line
    have inside : ∀ x ∈ l₁ ++ p :: l₂, ∃ i, h.tpTasks.cell x = some i := by
      intro x mem
      rw [← split] at mem
      exact queued.inside counters mem
    rw [unlinkTasks, ensures_bind]
    refine (unlinkTask_returns line live inside).mono ?_
    rintro _ h₁ ⟨records, links⟩
    have queued₁ := queued.remove counters bound at_p
    rw [← records, ← links] at queued₁
    have counters₁ : h₁.records.pools P = some pool.counters := by
      rw [records]
      exact counters
    obtain ⟨pool₁, live₁, -⟩ := Option.map_eq_some_iff.mp counters₁
    apply ih queued₁ live₁ _ rest
    · intro x mem
      have apart : x ≠ p := fun same => outside (same ▸ mem)
      rw [records, Queued.place_setInstance, if_neg apart]
      exact uniform x (List.mem_cons_of_mem p mem)
    · rw [records]
      exact bound

/-- `delete_task` returns, whether it releases the task or not. -/
theorem deleteTask_returns (queued : Queued h.records h.links q) (owned : Owned h.records)
    (allocated : ∀ P c, h.records.pools P = some c → P < h.records.nextPool) {task : ThreadTask}
    (live : h.tasks.cell t = some task)
    (pools : ∀ p ∈ task.list, ∀ P, h.records.poolOf p = some (some P) → ∃ pool, h.pools.cell P = some pool)
    (share : h.records.allOf t Fields.deletable = true → h.records.sharePool t = true) :
    (deleteTask t).Ensures h fun _ _ => True := by
  have known : h.records.tasks t = some task := live
  have inside : ∀ p ∈ task.list, ∃ i, h.tpTasks.cell p = some i := by
    intro p mem
    obtain ⟨f, found, -⟩ := owned.listed t task p known mem
    obtain ⟨i, live, -⟩ := Option.map_eq_some_iff.mp found
    exact ⟨i, live⟩
  rw [deleteTask, ensures_bind, Lens.ensures_load]
  refine ⟨t, rfl, task, live, ?_⟩
  cases shape : task.list with
  | nil =>
    rw [ensures_bind, Lens.ensures_free_some]
    refine ⟨task, live, ?_⟩
    rw [ensures_pure]
    trivial
  | cons newest older =>
    have first : newest ∈ task.list := shape ▸ List.mem_cons_self
    obtain ⟨i, live_newest⟩ := inside newest first
    obtain ⟨-, P, pool_i⟩ := owned.pushed newest i.fields (records_instance live_newest)
    have pool_i : i.pool = some P := pool_i
    obtain ⟨pool, live_P⟩ := pools newest first P (Records.poolOf_some.mpr ⟨i.fields, records_instance live_newest, pool_i⟩)
    dsimp only
    rw [← shape, ensures_bind, Lens.ensures_load]
    refine ⟨newest, rfl, i, live_newest, ?_⟩
    rw [ensures_bind]
    refine (deletable_returns inside).mono ?_
    rintro yes h₁ ⟨rfl, tested⟩
    rw [ensures_ite]
    split
    · next all =>
      -- All instances have the pool of the newest one.
      obtain ⟨task', known', home⟩ := Records.sharePool_iff.mp
        (share (Records.allOf_iff.mpr ⟨task, known, tested all⟩))
      cases known.symm.trans known'
      have newestPool : h₁.records.newestPool task = some P := by
        rw [Records.newestPool, shape, List.head?_cons, Option.bind_some, records_instance live_newest]
        exact pool_i
      have uniform : ∀ p ∈ task.list, ∃ b, h₁.records.place p = some (some P, b) := by
        intro p mem
        obtain ⟨f, found, pool⟩ := home p mem
        exact ⟨_, by rw [Records.place, found, Option.map_some, Fields.place, pool, newestPool]⟩
      rw [pool_i, ensures_bind]
      obtain ⟨_, h₂, returned, -⟩ := unlinkTasks_returns queued live_P
        (allocated P _ (records_pool live_P)) (owned.nodup t task known) uniform
      have records := unlinkTasks_yields (Q := fun _ r' => r' = _) rfl h₁ rfl _ h₂ returned
      refine returned.ensures ?_
      have live₂ : h₂.records.tasks t = some task := by
        rw [records]
        exact live
      have live_P₂ : h₂.records.pools P = some pool.counters := by
        rw [records]
        exact records_pool live_P
      obtain ⟨pool₂, live_P₂, -⟩ := Option.map_eq_some_iff.mp live_P₂
      rw [ensures_bind, Lens.ensures_free_some]
      refine ⟨task, live₂, ?_⟩
      rw [ensures_bind, Lens.ensures_modify]
      refine ⟨P, rfl, pool₂, live_P₂, ?_⟩
      rw [ensures_pure]
      trivial
    · rw [ensures_pure]
      trivial

end

/-! ## The callers of `delete_task` -/

section

variable {h : Heap} {p t P : Nat} {pool : ThreadPool}

theorem threadTaskDelete_returns (live : h.pools.cell P = some pool)
    (deleted : (deleteTask t).Ensures h fun _ _ => True) :
    (threadTaskDelete t (some P)).Ensures h fun _ _ => True := by
  rw [threadTaskDelete, ensures_bind]
  refine (lock_returns live).mono ?_
  rintro _ h₁ rfl
  rw [ensures_bind]
  refine deleted.mono fun _ _ _ => ?_
  rw [ensures_pure]
  trivial

/-- `thread_task_detach`, if `delete_task` returns behind the mark it sets. -/
theorem threadTaskDetach_returns {i : ThreadPoolTask} (livePool : h.pools.cell P = some pool)
    (live : h.tpTasks.cell p = some i)
    (deleted : ∀ h₁ : Heap, i.isFinished = true → h₁.links = h.links → h₁.pools = h.pools → h₁.tasks = h.tasks →
      h₁.records = h.records.setInstance p (some { i.fields with isDetached := true }) →
      (deleteTask t).Ensures h₁ fun _ _ => True) :
    (threadTaskDetach t p (some P)).Ensures h fun _ _ => True := by
  rw [threadTaskDetach, ensures_bind]
  refine (lock_returns livePool).mono ?_
  rintro _ h₁ rfl
  rw [ensures_bind, Lens.ensures_modify]
  refine ⟨p, rfl, i, live, ?_⟩
  rw [ensures_bind, Lens.ensures_load]
  refine ⟨p, rfl, { i with isDetached := true }, ?_, ?_⟩
  · simp [show h₁.tpTasks.cell p = some i from live]
  · rw [ensures_ite]
    split
    · next finished =>
      have links := links_put_same { i with isDetached := true } live ⟨rfl, rfl⟩
      have records := @records_put_tpTask _ _ _ { i with isDetached := true } live
      rw [ensures_bind]
      refine (deleted _ finished links rfl rfl records).mono fun _ _ _ => ?_
      rw [ensures_pure]
      trivial
    · rw [ensures_pure]
      trivial

/-- Every pool that an unreleased instance was pushed to is there. -/
def Records.Homes (r : Records) : Prop := ∀ p P, r.poolOf p = some (some P) → ∃ c, r.pools P = some c

theorem Records.Homes.cell {h₁ : Heap} (homes : h₁.records.Homes) {p P : Nat} (home : h₁.records.poolOf p = some (some P)) :
    ∃ pool, h₁.pools.cell P = some pool := by
  obtain ⟨c, live⟩ := homes p P home
  obtain ⟨pool, live, -⟩ := Option.map_eq_some_iff.mp live
  exact ⟨pool, live⟩

/-- A client that has looked up a live instance can detach its task. -/
theorem threadTaskDetach_goes_on {q : Nat → Queue} {i : ThreadPoolTask} {task : ThreadTask}
    (queued : Queued h.records h.links q) (owned : Owned h.records)
    (allocated : ∀ P c, h.records.pools P = some c → P < h.records.nextPool) (homes : h.records.Homes)
    (live : h.tpTasks.cell p = some i) (home : i.pool = some P) (known : h.tasks.cell t = some task)
    (share : ∀ r, i.isFinished = true → r = h.records.setInstance p (some { i.fields with isDetached := true }) →
      r.allOf t Fields.deletable = true → r.sharePool t = true) :
    (threadTaskDetach t p (some P)).Ensures h fun _ _ => True := by
  have found : h.records.instances p = some i.fields := records_instance live
  obtain ⟨pool, livePool⟩ := homes.cell (Records.poolOf_some.mpr ⟨i.fields, found, home⟩)
  apply threadTaskDetach_returns livePool live
  intro h₁ finished links pools tasks records
  have queued₁ : Queued h₁.records h₁.links q := by
    rw [records, links]
    exact queued.setInstance found rfl
  have owned₁ : Owned h₁.records := by
    rw [records]
    exact owned.setInstance found rfl rfl rfl
  have known₁ : h₁.tasks.cell t = some task := by
    rw [tasks]
    exact known
  have same : h₁.records.poolOf = h.records.poolOf := by
    rw [records]
    apply Records.poolOf_setInstance found
    rfl
  refine deleteTask_returns queued₁ owned₁ ?_ known₁ ?_ (share h₁.records finished records)
  · rw [records]
    exact allocated
  · intro x _ Q at_x
    rw [same] at at_x
    rw [pools]
    exact homes.cell at_x

/-- A worker can complete its instance. -/
theorem workerComplete_goes_on {q : Nat → Queue} {i : ThreadPoolTask} {task : ThreadTask}
    (queued : Queued h.records h.links q) (owned : Owned h.records)
    (allocated : ∀ P c, h.records.pools P = some c → P < h.records.nextPool) (homes : h.records.Homes)
    (live : h.tpTasks.cell p = some i) (livePool : h.pools.cell P = some pool) (running : i.isRunning = true)
    (known : h.tasks.cell i.threadTask = some task)
    (share : ∀ r, i.isDetached = true → r = h.records.complete P p i.fields pool.counters →
      r.allOf i.threadTask Fields.deletable = true → r.sharePool i.threadTask = true) :
    (workerComplete P p).Ensures h fun _ _ => True := by
  have found : h.records.instances p = some i.fields := records_instance live
  have counters : h.records.pools P = some pool.counters := records_pool livePool
  apply workerComplete_returns live livePool
  intro h₁ detached links tasks records
  have queued₁ : Queued h₁.records h₁.links q := by
    rw [records, links]
    exact queued.complete found counters running
  have owned₁ : Owned h₁.records := by
    rw [records]
    exact owned.complete found
  -- The pool of the worker is still there, and the other pools have not changed.
  have pools : ∀ Q c, h.records.pools Q = some c → ∃ c', h₁.records.pools Q = some c' := by
    intro Q c live_Q
    rw [records]
    by_cases here : Q = P
    · exact ⟨_, if_pos here⟩
    · exact ⟨c, (if_neg here).trans live_Q⟩
  have known₁ : h₁.tasks.cell i.threadTask = some task := by
    rw [tasks]
    exact known
  have same : h₁.records.poolOf = h.records.poolOf := by
    rw [records]
    show (h.records.setInstance p (some { i.fields with isFinished := true, isRunning := false })).poolOf = _
    apply Records.poolOf_setInstance found
    rfl
  refine deleteTask_returns queued₁ owned₁ ?_ known₁ ?_ (share h₁.records detached records)
  · intro Q c live_Q
    rw [records] at live_Q ⊢
    by_cases here : Q = P
    · exact here ▸ allocated P _ counters
    · exact allocated Q c ((if_neg here).symm.trans live_Q)
  · intro x _ Q at_x
    rw [same] at at_x
    obtain ⟨c, live_Q⟩ := homes x Q at_x
    obtain ⟨c', live_Q'⟩ := pools Q c live_Q
    obtain ⟨pool', live', -⟩ := Option.map_eq_some_iff.mp live_Q'
    exact ⟨pool', live'⟩

end

/-! ## Steps -/

variable {junk : Nat → Value} {s s' : System}

theorem Step.ofClient {c : Nat} {client : Client} {wait : WaitResult} (here : s.clients[c]? = some client)
    (returns : (client.proceed wait).Ensures s.heap fun _ _ => True) :
    ∃ out s', Step junk s (.proceed c wait, out) s' := by
  have runs : ((Action.proceed c wait).run junk).Ensures s fun _ _ => True := by
    rw [Action.run, ensures_bind, ensures_read, ensures_bind, ensures_require]
    refine ⟨client, here, ?_⟩
    rw [ensures_bind, ensures_zoom]
    obtain ⟨turn, h', returned, -⟩ := returns
    have silent := (Client.proceed_yields s.heap rfl turn h' returned).silent
    refine returned.ensures ?_
    rw [ensures_bind, ensures_update, silent, deliver, ensures_bind, ensures_pure, ensures_pure]
    trivial
  obtain ⟨out, s', step, -⟩ := runs
  exact ⟨out, s', step⟩

/-! ## Calls -/

/-- The objects a call names are live. -/
def Call.Valid (h : Heap) : Call → Prop
  | .poolNew _ => True
  | .poolThreadCount P => ∃ pool, h.pools.cell P = some pool
  | .poolDelete P => ∃ pool, h.pools.cell P = some pool
  | .poolPushTask P t => (∃ pool, h.pools.cell P = some pool) ∧ ∃ task, h.tasks.cell t = some task
  | .taskNew _ _ => True
  | .onTask _ t => ∃ task, h.tasks.cell t = some task

section

variable {h : Heap} {t P : Nat} {pool : ThreadPool} {task : ThreadTask} {q : Nat → Queue}

theorem threadPoolNew_returns {max : Int} : (threadPoolNew max).Ensures h fun _ _ => True := by
  rw [threadPoolNew, ensures_ite]
  split
  · rw [ensures_pure]
    trivial
  · rw [ensures_bind, Lens.ensures_malloc, ensures_pure]
    trivial

theorem threadPoolDelete_returns (live : h.pools.cell P = some pool) :
    (threadPoolDelete P).Ensures h fun _ _ => True := by
  rw [threadPoolDelete, ensures_bind, Lens.ensures_load]
  refine ⟨P, rfl, pool, live, ?_⟩
  rw [ensures_ite]
  split
  · rw [ensures_pure]
    trivial
  · rw [ensures_bind, Lens.ensures_modify]
    refine ⟨P, rfl, pool, live, ?_⟩
    obtain ⟨pool', live'⟩ := Store.put_live (p := P) (w := { pool with isActive := false }) live
    rw [ensures_bind, awaitThreads, ensures_bind, Lens.ensures_load]
    refine ⟨P, rfl, pool', live', ?_⟩
    rw [ensures_pure, ensures_pure]
    trivial

/-- The new instance is live, and nothing has been released. -/
theorem makeThreadPoolTask_returns (live : h.tasks.cell t = some task) :
    (makeThreadPoolTask junk t).Ensures h fun p h' => h.Keeps h' ∧ ∃ i, h'.tpTasks.cell p = some i := by
  rw [makeThreadPoolTask, ensures_bind, Lens.ensures_malloc, ensures_bind, Lens.ensures_modify]
  refine ⟨t, rfl, task, live, ?_⟩
  rw [ensures_pure]
  refine ⟨⟨?_, ?_, fun P pool live => ⟨pool, live⟩⟩, _, if_pos rfl⟩
  · intro p i live_p
    have old : p ≠ h.tpTasks.next := Nat.ne_of_lt (Store.lt_next live_p)
    exact ⟨i, (if_neg old).trans live_p⟩
  · exact fun u task' live_u => Store.put_live live_u

theorem threadPoolPushTask_returns (queued : Queued h.records h.links q) (live : h.pools.cell P = some pool)
    (known : h.tasks.cell t = some task) : (threadPoolPushTask junk P t).Ensures h fun _ _ => True := by
  have counters : h.records.pools P = some pool.counters := records_pool live
  have front : ∀ x, pool.task = some x → ∃ i, h.tpTasks.cell x = some i := by
    intro x at_x
    rw [← (links_pool live).1, (queued.line P _ counters).task_eq] at at_x
    exact queued.inside counters (List.mem_of_head? at_x)
  rw [threadPoolPushTask, ensures_bind, Lens.ensures_load]
  refine ⟨P, rfl, pool, live, ?_⟩
  rw [ensures_ite]
  split
  · rw [ensures_pure]
    trivial
  · have counted : (Prog.when (pool.activeThreadsCnt = pool.threadsCnt ∧ pool.threadsCnt < pool.maxThreadsCnt)
        (poolHeap.modify (some P) fun state => { state with threadsCnt := state.threadsCnt + 1 })).Completes h.Keeps :=
      .when fun _ => modify_pool_completes live
    rw [ensures_bind]
    refine (counted h (.refl h)).mono fun _ h₁ keeps₁ => ?_
    obtain ⟨task₁, known₁⟩ := keeps₁.tasks t task known
    rw [ensures_bind]
    refine (makeThreadPoolTask_returns known₁).mono ?_
    rintro p h₂ ⟨keeps₂, i, live_p⟩
    obtain ⟨pool₁, live₁⟩ := keeps₁.pools P pool live
    obtain ⟨pool₂, live₂⟩ := keeps₂.pools P pool₁ live₁
    -- Whatever comes first in the list has been live all the time.
    have linked : (Prog.when (pool.task ≠ none) (tpTaskHeap.modify pool.task fun t =>
        { t with prev := some p })).Completes h₂.Keeps := by
      apply Completes.when
      intro some
      obtain ⟨x, at_x⟩ := Option.ne_none_iff_exists'.mp some
      obtain ⟨j, live_x⟩ := front x at_x
      obtain ⟨j₁, live_x₁⟩ := keeps₁.tpTasks x j live_x
      obtain ⟨j₂, live_x₂⟩ := keeps₂.tpTasks x j₁ live_x₁
      rw [at_x]
      exact modify_tpTask_completes live_x₂
    refine Ensures.mono (Q := fun _ h' => h₂.Keeps h') ?_ fun _ _ _ => trivial
    exact (Completes.bind (modify_pool_completes live₂) fun _ => .bind (modify_tpTask_completes live_p) fun _ =>
      .bind (modify_tpTask_completes live_p) fun _ => .bind (modify_tpTask_completes live_p) fun _ =>
      .bind linked fun _ => .bind (modify_pool_completes live₂) fun _ =>
      .bind (.when fun _ => modify_pool_completes live₂) fun _ => .pure) h₂ (.refl h₂)

theorem TaskCall.start_returns {call : TaskCall} (live : h.tasks.cell t = some task) (owned : Owned h.records) :
    (call.start t).Ensures h fun _ _ => True := by
  unfold TaskCall.start
  rw [ensures_bind, getTpTask, ensures_bind, Lens.ensures_load]
  refine ⟨t, rfl, task, live, ?_⟩
  rw [ensures_pure]
  cases newest : task.list.head? with
  | none => cases call <;> exact ensures_pure.mpr trivial
  | some p =>
    obtain ⟨f, found, -⟩ := owned.listed t task p live (List.mem_of_head? newest)
    obtain ⟨i, live_p, -⟩ := Option.map_eq_some_iff.mp found
    dsimp only
    rw [ensures_bind, Lens.ensures_load]
    refine ⟨p, rfl, i, live_p, ?_⟩
    rw [ensures_pure]
    trivial

theorem Call.start_returns {function : Call} (valid : function.Valid h) (queued : Queued h.records h.links q)
    (owned : Owned h.records) : (function.start junk).Ensures h fun _ _ => True := by
  cases function with
  | poolNew max => exact threadPoolNew_returns
  | poolThreadCount P =>
    obtain ⟨pool, live⟩ := valid
    rw [Call.start, threadPoolThreadCount, ensures_bind, Lens.ensures_load]
    refine ⟨P, rfl, pool, live, ?_⟩
    rw [ensures_pure]
    trivial
  | poolDelete P =>
    obtain ⟨pool, live⟩ := valid
    exact threadPoolDelete_returns live
  | poolPushTask P t =>
    obtain ⟨⟨pool, live⟩, task, known⟩ := valid
    exact threadPoolPushTask_returns queued live known
  | taskNew function arg =>
    rw [Call.start, threadTaskNew, ensures_bind, Lens.ensures_malloc, ensures_pure]
    trivial
  | onTask call t =>
    obtain ⟨task, known⟩ := valid
    exact TaskCall.start_returns known owned

end

/-- The signals of a call are for workers, and can always be delivered. -/
def Signal.toWorkers : Signal → Bool
  | .create _ => true
  | .broadcastWork _ => true
  | _ => false

theorem Calls.toWorkers {r r' : Records} {function : Call} {turn : Turn Client} (does : Calls junk r function turn r') :
    ∀ sig ∈ turn.signals, sig.toWorkers = true := by
  cases does with
  | @pushed P t c task =>
    by_cases busy : c.AllBusy <;> simp [busy, Signal.toWorkers]
  | closed => simp [Signal.toWorkers]
  | poolRefused | poolCreated | counted | hasTasks | tooMany | taskCreated | lookedUp | notPushed | unpushed => nofun

theorem deliver_toWorkers {signals : List Signal} (s : System) (only : ∀ sig ∈ signals, sig.toWorkers = true) :
    (deliver [] signals).Ensures s fun _ _ => True := by
  induction signals generalizing s with
  | nil => exact ensures_pure.mpr trivial
  | cons sig signals ih =>
    obtain ⟨first, rest⟩ := List.forall_mem_cons.mp only
    rw [deliver, ensures_bind]
    cases sig with
    | create | broadcastWork => exact ensures_update.mpr (ih _ rest)
    | signalFinish | signalEnd => cases first

/-- An idle client can make every call on live objects. -/
theorem call_goes_on (orderly : Orderly s) (sound : Sound s.shape) {c : Nat} {function : Call}
    (idle : s.clients[c]? = some .idle) (valid : function.Valid s.heap) :
    ∃ out s', Step junk s (.call c function, out) s' := by
  obtain ⟨q, queued⟩ := orderly.queued
  have runs : ((Action.call c function).run junk).Ensures s fun _ _ => True := by
    rw [Action.run, ensures_bind, ensures_read, idle]
    dsimp only
    rw [ensures_bind, ensures_zoom]
    obtain ⟨turn, h', returned, -⟩ : (function.start junk).Ensures s.heap fun _ _ => True :=
      Call.start_returns valid queued sound.owned
    have does : Calls junk s.heap.records function turn h'.records := Call.start_yields s.heap rfl turn h' returned
    refine returned.ensures ?_
    rw [ensures_bind, ensures_update, ensures_bind]
    refine (deliver_toWorkers _ does.toWorkers).mono fun _ _ _ => ?_
    rw [ensures_pure]
    trivial
  obtain ⟨out, s', step, -⟩ := runs
  exact ⟨out, s', step⟩

end SysprogLabs.Tpool
