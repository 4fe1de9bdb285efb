import SysprogLabs.Tpool.Records

/-! # What each piece of the code does

One lemma per function: what it returns and what it leaves in the records.  `Calls`,
`Proceeds` and `Works` collect them by the place of the thread that runs the code.
-/

namespace SysprogLabs.Tpool

open Prog

variable {junk : Nat → Value} {r : Records} {p t P : Nat} {ptr : Ptr}

theorem Records.setPool_setPool (c c' : Option Counters) :
    (r.setPool P c).setPool P c' = r.setPool P c' := by
  simp only [Records.setPool, Records.mk.injEq, true_and, and_true]
  funext Q
  by_cases here : Q = P
  · rw [if_pos here, if_pos here]
  · rw [if_neg here, if_neg here, if_neg here]

theorem Records.setInstance_setInstance (f f' : Option Fields) :
    (r.setInstance p f).setInstance p f' = r.setInstance p f' := by
  simp only [Records.setInstance, Records.mk.injEq, and_true]
  funext q
  by_cases here : q = p
  · rw [if_pos here, if_pos here]
  · rw [if_neg here, if_neg here, if_neg here]

@[simp] theorem Records.setPool_found (c : Option Counters) : (r.setPool P c).pools P = c := if_pos rfl

@[simp] theorem Records.setInstance_found (f : Option Fields) : (r.setInstance p f).instances p = f :=
  if_pos rfl

theorem lock_yields {Q : Unit → Records → Prop} (holds : ∀ P c, ptr = some P → r.pools P = some c → Q () r) :
    (lock ptr).YieldsOn Heap.records r Q := by
  apply YieldsOn.bind
  apply load_pool
  intro P pool at_P live
  exact .pure (holds P _ at_P live)

/-! ## Pools -/

/-- `thread_pool_new`, `thread_pool_thread_count`, `thread_pool_delete` up to its wait,
    `thread_pool_push_task`, `thread_task_new`, and the calls on a task up to the mutex. -/
inductive Calls (junk : Nat → Value) (r : Records) : Call → Turn Client → Records → Prop where
  | poolRefused {max : Int} (bad : max > tpoolMaxThreads ∨ max ≤ 0) :
      Calls junk r (.poolNew max) { next := .idle, out := .returned tpoolErrInvalidArgument } r
  | poolCreated {max : Int} (good : ¬ (max > tpoolMaxThreads ∨ max ≤ 0)) :
      Calls junk r (.poolNew max) { next := .idle, out := .created r.nextPool }
        (r.addPool { maxThreadsCnt := max, threadsCnt := 0, activeThreadsCnt := 0, isActive := true,
                     tasksCnt := 0 })
  | counted {P : Nat} {c : Counters} (live : r.pools P = some c) :
      Calls junk r (.poolThreadCount P) { next := .idle, out := .returned c.threadsCnt } r
  | hasTasks {P : Nat} {c : Counters} (live : r.pools P = some c) (holds : c.tasksCnt > 0) :
      Calls junk r (.poolDelete P) { next := .idle, out := .returned tpoolErrHasTasks } r
  | closed {P : Nat} {c : Counters} (live : r.pools P = some c) (empty : ¬ c.tasksCnt > 0) :
      Calls junk r (.poolDelete P)
        { next := if c.threadsCnt ≠ 0 then .deleting P false else .destroying P,
          signals := [.broadcastWork P] }
        (r.setPool P (some { c with isActive := false }))
  | tooMany {P t : Nat} {c : Counters} (live : r.pools P = some c) (full : c.tasksCnt = tpoolMaxTasks) :
      Calls junk r (.poolPushTask P t) { next := .idle, out := .returned tpoolErrTooManyTasks } r
  | pushed {P t : Nat} {c : Counters} {task : ThreadTask} (live : r.pools P = some c)
      (room : c.tasksCnt ≠ tpoolMaxTasks) (found : r.tasks t = some task) :
      Calls junk r (.poolPushTask P t)
        { next := .idle, out := .returned 0,
          signals := (if c.AllBusy then [.create P] else []) ++ [.broadcastWork P] }
        (r.push junk P t task c)
  | taskCreated {function : Function} {arg : Value} :
      Calls junk r (.taskNew function arg)
        { next := .idle, out := .created r.nextTask, marks := [.created r.nextTask function arg] }
        (r.addTask { function := function, arg := arg, list := [] })
  | lookedUp {call : TaskCall} {t p : Nat} {task : ThreadTask} {f : Fields} (live : r.tasks t = some task)
      (newest : task.list.head? = some p) (found : r.instances p = some f) :
      Calls junk r (.onTask call t) { next := .locking call t p f.pool } r
  | notPushed {call : TaskCall} {t : Nat} {task : ThreadTask} {out : Out} (live : r.tasks t = some task)
      (empty : task.list = []) (answer : out = .answered false ∨ out = .returned tpoolErrTaskNotPushed) :
      Calls junk r (.onTask call t) { next := .idle, out } r
  | unpushed {t : Nat} {task : ThreadTask} (live : r.tasks t = some task) (empty : task.list = []) :
      Calls junk r (.onTask .delete t) { next := .freeing t } r

theorem threadPoolNew_yields {max : Int} :
    (threadPoolNew max).YieldsOn Heap.records r (Calls junk r (.poolNew max)) := by
  apply YieldsOn.ite
  · intro bad
    exact .pure (.poolRefused bad)
  · intro good
    apply YieldsOn.bind
    apply malloc_pool
    exact .pure (.poolCreated good)

theorem threadPoolThreadCount_yields :
    (threadPoolThreadCount P).YieldsOn Heap.records r (Calls junk r (.poolThreadCount P)) := by
  apply YieldsOn.bind
  apply load_pool
  intro P pool at_P live
  cases at_P
  exact .pure (.counted live)

theorem awaitThreads_yields {Q : Client → Records → Prop}
    (holds : ∀ c, r.pools P = some c →
      Q (if c.threadsCnt ≠ 0 then .deleting P false else .destroying P) r) :
    (awaitThreads P).YieldsOn Heap.records r Q := by
  apply YieldsOn.bind
  apply load_pool
  intro P pool at_P live
  cases at_P
  exact .pure (holds _ live)

theorem threadPoolDelete_yields :
    (threadPoolDelete P).YieldsOn Heap.records r (Calls junk r (.poolDelete P)) := by
  apply YieldsOn.bind
  apply load_pool
  intro P pool at_P live
  cases at_P
  apply YieldsOn.ite
  · intro holds
    exact .pure (.hasTasks live holds)
  · intro empty
    apply YieldsOn.bind
    apply modify_pool (fun c => { c with isActive := false }) (fun _ => rfl)
    intro P c at_P live'
    cases at_P
    cases live.symm.trans live'
    apply YieldsOn.bind
    apply awaitThreads_yields
    intro c found
    rw [Records.setPool_found] at found
    cases found
    exact .pure (Calls.closed (c := pool.counters) live empty)

theorem threadTaskNew_yields {function : Function} {arg : Value} :
    (threadTaskNew function arg).YieldsOn Heap.records r (Calls junk r (.taskNew function arg)) := by
  apply YieldsOn.bind
  apply malloc_task
  exact .pure .taskCreated

theorem makeThreadPoolTask_yields {Q : Nat → Records → Prop}
    (holds : ∀ task, r.tasks t = some task → Q r.nextInstance
      ((r.addInstance (Fields.made t (junk r.nextInstance))).setTask t
        (some { task with list := r.nextInstance :: task.list }))) :
    (makeThreadPoolTask junk t).YieldsOn Heap.records r Q := by
  apply YieldsOn.bind
  apply malloc_tpTask
  apply YieldsOn.bind
  apply modify_task
  intro task found
  exact .pure (holds task found)

/-- The assignments of `thread_pool_push_task` one after the other. -/
theorem push_steps (task : ThreadTask) (c : Counters) :
    (((((r.setPool P (some { c with threadsCnt := if c.AllBusy then c.threadsCnt + 1 else c.threadsCnt })).addInstance
      (Fields.made t (junk r.nextInstance))).setTask t (some { task with list := r.nextInstance :: task.list })).setPool P
      (some { c with threadsCnt := if c.AllBusy then c.threadsCnt + 1 else c.threadsCnt,
                     tasksCnt := c.tasksCnt + 1 })).setInstance r.nextInstance
      (some { Fields.made t (junk r.nextInstance) with isPushed := true })).setInstance r.nextInstance
      (some { Fields.made t (junk r.nextInstance) with isPushed := true, pool := some P }) =
    r.push junk P t task c := by
  rw [Records.setInstance_setInstance]
  simp only [Records.push, Records.setInstance, Records.setPool, Records.setTask, Records.addInstance,
    Records.mk.injEq, and_true]
  constructor
  · funext q
    by_cases here : q = r.nextInstance
    · rw [if_pos here, if_pos here]
    · rw [if_neg here, if_neg here]
      exact if_neg here
  · constructor
    · trivial
    · funext Q
      by_cases here : Q = P
      · rw [if_pos here, if_pos here]
      · rw [if_neg here, if_neg here, if_neg here]

theorem threadPoolPushTask_yields :
    (threadPoolPushTask junk P t).YieldsOn Heap.records r (Calls junk r (.poolPushTask P t)) := by
  apply YieldsOn.bind
  apply load_pool
  intro P pool at_P live
  cases at_P
  apply YieldsOn.ite
  · intro full
    exact .pure (.tooMany live full)
  · intro room
    apply YieldsOn.bind
    -- The counters behind the creation of a thread.
    have created : (Prog.when (pool.activeThreadsCnt = pool.threadsCnt ∧
        pool.threadsCnt < pool.maxThreadsCnt) (poolHeap.modify (some P) fun state =>
          { state with threadsCnt := state.threadsCnt + 1 })).YieldsOn Heap.records r fun _ r' =>
        r' = r.setPool P (some { pool.counters with threadsCnt :=
          if pool.counters.AllBusy then pool.counters.threadsCnt + 1 else pool.counters.threadsCnt }) := by
      apply YieldsOn.when
      · intro busy
        apply modify_pool (fun c => { c with threadsCnt := c.threadsCnt + 1 }) (fun _ => rfl)
        intro P c at_P live'
        cases at_P
        cases live.symm.trans live'
        have allBusy : pool.counters.AllBusy := busy
        rw [if_pos allBusy]
      · intro idle
        have allBusy : ¬ pool.counters.AllBusy := idle
        rw [if_neg allBusy, Records.setPool_self live]
    apply created.mono
    intro _ r₁ at_r₁
    apply YieldsOn.bind
    apply makeThreadPoolTask_yields
    intro task found
    apply YieldsOn.bind
    apply modify_pool (fun c => { c with tasksCnt := c.tasksCnt + 1 }) (fun _ => rfl)
    intro P c at_P live₁
    cases at_P
    apply YieldsOn.bind
    apply modify_tpTask (fun x => { x with isPushed := true }) (fun _ => rfl)
    intro p x₁ at_p live₂
    cases at_p
    apply YieldsOn.bind
    apply modify_tpTask (fun x => { x with pool := some P }) (fun _ => rfl)
    intro p x₂ at_p live₃
    cases at_p
    apply YieldsOn.bind
    apply modify_link
    · intro t
      rfl
    apply YieldsOn.bind
    apply when_modify_link
    · intro t
      rfl
    apply YieldsOn.bind
    apply modify_end
    · intro pool
      rfl
    apply YieldsOn.bind
    apply when_modify_end
    · intro pool
      rfl
    subst at_r₁
    cases (Records.setPool_found _).symm.trans live₁
    cases (if_pos rfl).symm.trans live₂
    cases (Records.setInstance_found _).symm.trans live₃
    apply YieldsOn.pure
    have pushed := @Calls.pushed junk r P t pool.counters task live room found
    rw [← push_steps] at pushed
    exact pushed

/-! ## Tasks -/

theorem TaskCall.start_yields {call : TaskCall} :
    (call.start t).YieldsOn Heap.records r (Calls junk r (.onTask call t)) := by
  apply YieldsOn.bind
  apply YieldsOn.bind
  apply load_task
  intro task live
  apply YieldsOn.pure
  cases newest : task.list.head? with
  | some p =>
    apply YieldsOn.bind
    apply load_tpTask
    intro p' tpTask at_p found
    cases at_p
    exact .pure (.lookedUp live newest found)
  | none =>
    have empty : task.list = [] := List.head?_eq_none_iff.mp newest
    cases call with
    | isFinished => exact .pure (.notPushed live empty (.inl rfl))
    | isRunning => exact .pure (.notPushed live empty (.inl rfl))
    | join => exact .pure (.notPushed live empty (.inr rfl))
    | timedJoin => exact .pure (.notPushed live empty (.inr rfl))
    | delete => exact .pure (.unpushed live empty)
    | detach => exact .pure (.notPushed live empty (.inr rfl))

/-- What an idle client runs. -/
theorem Call.start_yields {function : Call} :
    (function.start junk).YieldsOn Heap.records r (Calls junk r function) := by
  cases function with
  | poolNew => exact threadPoolNew_yields
  | poolThreadCount => exact threadPoolThreadCount_yields
  | poolDelete => exact threadPoolDelete_yields
  | poolPushTask => exact threadPoolPushTask_yields
  | taskNew => exact threadTaskNew_yields
  | onTask => exact TaskCall.start_yields

/-! ### `delete_task` -/

theorem deletable_yields {list : List Nat} {Q : Bool → Records → Prop}
    (yes : (∀ p ∈ list, ∃ f, r.instances p = some f ∧ f.deletable = true) → Q true r)
    (no : ∀ p ∈ list, ∀ f, r.instances p = some f → f.deletable = false → Q false r) :
    (deletable list).YieldsOn Heap.records r Q := by
  induction list with
  | nil => exact .pure (yes fun p mem => by cases mem)
  | cons p list ih =>
    apply YieldsOn.bind
    apply load_tpTask
    intro p' t at_p found
    cases at_p
    have test : (t.isJoined || (t.isDetached && t.isFinished)) = t.fields.deletable := rfl
    rw [test]
    apply YieldsOn.ite
    · intro kept
      exact .pure (no p List.mem_cons_self t.fields found (by simpa using kept))
    · intro ok
      apply ih
      · intro all
        apply yes
        intro q mem
        cases List.mem_cons.mp mem with
        | inl here => exact ⟨t.fields, here ▸ found, by simpa using ok⟩
        | inr later => exact all q later
      · intro q mem
        exact no q (List.mem_cons_of_mem p mem)

theorem unlinkFromNeighbours_yields {pool tpPrev tpNext : Ptr} {Q : Unit → Records → Prop} (holds : Q () r) :
    (unlinkFromNeighbours pool tpPrev tpNext).YieldsOn Heap.records r Q := by
  apply YieldsOn.ite
  · intro _
    apply YieldsOn.bind
    apply when_modify_link
    · intro t
      rfl
    apply modify_end
    · intro pool
      rfl
    exact holds
  · intro _
    apply YieldsOn.bind
    apply when_modify_link
    · intro t
      rfl
    apply modify_link
    · intro t
      rfl
    exact holds

theorem unlinkTask_yields {pool : Ptr} {Q : Unit → Records → Prop} (holds : Q () (r.setInstance p none)) :
    (unlinkTask pool p).YieldsOn Heap.records r Q := by
  apply YieldsOn.bind
  apply load_tpTask
  intro _ tpTask _ _
  apply YieldsOn.bind
  apply load_pool
  intro _ state _ _
  apply YieldsOn.bind
  apply when_modify_end
  · intro pool
    rfl
  apply YieldsOn.bind
  apply unlinkFromNeighbours_yields
  exact free_tpTask fun _ _ => holds

theorem unlinkTasks_yields {pool : Ptr} {list : List Nat} {Q : Unit → Records → Prop}
    (holds : Q () { r with instances := fun p => if p ∈ list then none else r.instances p }) :
    (unlinkTasks pool list).YieldsOn Heap.records r Q := by
  induction list generalizing r with
  | nil => exact .pure (by simpa using holds)
  | cons p list ih =>
    apply YieldsOn.bind
    apply unlinkTask_yields
    apply ih
    have same : (fun q => if q ∈ list then none else (r.setInstance p none).instances q) =
        fun q => if q ∈ p :: list then none else r.instances q := by
      funext q
      by_cases later : q ∈ list
      · rw [if_pos later, if_pos (List.mem_cons_of_mem p later)]
      · by_cases here : q = p
        · rw [if_neg later, here, Records.setInstance_found, if_pos List.mem_cons_self]
        · rw [if_neg later, if_neg (by simp [later, here])]
          exact if_neg here
    rw [same]
    exact holds

theorem deleteTask_yields : (deleteTask t).YieldsOn Heap.records r (r.Deletes t) := by
  apply YieldsOn.bind
  apply load_task
  intro task live
  cases shape : task.list with
  | nil =>
    apply YieldsOn.bind
    apply free_task
    intro _ _
    have released := Records.Deletes.released live (fun p mem => by rw [shape] at mem; cases mem)
      fun nonempty => absurd shape nonempty
    rw [Records.release_empty shape] at released
    exact .pure released
  | cons newest older =>
    apply YieldsOn.bind
    apply load_tpTask
    intro p tpTask at_p found
    cases at_p
    apply YieldsOn.bind
    apply deletable_yields
    · intro all
      apply YieldsOn.bind
      apply unlinkTasks_yields
      apply YieldsOn.bind
      apply free_task
      intro _ _
      apply YieldsOn.bind
      apply modify_pool fun c => { c with tasksCnt := c.tasksCnt - (newest :: older).length }
      · intro pool
        rfl
      intro P c at_P livePool
      rw [← shape] at all
      have pool : r.newestPool task = some P := by
        rw [Records.newestPool, shape, List.head?_cons, Option.bind_some, found]
        exact at_P
      have released := Records.Deletes.released live all fun _ => ⟨P, c, pool, livePool⟩
      rw [Records.release_eq pool livePool, shape] at released
      exact .pure released
    · intro p mem f found kept
      rw [← shape] at mem
      exact .pure (.refused live mem found kept)

/-! ### Clients inside a call -/

/-- The calls that wait for the instance, and whether the wait is a timed one. -/
def TaskCall.Joins : TaskCall → Bool → Prop
  | .join, timed => timed = false
  | .timedJoin timeout, timed => timeout.isNotPositive = false ∧ timed = true
  | _, _ => False

/-- What a client does from its place inside a call; `wait` is what a timed wait returned. -/
inductive Proceeds (r : Records) (wait : WaitResult) : Client → Turn Client → Records → Prop where
  | askedFinished {t p : Nat} {pool : Ptr} {f : Fields} (found : r.instances p = some f) :
      Proceeds r wait (.locking .isFinished t p pool) { next := .idle, out := .answered f.isFinished } r
  | askedRunning {t p : Nat} {pool : Ptr} {f : Fields} (found : r.instances p = some f) :
      Proceeds r wait (.locking .isRunning t p pool) { next := .idle, out := .answered f.isRunning } r
  | expired {timeout : Timeout} {t p : Nat} {pool : Ptr} (notPositive : timeout.isNotPositive = true) :
      Proceeds r wait (.locking (.timedJoin timeout) t p pool)
        { next := .idle, out := .returned tpoolErrTimeout } r
  | blocked {call : TaskCall} {t p : Nat} {pool : Ptr} {timed : Bool} {f : Fields} (joins : call.Joins timed)
      (found : r.instances p = some f) (unfinished : f.isFinished = false) :
      Proceeds r wait (.locking call t p pool) { next := .joining t p pool timed false }
        (r.setInstance p (some { f with isJoined := true }))
  | joined {call : TaskCall} {t p : Nat} {pool : Ptr} {timed : Bool} {f : Fields} (joins : call.Joins timed)
      (found : r.instances p = some f) (finished : f.isFinished = true) :
      Proceeds r wait (.locking call t p pool) { next := .idle, out := .joined f.result }
        (r.setInstance p (some { f with isJoined := true }))
  | timedOut {t p : Nat} {pool : Ptr} {notified : Bool} (timeout : wait = .timedOut) :
      Proceeds r wait (.joining t p pool true notified) { next := .idle, out := .returned tpoolErrTimeout } r
  | woken {t p : Nat} {pool : Ptr} {timed notified : Bool} {f : Fields}
      (inTime : ¬ (timed = true ∧ wait = .timedOut)) (found : r.instances p = some f) :
      Proceeds r wait (.joining t p pool timed notified) { next := .idle, out := .joined f.result } r
  | deleted {t p : Nat} {pool : Ptr} {ret : Int} {r' : Records} (deletes : r.Deletes t ret r') :
      Proceeds r wait (.locking .delete t p pool) { next := .idle, out := .returned ret } r'
  | detached {t p : Nat} {pool : Ptr} {f : Fields} (found : r.instances p = some f)
      (unfinished : f.isFinished = false) :
      Proceeds r wait (.locking .detach t p pool) { next := .idle, out := .returned 0, marks := [.detached t] }
        (r.setInstance p (some { f with isDetached := true }))
  | released {t p : Nat} {pool : Ptr} {f : Fields} {ret : Int} {r' : Records} (found : r.instances p = some f)
      (finished : f.isFinished = true)
      (deletes : (r.setInstance p (some { f with isDetached := true })).Deletes t ret r') :
      Proceeds r wait (.locking .detach t p pool) { next := .idle, out := .returned 0, marks := [.detached t] }
        r'
  | freed {t : Nat} {task : ThreadTask} (live : r.tasks t = some task) :
      Proceeds r wait (.freeing t) { next := .idle, out := .returned 0 } (r.setTask t none)
  | waitsAgain {P : Nat} {notified : Bool} {c : Counters} (live : r.pools P = some c)
      (threads : c.threadsCnt ≠ 0) :
      Proceeds r wait (.deleting P notified) { next := .deleting P false } r
  | leaves {P : Nat} {notified : Bool} {c : Counters} (live : r.pools P = some c)
      (threads : c.threadsCnt = 0) :
      Proceeds r wait (.deleting P notified) { next := .destroying P } r
  | destroyed {P : Nat} {c : Counters} (live : r.pools P = some c) :
      Proceeds r wait (.destroying P) { next := .idle, out := .returned 0 } (r.setPool P none)

theorem joinTest_yields {wait : WaitResult} {call : TaskCall} {timed : Bool} (joins : call.Joins timed) :
    (do
      tpTaskHeap.modify (some p) fun t => { t with isJoined := true }
      let tpTask ← tpTaskHeap.load (some p)
      if tpTask.isFinished = false then return { next := .joining t p ptr timed false }
      else return { next := .idle, out := .joined tpTask.result } : Prog Heap (Turn Client)).YieldsOn
      Heap.records r (Proceeds r wait (.locking call t p ptr)) := by
  apply YieldsOn.bind
  apply modify_tpTask fun f => { f with isJoined := true }
  · intro t
    rfl
  intro p' f at_p found
  cases at_p
  apply YieldsOn.bind
  apply load_tpTask
  intro p' tpTask at_p found'
  cases at_p
  have same := Option.some.inj ((Records.setInstance_found _).symm.trans found')
  have finished : tpTask.isFinished = f.isFinished := by
    show tpTask.fields.isFinished = f.isFinished
    rw [← same]
  have result : tpTask.result = f.result := by
    show tpTask.fields.result = f.result
    rw [← same]
  rw [finished, result]
  apply YieldsOn.ite
  · intro unfinished
    exact .pure (.blocked joins found unfinished)
  · intro done
    exact .pure (.joined joins found (by simpa using done))

theorem TaskCall.locked_yields {wait : WaitResult} {call : TaskCall} :
    (call.locked t p ptr).YieldsOn Heap.records r (Proceeds r wait (.locking call t p ptr)) := by
  cases call with
  | isFinished =>
    apply YieldsOn.bind
    apply lock_yields
    intro _ _ _ _
    apply YieldsOn.bind
    apply load_tpTask
    intro p' tpTask at_p found
    cases at_p
    exact .pure (.askedFinished found)
  | isRunning =>
    apply YieldsOn.bind
    apply lock_yields
    intro _ _ _ _
    apply YieldsOn.bind
    apply load_tpTask
    intro p' tpTask at_p found
    cases at_p
    exact .pure (.askedRunning found)
  | join =>
    apply YieldsOn.bind
    apply lock_yields
    intro _ _ _ _
    exact joinTest_yields rfl
  | timedJoin timeout =>
    apply YieldsOn.bind
    apply lock_yields
    intro _ _ _ _
    apply YieldsOn.ite
    · intro notPositive
      exact .pure (.expired notPositive)
    · intro positive
      exact joinTest_yields ⟨by simpa using positive, rfl⟩
  | delete =>
    apply YieldsOn.bind
    apply lock_yields
    intro _ _ _ _
    apply YieldsOn.bind
    apply deleteTask_yields.mono
    intro ret r' deletes
    exact .pure (.deleted deletes)
  | detach =>
    apply YieldsOn.bind
    apply lock_yields
    intro _ _ _ _
    apply YieldsOn.bind
    apply modify_tpTask fun f => { f with isDetached := true }
    · intro t
      rfl
    intro p' f at_p found
    cases at_p
    apply YieldsOn.bind
    apply load_tpTask
    intro p' tpTask at_p found'
    cases at_p
    have same := Option.some.inj ((Records.setInstance_found _).symm.trans found')
    have finished : tpTask.isFinished = f.isFinished := by
      show tpTask.fields.isFinished = f.isFinished
      rw [← same]
    rw [finished]
    apply YieldsOn.ite
    · intro done
      apply YieldsOn.bind
      apply deleteTask_yields.mono
      intro ret r' deletes
      exact .pure (.released found done deletes)
    · intro unfinished
      exact .pure (.detached found (by simpa using unfinished))

/-- What a client inside a call runs. -/
theorem Client.proceed_yields {wait : WaitResult} {client : Client} :
    (client.proceed wait).YieldsOn Heap.records r (Proceeds r wait client) := by
  cases client with
  | idle => exact fun s _ => yields_fault
  | locking => exact TaskCall.locked_yields
  | freeing t =>
    apply YieldsOn.bind
    apply free_task
    intro task live
    exact .pure (.freed live)
  | joining t p pool timed notified =>
    apply YieldsOn.bind
    apply lock_yields
    intro _ _ _ _
    apply YieldsOn.ite
    · intro late
      obtain ⟨rfl, timeout⟩ := late
      exact .pure (.timedOut timeout)
    · intro inTime
      apply YieldsOn.bind
      apply load_tpTask
      intro p' tpTask at_p found
      cases at_p
      exact .pure (.woken inTime found)
  | deleting P notified =>
    apply YieldsOn.bind
    apply awaitThreads_yields
    intro c live
    by_cases threads : c.threadsCnt = 0
    · rw [if_neg (by simpa using threads)]
      exact .pure (.leaves live threads)
    · rw [if_pos threads]
      exact .pure (.waitsAgain live threads)
  | destroying P =>
    apply YieldsOn.bind
    apply free_pool
    intro c live
    exact .pure (.destroyed live)

/-! ## Workers -/

/-- About to look for a task under the mutex. -/
def WorkerPc.Looking : WorkerPc → Prop
  | .ready => True
  | .asleep _ => True
  | _ => False

/-- What the completion of an instance leaves, before a release. -/
def Records.complete (r : Records) (P p : Nat) (f : Fields) (c : Counters) : Records :=
  (r.setInstance p (some { f with isFinished := true, isRunning := false })).setPool P
    (some { c with activeThreadsCnt := c.activeThreadsCnt - 1 })

/-- What a worker of the pool `P` does; `first` is what `get_task` may find, and `value`
    what the task's function returns. -/
inductive Works (r : Records) (first : Ptr → Prop) (value : Value) (P : Nat) :
    WorkerPc → Turn WorkerPc → Records → Prop where
  | slept {pc : WorkerPc} {c : Counters} (looking : pc.Looking) (live : r.pools P = some c)
      (active : c.isActive = true) (nothing : first none) :
      Works r first value P pc { next := .asleep false } r
  | exited {pc : WorkerPc} {c : Counters} (looking : pc.Looking) (live : r.pools P = some c)
      (inactive : c.isActive = false) :
      Works r first value P pc { next := .exited, signals := [.signalFinish P] }
        (r.setPool P (some { c with threadsCnt := c.threadsCnt - 1 }))
  | picked {pc : WorkerPc} {c : Counters} {p : Nat} {f : Fields} (looking : pc.Looking)
      (live : r.pools P = some c) (active : c.isActive = true) (found : first (some p))
      (taken : r.instances p = some f) (pending : f.Pending) :
      Works r first value P pc { next := .picked p }
        ((r.setPool P (some { c with activeThreadsCnt := c.activeThreadsCnt + 1 })).setInstance p
          (some { f with isRunning := true }))
  | called {p : Nat} {f : Fields} {task : ThreadTask} (found : r.instances p = some f)
      (live : r.tasks f.threadTask = some task) :
      Works r first value P (.picked p)
        { next := .running ⟨p, task.function, task.arg⟩, marks := [.invoked ⟨p, task.function, task.arg⟩] } r
  | stored {call : Invocation} {f : Fields} (found : r.instances call.tpTask = some f) :
      Works r first value P (.running call)
        { next := .returned call.tpTask, marks := [.returned call value] }
        (r.setInstance call.tpTask (some { f with result := value }))
  | completed {p : Nat} {f : Fields} {c : Counters} (found : r.instances p = some f)
      (live : r.pools P = some c) (kept : f.isDetached = false) :
      Works r first value P (.returned p)
        { next := .ready, signals := [.signalEnd p], marks := [.completed p] } (r.complete P p f c)
  | released {p : Nat} {f : Fields} {c : Counters} {ret : Int} {r' : Records}
      (found : r.instances p = some f) (live : r.pools P = some c) (detached : f.isDetached = true)
      (deletes : (r.complete P p f c).Deletes f.threadTask ret r') :
      Works r first value P (.returned p)
        { next := .ready, signals := [.signalEnd p], marks := [.completed p] } r'

theorem moveToEnd_yields {Q : Unit → Records → Prop} (holds : Q () r) :
    (moveToEnd P p).YieldsOn Heap.records r Q := by
  apply YieldsOn.bind
  apply load_pool
  intro _ state _ _
  apply YieldsOn.ite
  · intro _
    apply YieldsOn.bind
    apply load_tpTask
    intro _ tpTask _ _
    apply YieldsOn.ite
    · intro _
      apply YieldsOn.bind
      apply modify_end
      · intro pool
        rfl
      apply YieldsOn.bind
      apply modify_link
      · intro t
        rfl
      apply YieldsOn.bind
      apply modify_link
      · intro t
        rfl
      apply YieldsOn.bind
      apply modify_link
      · intro t
        rfl
      apply YieldsOn.bind
      apply modify_link
      · intro t
        rfl
      apply modify_end
      · intro pool
        rfl
      exact holds
    · intro _
      apply YieldsOn.bind
      apply modify_link
      · intro t
        rfl
      apply YieldsOn.bind
      apply modify_link
      · intro t
        rfl
      apply YieldsOn.bind
      apply modify_link
      · intro t
        rfl
      apply YieldsOn.bind
      apply modify_link
      · intro t
        rfl
      apply modify_end
      · intro pool
        rfl
      exact holds
  · intro _
    exact .pure holds

/-- `get_task` changes nothing, and finds no instance that was taken before. -/
theorem getTask_yields {h : Heap} : (getTask P).Yields h fun found h' => h' = h ∧
    ∀ p, found = some p → ∃ f, h.records.instances p = some f ∧ f.Pending := by
  simp only [getTask, yields_bind, Lens.yields_load]
  intro _ _ pool _
  refine yields_loop (fun _ s => s = h) ?_ rfl
  intro task s at_s
  subst at_s
  cases task with
  | none => simp
  | some p =>
    simp only [yields_bind, Lens.yields_load]
    intro q at_q t live
    cases at_q
    by_cases taken : (t.isRunning || t.isFinished) = true
    · simp [taken]
    · rw [if_neg taken, yields_pure]
      constructor
      · rfl
      · intro q at_q
        cases at_q
        rw [Bool.or_eq_true, not_or, Bool.not_eq_true, Bool.not_eq_true] at taken
        have found : s.records.instances p = some t.fields := records_instance live
        exact ⟨t.fields, found, taken⟩

/-- What `get_task` may find in the pool. -/
def Heap.first (h : Heap) (P : Nat) (found : Ptr) : Prop := (getTask P).Returns h found h

theorem workerTake_yields {first : Ptr → Prop} {value : Value} {pc : WorkerPc} {found : Ptr}
    (looking : pc.Looking) (may : first found)
    (pending : ∀ p, found = some p → ∃ f, r.instances p = some f ∧ f.Pending) :
    (workerTake P found).YieldsOn Heap.records r (Works r first value P pc) := by
  apply YieldsOn.bind
  apply load_pool
  intro P pool at_P live
  cases at_P
  apply YieldsOn.ite
  · intro sleeps
    obtain ⟨rfl, active⟩ := sleeps
    exact .pure (.slept looking live active may)
  · intro awake
    apply YieldsOn.bind
    apply modify_pool fun c => { c with activeThreadsCnt := c.activeThreadsCnt + 1 }
    · intro pool
      rfl
    intro P c at_P live'
    cases at_P
    cases live.symm.trans live'
    apply YieldsOn.ite
    · intro inactive
      apply YieldsOn.bind
      apply modify_pool fun c => { c with threadsCnt := c.threadsCnt - 1 }
      · intro pool
        rfl
      intro P c at_P live₁
      cases at_P
      cases (Records.setPool_found _).symm.trans live₁
      apply YieldsOn.bind
      apply modify_pool fun c => { c with activeThreadsCnt := c.activeThreadsCnt - 1 }
      · intro pool
        rfl
      intro P c at_P live₂
      cases at_P
      cases (Records.setPool_found _).symm.trans live₂
      -- The exit path counts the worker as active and takes it back.
      rw [Records.setPool_setPool, Records.setPool_setPool, Int.add_sub_cancel]
      exact .pure (Works.exited (c := pool.counters) looking live inactive)
    · intro active
      apply YieldsOn.bind
      apply YieldsOn.require
      intro p at_p
      subst at_p
      obtain ⟨f, taken, free⟩ := pending p rfl
      apply YieldsOn.bind
      apply modify_tpTask fun f => { f with isRunning := true }
      · intro t
        rfl
      intro p' f' at_p found'
      cases at_p
      cases taken.symm.trans found'
      apply YieldsOn.bind
      apply moveToEnd_yields
      have running : pool.counters.isActive = true := by
        show pool.isActive = true
        simpa using active
      exact .pure (Works.picked looking live running may taken free)

theorem workerCall_yields {first : Ptr → Prop} {value : Value} :
    (workerCall p).YieldsOn Heap.records r (Works r first value P (.picked p)) := by
  apply YieldsOn.bind
  apply load_tpTask
  intro p t at_p found
  cases at_p
  apply YieldsOn.bind
  apply load_task
  intro task live
  exact .pure (.called found live)

theorem workerStore_yields {first : Ptr → Prop} {value : Value} {call : Invocation} :
    (workerStore call value).YieldsOn Heap.records r (Works r first value P (.running call)) := by
  apply YieldsOn.bind
  apply modify_tpTask fun f => { f with result := value }
  · intro t
    rfl
  intro p f at_p found
  cases at_p
  exact .pure (.stored found)

theorem workerComplete_yields {first : Ptr → Prop} {value : Value} :
    (workerComplete P p).YieldsOn Heap.records r (Works r first value P (.returned p)) := by
  apply YieldsOn.bind
  apply lock_yields
  intro P c at_P live
  cases at_P
  apply YieldsOn.bind
  apply modify_tpTask fun f => { f with isFinished := true }
  · intro t
    rfl
  intro p f at_p found
  cases at_p
  apply YieldsOn.bind
  apply modify_tpTask fun f => { f with isRunning := false }
  · intro t
    rfl
  intro p f₁ at_p found₁
  cases at_p
  cases (Records.setInstance_found _).symm.trans found₁
  rw [Records.setInstance_setInstance]
  apply YieldsOn.bind
  apply modify_pool fun c => { c with activeThreadsCnt := c.activeThreadsCnt - 1 }
  · intro pool
    rfl
  intro P c' at_P live'
  cases at_P
  cases live.symm.trans live'
  apply YieldsOn.bind
  apply load_tpTask
  intro p t at_p found₂
  cases at_p
  have same := Option.some.inj ((Records.setInstance_found _).symm.trans found₂)
  have detached : t.isDetached = f.isDetached := by
    show t.fields.isDetached = f.isDetached
    rw [← same]
  have task : t.threadTask = f.threadTask := by
    show t.fields.threadTask = f.threadTask
    rw [← same]
  rw [detached, task]
  apply YieldsOn.ite
  · intro yes
    apply YieldsOn.bind
    apply deleteTask_yields.mono
    intro ret r' deletes
    exact .pure (Works.released (f := f) found live yes deletes)
  · intro no
    exact .pure (Works.completed (f := f) found live (by simpa using no))

/-- What a worker runs. -/
theorem Worker.proceed_yields {h : Heap} {w : Worker} {value : Value} :
    (w.proceed value).Yields h fun turn h' =>
      Works h.records (h.first w.pool) value w.pool w.pc turn h'.records := by
  obtain ⟨P, pc⟩ := w
  have picksUp : pc.Looking → (workerPickUp P).Yields h fun turn h' =>
      Works h.records (h.first P) value P pc turn h'.records := by
    intro looking
    rw [workerPickUp, yields_bind]
    intro found h' returned
    obtain ⟨same, pending⟩ := getTask_yields found h' returned
    subst same
    exact workerTake_yields looking returned pending h' rfl
  cases pc with
  | ready => exact picksUp trivial
  | asleep => exact picksUp trivial
  | picked => exact workerCall_yields h rfl
  | running => exact workerStore_yields h rfl
  | returned => exact workerComplete_yields h rfl
  | exited => exact yields_fault

end SysprogLabs.Tpool
