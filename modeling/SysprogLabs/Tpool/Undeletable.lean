import SysprogLabs.Tpool.Joining
import SysprogLabs.Tpool.Deleting
import SysprogLabs.Tpool.Releasing

/-! # Deleting a joined task

A join marks the newest instance of its task, and `delete_task` asks for a mark on every
instance.  A task that was pushed again before its earlier instances were joined can not
be deleted any more.
-/

namespace SysprogLabs.Tpool

section

variable {junk : Nat → Value} {first : Nat → Ptr → Prop} {s s' : Shape} {label : Action × Out}
  {c t p : Nat}

/-! ## The mark of a join -/

/-- The client is inside `thread_task_join` or has returned from it, and as soon as it has had
    the mutex the instance is marked. -/
structure Marking (s : Shape) (c t p : Nat) : Prop where
  joining : Joining s c t p
  born : p < s.records.nextInstance
  marked : (∀ pool, s.clients[c]? ≠ some (.locking .join t p pool)) →
    ∀ f, s.records.instances p = some f → f.isJoined = true

theorem Change.keeps_marking (change : Change junk first s label s')
    (noCall : ∀ function, label.1 ≠ .call c function) (marking : Marking s c t p) : Marking s' c t p where
  joining := change.keeps_joining noCall marking.joining
  born := Nat.lt_of_lt_of_le marking.born change.later.nextInstance
  marked := by
    intro past f' found'
    by_cases waits : ∃ pool, s.clients[c]? = some (.locking .join t p pool)
    · -- The client has just had the mutex.
      obtain ⟨pool, at_c⟩ := waits
      obtain ⟨client', here'⟩ := change.still_there at_c
      obtain ⟨client, here, moved⟩ := change.client noCall here'
      cases here.symm.trans at_c
      rcases moved with (same | same) | ⟨wait, turn, -, does, same⟩
      · exact absurd (same ▸ here') (past pool)
      · subst same
        exact absurd here' (past pool)
      · generalize s'.records = r' at does found'
        cases does with
        | blocked | joined =>
          cases (Records.setInstance_found _).symm.trans found'
          rfl
    · obtain ⟨f, found, later⟩ := change.later.instances p f' found' marking.born
      exact later.joined (marking.marked (fun pool at_c => waits ⟨pool, at_c⟩) f found)

/-- A mark stays as long as the instance is there. -/
def MarkedJoined (s : Shape) (p : Nat) : Prop :=
  p < s.records.nextInstance ∧ ∀ f, s.records.instances p = some f → f.isJoined = true

theorem Change.keeps_mark (change : Change junk first s label s') (marked : MarkedJoined s p) : MarkedJoined s' p := by
  constructor
  · exact Nat.lt_of_lt_of_le marked.1 change.later.nextInstance
  · intro f' found'
    obtain ⟨f, found, later⟩ := change.later.instances p f' found' marked.1
    exact later.joined (marked.2 f found)

end

variable {junk : Nat → Value} {s s' s₀ s₁ s₂ : System}

/-- The client `c` calls `thread_task_join` for the task `t` when `p` is its newest instance, and
    the call returns 0; every task is pushed to a single pool meanwhile. -/
def JoinCall (junk : Nat → Value) (c t p : Nat) (value : Value) (s s' : System) : Prop :=
  ∃ task out ls wait s₁ s₂, s.heap.tasks.cell t = some task ∧ task.list.head? = some p ∧
    StepWhen junk SinglePool s (.call c (.onTask .join t), out) s₁ ∧
    Run (StepWhen junk (NoCall c SinglePool)) s₁ ls s₂ ∧
    StepWhen junk SinglePool s₂ (.proceed c wait, .joined value) s'

theorem JoinCall.run {c t p : Nat} {value : Value} (call : JoinCall junk c t p value s s') :
    ∃ ls, Run (StepWhen junk SinglePool) s ls s' := by
  obtain ⟨task, out, ls, wait, s₁, s₂, -, -, calls, during, returns⟩ := call
  have run : Run (StepWhen junk SinglePool) s₁ ls s₂ := during.mono fun _ _ _ step => ⟨step.1, step.2.1⟩
  exact ⟨_, .cons calls (run.append (.single returns))⟩

/-- When a join returns, its instance is marked. -/
theorem JoinCall.marked {c t p : Nat} {value : Value} (call : JoinCall junk c t p value s s')
    (sound : Sound s.shape) : MarkedJoined s'.shape p := by
  obtain ⟨task, out, ls, wait, s₁, s₂, live, newest, calls, during, returns⟩ := call
  obtain ⟨turn, idle, does, -, -, places⟩ := calls.1.calls
  have at_c : s₁.shape.clients[c]? = some turn.next := by
    show s₁.clients[c]? = _
    rw [places]
    exact List.getElem?_set_self (List.getElem?_eq_some_iff.mp idle).1
  have marking : Marking s₁.shape c t p := by
    generalize at_r : s₁.shape.records = r' at does
    cases does with
    | @lookedUp _ _ p' task' f live' newest' found =>
      cases live.symm.trans live'
      cases newest.symm.trans newest'
      refine ⟨.inl ⟨f.pool, at_c⟩, ?_, ?_⟩
      · rw [at_r]
        exact (sound.owned.born p f found).1
      · intro past
        exact absurd at_c (past f.pool)
    | notPushed live' empty answer =>
      cases live.symm.trans live'
      rw [empty] at newest
      cases newest
  have marking₂ : Marking s₂.shape c t p := by
    apply during.invariant marking
    intro s label s' marking step
    exact step.1.change.keeps_marking step.2.2 marking
  obtain ⟨client, turn', here, does', out', -, places'⟩ := returns.1.proceeds
  have past : ∀ pool, s'.shape.clients[c]? ≠ some (.locking .join t p pool) := by
    intro pool at_c'
    have at_c' : s'.clients[c]? = some (.locking .join t p pool) := at_c'
    rw [places', List.getElem?_set_self (List.getElem?_eq_some_iff.mp here).1, Option.some.injEq] at at_c'
    generalize s'.shape.records = r' at does'
    cases does' <;> cases at_c'
  have last := returns.1.change
  constructor
  · exact Nat.lt_of_lt_of_le marking₂.born last.later.nextInstance
  · exact (last.keeps_marking (by nofun) marking₂).marked past

/-! ## The statements -/

/-- `thread_task_delete` returns 0 and lowers `tasks_cnt` of the pool by the number of instances. -/
def DeletesAll (junk : Nat → Value) (s : System) (d : Nat) (wait : WaitResult) (P : Nat) (task : ThreadTask) : Prop :=
  ∃ s' pool pool', Step junk s (.proceed d wait, .returned 0) s' ∧ s.heap.pools.cell P = some pool ∧
    s'.heap.pools.cell P = some pool' ∧ pool'.tasksCnt = pool.tasksCnt - task.list.length

/-- A task all of whose instances have finished, and whose newest one was joined by a call that
    returned 0, can be deleted if and only if its older instances are joined or detached too. -/
theorem joined_deletable {clients c d t p P : Nat} {value : Value} {wait : WaitResult} {ls : List (Action × Out)}
    {task : ThreadTask} (before : Reachable (StepWhen junk SinglePool) (System.init clients) s₀)
    (joins : JoinCall junk c t p value s₀ s₁) (during : Run (StepWhen junk SinglePool) s₁ ls s₂)
    (here : s₂.clients[d]? = some (.locking .delete t p (some P))) (there : (s₂.heap.pools.cell P).isSome = true)
    (live : s₂.heap.tasks.cell t = some task) (newest : task.list.head? = some p)
    (finished : ∀ q ∈ task.list, ∃ i, s₂.heap.tpTasks.cell q = some i ∧ i.isFinished = true) :
    DeletesAll junk s₂ d wait P task ↔
      ∀ q ∈ task.list.tail, ∃ i, s₂.heap.tpTasks.cell q = some i ∧ (i.isJoined = true ∨ i.isDetached = true) := by
  obtain ⟨ls₀, first⟩ := before
  obtain ⟨ls₁, call⟩ := joins.run
  have reachable : Reachable (StepWhen junk SinglePool) (System.init clients) s₂ :=
    ⟨_, first.append (call.append during)⟩
  have sound := reachable_sound reachable
  have marked : MarkedJoined s₂.shape p := by
    apply during.invariant (joins.marked (reachable_sound ⟨_, first⟩))
    intro s label s' marked step
    exact step.1.change.keeps_mark marked
  obtain ⟨pool, livePool⟩ := Option.isSome_iff_exists.mp there
  have known : s₂.shape.records.tasks t = some task := live
  obtain ⟨older, split⟩ : ∃ older, task.list = p :: older := List.head?_eq_some_iff.mp newest
  constructor
  · rintro ⟨s', pool, pool', step, -, -, -⟩ q mem
    obtain ⟨ret, out, deletes, -⟩ := step.deletes here
    cases out
    rcases deletes.result with ⟨all, -, -⟩ | ⟨-, refused, -⟩
    · obtain ⟨task', known', tested⟩ := Records.allOf_iff.mp all
      cases known.symm.trans known'
      obtain ⟨f, found, test⟩ := tested q (List.mem_of_mem_tail mem)
      obtain ⟨i, live_q, rfl⟩ := System.object found
      refine ⟨i, live_q, ?_⟩
      rw [Fields.deletable, Bool.or_eq_true, Bool.and_eq_true] at test
      exact test.imp_right And.left
    · cases refused
  · intro older_marked
    have all : s₂.shape.records.allOf t Fields.deletable = true := by
      refine Records.allOf_iff.mpr ⟨task, known, ?_⟩
      intro q mem
      obtain ⟨i, live_q, done⟩ := finished q mem
      refine ⟨i.fields, System.record live_q, ?_⟩
      rw [Fields.deletable, Bool.or_eq_true, Bool.and_eq_true]
      rw [split, List.mem_cons] at mem
      rcases mem with rfl | behind
      · exact .inl (marked.2 i.fields (System.record live_q))
      · obtain ⟨i', live', set⟩ := older_marked q (by rw [split]; exact behind)
        cases live_q.symm.trans live'
        exact set.imp_right fun detached => ⟨detached, done⟩
    obtain ⟨housed, orderly⟩ := reachable_single (fun _ _ _ => id) reachable
    obtain ⟨q, queued⟩ := orderly.queued
    -- The client has read the pool of the newest instance, which is the pool of all of them.
    obtain ⟨f, found_p, owner⟩ := sound.owned.listed t task p known (List.mem_of_head? newest)
    have pool_p : f.pool = some P := ((sound.aware _ (List.mem_of_getElem? here)).2 f found_p).2
    have home : s₂.shape.records.newestPool task = some P := by
      rw [Records.newestPool, newest, Option.bind_some, found_p, Option.bind_some]
      exact pool_p
    have deleted : (deleteTask t).Ensures s₂.heap fun _ _ => True := by
      apply deleteTask_returns queued sound.owned sound.staffed.allocated live
      · intro q mem P' at_q
        obtain ⟨g, found_q, pool_q⟩ := Records.poolOf_some.mp at_q
        obtain ⟨g', found', owner_q⟩ := sound.owned.listed t task q known mem
        cases found_q.symm.trans found'
        have same := housed p q f g task found_p found_q (owner.trans owner_q.symm) (owner ▸ known)
        rw [pool_p, pool_q] at same
        cases same
        exact ⟨pool, livePool⟩
      · exact fun _ => housed.sharePool sound.owned known
    have goes : ∃ out s', Step junk s₂ (.proceed d wait, out) s' :=
      Step.ofClient here (threadTaskDelete_returns livePool deleted)
    obtain ⟨out, s', step⟩ := goes
    obtain ⟨ret, rfl, deletes, -⟩ := step.deletes here
    rcases deletes.result with ⟨-, rfl, task', known', released⟩ | ⟨refused, -, -⟩
    · cases known.symm.trans known'
      rw [Records.release_eq home (System.pool_record livePool)] at released
      have lowered : s'.shape.records.pools P =
          some { pool.counters with tasksCnt := pool.tasksCnt - task.list.length } := by
        rw [released]
        exact Records.setPool_found _
      obtain ⟨pool', livePool', counters⟩ := Option.map_eq_some_iff.mp lowered
      exact ⟨s', pool, pool', step, livePool, livePool', congrArg Counters.tasksCnt counters⟩
    · rw [all] at refused
      cases refused

/-- A task that is pushed again and executed again, after the first instance was joined. -/
def pushedAfterJoin : List Action := [.call 0 (.poolNew 1), .call 0 (.taskNew 7 5),
  .call 0 (.poolPushTask 0 0), .work 0 0 [], .work 0 0 [], .work 0 42 [], .work 0 0 [],
  .call 0 (.onTask .join 0), .proceed 0 .woken,
  .call 0 (.poolPushTask 0 0), .work 0 0 [], .work 0 0 [], .work 0 43 [], .work 0 0 []]

/-- With a join of the second instance, both can be deleted. -/
theorem joined_deletable_twice : ∃ s₀ s₁ s₂ : System, ∃ task,
    Reachable (StepWhen (fun _ => 9) SinglePool) (System.init 1) s₀ ∧ JoinCall (fun _ => 9) 0 0 1 43 s₀ s₁ ∧
    s₂.heap.tasks.cell 0 = some task ∧ task.list = [1, 0] ∧ DeletesAll (fun _ => 9) s₂ 0 .woken 0 task := by
  obtain ⟨outs, s₀, run, shown⟩ := replay_ends (fun _ => 9) SinglePool 5 pushedAfterJoin (.init 1)
    (fun _ s₀ => (s₀.heap.tasks.cell 0).any (fun task => task.list.head? == some 1) &&
      (replay (fun _ => 9) SinglePool 5
        [.call 0 (.onTask .join 0), .proceed 0 .woken, .call 0 (.onTask .delete 0)] s₀).any fun result =>
        result.1 == [.running, .joined 43, .running] &&
        result.2.clients[0]? == some (.locking .delete 0 1 (some 0)) && (result.2.heap.pools.cell 0).isSome &&
        (result.2.heap.tasks.cell 0).any (fun task => task.list == [1, 0]) &&
        [1, 0].all fun q => (result.2.heap.tpTasks.cell q).any fun i => i.isFinished && i.isJoined) (by decide +kernel)
  simp only [Bool.and_eq_true, Option.any_eq_true, beq_iff_eq, List.all_eq_true] at shown
  obtain ⟨⟨task₀, live₀, newest₀⟩, ⟨outs', s₂⟩, replayed, ⟨⟨⟨⟨rfl, here⟩, pool⟩, task, live, list⟩, both⟩⟩ := shown
  rcases replay_run replayed with _ | ⟨calls, _ | ⟨returns, _ | ⟨asks, ⟨⟩⟩⟩⟩
  have join : JoinCall (fun _ => 9) 0 0 1 43 s₀ _ := ⟨task₀, _, _, _, _, _, live₀, newest₀, calls, .nil _, returns⟩
  refine ⟨s₀, _, s₂, task, ⟨_, run⟩, join, live, list, ?_⟩
  refine (joined_deletable ⟨_, run⟩ join (.single asks) here pool live ?_ ?_).mpr ?_
  · rw [list]
    rfl
  · intro q mem
    obtain ⟨i, live_q, set⟩ := both q (list ▸ mem)
    exact ⟨i, live_q, set.1⟩
  · intro q mem
    obtain ⟨i, live_q, set⟩ := both q (list ▸ List.mem_of_mem_tail mem)
    exact ⟨i, live_q, .inl set.2⟩

/-- A task that is pushed twice before it is executed; it is joined once, and then it is to be
    deleted, and its pool as well. -/
def joinedOnce : List Action := [.call 0 (.poolNew 1), .call 0 (.taskNew 7 5),
  .call 0 (.poolPushTask 0 0), .call 0 (.poolPushTask 0 0),
  .work 0 0 [], .work 0 0 [], .work 0 42 [], .work 0 0 [], .work 0 0 [], .work 0 0 [], .work 0 43 [], .work 0 0 [],
  .call 0 (.onTask .join 0), .proceed 0 .woken, .call 0 (.onTask .delete 0), .proceed 0 .woken, .call 0 (.poolDelete 0)]

/-- Both instances are finished and the join has returned 0, but neither the task nor the pool
    can be deleted. -/
theorem joined_undeletable : ∃ outs s, Run (StepWhen (fun _ => 9) SinglePool) (.init 1) (joinedOnce.zip outs) s ∧
    outs.drop 12 = [.running, .joined 42, .running, .returned tpoolErrTaskInPool, .returned tpoolErrHasTasks] ∧
    ∀ p < 2, ∃ i, s.heap.tpTasks.cell p = some i ∧ i.isFinished = true := by
  obtain ⟨outs, s, run, shown⟩ := replay_ends (fun _ => 9) SinglePool 5 joinedOnce (.init 1)
    (fun outs s => outs.drop 12 == [.running, .joined 42, .running, .returned tpoolErrTaskInPool,
      .returned tpoolErrHasTasks] && (List.range 2).all fun p => (s.heap.tpTasks.cell p).any fun i => i.isFinished)
    (by decide +kernel)
  simp only [Bool.and_eq_true, beq_iff_eq, List.all_eq_true, List.mem_range, Option.any_eq_true] at shown
  exact ⟨outs, s, run, shown.1, shown.2⟩

end SysprogLabs.Tpool
