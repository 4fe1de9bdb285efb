import SysprogLabs.Tpool.Lists

/-! # Consistent pools

With one pool, and with any number of pools as long as a task is only re-pushed to the
pool of its earlier instances, the lists hold what was pushed.  `delete_task` unlinks the
instances of a task from the pool of the newest one, wherever they are.
-/

namespace SysprogLabs.Tpool

variable {junk : Nat → Value} {s : System}

/-- If every task is pushed to a single pool, the list of a pool is in order: it holds the
    unreleased instances of the pool, the pending ones first, and `get_task` finds the first
    instance of the list if any is pending. -/
theorem lists_in_order {clients P : Nat} {pool : ThreadPool}
    (reachable : Reachable (StepWhen junk SinglePool) (System.init clients) s)
    (live : s.heap.pools.cell P = some pool) : ∃ waiting begun, Listed s P pool waiting begun :=
  (reachable_single (fun _ _ _ => id) reachable).2.listed live

/-- Three instances of two tasks: one finished, one running, one pending. -/
def mixedQueue : List Action := [.call 0 (.poolNew 2), .call 0 (.taskNew 7 5), .call 0 (.taskNew 8 6),
  .call 0 (.poolPushTask 0 0), .work 0 0 [], .work 0 0 [], .work 0 42 [], .work 0 0 [], .call 0 (.poolPushTask 0 1),
  .work 0 0 [], .call 0 (.poolPushTask 0 0)]

theorem lists_in_order_mixed : ∃ s pool waiting begun, Reachable (StepWhen (fun _ => 9) SinglePool) (System.init 1) s ∧
    pool.tasksCnt = 3 ∧ Listed s 0 pool waiting begun := by
  obtain ⟨outs, s, run, shown⟩ := replay_ends (fun _ => 9) SinglePool 5 mixedQueue (.init 1)
    (fun _ s => (s.heap.pools.cell 0).any fun pool => pool.tasksCnt == 3) (by decide +kernel)
  obtain ⟨pool, live, count⟩ := (Option.any_eq_true _ _).mp shown
  obtain ⟨waiting, begun, listed⟩ := lists_in_order ⟨_, run⟩ live
  exact ⟨s, pool, waiting, begun, ⟨_, run⟩, beq_iff_eq.mp count, listed⟩

/-- As long as `delete_task` releases no task that was pushed to several pools, the list and
    the counter of every pool are about the unreleased instances that were pushed to it, and
    a pool without such instances is not refused by `thread_pool_delete`. -/
theorem pools_consistent {clients P : Nat} {pool : ThreadPool}
    (reachable : Reachable (StepWhen junk Together) (System.init clients) s)
    (live : s.heap.pools.cell P = some pool) :
    (∃ waiting begun, Listed s P pool waiting begun) ∧
    ((∀ p i, s.heap.tpTasks.cell p = some i → i.pool ≠ some P) →
      ∀ c s', ¬ Step junk s (.call c (.poolDelete P), .returned tpoolErrHasTasks) s') := by
  obtain ⟨waiting, begun, listed⟩ := (reachable_orderly (fun _ _ _ => id) reachable).listed live
  refine ⟨⟨waiting, begun, listed⟩, ?_⟩
  intro released c s' step
  have empty : pool.tasksCnt = 0 := by
    rw [listed.count]
    cases shape : waiting ++ begun with
    | nil => rfl
    | cons p rest =>
      obtain ⟨i, found, inPool⟩ := (listed.instances p).mp (shape ▸ List.mem_cons_self)
      exact absurd inPool (released p i found)
  obtain ⟨turn, -, does, out, -⟩ := step.calls
  generalize s'.shape.records = r' at does
  cases does with
  | hasTasks known holds =>
    cases (System.pool_record live).symm.trans known
    have : pool.tasksCnt > 0 := holds
    omega
  | closed => cases out

/-- In each of two pools a task is pushed, joined, pushed again and joined; then one of the tasks is deleted. -/
def pushedAgain : List Action := [.call 0 (.poolNew 1), .call 0 (.poolNew 1), .call 0 (.taskNew 7 5), .call 0 (.taskNew 8 6),
  .call 0 (.poolPushTask 0 0), .work 0 0 [], .work 0 0 [], .work 0 42 [], .work 0 0 [],
  .call 0 (.poolPushTask 1 1), .work 1 0 [], .work 1 0 [], .work 1 43 [], .work 1 0 [],
  .call 0 (.onTask .join 0), .proceed 0 .woken, .call 0 (.onTask .join 1), .proceed 0 .woken,
  .call 0 (.poolPushTask 0 0), .work 0 0 [], .work 0 0 [], .work 0 44 [], .work 0 0 [],
  .call 0 (.poolPushTask 1 1), .work 1 0 [], .work 1 0 [], .work 1 45 [], .work 1 0 [],
  .call 0 (.onTask .join 0), .proceed 0 .woken, .call 0 (.onTask .join 1), .proceed 0 .woken,
  .call 0 (.onTask .delete 0), .proceed 0 .woken]

/-- The first pool has no instance left, the second one has two. -/
theorem pools_consistent_again : ∃ s pool pool' waiting begun waiting' begun',
    Reachable (StepWhen (fun _ => 9) Together) (System.init 1) s ∧ Listed s 0 pool waiting begun ∧
    pool.tasksCnt = 0 ∧ Listed s 1 pool' waiting' begun' ∧ pool'.tasksCnt = 2 := by
  obtain ⟨outs, s, run, shown⟩ := replay_ends (fun _ => 9) Together 5 pushedAgain (.init 1)
    (fun _ s => (s.heap.pools.cell 0).any (fun pool => pool.tasksCnt == 0) &&
      (s.heap.pools.cell 1).any fun pool => pool.tasksCnt == 2) (by decide +kernel)
  simp only [Bool.and_eq_true, Option.any_eq_true, beq_iff_eq] at shown
  obtain ⟨⟨pool, live, none⟩, pool', live', two⟩ := shown
  obtain ⟨waiting, begun, listed⟩ := (pools_consistent ⟨_, run⟩ live).1
  obtain ⟨waiting', begun', listed'⟩ := (pools_consistent ⟨_, run⟩ live').1
  exact ⟨s, pool, pool', waiting, begun, waiting', begun', ⟨_, run⟩, listed, none, listed', two⟩

/-- One task that is pushed to both pools and deleted, and then `thread_pool_delete` on the first one. -/
def pushedElsewhere : List Action := [.call 0 (.poolNew 1), .call 0 (.poolNew 1), .call 0 (.taskNew 7 5),
  .call 0 (.poolPushTask 0 0), .work 0 0 [], .work 0 0 [], .work 0 42 [], .work 0 0 [],
  .call 0 (.onTask .join 0), .proceed 0 .woken,
  .call 0 (.poolPushTask 1 0), .work 1 0 [], .work 1 0 [], .work 1 43 [], .work 1 0 [],
  .call 0 (.onTask .join 0), .proceed 0 .woken, .call 0 (.onTask .delete 0), .proceed 0 .woken,
  .call 0 (.poolDelete 0)]

/-- No instance is left, but one pool still counts one, the other one counts -1, and the first
    pool can not be deleted. -/
theorem pools_mixed_up : ∃ outs s, Run (Step fun _ => 9) (.init 1) (pushedElsewhere.zip outs) s ∧
    (∀ p, s.heap.tpTasks.cell p = none) ∧
    (∃ pool, s.heap.pools.cell 0 = some pool ∧ pool.tasksCnt = 1) ∧
    (∃ pool, s.heap.pools.cell 1 = some pool ∧ pool.tasksCnt = -1) ∧
    outs.drop 16 = [.joined 43, .running, .returned 0, .returned tpoolErrHasTasks] := by
  obtain ⟨outs, s, run, shown⟩ := replay_ends (fun _ => 9) (fun _ _ _ => True) 5 pushedElsewhere (.init 1)
    (fun outs s => (List.range s.heap.tpTasks.next).all (fun p => (s.heap.tpTasks.cell p).isNone) &&
      (s.heap.pools.cell 0).any (fun pool => pool.tasksCnt == 1) &&
      (s.heap.pools.cell 1).any (fun pool => pool.tasksCnt == -1) &&
      outs.drop 16 == [.joined 43, .running, .returned 0, .returned tpoolErrHasTasks]) (by decide +kernel)
  simp only [Bool.and_eq_true, List.all_eq_true, List.mem_range, Option.isNone_iff_eq_none, Option.any_eq_true,
    beq_iff_eq] at shown
  obtain ⟨⟨⟨released, count₀⟩, count₁⟩, last⟩ := shown
  refine ⟨outs, s, run.mono fun _ _ _ step => step.1, ?_, count₀, count₁, last⟩
  intro p
  cases live : s.heap.tpTasks.cell p with
  | none => rfl
  | some i => exact (released p (Store.lt_next live)).symm.trans live |>.symm

end SysprogLabs.Tpool
