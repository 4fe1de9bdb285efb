import SysprogLabs.Tpool.Links

/-! # What each piece of the code does to the links

Pushing, picking up and releasing instances move pointers.  The sections that may call
`delete_task` are split in front of that call.
-/

namespace SysprogLabs.Tpool

open Prog

variable {junk : Nat → Value} {k : Links} {p t P : Nat} {ptr : Ptr}

theorem lock_links {Q : Unit → Links → Prop} (holds : Q () k) : (lock ptr).YieldsOn Heap.links k Q := by
  apply YieldsOn.bind
  apply load_pool_links
  intro _ _ _ _ _
  exact .pure holds

theorem threadPoolPushTask_links : (threadPoolPushTask junk P t).YieldsOn Heap.links k fun turn k' =>
    (turn.out = .returned 0 ∧ k' = k.push P) ∨ (turn.out ≠ .returned 0 ∧ k' = k) := by
  apply YieldsOn.bind
  apply load_pool_links
  intro P pool at_P at_task at_last
  cases at_P
  apply YieldsOn.ite
  · intro _
    exact .pure (.inr ⟨by decide, rfl⟩)
  · intro _
    apply YieldsOn.bind
    apply when_modify_pool_links
    · exact fun _ => ⟨rfl, rfl⟩
    apply YieldsOn.bind
    apply YieldsOn.bind
    apply malloc_tpTask_links
    · exact fun _ => ⟨rfl, rfl⟩
    apply YieldsOn.bind
    apply modify_task_links
    apply YieldsOn.pure
    apply YieldsOn.bind
    apply modify_pool_links
    · exact fun _ => ⟨rfl, rfl⟩
    apply YieldsOn.bind
    apply modify_tpTask_links
    · exact fun _ => ⟨rfl, rfl⟩
    apply YieldsOn.bind
    apply modify_tpTask_links
    · exact fun _ => ⟨rfl, rfl⟩
    apply YieldsOn.bind
    apply modify_next
    · exact fun _ => ⟨rfl, rfl⟩
    intro p at_p
    cases at_p
    -- The old first instance, if there is one, gets the new one in front of it.
    have headed : (Prog.when (pool.task ≠ none) (tpTaskHeap.modify pool.task fun i =>
        { i with prev := some k.fresh })).YieldsOn Heap.links
        (Links.setNext { k with fresh := k.fresh + 1 } k.fresh pool.task) fun _ k' =>
        k' = (k.task P).elim (Links.setNext { k with fresh := k.fresh + 1 } k.fresh pool.task) fun first =>
          (Links.setNext { k with fresh := k.fresh + 1 } k.fresh pool.task).setPrev first (some k.fresh) := by
      apply YieldsOn.when
      · intro _
        apply modify_prev
        · exact fun _ => ⟨rfl, rfl⟩
        intro first at_first
        rw [at_task, at_first, Option.elim_some]
      · intro empty
        rw [at_task, Classical.not_not.mp empty, Option.elim_none]
    apply YieldsOn.bind
    apply headed.mono
    intro _ k₂ at_k₂
    apply YieldsOn.bind
    apply modify_first
    · exact fun _ => ⟨rfl, rfl⟩
    intro P at_P
    cases at_P
    apply YieldsOn.bind
    apply YieldsOn.when
    · intro empty
      apply modify_last
      · exact fun _ => ⟨rfl, rfl⟩
      intro P at_P
      cases at_P
      apply YieldsOn.pure
      rw [at_k₂]
      left
      simp only [Links.push, at_last, at_task, empty, if_true]
      constructor
      · trivial
      · cases pool.task <;> rfl
    · intro tail
      apply YieldsOn.pure
      rw [at_k₂]
      left
      simp only [Links.push, at_last, at_task, if_neg tail]
      constructor
      · trivial
      · cases pool.task <;> rfl

theorem moveToEnd_links (first : k.task P = some p) :
    (moveToEnd P p).YieldsOn Heap.links k fun _ k' => k' = k.moveToEnd P p := by
  apply YieldsOn.bind
  apply load_pool_links
  intro P pool at_P at_task at_last
  cases at_P
  apply YieldsOn.ite
  · intro inside
    rw [← at_last] at inside
    apply YieldsOn.bind
    apply load_tpTask_links
    intro p i at_p at_next at_prev
    cases at_p
    apply YieldsOn.ite
    · intro _
      apply YieldsOn.bind
      apply modify_first
      · exact fun _ => ⟨rfl, rfl⟩
      intro P at_P
      cases at_P
      apply YieldsOn.bind
      apply modify_prev
      · exact fun _ => ⟨rfl, rfl⟩
      intro second at_second
      apply YieldsOn.bind
      apply modify_prev
      · exact fun _ => ⟨rfl, rfl⟩
      intro p at_p
      cases at_p
      apply YieldsOn.bind
      apply modify_next
      · exact fun _ => ⟨rfl, rfl⟩
      intro last at_end
      apply YieldsOn.bind
      apply modify_next
      · exact fun _ => ⟨rfl, rfl⟩
      intro p at_p
      cases at_p
      apply modify_last
      · exact fun _ => ⟨rfl, rfl⟩
      intro P at_P
      cases at_P
      rw [Links.moveToEnd, if_neg (Ne.symm inside)]
      simp only [at_next, at_second, at_last, at_end]
    · intro middle
      -- The middle branch: the instance is not the first one.
      exact absurd (at_task ▸ first) middle
  · intro last
    rw [Classical.not_not, ← at_last] at last
    apply YieldsOn.pure
    rw [Links.moveToEnd, if_pos last.symm]

theorem unlinkTask_links : (unlinkTask (some P) p).YieldsOn Heap.links k fun _ k' => k' = k.unlink P p := by
  apply YieldsOn.bind
  apply load_tpTask_links
  intro p i at_p at_next at_prev
  cases at_p
  apply YieldsOn.bind
  apply load_pool_links
  intro P pool at_P at_task at_last
  cases at_P
  have tail : (Prog.when (pool.lastTask = some p) (poolHeap.modify (some P) fun state =>
      { state with lastTask := i.prev })).YieldsOn Heap.links k fun _ k' =>
      k' = if k.lastTask P = some p then k.setLastTask P (k.prev p) else k := by
    rw [at_last, at_prev]
    apply YieldsOn.when
    · intro last
      apply modify_last
      · exact fun _ => ⟨rfl, rfl⟩
      intro P at_P
      cases at_P
      rw [if_pos last]
    · intro inside
      rw [if_neg inside]
  apply YieldsOn.bind
  apply tail.mono
  intro _ k₁ at_k₁
  -- The successor, if there is one, gets a new predecessor.
  have after : ∀ v : Ptr, (Prog.when (i.next ≠ none) (tpTaskHeap.modify i.next fun t =>
      { t with prev := v })).YieldsOn Heap.links k₁ fun _ k' =>
      k' = (k.next p).elim k₁ fun second => k₁.setPrev second v := by
    intro v
    rw [at_next]
    apply YieldsOn.when
    · intro _
      apply modify_prev
      · exact fun _ => ⟨rfl, rfl⟩
      intro second at_second
      rw [at_second, Option.elim_some]
    · intro none
      rw [Classical.not_not.mp none, Option.elim_none]
  have between : (unlinkFromNeighbours (some P) i.prev i.next).YieldsOn Heap.links k₁ fun _ k' =>
      ∃ k₂, k₂ = (k.next p).elim k₁ (fun second => k₁.setPrev second (k.prev p)) ∧
        k' = (k.prev p).elim (k₂.setTask P (k.next p)) fun before => k₂.setNext before (k.next p) := by
    apply YieldsOn.ite
    · intro first
      have prev : k.prev p = none := at_prev.trans first
      apply YieldsOn.bind
      apply (after none).mono
      intro _ k₂ at_k₂
      apply modify_first
      · exact fun _ => ⟨rfl, rfl⟩
      intro P at_P
      cases at_P
      exact ⟨k₂, by rw [at_k₂, prev], by rw [prev, Option.elim_none, at_next]⟩
    · intro inside
      apply YieldsOn.bind
      apply (after i.prev).mono
      intro _ k₂ at_k₂
      apply modify_next
      · exact fun _ => ⟨rfl, rfl⟩
      intro before at_before
      exact ⟨k₂, by rw [at_k₂, at_prev], by rw [at_prev, at_before, Option.elim_some, at_next]⟩
  apply YieldsOn.bind
  apply between.mono
  rintro _ k₃ ⟨k₂, at_k₂, at_k₃⟩
  apply free_tpTask_links
  rw [at_k₃, at_k₂, at_k₁, Links.unlink]
  cases k.next p <;> cases k.prev p <;> rfl

theorem unlinkTasks_links {list : List Nat} :
    (unlinkTasks (some P) list).YieldsOn Heap.links k fun _ k' => k' = k.unlinkAll P list := by
  induction list generalizing k with
  | nil => exact .pure rfl
  | cons p list ih =>
    apply YieldsOn.bind
    apply unlinkTask_links.mono
    intro _ k₁ at_k₁
    subst at_k₁
    exact ih

theorem deletable_links {list : List Nat} {Q : Bool → Links → Prop} (holds : ∀ yes, Q yes k) :
    (deletable list).YieldsOn Heap.links k Q := by
  induction list with
  | nil => exact .pure (holds true)
  | cons p list ih =>
    apply YieldsOn.bind
    apply load_tpTask_links
    intro _ i _ _ _
    apply YieldsOn.ite
    · intro _
      exact .pure (holds false)
    · intro _
      exact ih

/-- `delete_task` takes all instances of the task out of the pool of the newest one, or it
    changes nothing. -/
theorem deleteTask_links {h : Heap} : (deleteTask t).Yields h fun ret h' =>
    (ret ≠ 0 ∧ h'.links = h.links) ∨ (ret = 0 ∧ ∃ task P, h.tasks.cell t = some task ∧
      (task.list ≠ [] → h.records.newestPool task = some P) ∧ h'.links = h.links.unlinkAll P task.list) := by
  rw [deleteTask, yields_bind, Lens.yields_load]
  intro t at_t task live
  cases at_t
  cases shape : task.list with
  | nil =>
    have freed : (do taskHeap.free (some t); return (0 : Int) : Prog Heap Int).YieldsOn Heap.links h.links
        fun ret k' => ret = 0 ∧ k' = h.links := by
      apply YieldsOn.bind
      apply free_task_links
      exact .pure ⟨rfl, rfl⟩
    intro ret h' returned
    obtain ⟨zero, same⟩ := freed h rfl ret h' returned
    refine .inr ⟨zero, task, 0, live, ?_, ?_⟩
    · intro nonempty
      exact absurd shape nonempty
    · rw [same, shape]
      rfl
  | cons newest older =>
    rw [yields_bind, Lens.yields_load]
    intro p at_p i found
    cases at_p
    have rest : (do
        if ← deletable (newest :: older) then
          unlinkTasks i.pool (newest :: older)
          taskHeap.free (some t)
          poolHeap.modify i.pool fun pool => { pool with tasksCnt := pool.tasksCnt - (newest :: older).length }
          return 0
        else return tpoolErrTaskInPool : Prog Heap Int).YieldsOn Heap.links h.links fun ret k' =>
        (ret ≠ 0 ∧ k' = h.links) ∨ (ret = 0 ∧ ∃ P, i.pool = some P ∧
          k' = h.links.unlinkAll P (newest :: older)) := by
      apply YieldsOn.bind
      apply deletable_links
      intro yes
      cases yes with
      | false => exact .pure (.inl ⟨by decide, rfl⟩)
      | true =>
        cases at_P : i.pool with
        | none =>
          -- Without a pool the first instance cannot be unlinked.
          apply YieldsOn.bind
          apply YieldsOn.bind
          apply YieldsOn.bind
          apply load_tpTask_links
          intro _ _ _ _ _
          apply YieldsOn.bind
          apply load_pool_links
          intro P _ at_P
          cases at_P
        | some P =>
          apply YieldsOn.bind
          apply unlinkTasks_links.mono
          intro _ k' unlinked
          apply YieldsOn.bind
          apply free_task_links
          apply YieldsOn.bind
          apply modify_pool_links
          · exact fun _ => ⟨rfl, rfl⟩
          exact .pure (.inr ⟨rfl, P, rfl, unlinked⟩)
    intro ret h' returned
    cases rest h rfl ret h' returned with
    | inl kept => exact .inl kept
    | inr done =>
      obtain ⟨zero, P, at_P, unlinked⟩ := done
      refine .inr ⟨zero, task, P, live, ?_, shape ▸ unlinked⟩
      intro _
      have record : h.records.instances newest = some i.fields := records_instance found
      rw [Records.newestPool, shape, List.head?_cons, Option.bind_some, record]
      exact at_P

/-! ### Sections that keep the links -/

theorem makeCall_links {function : Call} : (function.start junk).YieldsOn Heap.links k fun turn k' =>
    (∃ P t, function = .poolPushTask P t ∧ turn.out = .returned 0 ∧ k' = k.push P) ∨
    ((∀ P t, function = .poolPushTask P t → turn.out ≠ .returned 0) ∧ k' = k) := by
  cases function with
  | poolPushTask P t =>
    apply threadPoolPushTask_links.mono
    intro turn k' does
    cases does with
    | inl pushed => exact .inl ⟨P, t, rfl, pushed⟩
    | inr refused => exact .inr ⟨fun _ _ _ => refused.1, refused.2⟩
  | poolNew max =>
    apply YieldsOn.ite
    · intro _
      exact .pure (.inr ⟨nofun, rfl⟩)
    · intro _
      apply YieldsOn.bind
      apply malloc_pool_links
      · exact fun _ => ⟨rfl, rfl⟩
      intro _
      exact .pure (.inr ⟨nofun, rfl⟩)
  | poolThreadCount P =>
    apply YieldsOn.bind
    apply load_pool_links
    intro _ _ _ _ _
    exact .pure (.inr ⟨nofun, rfl⟩)
  | poolDelete P =>
    apply YieldsOn.bind
    apply load_pool_links
    intro _ _ _ _ _
    apply YieldsOn.ite
    · intro _
      exact .pure (.inr ⟨nofun, rfl⟩)
    · intro _
      apply YieldsOn.bind
      apply modify_pool_links
      · exact fun _ => ⟨rfl, rfl⟩
      apply YieldsOn.bind
      apply YieldsOn.bind
      apply load_pool_links
      intro _ _ _ _ _
      exact .pure (.pure (.inr ⟨nofun, rfl⟩))
  | taskNew f arg =>
    apply YieldsOn.bind
    apply malloc_task_links
    intro _
    exact .pure (.inr ⟨nofun, rfl⟩)
  | onTask call t =>
    apply YieldsOn.bind
    apply YieldsOn.bind
    apply load_task_links
    intro task
    apply YieldsOn.pure
    cases task.list.head? with
    | none => cases call <;> exact .pure (.inr ⟨nofun, rfl⟩)
    | some p =>
      apply YieldsOn.bind
      apply load_tpTask_links
      intro _ _ _ _ _
      exact .pure (.inr ⟨nofun, rfl⟩)

/-- The places whose code may move a pointer: `thread_task_delete`, `thread_task_detach` and
    the end of `thread_pool_delete`. -/
def Client.relinks : Client → Bool
  | .locking .delete _ _ _ => true
  | .locking .detach _ _ _ => true
  | .destroying _ => true
  | _ => false

theorem joinTest_links {timed : Bool} :
    (do
      tpTaskHeap.modify (some p) fun t => { t with isJoined := true }
      let tpTask ← tpTaskHeap.load (some p)
      if tpTask.isFinished = false then return { next := .joining t p ptr timed false }
      else return { next := .idle, out := .joined tpTask.result } : Prog Heap (Turn Client)).YieldsOn
      Heap.links k fun _ k' => k' = k := by
  apply YieldsOn.bind
  apply modify_tpTask_links
  · exact fun _ => ⟨rfl, rfl⟩
  apply YieldsOn.bind
  apply load_tpTask_links
  intro _ _ _ _ _
  apply YieldsOn.ite
  · intro _
    exact .pure rfl
  · intro _
    exact .pure rfl

theorem Client.proceed_links {wait : WaitResult} {client : Client} (keeps : client.relinks = false) :
    (client.proceed wait).YieldsOn Heap.links k fun _ k' => k' = k := by
  cases client with
  | idle => exact fun s _ => yields_fault
  | locking call t p ptr =>
    cases call with
    | isFinished =>
      apply YieldsOn.bind
      apply lock_links
      apply YieldsOn.bind
      apply load_tpTask_links
      intro _ _ _ _ _
      exact .pure rfl
    | isRunning =>
      apply YieldsOn.bind
      apply lock_links
      apply YieldsOn.bind
      apply load_tpTask_links
      intro _ _ _ _ _
      exact .pure rfl
    | join =>
      apply YieldsOn.bind
      apply lock_links
      exact joinTest_links
    | timedJoin timeout =>
      apply YieldsOn.bind
      apply lock_links
      apply YieldsOn.ite
      · intro _
        exact .pure rfl
      · intro _
        exact joinTest_links
    | delete => cases keeps
    | detach => cases keeps
  | freeing t =>
    apply YieldsOn.bind
    apply free_task_links
    exact .pure rfl
  | joining t p ptr timed notified =>
    apply YieldsOn.bind
    apply lock_links
    apply YieldsOn.ite
    · intro _
      exact .pure rfl
    · intro _
      apply YieldsOn.bind
      apply load_tpTask_links
      intro _ _ _ _ _
      exact .pure rfl
  | deleting P notified =>
    apply YieldsOn.bind
    apply YieldsOn.bind
    apply load_pool_links
    intro _ _ _ _ _
    exact .pure (.pure rfl)
  | destroying P => cases keeps

theorem threadPoolDestroy_links : (threadPoolDestroy P).YieldsOn Heap.links k fun _ k' => k' = k.dropPool P := by
  apply YieldsOn.bind
  apply free_pool_links
  exact .pure rfl

theorem workerCall_links : (workerCall p).YieldsOn Heap.links k fun _ k' => k' = k := by
  apply YieldsOn.bind
  apply load_tpTask_links
  intro _ _ _ _ _
  apply YieldsOn.bind
  apply load_task_links
  intro _
  exact .pure rfl

theorem workerStore_links {call : Invocation} {value : Value} :
    (workerStore call value).YieldsOn Heap.links k fun _ k' => k' = k := by
  apply YieldsOn.bind
  apply modify_tpTask_links
  · exact fun _ => ⟨rfl, rfl⟩
  exact .pure rfl

/-! ### Sections that may move a pointer -/

/-- The worker moves the instance it picks up, which is the first one. -/
theorem workerTake_links {found : Ptr} (first : ∀ p, found = some p → k.task P = some p) :
    (workerTake P found).YieldsOn Heap.links k fun turn k' =>
      k' = match turn.next with
        | .picked p => k.moveToEnd P p
        | _ => k := by
  apply YieldsOn.bind
  apply load_pool_links
  intro _ pool _ _ _
  apply YieldsOn.ite
  · intro _
    exact .pure rfl
  · intro _
    apply YieldsOn.bind
    apply modify_pool_links
    · exact fun _ => ⟨rfl, rfl⟩
    apply YieldsOn.ite
    · intro _
      apply YieldsOn.bind
      apply modify_pool_links
      · exact fun _ => ⟨rfl, rfl⟩
      apply YieldsOn.bind
      apply modify_pool_links
      · exact fun _ => ⟨rfl, rfl⟩
      exact .pure rfl
    · intro _
      apply YieldsOn.bind
      apply YieldsOn.require
      intro p at_p
      apply YieldsOn.bind
      apply modify_tpTask_links
      · exact fun _ => ⟨rfl, rfl⟩
      apply YieldsOn.bind
      apply (moveToEnd_links (first p at_p)).mono
      intro _ k' moved
      exact .pure moved

theorem lock_same {h : Heap} : (lock ptr).Yields h fun _ h' => h' = h := by
  rw [lock, yields_bind, Lens.yields_load]
  intro _ _ _ _
  rw [yields_pure]

theorem threadTaskDelete_splits {h : Heap} : (threadTaskDelete t ptr).Yields h fun _ h' =>
    ∃ ret, (deleteTask t).Returns h ret h' := by
  rw [threadTaskDelete, yields_bind]
  intro _ h₁ locked
  obtain rfl := lock_same _ _ locked
  rw [yields_bind]
  intro ret h' deleted
  rw [yields_pure]
  exact ⟨ret, deleted⟩

/-- `thread_task_detach` marks the instance, and then it may call `delete_task`. -/
theorem threadTaskDetach_splits {h : Heap} : (threadTaskDetach t p ptr).Yields h fun _ h' =>
    ∃ h₁ f, h.records.instances p = some f ∧
      h₁.records = h.records.setInstance p (some { f with isDetached := true }) ∧ h₁.links = h.links ∧
      (h' = h₁ ∨ ∃ ret, (deleteTask t).Returns h₁ ret h') := by
  rw [threadTaskDetach, yields_bind]
  intro _ h₁ locked
  obtain rfl := lock_same _ _ locked
  rw [yields_bind, Lens.yields_modify]
  intro p at_p i live
  cases at_p
  have found : h₁.records.instances p = some i.fields := records_instance live
  have marked := @records_put_tpTask _ _ _ { i with isDetached := true } live
  have linked := links_put_same { i with isDetached := true } live ⟨rfl, rfl⟩
  rw [yields_bind, Lens.yields_load]
  intro p at_p i' _
  rw [yields_ite]
  constructor
  · intro _
    rw [yields_bind]
    intro ret h' deleted
    rw [yields_pure]
    exact ⟨_, i.fields, found, marked, linked, .inr ⟨ret, deleted⟩⟩
  · intro _
    rw [yields_pure]
    exact ⟨_, i.fields, found, marked, linked, .inl rfl⟩

/-- A worker completes its instance, and then it may call `delete_task`. -/
theorem workerComplete_splits {h : Heap} : (workerComplete P p).Yields h fun _ h' =>
    ∃ h₁ f c, h.records.instances p = some f ∧ h.records.pools P = some c ∧
      h₁.records = h.records.complete P p f c ∧ h₁.links = h.links ∧
      (h' = h₁ ∨ ∃ ret, (deleteTask f.threadTask).Returns h₁ ret h') := by
  rw [workerComplete, yields_bind]
  intro _ h₁ locked
  obtain rfl := lock_same _ _ locked
  rw [yields_bind, Lens.yields_modify]
  intro p at_p i live
  cases at_p
  rw [yields_bind, Lens.yields_modify]
  intro p at_p i' live'
  cases at_p
  have at_i' : i' = { i with isFinished := true } := by
    simp only [tpTaskHeap_set, tpTaskHeap_get, Store.put_cell, if_true, show h₁.tpTasks.cell p = some i from live,
      Option.map_some, Option.some.injEq] at live'
    exact live'.symm
  subst at_i'
  simp only [tpTaskHeap_get, tpTaskHeap_set, Store.put_put]
  rw [yields_bind, Lens.yields_modify]
  intro P at_P pool livePool
  cases at_P
  have found : h₁.records.instances p = some i.fields := records_instance live
  have counted : h₁.records.pools P = some pool.counters := records_pool livePool
  -- The heap behind the three assignments.
  have finished := @records_put_tpTask _ _ _ { i with isFinished := true, isRunning := false } live
  have free := @records_put_pool { h₁ with tpTasks := h₁.tpTasks.put p { i with isFinished := true, isRunning := false } }
    P pool { pool with activeThreadsCnt := pool.activeThreadsCnt - 1 } livePool
  rw [finished] at free
  have linked := @links_pool_same P
    { h₁ with tpTasks := h₁.tpTasks.put p { i with isFinished := true, isRunning := false } }
    pool { pool with activeThreadsCnt := pool.activeThreadsCnt - 1 } livePool ⟨rfl, rfl⟩
  rw [links_put_same { i with isFinished := true, isRunning := false } live ⟨rfl, rfl⟩] at linked
  rw [yields_bind, Lens.yields_load]
  intro p at_p i' live'
  cases at_p
  have same : i'.threadTask = i.threadTask := by
    simp only [tpTaskHeap_get, poolHeap_set, Store.put_cell, if_true, show h₁.tpTasks.cell p = some i from live,
      Option.map_some, Option.some.injEq] at live'
    rw [← live']
  rw [yields_ite]
  constructor
  · intro _
    rw [yields_bind]
    intro ret h' deleted
    rw [yields_pure]
    rw [same] at deleted
    exact ⟨_, i.fields, pool.counters, found, counted, free, linked, .inr ⟨ret, deleted⟩⟩
  · intro _
    rw [yields_pure]
    exact ⟨_, i.fields, pool.counters, found, counted, free, linked, .inl rfl⟩

end SysprogLabs.Tpool
