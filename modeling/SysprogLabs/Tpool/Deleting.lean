import SysprogLabs.Tpool.Progress

/-! # Deleting tasks

`delete_task` looks at `is_joined`, which a join sets when it starts to wait.  As long as
nobody deletes a task while one of its instances is joined but not finished, `delete_task`
only releases finished instances, and no worker ever comes to a released object.
-/

namespace SysprogLabs.Tpool

open Prog

section

variable {junk : Nat → Value} {first : Nat → Ptr → Prop} {s s' : Shape} {r r' : Records} {label : Action × Out}
  {t p P : Nat}

/-! ## Runs without `thread_task_detach` -/

/-- No instance is detached, and no client is about to detach one. -/
structure Shape.Undetached (s : Shape) : Prop where
  instances : ∀ p f, s.records.instances p = some f → f.isDetached = false
  clients : ∀ client ∈ s.clients, ∀ t p pool, client ≠ .locking .detach t p pool

theorem Shape.Undetached.deletion (undetached : s.Undetached) {action : Action}
    (at_t : s.deletion action = some (t, r)) : r = s.records ∧
    ∃ c wait p pool, action = .proceed c wait ∧ s.clients[c]? = some (.locking .delete t p pool) := by
  rcases Shape.deletion_cases at_t with ⟨c, wait, p, pool, at_action, here, same⟩ |
    ⟨c, wait, p, pool, f, -, here, -⟩ | ⟨w, value, woken, P, p, f, c, -, -, found, -, detached, -⟩
  · exact ⟨same, c, wait, p, pool, at_action, here⟩
  · exact absurd rfl (undetached.clients _ (List.mem_of_getElem? here) t p pool)
  · rw [undetached.instances p f found] at detached
    cases detached

theorem Change.undetached (change : Change junk first s label s') (undetached : s.Undetached)
    (noCall : ∀ c t, label.1 ≠ .call c (.onTask .detach t)) : s'.Undetached := by
  have set : ∀ {q : Nat} {g g' : Fields}, s.records.instances q = some g → g'.isDetached = g.isDetached →
      ∀ p f, (s.records.setInstance q (some g')).instances p = some f → f.isDetached = false := by
    intro q g g' at_q same p f found
    cases Records.setInstance_some found with
    | inl here =>
      rw [here.2, same]
      exact undetached.instances q g at_q
    | inr old => exact undetached.instances p f old.2
  have old := undetached.instances
  cases change with
  | @call c function turn r' idle does =>
    constructor
    · rw [Shape.receive_records]
      cases does with
      | pushed =>
        intro p f found
        simp only [Records.push] at found
        split at found
        · cases found
          rfl
        · exact old p f found
      | poolRefused | poolCreated | counted | hasTasks | closed | tooMany | taskCreated | lookedUp | notPushed
      | unpushed => exact old
    · rw [does.sameClients]
      intro client mem t p pool at_client
      cases List.mem_or_eq_of_mem_set mem with
      | inl before => exact undetached.clients client before t p pool at_client
      | inr new =>
        subst at_client
        generalize at_next : turn.next = next at new
        cases does with
        | lookedUp => cases at_next.trans new.symm; exact noCall c t rfl
        | @closed P c live empty =>
          dsimp only at at_next
          split at at_next
          · cases at_next.trans new.symm
          · cases at_next.trans new.symm
        | poolRefused | poolCreated | counted | hasTasks | tooMany | pushed | taskCreated | notPushed | unpushed =>
          cases at_next.trans new.symm
  | @proceed c wait client turn r' here does =>
    have quiet := undetached.clients client (List.mem_of_getElem? here)
    constructor
    · cases does with
      | detached | released => exact absurd rfl (quiet _ _ _)
      | blocked joins found | joined joins found => exact set found rfl
      | deleted deletes => exact fun p f found => old p f (deletes.instance found)
      | askedFinished | askedRunning | expired | timedOut | woken | freed | waitsAgain | leaves | destroyed =>
        exact old
    · intro client' mem t p pool at_client
      cases List.mem_or_eq_of_mem_set mem with
      | inl before => exact undetached.clients client' before t p pool at_client
      | inr new =>
        subst at_client
        cases does <;> cases new
  | @work w value woken worker turn r' here does wakes =>
    obtain ⟨P, pc⟩ := worker
    constructor
    · rw [Shape.receive_records]
      cases does with
      | picked looking live active first taken => exact set taken rfl
      | stored found => exact set found rfl
      | completed found live kept => exact set found rfl
      | released found live detached =>
        rw [old _ _ found] at detached
        cases detached
      | slept | exited | called => exact old
    · intro client mem t p pool at_client
      obtain ⟨c, at_c⟩ := List.mem_iff_getElem?.mp mem
      obtain ⟨before, at_before, told⟩ := Shape.receive_client at_c
      refine undetached.clients before (List.mem_of_getElem? at_before) t p pool ?_
      rcases told with same | same
      · rw [← same, at_client]
      · rw [at_client] at same
        cases before <;> cases same
        rfl

/-! ## Tasks outlive their instances -/

/-- The task of every instance is there. -/
def Records.Rooted (r : Records) : Prop :=
  ∀ p f, r.instances p = some f → ∃ task, r.tasks f.threadTask = some task

theorem Change.rooted (change : Change junk first s label s') (sound : Sound s) (rooted : s.records.Rooted)
    (free : ∀ c wait t task, label.1 = .proceed c wait → s.clients[c]? = some (.freeing t) →
      s.records.tasks t = some task → task.list = []) : s'.records.Rooted := by
  intro p f found
  by_cases old : p < s.records.nextInstance
  · obtain ⟨f₀, before, later⟩ := change.later.instances p f found old
    obtain ⟨task, live⟩ := rooted p f₀ before
    rw [later.threadTask]
    cases gone : s'.records.tasks f₀.threadTask with
    | some task' => exact ⟨task', rfl⟩
    | none =>
      -- The task was released, and the instance was one of its own.
      have listed := sound.owned.whole p f₀ task before live
      rcases change.lostTask live gone with ⟨r, -, -, released⟩ | ⟨c, wait, at_label, here, -⟩
      · rw [released] at found
        cases (if_pos listed).symm.trans found
      · rw [free c wait _ task at_label here live] at listed
        cases listed
  · obtain ⟨c, P, t, task, counters, -, -, live, -, pushed, rfl⟩ := change.fresh sound found (Nat.not_lt.mp old)
    rw [pushed]
    exact ⟨_, if_pos rfl⟩

/-- As long as no worker releases its task, every signal finds its instance. -/
theorem Change.unstale (change : Change junk first s label s')
    (kept : ∀ w value woken t r, label.1 = .work w value woken → s.deletion label.1 = some (t, r) →
      r.allOf t Fields.deletable = false) (none : ∀ p, .stale p ∉ s.log) : ∀ p, .stale p ∉ s'.log := by
  intro p mem
  cases change with
  | call idle does =>
    rw [does.sameLog] at mem
    cases does with
    | taskCreated => exact none p (by simpa using mem)
    | poolRefused | poolCreated | counted | hasTasks | closed | tooMany | pushed | lookedUp | notPushed | unpushed =>
      exact none p mem
  | proceed here does =>
    cases does with
    | detached | released => exact none p (by simpa using mem)
    | askedFinished | askedRunning | expired | blocked | joined | timedOut | woken | deleted | freed | waitsAgain
    | leaves | destroyed => exact none p mem
  | @work w value woken worker turn r' here does wakes =>
    obtain ⟨P, pc⟩ := worker
    have alive : ∀ {q : Nat} {f : Fields} {c : Counters},
        ((s.records.complete P q f c).instances q).isSome = true := by
      intro q f c
      exact congrArg Option.isSome (Records.setInstance_found (r := s.records) _)
    cases does with
    | slept | exited | picked => exact none p mem
    | called | stored => exact none p (by simpa using mem)
    | completed found live still =>
      simp only [List.foldl_cons, List.foldl_nil, Shape.receive, alive, if_true] at mem
      exact none p (by simpa using mem)
    | @released q f c ret r' found live detached deletes =>
      have at_t : s.deletion (.work w value woken) = some (f.threadTask, s.records.complete P q f c) := by
        simp only [Shape.deletion, here, found, live, detached, if_true]
      rcases deletes.result with ⟨all, -⟩ | ⟨-, -, rfl⟩
      · have refused := kept w value woken _ _ rfl at_t
        rw [all] at refused
        cases refused
      · simp only [List.foldl_cons, List.foldl_nil, Shape.receive, alive, if_true] at mem
        exact none p (by simpa using mem)

end

/-! ## The result of `thread_task_delete` -/

section

variable {h : Heap} {t : Nat} {ptr : Ptr}

theorem deletable_same {list : List Nat} : (deletable list).Yields h fun _ h' => h' = h := by
  induction list with
  | nil =>
    rw [deletable, yields_pure]
  | cons p list ih =>
    rw [deletable, yields_bind, Lens.yields_load]
    intro _ _ _ _
    rw [yields_ite]
    constructor
    · intro _
      rw [yields_pure]
    · intro _
      exact ih

/-- `delete_task` changes nothing when it refuses. -/
theorem deleteTask_refused : (deleteTask t).Yields h fun ret h' => ret ≠ 0 → h' = h := by
  rw [deleteTask, yields_bind, Lens.yields_load]
  intro u at_u task live
  split
  · rw [yields_bind]
    intro _ _ _
    rw [yields_pure]
    intro nonzero
    exact absurd rfl nonzero
  · rw [yields_bind, Lens.yields_load]
    intro _ _ _ _
    rw [yields_bind]
    intro yes h₁ tested
    obtain rfl := deletable_same _ _ tested
    rw [yields_ite]
    constructor
    · intro _
      rw [yields_bind]
      intro _ _ _
      rw [yields_bind]
      intro _ _ _
      rw [yields_bind]
      intro _ _ _
      rw [yields_pure]
      intro nonzero
      exact absurd rfl nonzero
    · intro _
      rw [yields_pure]
      intro _
      rfl

theorem threadTaskDelete_result : (threadTaskDelete t ptr).Yields h fun turn h' =>
    ∃ ret, turn.out = .returned ret ∧ h.records.Deletes t ret h'.records ∧ (ret ≠ 0 → h' = h) := by
  rw [threadTaskDelete, yields_bind]
  intro _ h₁ locked
  obtain rfl := lock_same _ _ locked
  rw [yields_bind]
  intro ret h' deleted
  rw [yields_pure]
  exact ⟨ret, rfl, deleteTask_yields h₁ rfl ret h' deleted, deleteTask_refused ret h' deleted⟩

end

variable {junk : Nat → Value} {s s' : System} {label : Action × Out}

/-- The step of a client that runs `delete_task` in `thread_task_delete`. -/
theorem Step.deletes {c t p : Nat} {pool : Ptr} {wait : WaitResult} {out : Out}
    (step : Step junk s (.proceed c wait, out) s') (here : s.clients[c]? = some (.locking .delete t p pool)) :
    ∃ ret, out = .returned ret ∧ s.shape.records.Deletes t ret s'.shape.records ∧ (ret ≠ 0 → s'.heap = s.heap) := by
  obtain ⟨client, turn, here', returned, rfl, -⟩ := Step.ofProceed step
  cases here.symm.trans here'
  exact threadTaskDelete_result turn s'.heap returned

/-! ## Deleting finished instances only -/

/-- The client is about to release the task, in `delete_task` or because it has found no instance. -/
def Client.Deletes (t : Nat) (client : Client) : Prop :=
  (∃ p pool, client = .locking .delete t p pool) ∨ client = .freeing t

/-- A join of some instance of the task has started, and the instance is not finished. -/
def Records.joinedUnfinished (r : Records) (t : Nat) : Bool :=
  (r.tasks t).any fun task => task.list.any fun p => (r.instances p).any fun f => f.isJoined && !f.isFinished

/-- `thread_task_detach` is not called; nobody runs `delete_task` on a task with an instance that is
    joined but not finished, or on one whose instances are in several pools; and a task that was found
    without instances still has none. -/
def Shape.deletesSettled (s : Shape) : Action → Bool
  | .call _ (.onTask .detach _) => false
  | .call _ _ => true
  | .proceed c wait => s.releasesTogether (.proceed c wait) &&
    match s.clients[c]? with
    | some (.locking .delete t _ _) => !s.records.joinedUnfinished t
    | some (.freeing t) => (s.records.tasks t).any fun task => task.list.isEmpty
    | _ => true
  | .work w value woken => s.releasesTogether (.work w value woken)

def DeletesSettled (s : System) (label : Action × Out) (_ : System) : Prop :=
  s.shape.deletesSettled label.1 = true

instance : Decidable (DeletesSettled s label s') := inferInstanceAs (Decidable (_ = _))

theorem DeletesSettled.together (meets : DeletesSettled s label s') : Together s label s' := by
  obtain ⟨action, out⟩ := label
  cases action with
  | call => rfl
  | proceed c wait =>
    simp only [DeletesSettled, Shape.deletesSettled, Bool.and_eq_true] at meets
    exact meets.1
  | work w value woken => exact meets

/-- Without `thread_task_detach` only joined instances are released, and these are finished. -/
theorem Records.allOf_finished {r : Records} {t : Nat} (settled : r.joinedUnfinished t = false)
    (kept : ∀ p f, r.instances p = some f → f.isDetached = false) (all : r.allOf t Fields.deletable = true) :
    r.allOf t Fields.isFinished = true := by
  obtain ⟨task, live, deletable⟩ := Records.allOf_iff.mp all
  refine Records.allOf_iff.mpr ⟨task, live, fun p listed => ?_⟩
  obtain ⟨f, found, released⟩ := deletable p listed
  refine ⟨f, found, ?_⟩
  have joined : f.isJoined = true := by simpa [Fields.deletable, kept p f found] using released
  simp only [Records.joinedUnfinished, live, Option.any_some, List.any_eq_false] at settled
  simpa [found, joined] using settled p listed

theorem DeletesSettled.finished (meets : DeletesSettled s label s') (undetached : s.shape.Undetached) {c t p : Nat}
    {wait : WaitResult} {pool : Ptr} (at_label : label.1 = .proceed c wait)
    (here : s.clients[c]? = some (.locking .delete t p pool)) (all : s.shape.records.allOf t Fields.deletable = true) :
    s.shape.records.allOf t Fields.isFinished = true := by
  simp only [DeletesSettled, Shape.deletesSettled, at_label, show s.shape.clients[c]? = _ from here,
    Bool.and_eq_true, Bool.not_eq_true'] at meets
  exact Records.allOf_finished meets.2 undetached.instances all

theorem DeletesSettled.empty (meets : DeletesSettled s label s') {c t : Nat} {wait : WaitResult} {task : ThreadTask}
    (at_label : label.1 = .proceed c wait) (here : s.clients[c]? = some (.freeing t))
    (live : s.shape.records.tasks t = some task) : task.list = [] := by
  simp only [DeletesSettled, Shape.deletesSettled, at_label, show s.shape.clients[c]? = _ from here, live,
    Option.any_some, Bool.and_eq_true, List.isEmpty_iff] at meets
  exact meets.2

/-- What holds in runs that only delete settled tasks. -/
structure Undisturbed (s : Shape) : Prop where
  alive : s.Alive
  undetached : s.Undetached
  rooted : s.records.Rooted
  unstale : ∀ p, .stale p ∉ s.log

theorem Step.undisturbed (step : StepWhen junk DeletesSettled s label s') (sound : Sound s.shape)
    (inv : Undisturbed s.shape) : Undisturbed s'.shape where
  alive := by
    apply step.1.change.alive sound inv.alive
    intro p f found gone
    -- The instance goes with its task in `thread_task_delete`, and so it is finished.
    obtain ⟨r, task, deletion, live, listed, all, -⟩ := step.1.change.released found gone sound.owned
    obtain ⟨rfl, c, wait, q, pool, at_label, here⟩ := inv.undetached.deletion deletion
    obtain ⟨task', live', finished⟩ := Records.allOf_iff.mp (step.2.finished inv.undetached at_label here all)
    cases live.symm.trans live'
    obtain ⟨f', found', done⟩ := finished p listed
    cases found.symm.trans found'
    exact step.1.change.log_grows.subset (sound.logged.finished p f found done).1
  undetached := by
    apply step.1.change.undetached inv.undetached
    intro c t at_label
    have meets := step.2
    rw [DeletesSettled, at_label] at meets
    cases meets
  rooted := step.1.change.rooted sound inv.rooted fun c wait t task at_label here live =>
    step.2.empty at_label here live
  unstale := by
    apply step.1.change.unstale _ inv.unstale
    intro w value woken t r at_label deletion
    obtain ⟨-, c, wait, q, pool, same, -⟩ := inv.undetached.deletion deletion
    cases at_label.symm.trans same

theorem reachable_undisturbed {clients : Nat}
    (reachable : Reachable (StepWhen junk DeletesSettled) (System.init clients) s) : Undisturbed s.shape := by
  apply reachable_invariant reachable
  · refine ⟨nofun, ⟨nofun, ?_⟩, nofun, nofun⟩
    intro client mem t p pool same
    rw [List.eq_of_mem_replicate mem] at same
    cases same
  · intro s label s' sound inv step
    exact Step.undisturbed step sound inv

/-- No worker comes to a released object: what it has in hand is there, every condition
    variable it signals is there, and it can always go on. -/
structure WorkersSafe (junk : Nat → Value) (s : System) : Prop where
  inHand : ∀ w ∈ s.workers, ∀ p, w.pc.tpTask = some p → ∃ i task, s.heap.tpTasks.cell p = some i ∧
    s.heap.tasks.cell i.threadTask = some task
  signals : ∀ p, .stale p ∉ s.log
  goesOn : ∀ w worker pool value, s.workers[w]? = some worker → worker.pc ≠ .exited →
    s.heap.pools.cell worker.pool = some pool → ∃ woken out s', Step junk s (.work w value woken, out) s'

/-- `thread_task_delete` returns 0 and all instances of the task had finished, or it refuses
    and changes nothing. -/
def DeleteResult (s : System) (t : Nat) (out : Out) (s' : System) : Prop :=
  (out = .returned 0 ∧ ∀ p i, s.heap.tpTasks.cell p = some i → i.threadTask = t →
    i.isFinished = true ∧ i.isRunning = false ∧ ∀ w ∈ s.workers, w.pc.tpTask ≠ some p) ∨
  (out = .returned tpoolErrTaskInPool ∧ s'.heap = s.heap)

theorem Undisturbed.workersSafe (inv : Undisturbed s.shape) (orderly : Orderly s) : WorkersSafe junk s where
  inHand w mem p hand := by
    obtain ⟨c, here⟩ := List.mem_iff_getElem?.mp mem
    obtain ⟨f, found⟩ := inv.alive c w.pc p (duty_some.mpr ⟨w, here, rfl, by rw [hand]; rfl⟩) hand
    obtain ⟨task, live⟩ := inv.rooted p f found
    obtain ⟨i, live', rfl⟩ := System.object found
    exact ⟨i, task, live', live⟩
  signals := inv.unstale
  goesOn w worker pool value here stays live := by
    refine worker_goes_on orderly inv.alive ?_ here stays live ?_ value
    · exact fun p i found => inv.rooted p i.fields (System.record found)
    · intro p i _ found
      have kept : i.isDetached = false := inv.undetached.instances p i.fields (System.record found)
      apply workerComplete_returns found live
      intro _ detached
      rw [kept] at detached
      cases detached

/-- In runs that only delete settled tasks no worker is disturbed, and a call of
    `thread_task_delete` that returns 0 has found finished instances only. -/
theorem deletes_only_finished {clients : Nat}
    (reachable : Reachable (StepWhen junk DeletesSettled) (System.init clients) s) :
    WorkersSafe junk s ∧ ∀ c client t wait out s', s.clients[c]? = some client → client.Deletes t →
      StepWhen junk DeletesSettled s (.proceed c wait, out) s' → DeleteResult s t out s' := by
  have sound := reachable_sound reachable
  have inv := reachable_undisturbed reachable
  refine ⟨inv.workersSafe (reachable_orderly (fun _ _ _ => DeletesSettled.together) reachable), ?_⟩
  rintro c client t wait out s' here (⟨p, pool, rfl⟩ | rfl) step
  · obtain ⟨ret, rfl, deletes, same⟩ := step.1.deletes here
    rcases deletes.result with ⟨all, rfl, -⟩ | ⟨-, rfl, -⟩
    · refine .inl ⟨rfl, ?_⟩
      intro q i live owner
      obtain ⟨task, known, finished⟩ := Records.allOf_iff.mp (step.2.finished inv.undetached rfl here all)
      have owner : i.fields.threadTask = t := owner
      have listed := sound.owned.whole q i.fields task (System.record live) (owner ▸ known)
      obtain ⟨f, found, done⟩ := finished q listed
      cases (System.record live).symm.trans found
      have idle : ∀ i' pc, duty s.workers i' = some pc → pc.tpTask ≠ some q := by
        intro i' pc on hand
        have unfinished := (sound.executing.running i' pc q _ on hand found).2
        rw [done] at unfinished
        cases unfinished
      refine ⟨done, ?_, ?_⟩
      · rw [← Bool.not_eq_true]
        intro running
        obtain ⟨i', pc, on, hand⟩ := sound.executing.held q _ found running
        exact idle i' pc on hand
      · intro w mem hand
        obtain ⟨i', at_i⟩ := List.mem_iff_getElem?.mp mem
        exact idle i' w.pc (duty_some.mpr ⟨w, at_i, rfl, by rw [hand]; rfl⟩) hand
    · exact .inr ⟨rfl, same (by decide)⟩
  · obtain ⟨client, turn, here', does, rfl, -⟩ := step.1.proceeds
    cases here.symm.trans here'
    generalize s'.shape.records = r' at does
    cases does with
    | freed live =>
      refine .inl ⟨rfl, ?_⟩
      intro q i found owner
      have owner : i.fields.threadTask = t := owner
      have listed := sound.owned.whole q i.fields _ (System.record found) (owner ▸ live)
      rw [step.2.empty rfl here live] at listed
      cases listed

/-- The instance is finished and joined, and a client is about to delete the task. -/
def joinedAndFinished : List Action := [.call 0 (.poolNew 1), .call 0 (.taskNew 7 5), .call 0 (.poolPushTask 0 0),
  .work 0 0 [], .work 0 0 [], .work 0 42 [], .work 0 0 [], .call 0 (.onTask .join 0), .proceed 0 .woken,
  .call 0 (.onTask .delete 0)]

theorem deletes_only_finished_joined : ∃ s s' : System,
    Reachable (StepWhen (fun _ => 9) DeletesSettled) (System.init 1) s ∧
    Step (fun _ => 9) s (.proceed 0 .woken, .returned 0) s' ∧ WorkersSafe (fun _ => 9) s ∧
    DeleteResult s 0 (.returned 0) s' := by
  obtain ⟨outs, s, run, shown⟩ := replay_ends (fun _ => 9) DeletesSettled 5 joinedAndFinished (.init 1)
    (fun _ s => s.clients[0]? == some (.locking .delete 0 0 (some 0)) &&
      ((Action.proceed 0 .woken).execute (fun _ => 9) 5 s).any fun result =>
        result.1 == .returned 0 && decide (DeletesSettled s (.proceed 0 .woken, result.1) result.2)) (by decide +kernel)
  simp only [Bool.and_eq_true, Option.any_eq_true, beq_iff_eq, decide_eq_true_eq] at shown
  obtain ⟨here, ⟨out, s'⟩, executed, rfl, meets⟩ := shown
  have step := Action.execute_step executed
  have safe := deletes_only_finished ⟨_, run⟩
  exact ⟨s, s', ⟨_, run⟩, step, safe.1, safe.2 0 _ 0 .woken _ s' here (.inl ⟨_, _, rfl⟩) ⟨step, meets⟩⟩

/-- While a worker executes the instance, a timed join of it times out, and the task is deleted. -/
def deletedAfterTimeout : List Action := [.call 0 (.poolNew 1), .call 0 (.taskNew 7 5), .call 0 (.poolPushTask 0 0),
  .work 0 0 [], .work 0 0 [], .call 0 (.onTask (.timedJoin (.finite 1)) 0), .proceed 0 .woken, .proceed 0 .timedOut,
  .call 0 (.onTask .delete 0), .proceed 0 .woken]

/-- `thread_task_delete` returns 0, and a worker still executes the function of the released instance. -/
theorem deleted_under_worker : ∃ outs s, Run (Step fun _ => 9) (.init 1) (deletedAfterTimeout.zip outs) s ∧
    outs[7]? = some (.returned tpoolErrTimeout) ∧ outs.getLast? = some (.returned 0) ∧
    s.workers = [⟨0, .running ⟨0, 7, 5⟩⟩] ∧ s.heap.tpTasks.cell 0 = none ∧ s.heap.tasks.cell 0 = none := by
  obtain ⟨outs, s, run, shown⟩ := replay_ends (fun _ => 9) (fun _ _ _ => True) 5 deletedAfterTimeout (.init 1)
    (fun outs s => outs[7]? == some (.returned tpoolErrTimeout) && outs.getLast? == some (.returned 0) &&
      s.workers == [⟨0, .running ⟨0, 7, 5⟩⟩] && (s.heap.tpTasks.cell 0).isNone && (s.heap.tasks.cell 0).isNone)
    (by decide +kernel)
  simp only [Bool.and_eq_true, beq_iff_eq, Option.isNone_iff_eq_none] at shown
  obtain ⟨⟨⟨⟨timeout, last⟩, worker⟩, instance'⟩, task⟩ := shown
  exact ⟨outs, s, run.mono fun _ _ _ step => step.1, timeout, last, worker, instance', task⟩

end SysprogLabs.Tpool
