import SysprogLabs.Tpool.Runs

/-! # What a join returns

`thread_task_join` tests `is_finished` once, in front of its wait.  Without wakeups that
come too early it returns the value that the function of the instance has returned.
-/

namespace SysprogLabs.Tpool

section

variable {junk : Nat → Value} {first : Nat → Ptr → Prop} {s s' : Shape} {label : Action × Out}
  {t c : Nat}

/-! ## Tasks in the log -/

/-- An entry for a new task is logged by `thread_task_new`. -/
theorem Change.created (change : Change junk first s label s') {function : Function} {arg : Value}
    (mem : .created t function arg ∈ s'.log) :
    .created t function arg ∈ s.log ∨ t = s.records.nextTask ∧ s'.records.nextTask = t + 1 ∧
      ∃ c out, label = (.call c (.taskNew function arg), out) := by
  cases change with
  | @call c call turn r' idle does =>
    rw [does.sameLog] at mem
    rw [Shape.receive_records]
    cases does with
    | taskCreated =>
      cases List.mem_cons.mp mem with
      | inl new =>
        cases new
        exact .inr ⟨rfl, rfl, c, _, rfl⟩
      | inr old => exact .inl old
    | poolRefused | poolCreated | counted | hasTasks | closed | tooMany | pushed | lookedUp | notPushed
    | unpushed => exact .inl mem
  | proceed here does =>
    cases does with
    | detached | released => exact .inl (by simpa using mem)
    | askedFinished | askedRunning | expired | blocked | joined | timedOut | woken | deleted | freed
    | waitsAgain | leaves | destroyed => exact .inl mem
  | @work w value woken worker turn r' here does wakes =>
    obtain ⟨P, pc⟩ := worker
    cases does with
    | slept | exited | picked => exact .inl mem
    | called | stored => exact .inl (by simpa using mem)
    | completed | released => exact .inl (by simpa using Shape.signalEnd_log mem)

/-- A step allocates no task, or the one that `thread_task_new` makes. -/
theorem Change.newTask (change : Change junk first s label s') : s'.records.nextTask = s.records.nextTask ∨
    (s'.records.nextTask = s.records.nextTask + 1 ∧ ∃ task, s'.records.tasks s.records.nextTask = some task) := by
  have deletes : ∀ {r r' : Records} {u : Nat} {ret : Int}, r.Deletes u ret r' → r'.nextTask = r.nextTask := by
    intro r r' u ret does
    cases does <;> rfl
  cases change with
  | call idle does =>
    rw [Shape.receive_records]
    cases does with
    | taskCreated => exact .inr ⟨rfl, _, if_pos rfl⟩
    | poolRefused | poolCreated | counted | hasTasks | closed | tooMany | pushed | lookedUp | notPushed
    | unpushed => exact .inl rfl
  | proceed here does =>
    cases does with
    | deleted does => exact .inl (deletes does)
    | released found finished does =>
      have same := deletes does
      exact .inl same
    | askedFinished | askedRunning | expired | blocked | joined | timedOut | woken | detached | freed
    | waitsAgain | leaves | destroyed => exact .inl rfl
  | @work w value woken worker turn r' here does wakes =>
    obtain ⟨P, pc⟩ := worker
    rw [Shape.receive_records]
    cases does with
    | released found live detached does =>
      have same := deletes does
      exact .inl same
    | slept | exited | picked | called | stored | completed => exact .inl rfl

theorem Change.nextTask (change : Change junk first s label s') : s.records.nextTask ≤ s'.records.nextTask := by
  rcases change.newTask with same | ⟨more, -⟩
  · exact Nat.le_of_eq same.symm
  · exact more ▸ Nat.le_succ _

/-- The log knows one function and one argument of every task. -/
structure Registered (r : Records) (log : List Mark) : Prop where
  bounded : ∀ t function arg, .created t function arg ∈ log → t < r.nextTask
  unique : ∀ t function arg function' arg', .created t function arg ∈ log →
    .created t function' arg' ∈ log → function = function' ∧ arg = arg'

theorem Change.registered (change : Change junk first s label s') (registered : Registered s.records s.log) :
    Registered s'.records s'.log where
  bounded t function arg mem := by
    cases change.created mem with
    | inl old => exact Nat.lt_of_lt_of_le (registered.bounded t function arg old) change.nextTask
    | inr new => omega
  unique t function arg function' arg' mem mem' := by
    cases change.created mem with
    | inl old =>
      cases change.created mem' with
      | inl old' => exact registered.unique t function arg function' arg' old old'
      | inr new' => exact absurd (registered.bounded t function arg old) (by omega)
    | inr new =>
      cases change.created mem' with
      | inl old' => exact absurd (registered.bounded t function' arg' old') (by omega)
      | inr new' =>
        obtain ⟨-, -, c, out, same⟩ := new
        obtain ⟨-, -, c', out', same'⟩ := new'
        rw [same, Prod.mk.injEq, Action.call.injEq, Call.taskNew.injEq] at same'
        exact same'.1.2

/-! ## One call of `thread_task_join` -/

/-- The client is inside `thread_task_join` and has read the instance `p`, or it has returned. -/
def Joining (s : Shape) (c t p : Nat) : Prop :=
  (∃ pool, s.clients[c]? = some (.locking .join t p pool)) ∨
  (∃ pool notified, s.clients[c]? = some (.joining t p pool false notified)) ∨ s.clients[c]? = some .idle

theorem Change.keeps_idle (change : Change junk first s label s')
    (noCall : ∀ function, label.1 ≠ .call c function) (idle : s.clients[c]? = some .idle) :
    s'.clients[c]? = some .idle := by
  obtain ⟨client', here'⟩ := change.still_there idle
  obtain ⟨client, here, moved⟩ := change.client noCall here'
  cases here.symm.trans idle
  rcases moved with (same | same) | ⟨wait, turn, -, does, same⟩
  · exact same ▸ here'
  · subst same
    exact here'
  · cases does

theorem Change.keeps_joining (change : Change junk first s label s') {p : Nat}
    (noCall : ∀ function, label.1 ≠ .call c function) (joining : Joining s c t p) : Joining s' c t p := by
  rcases joining with ⟨pool, at_c⟩ | ⟨pool, notified, at_c⟩ | at_c
  · obtain ⟨client', here'⟩ := change.still_there at_c
    obtain ⟨client, here, moved⟩ := change.client noCall here'
    cases here.symm.trans at_c
    rcases moved with (same | same) | ⟨wait, turn, -, does, same⟩
    all_goals subst same
    · exact .inl ⟨pool, here'⟩
    · exact .inl ⟨pool, here'⟩
    · generalize s'.records = r' at does
      cases does with
      | @blocked _ _ _ _ timed _ joins =>
        obtain rfl : timed = false := joins
        exact .inr (.inl ⟨pool, false, here'⟩)
      | joined => exact .inr (.inr here')
  · obtain ⟨client', here'⟩ := change.still_there at_c
    obtain ⟨client, here, moved⟩ := change.client noCall here'
    cases here.symm.trans at_c
    rcases moved with (same | same) | ⟨wait, turn, -, does, same⟩
    all_goals subst same
    · exact .inr (.inl ⟨pool, notified, here'⟩)
    · exact .inr (.inl ⟨pool, true, here'⟩)
    · generalize s'.records = r' at does
      cases does with
      | woken => exact .inr (.inr here')
  · exact .inr (.inr (change.keeps_idle noCall at_c))

end

variable {junk : Nat → Value} {s s' : System} {label : Action × Out}

theorem reachable_registered {cond : System → Action × Out → System → Prop} {clients : Nat}
    (reachable : Reachable (StepWhen junk cond) (System.init clients) s) :
    Registered s.shape.records s.log := by
  apply reachable_invariant reachable
  · exact ⟨nofun, nofun⟩
  · intro s label s' sound registered step
    exact step.1.change.registered registered

/-- The result of a finished instance was returned by the function of its task. -/
theorem Sound.finished_result (sound : Sound s.shape) {p : Nat} {f : Fields}
    (found : s.shape.records.instances p = some f) (done : f.isFinished = true) :
    ∃ function arg, .created f.threadTask function arg ∈ s.log ∧ .returned ⟨p, function, arg⟩ f.result ∈ s.log := by
  obtain ⟨-, function, arg, returned⟩ := sound.logged.finished p f found done
  obtain ⟨-, t, created, owner⟩ := sound.logged.origin _ (sound.logged.values _ _ returned)
  exact ⟨function, arg, owner f found ▸ created, returned⟩

/-! ## The statement -/

/-- A `thread_task_join` comes back from its wait without having been notified, and its
    instance is not finished. -/
def System.wakesEarly (s : System) : Action → Bool
  | .proceed c _ => match s.clients[c]? with
    | some (.joining _ p _ false false) => !(s.heap.tpTasks.cell p).any fun t => t.isFinished
    | _ => false
  | _ => false

/-- No spurious wakeup of a `thread_task_join` comes too early. -/
def Punctual (s : System) (label : Action × Out) (_ : System) : Prop := s.wakesEarly label.1 = false

instance : Decidable (Punctual s label s') := inferInstanceAs (Decidable (_ = _))

/-- What `thread_task_join` has stored: the value that the function of the task returned for
    its newest instance, and the instance is finished. -/
def JoinedResult (p : Nat) (task : ThreadTask) (value : Value) (s : System) : Prop :=
  ∃ i, s.heap.tpTasks.cell p = some i ∧ i.isFinished = true ∧ i.result = value ∧
    .returned ⟨p, task.function, task.arg⟩ value ∈ s.log

theorem Step.joined {c t p : Nat} {wait : WaitResult} {value : Value} {task : ThreadTask}
    (step : StepWhen junk Punctual s (.proceed c wait, .joined value) s') (sound : Sound s.shape)
    (registered : Registered s.shape.records s.log) (created : .created t task.function task.arg ∈ s.log)
    (joining : Joining s.shape c t p) : JoinedResult p task value s' := by
  obtain ⟨client, turn, here, does, out, log, -⟩ := step.1.proceeds
  have knows := sound.aware client (List.mem_of_getElem? here)
  -- Either place has read the task `t`, and its instance turns out to be finished.
  have result : ∀ f, s.shape.records.instances p = some f → f.threadTask = t → f.isFinished = true →
      .returned ⟨p, task.function, task.arg⟩ f.result ∈ s'.log := by
    intro f found owner done
    obtain ⟨function, arg, created', returned⟩ := sound.finished_result found done
    rw [owner] at created'
    obtain ⟨rfl, rfl⟩ := registered.unique t function arg task.function task.arg created' created
    rw [log]
    exact List.mem_append_right _ returned
  generalize at_r : s'.shape.records = r' at does
  rcases joining with ⟨pool, at_c⟩ | ⟨pool, notified, at_c⟩ | at_c
  all_goals cases here.symm.trans at_c
  · cases does with
    | blocked => cases out
    | @joined _ _ _ _ _ f joins found done =>
      cases out
      obtain ⟨i, live, fields⟩ := System.object (s := s') (p := p)
        (f := { f with isJoined := true }) (by rw [at_r]; exact Records.setInstance_found _)
      refine ⟨i, live, ?_, ?_, result f found (knows.2 f found).1 done⟩
      · exact (congrArg Fields.isFinished fields).trans done
      · exact congrArg Fields.result fields
  · cases does with
    | @woken _ _ _ _ _ f inTime found =>
      cases out
      have done : f.isFinished = true := by
        cases notified with
        | true => exact (sound.logged.completed p (knows.2 rfl)).2.2 f found
        | false =>
          obtain ⟨t', live, rfl⟩ := System.object found
          have early := step.2
          simp only [Punctual, System.wakesEarly, show s.clients[c]? = _ from here, live, Option.any_some,
            Bool.not_eq_false'] at early
          exact early
      obtain ⟨i, live, fields⟩ := System.object (s := s') (p := p) (f := f) (by rw [at_r]; exact found)
      refine ⟨i, live, ?_, ?_, result f found (knows.1.2 f found).1 done⟩
      · exact (congrArg Fields.isFinished fields).trans done
      · exact congrArg Fields.result fields
  · cases does

theorem log_grows {cond : System → Action × Out → System → Prop} {ls : List (Action × Out)}
    (run : Run (StepWhen junk cond) s ls s') : s.log ⊆ s'.log := by
  apply run.invariant (List.Subset.refl _)
  intro s₁ label s₂ grown step
  exact List.Subset.trans grown step.1.change.log_grows.subset

/-- Without wakeups that come too early, a `thread_task_join` that returns 0 has stored what
    the function of the task returned for the instance that was the newest one when the call
    looked it up.  The client makes no other call in between. -/
theorem join_returns_result {clients c t : Nat} {wait : WaitResult} {out : Out} {value : Value}
    {ls : List (Action × Out)} {s₀ s₁ s₂ s₃ : System}
    (before : Reachable (StepWhen junk Punctual) (System.init clients) s₀)
    (calls : StepWhen junk Punctual s₀ (.call c (.onTask .join t), out) s₁)
    (during : Run (StepWhen junk (NoCall c Punctual)) s₁ ls s₂)
    (returns : StepWhen junk Punctual s₂ (.proceed c wait, .joined value) s₃) :
    ∃ p task, s₀.heap.tasks.cell t = some task ∧ task.list.head? = some p ∧ JoinedResult p task value s₃ := by
  have run : Run (StepWhen junk Punctual) s₁ ls s₂ := during.mono fun _ _ _ step => ⟨step.1, step.2.1⟩
  have after : Reachable (StepWhen junk Punctual) (System.init clients) s₂ := by
    obtain ⟨labels, first⟩ := before
    exact ⟨_, first.append (.cons calls run)⟩
  obtain ⟨turn, idle, does, -, -, places⟩ := calls.1.calls
  have at_c : s₁.clients[c]? = some turn.next := by
    rw [places]
    exact List.getElem?_set_self (List.getElem?_eq_some_iff.mp idle).1
  generalize s₁.shape.records = r' at does
  cases does with
  | @lookedUp _ _ p task f live newest found =>
    have created : .created t task.function task.arg ∈ s₂.log :=
      log_grows (.cons calls run) ((reachable_sound before).logged.tasks t task live)
    have joining : Joining s₂.shape c t p := by
      apply during.invariant (.inl ⟨f.pool, at_c⟩)
      intro s label s' joining step
      exact step.1.change.keeps_joining step.2.2 joining
    exact ⟨p, task, live, newest, Step.joined returns (reachable_sound after) (reachable_registered after)
      created joining⟩
  | notPushed live empty answer =>
    -- The call has returned at once, and there is nothing to go on with.
    have still : s₂.shape.clients[c]? = some .idle := by
      apply during.invariant at_c
      intro s label s' idle step
      exact step.1.change.keeps_idle step.2.2 idle
    obtain ⟨client, turn, here, does, -⟩ := returns.1.proceeds
    cases still.symm.trans here
    cases does

/-- A join that blocks, the whole execution of the instance, and the end of the join. -/
def joinNotified : List Action := [.call 0 (.poolNew 1), .call 0 (.taskNew 7 5), .call 0 (.poolPushTask 0 0),
  .call 0 (.onTask .join 0), .proceed 0 .woken, .work 0 0 [], .work 0 0 [], .work 0 42 [], .work 0 0 [0],
  .proceed 0 .woken]

theorem join_returns_result_notified : ∃ s₀ s₃ : System,
    Reachable (StepWhen (fun _ => 9) Punctual) (System.init 1) s₀ ∧
    ∃ p task, s₀.heap.tasks.cell 0 = some task ∧ task.list.head? = some p ∧ JoinedResult p task 42 s₃ := by
  obtain ⟨outs, s₃, run, shown⟩ := replay_ends (fun _ => 9) Punctual 5 joinNotified (.init 1)
    (fun outs _ => outs == [.created 0, .created 0, .returned 0, .running, .running, .running, .running, .running,
      .running, .joined 42]) (by decide +kernel)
  obtain rfl := eq_of_beq shown
  rcases run with _ | ⟨newPool, _ | ⟨newTask, _ | ⟨pushes, _ | ⟨calls, _ | ⟨blocks, _ | ⟨picks, _ | ⟨invokes,
    _ | ⟨stores, _ | ⟨completes, _ | ⟨returns, ⟨⟩⟩⟩⟩⟩⟩⟩⟩⟩⟩⟩
  have before := Run.cons newPool (.cons newTask (.single pushes))
  have during := Run.cons blocks (.cons picks (.cons invokes (.cons stores (.single completes))))
  exact ⟨_, s₃, ⟨_, before⟩, join_returns_result ⟨_, before⟩ calls
    (during.mono_of_labels fun s label s' mem step => ⟨step.1, step.2, by
      intro function same
      simp only [List.mem_cons, List.not_mem_nil, or_false] at mem
      rcases mem with rfl | rfl | rfl | rfl | rfl <;> cases same⟩) returns⟩

/-- The same with a spurious wakeup before a worker has come. -/
def joinEarly : List Action := [.call 0 (.poolNew 1), .call 0 (.taskNew 7 5), .call 0 (.poolPushTask 0 0),
  .call 0 (.onTask .join 0), .proceed 0 .woken, .proceed 0 .woken]

/-- A spurious wakeup lets `thread_task_join` return 0 with the uninitialised result of an
    instance that has not even been picked up. -/
theorem join_returns_early : ∃ outs s, Run (Step fun _ => 9) (.init 1) (joinEarly.zip outs) s ∧
    outs.getLast? = some (.joined 9) ∧
    (∃ i, s.heap.tpTasks.cell 0 = some i ∧ i.isFinished = false ∧ i.isRunning = false) ∧
    ∀ call value, .returned call value ∉ s.log := by
  obtain ⟨outs, s, run, shown⟩ := replay_ends (fun _ => 9) (fun _ _ _ => True) 5 joinEarly (.init 1)
    (fun outs s => outs.getLast? == some (.joined 9) &&
      (s.heap.tpTasks.cell 0).any (fun i => !i.isFinished && !i.isRunning) && s.log == [.created 0 7 5])
    (by decide +kernel)
  simp only [Bool.and_eq_true, beq_iff_eq, Option.any_eq_true, Bool.not_eq_true'] at shown
  obtain ⟨⟨last, pending⟩, log⟩ := shown
  refine ⟨outs, s, run.mono fun _ _ _ step => step.1, last, pending, ?_⟩
  rw [log]
  simp

end SysprogLabs.Tpool
