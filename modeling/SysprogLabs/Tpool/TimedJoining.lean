import SysprogLabs.Tpool.Joining

/-! # What a timed join comes to

`thread_task_timed_join` looks at the timeout before it looks at the instance, sets `is_joined` before
it waits, and takes every end of the wait but `ETIMEDOUT` for the end of the instance.  A call is cut
at its lock and at its wait; the other threads do what they like in between.
-/

namespace SysprogLabs.Tpool

open Prog

variable {junk : Nat → Value} {s s' : System} {label : Action × Out} {clients c t p : Nat} {pool : Ptr}
  {timeout : Timeout} {task : ThreadTask} {wait : WaitResult}

/-! ## The pieces of the call -/

theorem timedJoin_starts {h : Heap} : ((Call.onTask (.timedJoin timeout) t).start junk).Yields h fun turn h' =>
    h' = h ∧ (turn.out = .running → ∃ task p i, h.tasks.cell t = some task ∧ task.list.head? = some p ∧
      h.tpTasks.cell p = some i ∧ turn.next = .locking (.timedJoin timeout) t p i.pool) := by
  simp only [Call.start, TaskCall.start, getTpTask, yields_bind, Lens.yields_load, yields_pure, taskHeap_get]
  rintro _ ⟨⟩ task live
  split
  · next p newest =>
    simp only [yields_bind, Lens.yields_load, yields_pure, tpTaskHeap_get]
    rintro _ ⟨⟩ i at_p
    exact ⟨trivial, fun _ => ⟨task, p, i, live, newest, at_p, rfl⟩⟩
  · exact yields_pure.mpr ⟨rfl, by simp⟩

/-- The timeout is tested first. -/
theorem timedJoin_locks {h : Heap} : (threadTaskTimedJoin timeout t p pool).Yields h fun turn h' =>
    (timeout.isNotPositive = true ∧ turn.out = .returned tpoolErrTimeout ∧ h' = h) ∨
    (timeout.isNotPositive = false ∧ ∃ i, h.tpTasks.cell p = some i ∧
      h' = { h with tpTasks := h.tpTasks.put p { i with isJoined := true } } ∧
      (i.isFinished = true ∧ turn.out = .joined i.result ∨
        i.isFinished = false ∧ turn.out = .running ∧ turn.next = .joining t p pool true false)) := by
  simp only [threadTaskTimedJoin, lock, yields_bind, Lens.yields_load, yields_pure]
  intro _ _ _ _
  cases positive : timeout.isNotPositive with
  | true => simp
  | false =>
    simp only [Bool.false_eq_true, if_false, yields_bind, Lens.yields_modify, Lens.yields_load, tpTaskHeap_get,
      tpTaskHeap_set, Store.put_cell]
    rintro _ ⟨⟩ i live _ ⟨⟩ i' live'
    obtain rfl : { i with isJoined := true } = i' := by simpa [live] using live'
    refine yields_ite.mpr ⟨fun pending => ?_, fun done => ?_⟩
    · exact yields_pure.mpr (.inr ⟨trivial, i, live, rfl, .inr ⟨pending, rfl, rfl⟩⟩)
    · exact yields_pure.mpr (.inr ⟨trivial, i, live, rfl, .inl ⟨by simpa using done, rfl⟩⟩)

/-- Only `ETIMEDOUT` is told from the end of the instance. -/
theorem timedJoin_wakes {h : Heap} : (joinWoken p pool true wait).Yields h fun turn h' => h' = h ∧
    (wait = .timedOut ∧ turn.out = .returned tpoolErrTimeout ∨
      wait ≠ .timedOut ∧ ∃ i, h.tpTasks.cell p = some i ∧ turn.out = .joined i.result) := by
  simp only [joinWoken, lock, yields_bind, Lens.yields_load, yields_pure]
  intro _ _ _ _
  by_cases expired : wait = .timedOut
  · simp [expired]
  · simp only [expired, and_false, if_false, yields_bind, Lens.yields_load, yields_pure, tpTaskHeap_get]
    rintro _ ⟨⟩ i live
    exact ⟨trivial, .inr ⟨by simpa using expired, i, live, rfl⟩⟩

/-! ## A call -/

/-- A step of another thread. -/
def AwayStep (junk : Nat → Value) (c : Nat) (s : System) (label : Action × Out) (s' : System) : Prop :=
  Step junk s label s' ∧ (∀ function, label.1 ≠ .call c function) ∧ ∀ wait, label.1 ≠ .proceed c wait

/-- How a call ends that has got the mutex. -/
inductive Ending where
  /-- It answers without a wait. -/
  | atOnce (answer : Out)
  /-- It waits; in the state `woken` the wait returns `wait`, and the call answers in the state `last`. -/
  | waited (woken : System) (wait : WaitResult) (answer : Out) (last : System)

namespace Ending

def answer : Ending → Out
  | atOnce answer => answer
  | waited _ _ answer _ => answer

/-- The state behind the call, where `locked` is the one behind its first critical section. -/
def last (locked : System) : Ending → System
  | atOnce _ => locked
  | waited _ _ _ last => last

/-- The steps of the client from its lock on. -/
def Steps (junk : Nat → Value) (c : Nat) (locks locked : System) : Ending → Prop
  | atOnce answer => answer ≠ .running ∧ ∃ wait, Step junk locks (.proceed c wait, answer) locked
  | waited woken wait answer last => (∃ wait, Step junk locks (.proceed c wait, .running) locked) ∧
      (∃ ls, Run (AwayStep junk c) locked ls woken) ∧ Step junk woken (.proceed c wait, answer) last

end Ending

/-- A call `thread_task_timed_join(t, timeout, …)` of the client `c`, in any run.  It begins in `start`, has
    looked up the instance `p` of `task` in `looked`, gets the mutex in `locks` and gives it back in `locked`. -/
structure TimedJoin (junk : Nat → Value) (clients c t : Nat) (timeout : Timeout) (p : Nat) (task : ThreadTask)
    (start looked locks locked : System) (ending : Ending) : Prop where
  reachable : Reachable (Step junk) (.init clients) start
  live : start.heap.tasks.cell t = some task
  newest : task.list.head? = some p
  call : Step junk start (.call c (.onTask (.timedJoin timeout) t), .running) looked
  before : ∃ ls, Run (AwayStep junk c) looked ls locks
  steps : ending.Steps junk c locks locked

/-- The instance is finished. -/
def System.Finished (s : System) (p : Nat) : Prop := ∃ i, s.heap.tpTasks.cell p = some i ∧ i.isFinished = true

/-- `is_joined` of the instance is set. -/
def System.Joined (s : System) (p : Nat) : Prop := ∃ i, s.heap.tpTasks.cell p = some i ∧ i.isJoined = true

/-- What a timed join should come to. -/
structure JoinsInTime (p : Nat) (task : ThreadTask) (start looked locks locked : System) (ending : Ending) : Prop where
  /-- It returns 0 with the result of the finished instance only. -/
  result : ∀ value, ending.answer = .joined value → JoinedResult p task value (ending.last locked)
  /-- It returns 0 if the instance is finished when it gets the mutex. -/
  finished : locks.Finished p → ∃ value, ending.answer = .joined value
  /-- When it gives up, none of its steps has changed anything. -/
  nothing : ending.answer = .returned tpoolErrTimeout → looked.heap = start.heap ∧ locked.heap = locks.heap ∧
    match ending with
    | .atOnce _ => True
    | .waited woken _ _ last => last.heap = woken.heap

/-- Where the code does so. -/
structure WaitsInTime (timeout : Timeout) (p : Nat) (locks : System) (ending : Ending) : Prop where
  positive : locks.Finished p → timeout.isNotPositive = false
  waits : match ending with
    | .atOnce _ => True
    | .waited woken wait _ _ => (wait = .timedOut → locks.Joined p) ∧ (wait ≠ .timedOut → woken.Finished p)

/-! ## Where the client is -/

/-- Meanwhile the others can only notify it. -/
theorem away_there {ls : List (Action × Out)} {client : Client} (run : Run (AwayStep junk c) s ls s')
    (here : s.clients[c]? = some client) :
    ∃ client', s'.clients[c]? = some client' ∧ (client' = client ∨ client' = client.notify) := by
  induction run generalizing client with
  | nil => exact ⟨client, here, .inl rfl⟩
  | @cons s label s₁ s' ls one _ ih =>
    obtain ⟨step, noCall, noProceed⟩ := one
    obtain ⟨client₁, here₁⟩ := step.change.still_there here
    obtain ⟨client₀, here₀, told | ⟨wait, turn, same, -⟩⟩ := step.change.client noCall here₁
    · cases here₀.symm.trans here
      obtain ⟨client', here', again⟩ := ih here₁
      refine ⟨client', here', ?_⟩
      rcases told with rfl | rfl
      · exact again
      · rw [Client.notify_notify, or_self] at again
        exact .inr again
    · exact absurd (congrArg Prod.fst same) (noProceed wait)

theorem always_step {ls : List (Action × Out)} (run : Run (Step junk) s ls s') :
    Run (StepWhen junk fun _ _ _ => True) s ls s' := run.mono fun _ _ _ step => ⟨step, trivial⟩

theorem away_run {ls : List (Action × Out)} (run : Run (AwayStep junk c) s ls s') : Run (Step junk) s ls s' :=
  run.mono fun _ _ _ step => step.1

/-- The states of a call, and where its client is in them. -/
structure TimedJoin.Places (junk : Nat → Value) (clients c t : Nat) (timeout : Timeout) (p : Nat) (task : ThreadTask)
    (start looked locks : System) : Prop where
  found : looked.heap = start.heap
  reachable : Reachable (Step junk) (.init clients) locks
  created : .created t task.function task.arg ∈ locks.log
  here : ∃ pool, locks.clients[c]? = some (.locking (.timedJoin timeout) t p pool)

theorem TimedJoin.places {start looked locks locked : System} {ending : Ending}
    (joins : TimedJoin junk clients c t timeout p task start looked locks locked ending) :
    TimedJoin.Places junk clients c t timeout p task start looked locks := by
  obtain ⟨⟨labels, first⟩, live, newest, call, ⟨ls, before⟩, -⟩ := joins
  obtain ⟨turn, idle, returned, running, shape⟩ := Step.ofCall call
  obtain ⟨same, looks⟩ := timedJoin_starts turn looked.heap returned
  obtain ⟨task', q, i, live', newest', at_q, next⟩ := looks running.symm
  obtain rfl : task = task' := Option.some.inj (live.symm.trans live')
  obtain rfl : p = q := Option.some.inj (newest.symm.trans newest')
  have does := Call.start_yields start.heap rfl turn looked.heap returned
  have places : looked.shape.clients = start.clients.set c turn.next := by
    rw [shape]
    exact does.sameClients
  have at_c : looked.clients[c]? = some turn.next :=
    (congrArg (·[c]?) places).trans (List.getElem?_set_self (List.getElem?_eq_some_iff.mp idle).1)
  rw [next] at at_c
  obtain ⟨client, here, told⟩ := away_there before at_c
  obtain rfl : client = .locking (.timedJoin timeout) t p i.pool := or_self_iff.mp told
  have run := Run.cons call (away_run before)
  have sound := reachable_sound ⟨labels, always_step first⟩
  exact ⟨same, ⟨_, first.append run⟩, log_grows (always_step run) (sound.logged.tasks t task live), i.pool, here⟩

/-- The first critical section. -/
theorem TimedJoin.Places.locked {start looked locks locked : System} {answer : Out}
    (places : TimedJoin.Places junk clients c t timeout p task start looked locks)
    (step : Step junk locks (.proceed c wait, answer) locked) :
    (timeout.isNotPositive = true ∧ answer = .returned tpoolErrTimeout ∧ locked.heap = locks.heap) ∨
    (timeout.isNotPositive = false ∧ ∃ i, locks.heap.tpTasks.cell p = some i ∧
      locked.heap = { locks.heap with tpTasks := locks.heap.tpTasks.put p { i with isJoined := true } } ∧
      (i.isFinished = true ∧ answer = .joined i.result ∨
        i.isFinished = false ∧ answer = .running ∧ ∃ pool, locked.clients[c]? = some (.joining t p pool true false))) := by
  obtain ⟨pool, at_c⟩ := places.here
  obtain ⟨client, turn, here, returned, rfl, shape⟩ := Step.ofProceed step
  obtain rfl : client = _ := Option.some.inj (here.symm.trans at_c)
  rcases timedJoin_locks turn locked.heap returned with expired | ⟨positive, i, live, heap, done | ⟨pending, running, next⟩⟩
  · exact .inl expired
  · exact .inr ⟨positive, i, live, heap, .inl done⟩
  · refine .inr ⟨positive, i, live, heap, .inr ⟨pending, running, pool, ?_⟩⟩
    have does := Client.proceed_yields locks.heap rfl turn locked.heap returned
    rw [does.silent] at shape
    have moved : locked.clients = locks.clients.set c turn.next := congrArg Shape.clients shape
    rw [moved, next]
    exact List.getElem?_set_self (List.getElem?_eq_some_iff.mp here).1

/-- Behind the wait. -/
theorem woken_step {woken last : System} {answer : Out} {notified : Bool}
    (at_c : woken.clients[c]? = some (.joining t p pool true notified))
    (step : Step junk woken (.proceed c wait, answer) last) : last.heap = woken.heap ∧
    (wait = .timedOut ∧ answer = .returned tpoolErrTimeout ∨
      wait ≠ .timedOut ∧ ∃ i, woken.heap.tpTasks.cell p = some i ∧ answer = .joined i.result) := by
  obtain ⟨client, turn, here, returned, rfl, -⟩ := Step.ofProceed step
  obtain rfl : client = _ := Option.some.inj (here.symm.trans at_c)
  exact timedJoin_wakes turn last.heap returned

/-! ## What the call comes to -/

/-- What a finished instance of the task holds. -/
theorem finished_returned (reachable : Reachable (Step junk) (.init clients) s)
    (created : .created t task.function task.arg ∈ s.log) (knows : s.shape.records.Knows t p pool)
    {i : ThreadPoolTask} (live : s.heap.tpTasks.cell p = some i) (finished : i.isFinished = true) :
    .returned ⟨p, task.function, task.arg⟩ i.result ∈ s.log := by
  obtain ⟨labels, run⟩ := reachable
  have reachable : Reachable (StepWhen junk fun _ _ _ => True) (.init clients) s := ⟨labels, always_step run⟩
  obtain ⟨function, arg, created', returned⟩ := (reachable_sound reachable).finished_result (System.record live) finished
  rw [(knows.2 _ (System.record live)).1] at created'
  obtain ⟨rfl, rfl⟩ := (reachable_registered reachable).unique t function arg task.function task.arg created' created
  exact returned

theorem Step.log_subset (step : Step junk s label s') : s.log ⊆ s'.log := step.change.log_grows.subset

theorem reachable_aware (reachable : Reachable (Step junk) (.init clients) s) {client : Client}
    (here : s.clients[c]? = some client) : client.Aware s.shape.records s.log := by
  obtain ⟨labels, run⟩ := reachable
  have sound := reachable_sound ⟨labels, always_step run⟩
  exact sound.aware client (List.mem_of_getElem? here)

variable {start looked locks locked woken last : System} {answer : Out}

/-- A call that does not wait has given up, or has found the instance finished. -/
theorem TimedJoin.at_once (joins : TimedJoin junk clients c t timeout p task start looked locks locked (.atOnce answer)) :
    (timeout.isNotPositive = true ∧ answer = .returned tpoolErrTimeout ∧ locked.heap = locks.heap) ∨
    (timeout.isNotPositive = false ∧ locks.Finished p ∧ ∃ value, answer = .joined value ∧
      JoinedResult p task value locked) := by
  have places := joins.places
  obtain ⟨stops, wait, step⟩ := joins.steps
  rcases places.locked step with expired | ⟨positive, i, live, heap, ⟨finished, rfl⟩ | ⟨-, running, -⟩⟩
  · exact .inl expired
  · obtain ⟨pool, at_c⟩ := places.here
    have knows := reachable_aware places.reachable at_c
    have returned := finished_returned places.reachable places.created knows live finished
    refine .inr ⟨positive, ⟨i, live, finished⟩, i.result, rfl, { i with isJoined := true }, ?_, finished, rfl, ?_⟩
    · rw [heap]
      simp [live]
    · exact Step.log_subset step returned
  · exact absurd running stops

/-- A call that waits has found the instance unfinished, and has set `is_joined`. -/
theorem TimedJoin.waits
    (joins : TimedJoin junk clients c t timeout p task start looked locks locked (.waited woken wait answer last)) :
    timeout.isNotPositive = false ∧ ¬ locks.Finished p ∧ locked.Joined p ∧
      (locks.Joined p → locked.heap = locks.heap) ∧ last.heap = woken.heap ∧
      (wait = .timedOut ∧ answer = .returned tpoolErrTimeout ∨ wait ≠ .timedOut ∧
        ∃ value, answer = .joined value ∧ (woken.Finished p → JoinedResult p task value last)) := by
  have places := joins.places
  obtain ⟨⟨wait', blocks⟩, ⟨ls, away⟩, wakes⟩ := joins.steps
  rcases places.locked blocks with ⟨-, running, -⟩ | ⟨positive, i, live, heap, ⟨-, running⟩ | ⟨pending, -, pool, at_c⟩⟩
  · cases running
  · cases running
  · -- The client is where it waits, notified or not.
    obtain ⟨client, here, told⟩ := away_there away at_c
    obtain ⟨notified, rfl⟩ : ∃ notified, client = .joining t p pool true notified := by
      rcases told with rfl | rfl
      · exact ⟨false, rfl⟩
      · exact ⟨true, rfl⟩
    have reachable : Reachable (Step junk) (.init clients) woken := by
      obtain ⟨labels, run⟩ := places.reachable
      exact ⟨_, run.append (.cons blocks (away_run away))⟩
    obtain ⟨same, outcome⟩ := woken_step here wakes
    refine ⟨positive, ?_, ⟨{ i with isJoined := true }, by rw [heap]; simp [live], rfl⟩, ?_, same, ?_⟩
    · rintro ⟨i', live', finished⟩
      obtain rfl := Option.some.inj (live.symm.trans live')
      rw [pending] at finished
      cases finished
    · rintro ⟨i', live', joined⟩
      obtain rfl := Option.some.inj (live.symm.trans live')
      have stays : { i with isJoined := true } = i := by rw [← joined]
      rw [heap, stays, Store.put_self live]
    · refine outcome.imp_right fun ⟨other, j, at_p, same_answer⟩ => ⟨other, j.result, same_answer, ?_⟩
      rintro ⟨j', at_p', finished⟩
      obtain rfl := Option.some.inj (at_p.symm.trans at_p')
      have created : .created t task.function task.arg ∈ woken.log :=
        log_grows (always_step (.cons blocks (away_run away))) places.created
      have returned := finished_returned reachable created (reachable_aware reachable here).1 at_p finished
      exact ⟨j, same ▸ at_p, finished, rfl, Step.log_subset wakes returned⟩

theorem TimedJoin.inTime_of_joins {ending : Ending}
    (joins : TimedJoin junk clients c t timeout p task start looked locks locked ending)
    (correct : JoinsInTime p task start looked locks locked ending) : WaitsInTime timeout p locks ending := by
  obtain ⟨result, finished, nothing⟩ := correct
  cases ending with
  | atOnce answer =>
    refine ⟨fun done => ?_, trivial⟩
    rcases joins.at_once with ⟨-, rfl, -⟩ | ⟨positive, -⟩
    · obtain ⟨value, same⟩ := finished done
      cases same
    · exact positive
  | waited woken wait answer last =>
    obtain ⟨positive, -, joined, -, same, outcome⟩ := joins.waits
    refine ⟨fun _ => positive, fun expired => ?_, fun other => ?_⟩
    · rcases outcome with ⟨-, rfl⟩ | ⟨other, -⟩
      · obtain ⟨-, unchanged, -⟩ := nothing rfl
        rwa [System.Joined, unchanged] at joined
      · exact absurd expired other
    · rcases outcome with ⟨expired, -⟩ | ⟨-, value, rfl, -⟩
      · exact absurd expired other
      · obtain ⟨i, live, finished, -⟩ := result value rfl
        exact ⟨i, same ▸ live, finished⟩

theorem TimedJoin.joins_of_inTime {ending : Ending}
    (joins : TimedJoin junk clients c t timeout p task start looked locks locked ending)
    (inTime : WaitsInTime timeout p locks ending) : JoinsInTime p task start looked locks locked ending := by
  have found := joins.places.found
  obtain ⟨positive, waits⟩ := inTime
  cases ending with
  | atOnce answer =>
    rcases joins.at_once with ⟨expired, rfl, same⟩ | ⟨-, finished, value, rfl, joined⟩
    · refine ⟨nofun, fun finished => ?_, fun _ => ⟨found, same, trivial⟩⟩
      rw [positive finished] at expired
      cases expired
    · refine ⟨?_, fun _ => ⟨value, rfl⟩, nofun⟩
      rintro _ ⟨⟩
      exact joined
  | waited woken wait answer last =>
    obtain ⟨-, pending, -, kept, same, outcome⟩ := joins.waits
    refine ⟨?_, fun finished => absurd finished pending, ?_⟩
    · rintro value rfl
      rcases outcome with ⟨-, other⟩ | ⟨other, value', same_value, joined⟩
      · cases other
      · cases same_value
        exact joined (waits.2 other)
    · rintro rfl
      rcases outcome with ⟨expired, -⟩ | ⟨-, value, other, -⟩
      · exact ⟨found, kept (waits.1 expired), same⟩
      · cases other

/-- A timed join comes to what it should if and only if a positive timeout goes with a finished instance, and
    a wait ends with `ETIMEDOUT` only where `is_joined` was set before, and with anything else only when the
    instance is finished. -/
theorem timed_join_outcome {ending : Ending}
    (joins : TimedJoin junk clients c t timeout p task start looked locks locked ending) :
    JoinsInTime p task start looked locks locked ending ↔ WaitsInTime timeout p locks ending :=
  ⟨joins.inTime_of_joins, joins.joins_of_inTime⟩

/-! ## Two calls -/

/-- The call has looked up an instance. -/
theorem timedJoin_looks {looked : System} (call : Step junk s (.call c (.onTask (.timedJoin timeout) t), .running) looked) :
    looked.heap = s.heap ∧ ∃ task p, s.heap.tasks.cell t = some task ∧ task.list.head? = some p := by
  obtain ⟨turn, -, returned, running, -⟩ := Step.ofCall call
  obtain ⟨same, looks⟩ := timedJoin_starts turn looked.heap returned
  obtain ⟨task, p, i, live, newest, -⟩ := looks running.symm
  exact ⟨same, task, p, live, newest⟩

/-- A new instance, and a timed join that is about to get the mutex. -/
def timedJoinFirst : List Action := [.call 0 (.poolNew 1), .call 0 (.taskNew 7 5), .call 0 (.poolPushTask 0 0),
  .call 0 (.onTask (.timedJoin (.finite 1)) 0)]

theorem timed_join_outcome_notified : ∃ p task start looked locks locked ending,
    TimedJoin (fun _ => 9) 1 0 0 (.finite 1) p task start looked locks locked ending ∧
    (JoinsInTime p task start looked locks locked ending ↔ WaitsInTime (.finite 1) p locks ending) := by
  obtain ⟨outs, last, run, shown⟩ := replay_ends (fun _ => 9) (fun _ _ _ => True) 5 (timedJoinFirst ++
    [.proceed 0 .woken, .work 0 0 [], .work 0 0 [], .work 0 42 [], .work 0 0 [0], .proceed 0 .woken]) (.init 1)
    (fun outs _ => outs == [.created 0, .created 0, .returned 0, .running, .running, .running, .running, .running,
      .running, .joined 42]) (by decide +kernel)
  obtain rfl := eq_of_beq shown
  rcases run.mono (fun _ _ _ step => step.1) with _ | ⟨newPool, _ | ⟨newTask, _ | ⟨pushes, _ | ⟨call, _ | ⟨blocks,
    _ | ⟨picks, _ | ⟨invokes, _ | ⟨stores, _ | ⟨completes, _ | ⟨wakes, ⟨⟩⟩⟩⟩⟩⟩⟩⟩⟩⟩⟩
  obtain ⟨-, task, p, live, newest⟩ := timedJoin_looks call
  have away := Run.cons picks (.cons invokes (.cons stores (.single completes)))
  have joins : TimedJoin (fun _ => 9) 1 0 0 (.finite 1) p task _ _ _ _ (.waited _ .woken (.joined 42) last) :=
    ⟨⟨_, .cons newPool (.cons newTask (.single pushes))⟩, live, newest, call, ⟨_, .nil _⟩, ⟨_, blocks⟩,
      ⟨_, away.mono_of_labels fun s label s' mem step => ⟨step, by
        simp only [List.mem_cons, List.not_mem_nil, or_false] at mem
        rcases mem with rfl | rfl | rfl | rfl <;> simp⟩⟩, wakes⟩
  exact ⟨p, task, _, _, _, _, _, joins, timed_join_outcome joins⟩

/-- A timed join that gives up leaves `is_joined` set, so the task can be deleted while its instance is pending. -/
theorem timed_join_leaves_joined : ∃ p task start looked locks locked woken last,
    TimedJoin (fun _ => 9) 1 0 0 (.finite 1) p task start looked locks locked
      (.waited woken .timedOut (.returned tpoolErrTimeout) last) ∧
    ¬ JoinsInTime p task start looked locks locked (.waited woken .timedOut (.returned tpoolErrTimeout) last) ∧
    ¬ locks.Finished p ∧ ∃ s, Run (Step fun _ => 9) last
      [(.call 0 (.onTask .delete 0), .running), (.proceed 0 .woken, .returned 0)] s := by
  obtain ⟨outs, locks, run, shown⟩ := replay_ends (fun _ => 9) (fun _ _ _ => True) 5 timedJoinFirst (.init 1)
    (fun outs s => outs == [.created 0, .created 0, .returned 0, .running] &&
      (s.heap.tasks.cell 0).any (fun task => task.list.head? == some 0) &&
      (s.heap.tpTasks.cell 0).any (fun i => !i.isJoined) &&
      (replay (fun _ => 9) (fun _ _ _ => True) 5 [.proceed 0 .woken, .proceed 0 .timedOut, .call 0 (.onTask .delete 0),
        .proceed 0 .woken] s).any fun result => result.1 == [.running, .returned tpoolErrTimeout, .running, .returned 0])
    (by decide +kernel)
  simp only [Bool.and_eq_true] at shown
  obtain ⟨⟨⟨first, listed⟩, unjoined⟩, later⟩ := shown
  obtain rfl := eq_of_beq first
  obtain ⟨outs', s, run', ends⟩ := replay_ends _ _ _ _ locks (fun outs _ =>
    outs == [.running, .returned tpoolErrTimeout, .running, .returned 0]) later
  obtain rfl := eq_of_beq ends
  rcases run.mono (fun _ _ _ step => step.1) with _ | ⟨newPool, _ | ⟨newTask, _ | ⟨pushes, _ | ⟨call, ⟨⟩⟩⟩⟩⟩
  rcases run'.mono (fun _ _ _ step => step.1) with _ | ⟨blocks, _ | ⟨expires, deletes⟩⟩
  obtain ⟨same, task, p, live, newest⟩ := timedJoin_looks call
  have joins : TimedJoin (fun _ => 9) 1 0 0 (.finite 1) p task _ _ _ _
      (.waited _ .timedOut (.returned tpoolErrTimeout) _) :=
    ⟨⟨_, .cons newPool (.cons newTask (.single pushes))⟩, live, newest, call, ⟨_, .nil _⟩, ⟨_, blocks⟩, ⟨_, .nil _⟩, expires⟩
  refine ⟨p, task, _, _, locks, _, _, _, joins, fun correct => ?_, joins.waits.2.1, s, deletes⟩
  obtain ⟨i, at_p, joined⟩ := (joins.inTime_of_joins correct).waits.1 rfl
  obtain ⟨task', live', listed⟩ := (Option.any_eq_true _ _).mp listed
  obtain ⟨i', at_0, unjoined⟩ := (Option.any_eq_true _ _).mp unjoined
  rw [same] at live'
  obtain rfl := Option.some.inj (live.symm.trans live')
  obtain rfl : p = 0 := Option.some.inj (newest.symm.trans (eq_of_beq listed))
  obtain rfl := Option.some.inj (at_p.symm.trans at_0)
  rw [joined] at unjoined
  cases unjoined

end SysprogLabs.Tpool
