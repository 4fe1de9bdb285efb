import SysprogLabs.Tpool.Runs

/-! # Exactly-once execution

In a run that releases no pending or running instance a worker always finds the instance
it has in hand, so that the flags, the log and the counters tell the same story.
-/

namespace SysprogLabs.Tpool

section

variable {junk : Nat → Value} {first : Nat → Ptr → Prop} {s s' : Shape} {label : Action × Out}

/-- A worker has in hand what it had in hand before, or an instance that is live. -/
theorem Change.hands (change : Change junk first s label s') {i p : Nat} {pc : WorkerPc}
    (on : duty s'.workers i = some pc) (hand : pc.tpTask = some p) :
    (∃ pc₀, duty s.workers i = some pc₀ ∧ pc₀.tpTask = some p) ∨ ∃ f, s'.records.instances p = some f := by
  cases change with
  | call idle does =>
    rw [duty_call does] at on
    exact .inl ⟨pc, on, hand⟩
  | proceed here does => exact .inl ⟨pc, on, hand⟩
  | @work w value woken worker turn r' here does wakes =>
    obtain ⟨P, at_pc⟩ := worker
    rw [Shape.receive_records]
    -- No signal of a worker changes what another one has in hand.
    have moved : duty (turn.signals.foldl (Shape.receive woken) {
        records := r'
        workers := s.workers.set w { pool := P, pc := turn.next }
        clients := s.clients
        log := turn.marks ++ s.log }).workers = fun j => if j = w then
          (if turn.next.tpTask.isSome then some turn.next else none) else duty s.workers j := by
      rw [← duty_set here]
      cases does <;> rfl
    rw [moved] at on
    by_cases own : i = w
    · subst own
      simp only [if_true] at on
      split at on
      · cases on
        cases does with
        | slept | exited | completed | released => cases hand
        | picked looking live active found taken pending =>
          cases hand
          exact .inr ⟨_, Records.setInstance_found _⟩
        | called found live => exact .inl ⟨_, duty_some.mpr ⟨_, here, rfl, rfl⟩, hand⟩
        | stored found => exact .inl ⟨_, duty_some.mpr ⟨_, here, rfl, rfl⟩, hand⟩
      · cases on
    · simp only [if_neg own] at on
      exact .inl ⟨pc, on, hand⟩

/-- An instance is completed by the worker that has it in hand, and then it is put down. -/
theorem Change.completes (change : Change junk first s label s') {p : Nat} (completed : .completed p ∈ s'.log) :
    .completed p ∈ s.log ∨ ∃ i, duty s.workers i = some (.returned p) ∧ duty s'.workers i = none := by
  cases change with
  | call idle does =>
    rw [Calls.sameLog does] at completed
    exact .inl (mem_aside does.marks_aside completed id)
  | proceed here does => exact .inl (mem_aside does.marks_aside completed id)
  | @work w value woken worker turn r' here does wakes =>
    obtain ⟨P, at_pc⟩ := worker
    cases does with
    | slept => exact .inl completed
    | exited => exact .inl completed
    | picked => exact .inl completed
    | called => exact .inl (by simpa using completed)
    | stored => exact .inl (by simpa using completed)
    | @completed q f c found live kept =>
      have logged : p = q ∨ .completed p ∈ s.log := by simpa using Shape.signalEnd_log completed
      cases logged with
      | inr old => exact .inl old
      | inl same =>
        subst same
        refine .inr ⟨w, duty_some.mpr ⟨_, here, rfl, rfl⟩, ?_⟩
        show duty (s.workers.set w { pool := P, pc := .ready }) w = none
        rw [duty_free here rfl]
        exact if_pos rfl
    | @released q f c ret r' found live detached deletes =>
      have logged : p = q ∨ .completed p ∈ s.log := by simpa using Shape.signalEnd_log completed
      cases logged with
      | inr old => exact .inl old
      | inl same =>
        subst same
        refine .inr ⟨w, duty_some.mpr ⟨_, here, rfl, rfl⟩, ?_⟩
        show duty (s.workers.set w { pool := P, pc := .ready }) w = none
        rw [duty_free here rfl]
        exact if_pos rfl

/-- Every worker finds the instance it has in hand. -/
def Shape.Alive (s : Shape) : Prop :=
  ∀ i pc p, duty s.workers i = some pc → pc.tpTask = some p → ∃ f, s.records.instances p = some f

theorem Change.alive (change : Change junk first s label s') (sound : Sound s) (alive : s.Alive)
    (careful : ∀ p f, s.records.instances p = some f → s'.records.instances p = none → .completed p ∈ s'.log) :
    s'.Alive := by
  intro i pc p on hand
  cases change.hands on hand with
  | inr live => exact live
  | inl old =>
    obtain ⟨pc₀, on₀, hand₀⟩ := old
    obtain ⟨f, found⟩ := alive i pc₀ p on₀ hand₀
    cases still : s'.records.instances p with
    | some f' => exact ⟨f', rfl⟩
    | none =>
      -- It would have been released at its completion, but its worker still has it in hand.
      cases change.completes (careful p f found still) with
      | inl done =>
        have running := sound.executing.running i pc₀ p f on₀ hand₀ found
        obtain ⟨-, -, finished⟩ := sound.logged.completed p done
        rw [finished f found] at running
        cases running.2
      | inr now =>
        obtain ⟨j, on_j, put⟩ := now
        obtain rfl := sound.executing.alone i j pc₀ _ p on₀ on_j hand₀ rfl
        rw [on] at put
        cases put

end

variable {junk : Nat → Value} {s s' : System} {label : Action × Out}

theorem Careful.records (careful : Careful s label s') (p : Nat) (f : Fields)
    (found : s.shape.records.instances p = some f) (gone : s'.shape.records.instances p = none) :
    .completed p ∈ s'.log := by
  obtain ⟨t, live, -⟩ := System.object found
  refine careful p (Store.lt_next live) ⟨by rw [live]; rfl, ?_⟩
  rw [Option.isNone_iff_eq_none]
  exact Option.map_eq_none_iff.mp gone

theorem reachable_alive {cond : System → Action × Out → System → Prop} {clients : Nat}
    (careful : ∀ s label s', cond s label s' → Careful s label s')
    (reachable : Reachable (StepWhen junk cond) (System.init clients) s) : s.shape.Alive := by
  apply reachable_invariant reachable
  · exact nofun
  · intro s label s' sound alive step
    exact step.1.change.alive sound alive (careful _ _ _ step.2).records

/-! ## The statement -/

/-- What the flags of the instances, the workers and the log say about each other. -/
structure ExecutedOnce (s : System) : Prop where
  once : ∀ p, invocations s.log p ≤ 1
  finished : ∀ p t, s.heap.tpTasks.cell p = some t → t.isFinished = true → invocations s.log p = 1
  ofTask : ∀ call t, .invoked call ∈ s.log → s.heap.tpTasks.cell call.tpTask = some t →
    .created t.threadTask call.function call.arg ∈ s.log
  exclusive : ∀ p t, s.heap.tpTasks.cell p = some t → ¬ (t.isRunning = true ∧ t.isFinished = true)
  running : ∀ p, (∃ t, s.heap.tpTasks.cell p = some t ∧ t.isRunning = true) ↔
    ∃ w ∈ s.workers, w.pc.tpTask = some p
  alone : ∀ (i j : Nat) (v w : Worker) (p : Nat), s.workers[i]? = some v → s.workers[j]? = some w →
    v.pc.tpTask = some p → w.pc.tpTask = some p → i = j

/-- What the thread counters of the pools count. -/
def Accounted (s : System) : Prop :=
  ∀ P pool, s.heap.pools.cell P = some pool →
    pool.activeThreadsCnt = s.workers.countP (Worker.isBusy P) ∧
    pool.threadsCnt = s.workers.countP (Worker.isThread P) ∧
    0 ≤ pool.activeThreadsCnt ∧ pool.activeThreadsCnt ≤ pool.threadsCnt ∧
    pool.threadsCnt ≤ pool.maxThreadsCnt ∧ pool.maxThreadsCnt ≤ tpoolMaxThreads

/-- What a step does to the set of instances: a successful push creates one, which was not
    invoked, and nothing else does; a finished one stays finished until it is released. -/
structure Progresses (s : System) (label : Action × Out) (s' : System) : Prop where
  pushed : ∀ c P t, label = (.call c (.poolPushTask P t), .returned 0) →
    s'.heap.tpTasks.next = s.heap.tpTasks.next + 1 ∧ invocations s'.log s.heap.tpTasks.next = 0 ∧
    ∃ i, s'.heap.tpTasks.cell s.heap.tpTasks.next = some i ∧ i.threadTask = t ∧ i.pool = some P ∧
      i.isRunning = false ∧ i.isFinished = false
  otherwise : (∀ c P t, label ≠ (.call c (.poolPushTask P t), .returned 0)) →
    s'.heap.tpTasks.next = s.heap.tpTasks.next
  finished : ∀ p t t', s.heap.tpTasks.cell p = some t → t.isFinished = true →
    s'.heap.tpTasks.cell p = some t' → t'.isFinished = true

theorem Sound.executedOnce (sound : Sound s.shape) (alive : s.shape.Alive) : ExecutedOnce s where
  once := sound.logged.once
  finished p t live done := (sound.logged.completed p (sound.logged.finished p t.fields (System.record live) done).1).1
  ofTask call t mem live := by
    obtain ⟨-, u, created, owner⟩ := sound.logged.origin call mem
    have same : t.threadTask = u := owner t.fields (System.record live)
    exact same ▸ created
  exclusive p t live both := by
    obtain ⟨i, pc, on, hand⟩ := sound.executing.held p t.fields (System.record live) both.1
    have unfinished : t.isFinished = false := (sound.executing.running i pc p _ on hand (System.record live)).2
    rw [both.2] at unfinished
    cases unfinished
  running p := by
    constructor
    · rintro ⟨t, live, marked⟩
      obtain ⟨i, pc, on, hand⟩ := sound.executing.held p t.fields (System.record live) marked
      obtain ⟨w, here, at_pc, -⟩ := duty_some.mp on
      exact ⟨w, List.mem_of_getElem? here, by rw [at_pc]; exact hand⟩
    · rintro ⟨w, mem, hand⟩
      obtain ⟨i, here⟩ := List.mem_iff_getElem?.mp mem
      have on : duty s.workers i = some w.pc := duty_some.mpr ⟨w, here, rfl, by rw [hand]; rfl⟩
      obtain ⟨f, found⟩ := alive i w.pc p on hand
      obtain ⟨t, live, rfl⟩ := System.object found
      exact ⟨t, live, (sound.executing.running i w.pc p _ on hand found).1⟩
  alone i j v w p at_i at_j hand_v hand_w :=
    sound.executing.alone i j v.pc w.pc p (duty_some.mpr ⟨v, at_i, rfl, by rw [hand_v]; rfl⟩)
      (duty_some.mpr ⟨w, at_j, rfl, by rw [hand_w]; rfl⟩) hand_v hand_w

theorem isThread_of_isBusy {P : Nat} {w : Worker} (busy : w.isBusy P = true) : w.isThread P = true := by
  rw [Worker.isBusy, Bool.and_eq_true] at busy
  rw [Worker.isThread, busy.1, Bool.true_and, Bool.not_eq_true']
  cases at_pc : w.pc with
  | exited =>
    rw [at_pc] at busy
    cases busy.2
  | ready | asleep | picked | running | returned => rfl

theorem Sound.accounted (sound : Sound s.shape) : Accounted s := by
  intro P pool live
  have found := System.pool_record live
  have active : pool.activeThreadsCnt = s.workers.countP (Worker.isBusy P) := sound.staffed.active P _ found
  have threads : pool.threadsCnt = s.workers.countP (Worker.isThread P) := sound.staffed.threads P _ found
  have fewer : s.workers.countP (Worker.isBusy P) ≤ s.workers.countP (Worker.isThread P) :=
    List.countP_mono_left fun w _ => isThread_of_isBusy
  have bounded : pool.threadsCnt ≤ pool.maxThreadsCnt ∧ pool.maxThreadsCnt ≤ tpoolMaxThreads :=
    sound.staffed.bounded P _ found
  exact ⟨active, threads, by omega, by omega, bounded⟩

theorem Calls.nextInstance {r r' : Records} {function : Call} {turn : Turn Client}
    (does : Calls junk r function turn r')
    (other : ∀ P t, (function, turn.out) ≠ (.poolPushTask P t, .returned 0)) :
    r'.nextInstance = r.nextInstance := by
  cases does with
  | pushed live room found => exact absurd rfl (other _ _)
  | poolRefused | poolCreated | counted | hasTasks | closed | tooMany | taskCreated | lookedUp | notPushed
  | unpushed => rfl

theorem Works.nextInstance {first : Ptr → Prop} {r r' : Records} {value : Value} {P : Nat} {pc : WorkerPc}
    {turn : Turn WorkerPc} (does : Works r first value P pc turn r') : r'.nextInstance = r.nextInstance := by
  cases does with
  | released found live detached deletes => exact deletes.sameWork.nextInstance
  | slept | exited | picked | called | stored | completed => rfl

theorem Step.progresses (step : Step junk s label s') (sound : Sound s.shape) : Progresses s label s' where
  pushed c P t at_label := by
    subst at_label
    obtain ⟨turn, -, does, out, log, -⟩ := step.calls
    generalize at_next : s'.shape.records = r' at does
    cases does with
    | tooMany live full => cases out
    | pushed live room found =>
      have next : s'.shape.records.nextInstance = s.shape.records.nextInstance + 1 := by
        rw [at_next]
        rfl
      have made : s'.shape.records.instances s.shape.records.nextInstance =
          some { Fields.made t (junk s.shape.records.nextInstance) with isPushed := true, pool := some P } := by
        rw [at_next]
        exact if_pos rfl
      obtain ⟨i, live', fields⟩ := System.object made
      refine ⟨next, ?_, i, live', ?_, ?_, ?_, ?_⟩
      · rw [log]
        exact sound.logged.unborn _ (Nat.le_refl _)
      · exact congrArg Fields.threadTask fields
      · exact congrArg Fields.pool fields
      · exact congrArg Fields.isRunning fields
      · exact congrArg Fields.isFinished fields
  otherwise := by
    intro other
    have change := step.change
    show s'.shape.records.nextInstance = s.shape.records.nextInstance
    generalize s'.shape = t' at change
    cases change with
    | @call c function turn r' idle does =>
      rw [Shape.receive_records]
      apply does.nextInstance
      intro P t same
      rw [Prod.mk.injEq] at same
      exact other c P t (by rw [same.1, same.2])
    | proceed here does => exact does.sameWork.nextInstance
    | work here does wakes =>
      rw [Shape.receive_records]
      exact does.nextInstance
  finished p t t' live done live' := by
    obtain ⟨f, found, later⟩ := step.change.later.instances p t'.fields (System.record live') (Store.lt_next live)
    cases (System.record live).symm.trans found
    exact later.finished done

/-- In runs that release no pending or running instance, every instance is executed once
    at most, and exactly once before it is finished; the flags and the counters tell who
    executes what. -/
theorem executed_once {clients : Nat} (reachable : Reachable (StepWhen junk Careful) (System.init clients) s) :
    ExecutedOnce s ∧ Accounted s ∧
      ∀ label s', StepWhen junk Careful s label s' → Progresses s label s' :=
  have sound := reachable_sound reachable
  ⟨sound.executedOnce (reachable_alive (fun _ _ _ => id) reachable), sound.accounted,
    fun _ _ step => step.1.progresses sound⟩

theorem executed_once_joined : ∃ s, Reachable (StepWhen (fun _ => 9) Careful) (System.init 1) s ∧
    invocations s.log 0 = 1 ∧ ExecutedOnce s ∧ Accounted s := by
  obtain ⟨outs, s, run, shown⟩ := replay_ends (fun _ => 9) Careful 5 [.call 0 (.poolNew 1),
    .call 0 (.taskNew 7 5), .call 0 (.poolPushTask 0 0), .work 0 0 [], .work 0 0 [], .work 0 42 [], .work 0 0 [],
    .call 0 (.onTask .join 0), .proceed 0 .woken, .call 0 (.onTask .delete 0), .proceed 0 .woken] (.init 1)
    (fun outs s => outs.getLast? == some (.returned 0) && invocations s.log 0 == 1) (by decide +kernel)
  have once := executed_once ⟨_, run⟩
  rw [Bool.and_eq_true] at shown
  exact ⟨s, ⟨_, run⟩, by simpa using shown.2, once.1, once.2.1⟩

end SysprogLabs.Tpool
