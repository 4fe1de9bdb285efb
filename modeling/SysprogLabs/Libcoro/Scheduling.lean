import SysprogLabs.Libcoro.Refinement

/-! # Scheduler safety

What the labels of a run say about the coroutines, and the runs of a `main` that is given by its
calls.
-/

namespace SysprogLabs.Libcoro

open Prog

variable {s s' : State} {v v' : View} {label : Label} {labels : List Label} {c : Nat}

/-- Whose code runs; nobody's behind the exit. -/
def State.running (s : State) : Option Who :=
  match s.control with
  | .main | .waiting => some .sched
  | .body c _ => some (.coro c)
  | .exited => none

def Place.who : Place → Who
  | .main | .waiting => .sched
  | .inside c => .coro c

theorem Abstracts.running_eq (abstracts : Abstracts s v) :
    s.running = some v.place.who ∧ s.coroThisPtr = some v.place.who := by
  have here := abstracts.here
  cases place : v.place with
  | main | waiting =>
    simp only [State.At, place] at here
    simp [State.running, Place.who, here]
  | inside c =>
    simp only [State.At, place] at here
    obtain ⟨this, -, -, body, -, control⟩ := here
    simp [State.running, Place.who, this, control]

theorem Abstracts.control_iff (abstracts : Abstracts s v) :
    (s.control = .main ↔ v.place = .main) ∧ (s.control = .waiting ↔ v.place = .waiting) := by
  have here := abstracts.here
  cases place : v.place with
  | main | waiting =>
    simp only [State.At, place] at here
    simp [here]
  | inside c =>
    simp only [State.At, place] at here
    obtain ⟨-, -, -, body, -, control⟩ := here
    simp [control]

theorem run_abstracts (run : Run Step .init labels s) : ∃ v, Run View.Step .init labels v ∧ Abstracts s v :=
  run_onView run init_abstracts

/-! ## Transfers -/

theorem View.Step.place_eq {target : Who} (step : v.Step (.switch target) v') : v'.place.who = target := by
  cases step with
  | yieldMain place => simp [place, Place.who]
  | first | yieldNext | yieldLast => rfl

/-- A transfer to a coroutine. -/
theorem View.Step.target_busy (step : v.Step (.switch (.coro c)) v') (inv : v.Inv) :
    ∃ task ∈ v.tasks, task.1 = c ∧ task.2 ≠ none := by
  cases step with
  | @first c body t place tasks busy =>
    have mem : (c, body) ∈ v.tasks := by simp [tasks]
    exact ⟨_, mem, rfl, busy _ mem⟩
  | @yieldNext b d rest body t₁ t₂ place tasks =>
    have mem : (c, body) ∈ v.tasks := by simp [tasks]
    exact ⟨_, mem, rfl, (inv.busy b place).2 _ mem⟩

/-- Control goes to the scheduler, or to a coroutine of the list that has not finished. -/
def State.SafeSwitch (s : State) : Prop :=
  ∀ target s', Step s (.switch target) s' → s'.running = some target ∧
    ∀ c, target = .coro c → (∃ l, Chain s.nextOf s.coroList l ∧ c ∈ l) ∧ ¬ s.Finished c

theorem Abstracts.safeSwitch (abstracts : Abstracts s v) : s.SafeSwitch := by
  intro target s' step
  obtain ⟨v', one, abstracts'⟩ := step.onView abstracts
  refine ⟨one.place_eq ▸ abstracts'.running_eq.1, ?_⟩
  rintro c rfl
  obtain ⟨task, mem, rfl, busy⟩ := one.target_busy abstracts.inv
  refine ⟨⟨_, abstracts.listed.list.chain, List.mem_map_of_mem mem⟩, ?_⟩
  exact fun finished => busy ((abstracts.finished_iff mem).mp finished)

/-- Who finishes has a place to return to. -/
def State.HasPlace (s : State) : Prop :=
  (∀ c s', Step s (.finish c) s' → s.isSchedWaiting = true ∧ s'.running = some .sched) ∧ ∀ s', ¬ Step s .exit s'

theorem Abstracts.hasPlace (abstracts : Abstracts s v) : s.HasPlace := by
  refine ⟨fun c s' step => ?_, fun s' step => ?_⟩
  · obtain ⟨v', one, abstracts'⟩ := step.onView abstracts
    have here := abstracts.here
    have runs := abstracts'.running_eq.1
    cases one with
    | finish place =>
      simp only [State.At, place] at here
      exact ⟨here.2.1, runs⟩
  · obtain ⟨v', one, -⟩ := step.onView abstracts
    cases one

/-- A pass of the scheduler in which nobody finishes resumes who was in the list at its start, once
    and in order. -/
def State.PassesInOrder (s : State) : Prop :=
  ∃ l, Chain s.nextOf s.coroList l ∧ l.Nodup ∧ ∀ c labels s', s.control = .waiting →
    Run Step s (.switch (.coro c) :: labels ++ [.switch .sched]) s' → (∀ label ∈ labels, label.Passing) →
      c :: labels.filterMap Label.resumed = l

theorem Abstracts.passesInOrder (abstracts : Abstracts s v) : s.PassesInOrder := by
  have chain := abstracts.listed.list.chain
  refine ⟨_, chain, chain.nodup, fun c labels s' waiting pass passing => ?_⟩
  obtain ⟨v', steps, -⟩ := run_onView pass abstracts
  exact View.pass_in_order steps passing (abstracts.control_iff.2.mp waiting) abstracts.inv

/-! ## What is returned -/

/-- A coroutine is returned behind its creation and its end, and `NULL` behind all who were created. -/
def ReturnsFinished (labels : List Label) : Prop :=
  (∀ l₁ c l₂, labels = l₁ ++ .returned (some c) :: l₂ → .new c ∈ l₁ ∧ .finish c ∈ l₁) ∧
    ∀ l₁ l₂, labels = l₁ ++ .returned none :: l₂ → ∀ c, .new c ∈ l₁ → .returned (some c) ∈ l₁

theorem handed_iff : c ∈ labels.filterMap Label.handed ↔ .returned (some c) ∈ labels := by
  rw [List.mem_filterMap]
  constructor
  · rintro ⟨label, mem, handed⟩
    cases label with
    | returned d =>
      cases handed
      exact mem
    | _ => cases handed
  · exact fun mem => ⟨_, mem, rfl⟩

theorem count_handed : labels.count (.returned (some c)) = (labels.filterMap Label.handed).count c := by
  induction labels with
  | nil => rfl
  | cons label labels ih =>
    rw [List.count_cons, ih, List.filterMap_cons]
    cases label with
    | returned d => cases d <;> simp [Label.handed, List.count_cons]
    | _ => simp [Label.handed]

theorem View.handed_once (run : Run View.Step .init labels v) : (labels.filterMap Label.handed).Nodup := by
  have inv := run_inv run init_inv
  have returned := run_returned run
  have nodup := (List.nodup_append.mp inv.apart).2.1
  rw [returned, show View.init.returned = [] from rfl, List.append_nil] at nodup
  exact List.nodup_reverse.mp nodup

theorem View.returned_iff (run : Run View.Step .init labels v) : c ∈ v.returned ↔ .returned (some c) ∈ labels := by
  rw [run_returned run, show View.init.returned = [] from rfl, List.append_nil, List.mem_reverse, handed_iff]

theorem View.created_iff (run : Run View.Step .init labels v) : c < v.created ↔ .new c ∈ labels := by
  rw [run_created run, show View.init.created = 0 from rfl]
  simp

/-- When the list is empty, everyone has been returned. -/
theorem View.all_returned (run : Run View.Step .init labels v) (empty : v.tasks = []) (new : .new c ∈ labels) :
    .returned (some c) ∈ labels := by
  have inv := run_inv run init_inv
  have known := (inv.known c).mp ((created_iff run).mpr new)
  rw [empty] at known
  exact (returned_iff run).mp (by simpa using known)

theorem View.returnsFinished (run : Run View.Step .init labels v) : ReturnsFinished labels := by
  constructor
  · rintro l₁ c l₂ rfl
    obtain ⟨v₁, before, rest⟩ := run.split
    cases rest with
    | cons one rest =>
      cases one with
      | returned place tasks =>
        have mem : (c, none) ∈ v₁.tasks := by simp [tasks]
        have created := ((run_inv before init_inv).known c).mpr (.inl (List.mem_map_of_mem mem))
        have finished := run_finished before mem
        exact ⟨(created_iff before).mp created, by simpa [View.init] using finished⟩
  · rintro l₁ l₂ rfl c new
    obtain ⟨v₁, before, rest⟩ := run.split
    cases rest with
    | cons one rest =>
      cases one with
      | returnedNone place tasks => exact all_returned before tasks new

/-- `main` does nothing but wait. -/
def Waits (s : State) (label : Label) (s' : State) : Prop := Step s label s' ∧ (s.control = .main → label = .wait)

/-- A `main` that only waits goes on. -/
theorem Abstracts.waits (abstracts : Abstracts s v) : ∃ label s', Waits s label s' := by
  by_cases main : s.control = .main
  · have returned : (MainCall.run .wait).Ensures s fun label _ => label = .wait := by simp [MainCall.run, goto]
    obtain ⟨label, s', returned, rfl⟩ := returned
    refine ⟨.wait, s', ?_, fun _ => rfl⟩
    rw [Step, main]
    exact ⟨.wait, trivial, returned⟩
  · obtain ⟨label, s', step⟩ := goes_on abstracts (mt abstracts.control_iff.1.mpr main)
    exact ⟨label, s', step, fun here => absurd here main⟩

/-- A `main` that only waits gets its `NULL`. -/
theorem Abstracts.waits_end (abstracts : Abstracts s v) :
    ∃ labels s', Run Waits s (labels ++ [.returned none]) s' := by
  induction left : v.measure using Nat.strong_induction_on generalizing s v with
  | _ n ih =>
    obtain ⟨label, s', step, waits⟩ := abstracts.waits
    by_cases last : label = .returned none
    · subst last
      exact ⟨[], s', .single ⟨step, waits⟩⟩
    · obtain ⟨v', one, abstracts'⟩ := step.onView abstracts
      have less : v'.measure < n := left ▸ one.measure_lt (fun main => waits (abstracts.control_iff.1.mpr main)) last
      obtain ⟨labels, s'', rest⟩ := ih _ less abstracts' rfl
      exact ⟨label :: labels, s'', .cons ⟨step, waits⟩ rest⟩

/-- Who has been created when a `main` that only waits gets its `NULL` has been returned once. -/
theorem Abstracts.all_once (abstracts : Abstracts s v) (run : Run View.Step .init labels v) :
    ∃ later s', Run Waits s (later ++ [.returned none]) s' ∧
      ∀ c, .new c ∈ labels ++ later → (labels ++ later).count (.returned (some c)) = 1 := by
  obtain ⟨later, s', rest⟩ := abstracts.waits_end
  refine ⟨later, s', rest, fun c new => ?_⟩
  have steps : Run Step s (later ++ [.returned none]) s' := rest.mono fun _ _ _ step => step.1
  obtain ⟨v', views, -⟩ := run_onView steps abstracts
  obtain ⟨v₁, before, last⟩ := views.split
  have whole := run.append before
  have once := View.handed_once whole
  have empty : v₁.tasks = [] := by
    cases last with
    | cons one _ =>
      cases one with
      | returnedNone place tasks => exact tasks
  have returned := View.all_returned whole empty new
  rw [count_handed]
  exact List.count_eq_one_of_mem once (handed_iff.mpr returned)

/-! ## The scheduler -/

/-- In every state of a run control goes only where it may, and over the run each coroutine is
    returned once, behind its end. -/
theorem coroutines_scheduled (run : Run Step .init labels s) :
    (s.running ≠ none ∧ s.coroThisPtr = s.running) ∧ s.SafeSwitch ∧ s.HasPlace ∧ s.PassesInOrder ∧
      ReturnsFinished labels ∧ (labels.filterMap Label.handed).Nodup ∧
      ∃ later s', Run Waits s (later ++ [.returned none]) s' ∧
        ∀ c, .new c ∈ labels ++ later → (labels ++ later).count (.returned (some c)) = 1 := by
  obtain ⟨v, views, abstracts⟩ := run_abstracts run
  obtain ⟨running, this⟩ := abstracts.running_eq
  have names : s.running ≠ none ∧ s.coroThisPtr = s.running := by simp [running, this]
  exact ⟨names, abstracts.safeSwitch, abstracts.hasPlace, abstracts.passesInOrder, View.returnsFinished views,
    View.handed_once views, abstracts.all_once views⟩

instance (call : MainCall) (s : State) : Decidable (call.Allowed s) :=
  match call with
  | .delete c => inferInstanceAs (Decidable (c ∈ s.returned ∧ s.coros.cell c ≠ none))
  | .new _ | .wait | .yield => isTrue trivial

/-- One step with some fuel; the call counts when control is in `main`. -/
def execute (fuel : Nat) (call : MainCall) (s : State) : Option (Label × State) :=
  match s.control with
  | .main => if call.Allowed s then (call.run.run fuel s).toOption else none
  | .waiting => (coroSchedWait.run fuel s).toOption
  | .body c rest => ((runBody c rest).run fuel s).toOption
  | .exited => none

def replay (fuel : Nat) : List MainCall → State → Option (List Label × State)
  | [], s => some ([], s)
  | call :: calls, s => do
    let (label, s') ← execute fuel call s
    let (labels, s'') ← replay fuel calls s'
    return (label :: labels, s'')

theorem execute_step {fuel : Nat} {call : MainCall} (executed : execute fuel call s = some (label, s')) :
    Step s label s' := by
  have returns : ∀ {p : Prog State Label}, (p.run fuel s).toOption = some (label, s') → p.Returns s label s' := by
    intro p ok
    cases result : p.run fuel s with
    | error => simp [result, Except.toOption] at ok
    | ok returned =>
      rw [result, Except.toOption, Option.some.injEq] at ok
      exact ⟨fuel, ok ▸ result⟩
  rw [execute] at executed
  rw [Step]
  cases control : s.control with
  | main =>
    simp only [control] at executed
    split at executed
    · next allowed => exact ⟨call, allowed, returns executed⟩
    · cases executed
  | waiting | body =>
    simp only [control] at executed
    exact returns executed
  | exited =>
    simp only [control] at executed
    cases executed

theorem replay_run {fuel : Nat} {calls : List MainCall} (replayed : replay fuel calls s = some (labels, s')) :
    Run Step s labels s' := by
  induction calls generalizing s labels with
  | nil =>
    cases replayed
    exact .nil _
  | cons call calls ih =>
    simp only [replay, Option.bind_eq_bind, Option.bind_eq_some_iff, Prod.exists, Option.pure_def,
      Option.some.injEq, Prod.mk.injEq] at replayed
    obtain ⟨label, s₁, executed, rest, s₂, later, rfl, rfl⟩ := replayed
    exact .cons (execute_step executed) (ih later)

/-- Two coroutines, one of which creates a third; the run ends inside of the second pass. -/
def threeCoroutines : List MainCall :=
  [.new (.yield (.ret 1)), .new (.new (.ret 2) (.yield (.ret 3)))] ++ List.replicate 6 .wait

theorem coroutines_scheduled_three :
    ∃ s, Run Step .init [.new 0, .new 1, .wait, .switch (.coro 1), .new 2, .switch (.coro 0), .switch .sched,
        .switch (.coro 2)] s ∧ s.coroThisPtr = s.running ∧
      ∃ later s', Run Waits s (later ++ [.returned none]) s' := by
  have shown : (replay 9 threeCoroutines .init).map Prod.fst = some [.new 0, .new 1, .wait, .switch (.coro 1), .new 2,
      .switch (.coro 0), .switch .sched, .switch (.coro 2)] := by decide +kernel
  obtain ⟨⟨labels, s⟩, replayed, rfl⟩ := Option.map_eq_some_iff.mp shown
  have run := replay_run replayed
  obtain ⟨⟨-, this⟩, -, -, -, -, -, later, s', rest, -⟩ := coroutines_scheduled run
  exact ⟨s, run, this, later, s', rest⟩

end SysprogLabs.Libcoro
