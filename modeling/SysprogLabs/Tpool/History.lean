import SysprogLabs.Tpool.Duties

/-! # What the log says about an instance

The function of an instance is invoked by the worker that has picked it up, its value is
stored before the instance is finished, and it is never invoked again.
-/

namespace SysprogLabs.Tpool

variable {junk : Nat → Value} {first : Nat → Ptr → Prop} {s s' : Shape} {r r' : Records}

def Mark.invokes (p : Nat) : Mark → Bool
  | .invoked call => call.tpTask == p
  | _ => false

/-- How often the function of the instance was invoked. -/
def invocations (log : List Mark) (p : Nat) : Nat := log.countP (Mark.invokes p)

/-- Entries that are not about the execution of an instance. -/
def Mark.IsAside : Mark → Prop
  | .invoked _ => False
  | .returned _ _ => False
  | .completed _ => False
  | _ => True

/-- The value the function returned for the instance is the result stored in it. -/
def Recorded (log : List Mark) (p : Nat) (f : Fields) : Prop :=
  ∃ function arg, .returned ⟨p, function, arg⟩ f.result ∈ log

section

variable {duty : Nat → Option WorkerPc} {log : List Mark}

structure Logged (r : Records) (duty : Nat → Option WorkerPc) (log : List Mark) : Prop where
  once : ∀ p, invocations log p ≤ 1
  unborn : ∀ p, r.nextInstance ≤ p → invocations log p = 0
  pending : ∀ p f, r.instances p = some f → f.Pending → invocations log p = 0
  picked : ∀ i p, duty i = some (.picked p) → invocations log p = 0
  running : ∀ i call, duty i = some (.running call) → .invoked call ∈ log
  returned : ∀ i p, duty i = some (.returned p) →
    invocations log p = 1 ∧ ∀ f, r.instances p = some f → Recorded log p f
  completed : ∀ p, .completed p ∈ log → invocations log p = 1 ∧ p < r.nextInstance ∧
    ∀ f, r.instances p = some f → f.isFinished = true
  finished : ∀ p f, r.instances p = some f → f.isFinished = true → .completed p ∈ log ∧ Recorded log p f
  values : ∀ call value, .returned call value ∈ log → .invoked call ∈ log
  origin : ∀ call, .invoked call ∈ log → call.tpTask < r.nextInstance ∧
    ∃ t, .created t call.function call.arg ∈ log ∧
      ∀ f, r.instances call.tpTask = some f → f.threadTask = t
  tasks : ∀ t task, r.tasks t = some task → .created t task.function task.arg ∈ log

theorem invocations_pos {call : Invocation} (mem : .invoked call ∈ log) : 0 < invocations log call.tpTask :=
  List.countP_pos_iff.mpr ⟨_, mem, by simp [Mark.invokes]⟩

theorem invocations_aside {marks : List Mark} (aside : ∀ m ∈ marks, m.IsAside) (p : Nat) :
    invocations (marks ++ log) p = invocations log p := by
  have none : marks.countP (Mark.invokes p) = 0 := by
    rw [List.countP_eq_zero]
    intro m mem
    have := aside m mem
    cases m with
    | invoked => cases this
    | created | returned | completed | detached | stale => simp [Mark.invokes]
  rw [invocations, List.countP_append, none, Nat.zero_add]
  rfl

theorem mem_aside {marks : List Mark} {m : Mark} (aside : ∀ m ∈ marks, m.IsAside) (mem : m ∈ marks ++ log)
    (notAside : ¬ m.IsAside) : m ∈ log := by
  cases List.mem_append.mp mem with
  | inl new => exact absurd (aside m new) notAside
  | inr old => exact old

theorem Recorded.mono {p : Nat} {f f' : Fields} (recorded : Recorded log p f) (marks : List Mark)
    (result : f'.result = f.result) : Recorded (marks ++ log) p f' := by
  obtain ⟨function, arg, mem⟩ := recorded
  rw [Recorded, result]
  exact ⟨function, arg, List.mem_append_right _ mem⟩

namespace Logged

/-- A step that neither takes nor completes an instance. -/
theorem keep (logged : Logged r duty log) (same : r.SameWork r') (marks : List Mark)
    (aside : ∀ m ∈ marks, m.IsAside) : Logged r' duty (marks ++ log) where
  once p := by
    rw [invocations_aside aside]
    exact logged.once p
  unborn p beyond := by
    rw [invocations_aside aside]
    exact logged.unborn p (same.nextInstance ▸ beyond)
  pending p f' found free := by
    obtain ⟨f, old, -, -, finished, running, -⟩ := same.instances p f' found
    rw [invocations_aside aside]
    exact logged.pending p f old ⟨running ▸ free.1, finished ▸ free.2⟩
  picked i p on := by
    rw [invocations_aside aside]
    exact logged.picked i p on
  running i call on := List.mem_append_right _ (logged.running i call on)
  returned i p on := by
    obtain ⟨count, recorded⟩ := logged.returned i p on
    rw [invocations_aside aside]
    refine ⟨count, fun f' found => ?_⟩
    obtain ⟨f, old, -, result, -⟩ := same.instances p f' found
    exact (recorded f old).mono _ result
  completed p mem := by
    obtain ⟨count, born, flags⟩ := logged.completed p (mem_aside aside mem id)
    rw [invocations_aside aside, same.nextInstance]
    refine ⟨count, born, fun f' found => ?_⟩
    obtain ⟨f, old, -, -, finished, -⟩ := same.instances p f' found
    rw [finished]
    exact flags f old
  finished p f' found done := by
    obtain ⟨f, old, -, result, finished, -⟩ := same.instances p f' found
    obtain ⟨mem, recorded⟩ := logged.finished p f old (finished ▸ done)
    exact ⟨List.mem_append_right _ mem, recorded.mono _ result⟩
  values call value mem := List.mem_append_right _ (logged.values call value (mem_aside aside mem id))
  origin call mem := by
    obtain ⟨born, t, created, task⟩ := logged.origin call (mem_aside aside mem id)
    rw [same.nextInstance]
    refine ⟨born, t, List.mem_append_right _ created, fun f' found => ?_⟩
    obtain ⟨f, old, threadTask, -⟩ := same.instances call.tpTask f' found
    rw [threadTask]
    exact task f old
  tasks t task live := List.mem_append_right _ (logged.tasks t task (same.tasks t task live))

/-- A step that logs nothing besides. -/
theorem quiet (logged : Logged r duty log) (same : r.SameWork r') : Logged r' duty log :=
  logged.keep same [] fun _ none => by cases none

/-- `thread_task_new` is logged. -/
theorem addTask (logged : Logged r duty log) {function : Function} {arg : Value} :
    Logged (r.addTask { function, arg, list := [] }) duty ([.created r.nextTask function arg] ++ log) := by
  have kept := logged.keep (.refl r) [.created r.nextTask function arg]
    (fun m mem => by rw [List.mem_singleton.mp mem]; trivial)
  refine { kept with tasks := fun t task live => ?_ }
  by_cases new : t = r.nextTask
  · subst new
    cases (if_pos rfl).symm.trans live
    exact List.mem_append_left _ List.mem_cons_self
  · exact kept.tasks t task ((if_neg new).symm.trans live)

/-- A new instance was not invoked, and its task is the one it is pushed for. -/
theorem push (logged : Logged r duty log) {P t : Nat} {task : ThreadTask} {c : Counters}
    (live : r.tasks t = some task) : Logged (r.push junk P t task c) duty log := by
  have cases : ∀ p f, (r.push junk P t task c).instances p = some f →
      (p = r.nextInstance ∧ f.Pending ∧ f.isFinished = false) ∨ (p ≠ r.nextInstance ∧ r.instances p = some f) := by
    intro p f found
    by_cases new : p = r.nextInstance
    · subst new
      cases (if_pos rfl).symm.trans found
      exact .inl ⟨rfl, ⟨rfl, rfl⟩, rfl⟩
    · exact .inr ⟨new, (if_neg new).symm.trans found⟩
  have next : (r.push junk P t task c).nextInstance = r.nextInstance + 1 := rfl
  constructor
  · exact logged.once
  · intro p beyond
    rw [next] at beyond
    exact logged.unborn p (by omega)
  · intro p f found free
    cases cases p f found with
    | inl new => exact logged.unborn p (by omega)
    | inr old => exact logged.pending p f old.2 free
  · exact logged.picked
  · exact logged.running
  · intro i p on
    obtain ⟨count, recorded⟩ := logged.returned i p on
    refine ⟨count, fun f found => ?_⟩
    cases cases p f found with
    | inl new =>
      have unborn := logged.unborn p (by omega)
      omega
    | inr old => exact recorded f old.2
  · intro p mem
    obtain ⟨count, born, flags⟩ := logged.completed p mem
    refine ⟨count, by rw [next]; omega, fun f found => ?_⟩
    cases cases p f found with
    | inl new => omega
    | inr old => exact flags f old.2
  · intro p f found done
    cases cases p f found with
    | inl new =>
      rw [new.2.2] at done
      cases done
    | inr old => exact logged.finished p f old.2 done
  · exact logged.values
  · intro call mem
    obtain ⟨born, u, created, task'⟩ := logged.origin call mem
    refine ⟨by rw [next]; omega, u, created, fun f found => ?_⟩
    cases cases call.tpTask f found with
    | inl new => omega
    | inr old => exact task' f old.2
  · intro u task' live'
    simp only [Records.push] at live'
    split at live'
    · next here =>
      cases live'
      rw [here]
      exact logged.tasks t task live
    · exact logged.tasks u task' live'

/-- An instance is picked up. -/
theorem pick (logged : Logged r duty log) {i p : Nat} {f : Fields}
    (taken : r.instances p = some f) (pending : f.Pending) :
    Logged (r.setInstance p (some { f with isRunning := true }))
      (fun j => if j = i then some (.picked p) else duty j) log := by
  constructor
  · exact logged.once
  · exact logged.unborn
  · intro q g found waits
    cases Records.setInstance_some found with
    | inl here =>
      rw [here.2] at waits
      cases waits.1
    | inr old => exact logged.pending q g old.2 waits
  · intro j q on
    split at on
    · cases on
      exact logged.pending p f taken pending
    · exact logged.picked j q on
  · intro j call on
    split at on
    · cases on
    · exact logged.running j call on
  · intro j q on
    split at on
    · cases on
    · obtain ⟨count, recorded⟩ := logged.returned j q on
      refine ⟨count, fun g found => ?_⟩
      cases Records.setInstance_some found with
      | inl here =>
        obtain ⟨rfl, rfl⟩ := here
        exact (recorded f taken).mono [] rfl
      | inr old => exact recorded g old.2
  · intro q mem
    obtain ⟨count, born, flags⟩ := logged.completed q mem
    refine ⟨count, born, fun g found => ?_⟩
    cases Records.setInstance_some found with
    | inl here =>
      obtain ⟨rfl, rfl⟩ := here
      exact flags f taken
    | inr old => exact flags g old.2
  · intro q g found done
    cases Records.setInstance_some found with
    | inl here =>
      obtain ⟨rfl, rfl⟩ := here
      rw [pending.2] at done
      cases done
    | inr old => exact logged.finished q g old.2 done
  · exact logged.values
  · intro call mem
    obtain ⟨born, t, created, task⟩ := logged.origin call mem
    refine ⟨born, t, created, fun g found => ?_⟩
    cases Records.setInstance_some found with
    | inl here =>
      obtain ⟨at_p, rfl⟩ := here
      exact task f (at_p ▸ taken)
    | inr old => exact task g old.2
  · exact logged.tasks

theorem invocations_cons {call : Invocation} (q : Nat) :
    invocations (.invoked call :: log) q = invocations log q + if call.tpTask = q then 1 else 0 := by
  rw [invocations, List.countP_cons, Mark.invokes]
  by_cases here : call.tpTask = q
  · rw [if_pos here, if_pos (by simpa using here)]
    rfl
  · rw [if_neg here, if_neg (by simpa using here)]
    rfl

/-- The function of an instance is invoked. -/
theorem invoke (logged : Logged r duty log) (executing : Executing r duty) {i p : Nat} {f : Fields}
    {task : ThreadTask} (on : duty i = some (.picked p)) (found : r.instances p = some f)
    (live : r.tasks f.threadTask = some task) :
    Logged r (fun j => if j = i then some (.running ⟨p, task.function, task.arg⟩) else duty j)
      (.invoked ⟨p, task.function, task.arg⟩ :: log) := by
  obtain ⟨running, unfinished⟩ := executing.running i _ p f on rfl found
  have others : ∀ j pc q, j ≠ i → duty j = some pc → pc.tpTask = some q → q ≠ p :=
    fun j pc q apart on' hand same => apart (executing.alone j i pc _ p on' on (same ▸ hand) rfl)
  have count : ∀ q, q ≠ p → invocations (.invoked ⟨p, task.function, task.arg⟩ :: log) q = invocations log q := by
    intro q apart
    rw [invocations_cons, if_neg (Ne.symm apart), Nat.add_zero]
  constructor
  · intro q
    by_cases here : q = p
    · have none := logged.picked i p on
      rw [here, invocations_cons, if_pos rfl]
      omega
    · rw [count q here]
      exact logged.once q
  · intro q beyond
    have born := executing.known i _ p on rfl
    rw [count q (by omega)]
    exact logged.unborn q beyond
  · intro q g found' waits
    have apart : q ≠ p := by
      intro same
      subst same
      cases found.symm.trans found'
      rw [waits.1] at running
      cases running
    rw [count q apart]
    exact logged.pending q g found' waits
  · intro j q on'
    split at on'
    · cases on'
    · next apart =>
      rw [count q (others j _ q apart on' rfl)]
      exact logged.picked j q on'
  · intro j call on'
    split at on'
    · cases on'
      exact List.mem_cons_self
    · exact List.mem_cons_of_mem _ (logged.running j call on')
  · intro j q on'
    split at on'
    · cases on'
    · next apart =>
      obtain ⟨once, recorded⟩ := logged.returned j q on'
      rw [count q (others j _ q apart on' rfl)]
      exact ⟨once, fun g found' => (recorded g found').mono [_] rfl⟩
  · intro q mem
    obtain ⟨once, born, flags⟩ := logged.completed q (by simpa using mem)
    have apart : q ≠ p := by
      intro same
      rw [flags f (same ▸ found)] at unfinished
      cases unfinished
    rw [count q apart]
    exact ⟨once, born, flags⟩
  · intro q g found' done
    obtain ⟨mem, recorded⟩ := logged.finished q g found' done
    exact ⟨List.mem_cons_of_mem _ mem, recorded.mono [_] rfl⟩
  · intro call value mem
    exact List.mem_cons_of_mem _ (logged.values call value (by simpa using mem))
  · intro call mem
    cases List.mem_cons.mp mem with
    | inl new =>
      cases new
      refine ⟨executing.known i _ p on rfl, f.threadTask, ?_, fun g found' => ?_⟩
      · exact List.mem_cons_of_mem _ (logged.tasks f.threadTask task live)
      · cases found.symm.trans found'
        rfl
    | inr old =>
      obtain ⟨born, t, created, rest⟩ := logged.origin call old
      exact ⟨born, t, List.mem_cons_of_mem _ created, rest⟩
  · intro t task' live'
    exact List.mem_cons_of_mem _ (logged.tasks t task' live')

/-- The function returns and its value is stored. -/
theorem store (logged : Logged r duty log) (executing : Executing r duty) {i : Nat} {call : Invocation}
    {f : Fields} {value : Value} (on : duty i = some (.running call))
    (found : r.instances call.tpTask = some f) :
    Logged (r.setInstance call.tpTask (some { f with result := value }))
      (fun j => if j = i then some (.returned call.tpTask) else duty j) (.returned call value :: log) := by
  obtain ⟨running, unfinished⟩ := executing.running i _ _ f on rfl found
  have others : ∀ j pc q, j ≠ i → duty j = some pc → pc.tpTask = some q → q ≠ call.tpTask :=
    fun j pc q apart on' hand same => apart (executing.alone j i pc _ _ on' on (same ▸ hand) rfl)
  have count : ∀ q, invocations (.returned call value :: log) q = invocations log q :=
    fun q => by simp [invocations, Mark.invokes]
  constructor
  · intro q
    rw [count]
    exact logged.once q
  · intro q beyond
    rw [count]
    exact logged.unborn q beyond
  · intro q g found' waits
    rw [count]
    cases Records.setInstance_some found' with
    | inl here =>
      obtain ⟨-, rfl⟩ := here
      rw [waits.1] at running
      cases running
    | inr old => exact logged.pending q g old.2 waits
  · intro j q on'
    rw [count]
    split at on'
    · cases on'
    · exact logged.picked j q on'
  · intro j call' on'
    split at on'
    · cases on'
    · exact List.mem_cons_of_mem _ (logged.running j call' on')
  · intro j q on'
    rw [count]
    split at on'
    · cases on'
      have invoked := invocations_pos (logged.running i call on)
      have once := logged.once call.tpTask
      refine ⟨by omega, fun g found' => ?_⟩
      cases (Records.setInstance_found _).symm.trans found'
      exact ⟨call.function, call.arg, List.mem_cons_self⟩
    · next apart =>
      obtain ⟨once, recorded⟩ := logged.returned j q on'
      refine ⟨once, fun g found' => ?_⟩
      cases Records.setInstance_some found' with
      | inl here => exact absurd here.1 (others j _ q apart on' rfl)
      | inr old => exact (recorded g old.2).mono [_] rfl
  · intro q mem
    obtain ⟨once, born, flags⟩ := logged.completed q (by simpa using mem)
    rw [count]
    refine ⟨once, born, fun g found' => ?_⟩
    cases Records.setInstance_some found' with
    | inl here =>
      obtain ⟨rfl, rfl⟩ := here
      exact flags f found
    | inr old => exact flags g old.2
  · intro q g found' done
    cases Records.setInstance_some found' with
    | inl here =>
      obtain ⟨-, rfl⟩ := here
      rw [unfinished] at done
      cases done
    | inr old =>
      obtain ⟨mem, recorded⟩ := logged.finished q g old.2 done
      exact ⟨List.mem_cons_of_mem _ mem, recorded.mono [_] rfl⟩
  · intro call' value' mem
    cases List.mem_cons.mp mem with
    | inl new =>
      cases new
      exact List.mem_cons_of_mem _ (logged.running i call on)
    | inr old => exact List.mem_cons_of_mem _ (logged.values call' value' old)
  · intro call' mem
    obtain ⟨born, t, created, rest⟩ := logged.origin call' (by simpa using mem)
    refine ⟨born, t, List.mem_cons_of_mem _ created, fun g found' => ?_⟩
    cases Records.setInstance_some found' with
    | inl here =>
      obtain ⟨same, rfl⟩ := here
      exact rest f (same ▸ found)
    | inr old => exact rest g old.2
  · intro t task live
    exact List.mem_cons_of_mem _ (logged.tasks t task live)

/-- The worker completes the instance. -/
theorem complete (logged : Logged r duty log) (executing : Executing r duty) {i p P : Nat} {f : Fields}
    {c : Counters} (on : duty i = some (.returned p)) (found : r.instances p = some f) :
    Logged (r.complete P p f c) (fun j => if j = i then none else duty j) (.completed p :: log) := by
  have count : ∀ q, invocations (.completed p :: log) q = invocations log q :=
    fun q => by simp [invocations, Mark.invokes]
  obtain ⟨once, recorded⟩ := logged.returned i p on
  constructor
  · intro q
    rw [count]
    exact logged.once q
  · intro q beyond
    rw [count]
    exact logged.unborn q beyond
  · intro q g found' waits
    rw [count]
    cases Records.setInstance_some found' with
    | inl here =>
      rw [here.2] at waits
      cases waits.2
    | inr old => exact logged.pending q g old.2 waits
  · intro j q on'
    rw [count]
    split at on'
    · cases on'
    · exact logged.picked j q on'
  · intro j call on'
    split at on'
    · cases on'
    · exact List.mem_cons_of_mem _ (logged.running j call on')
  · intro j q on'
    rw [count]
    split at on'
    · cases on'
    · obtain ⟨once', recorded'⟩ := logged.returned j q on'
      refine ⟨once', fun g found' => ?_⟩
      cases Records.setInstance_some found' with
      | inl here =>
        obtain ⟨rfl, rfl⟩ := here
        exact (recorded f found).mono [_] rfl
      | inr old => exact (recorded' g old.2).mono [_] rfl
  · intro q mem
    rw [count]
    cases List.mem_cons.mp mem with
    | inl new =>
      cases new
      refine ⟨once, executing.bounded p f found, fun g found' => ?_⟩
      cases (if_pos rfl).symm.trans found'
      rfl
    | inr old =>
      obtain ⟨once', born, flags⟩ := logged.completed q old
      refine ⟨once', born, fun g found' => ?_⟩
      cases Records.setInstance_some found' with
      | inl here => rw [here.2]
      | inr old' => exact flags g old'.2
  · intro q g found' done
    cases Records.setInstance_some found' with
    | inl here =>
      obtain ⟨rfl, rfl⟩ := here
      exact ⟨List.mem_cons_self, (recorded f found).mono [_] rfl⟩
    | inr old =>
      obtain ⟨mem, recorded'⟩ := logged.finished q g old.2 done
      exact ⟨List.mem_cons_of_mem _ mem, recorded'.mono [_] rfl⟩
  · intro call value mem
    exact List.mem_cons_of_mem _ (logged.values call value (by simpa using mem))
  · intro call mem
    obtain ⟨born, t, created, rest⟩ := logged.origin call (by simpa using mem)
    refine ⟨born, t, List.mem_cons_of_mem _ created, fun g found' => ?_⟩
    cases Records.setInstance_some found' with
    | inl here =>
      obtain ⟨same, rfl⟩ := here
      exact rest f (same ▸ found)
    | inr old => exact rest g old.2
  · intro t task live
    exact List.mem_cons_of_mem _ (logged.tasks t task live)

/-- Signalling `end_cond` may add the entry that the instance was released. -/
theorem signalEnd {p : Nat} (logged : Logged r duty log) :
    Logged r duty (if (r.instances p).isSome then log else .stale p :: log) := by
  split
  · exact logged
  · apply logged.keep (.refl r) [.stale p]
    intro m mem
    rw [List.mem_singleton.mp mem]
    trivial

end Logged

end

/-! ## Every step keeps it -/

theorem Calls.marks_aside {function : Call} {turn : Turn Client} (does : Calls junk r function turn r') :
    ∀ m ∈ turn.marks, m.IsAside := by
  intro m mem
  cases does with
  | taskCreated =>
    rw [List.mem_singleton.mp mem]
    trivial
  | poolRefused | poolCreated | counted | hasTasks | closed | tooMany | pushed | lookedUp | notPushed
  | unpushed => cases mem

theorem Proceeds.marks_aside {wait : WaitResult} {client : Client} {turn : Turn Client}
    (does : Proceeds r wait client turn r') : ∀ m ∈ turn.marks, m.IsAside := by
  intro m mem
  cases does with
  | detached | released =>
    rw [List.mem_singleton.mp mem]
    trivial
  | askedFinished | askedRunning | expired | blocked | joined | timedOut | woken | deleted | freed
  | waitsAgain | leaves | destroyed => cases mem

/-- The signals of a client leave the log alone. -/
theorem Calls.sameLog {function : Call} {turn : Turn Client} (does : Calls junk r function turn r') :
    (turn.signals.foldl (Shape.receive []) s).log = s.log := by
  cases does with
  | @pushed P t c task =>
    by_cases busy : c.AllBusy
    · simp only [if_pos busy]
      rfl
    · simp only [if_neg busy]
      rfl
  | poolRefused | poolCreated | counted | hasTasks | closed | tooMany | taskCreated | lookedUp | notPushed
  | unpushed => rfl

theorem Change.logged {label : Action × Out} (change : Change junk first s label s')
    (executing : Executing s.records (duty s.workers)) (logged : Logged s.records (duty s.workers) s.log) :
    Logged s'.records (duty s'.workers) s'.log := by
  cases change with
  | @call c function turn r' idle does =>
    rw [duty_call does, Shape.receive_records, Calls.sameLog does]
    show Logged r' (duty s.workers) (turn.marks ++ s.log)
    cases does with
    | pushed live room found => exact logged.push found
    | taskCreated => exact logged.addTask
    | closed => exact logged.quiet .setPool
    | poolCreated => exact logged.quiet (.ofInstances rfl rfl fun _ _ live => live)
    | poolRefused | counted | hasTasks | tooMany | lookedUp | notPushed | unpushed => exact logged
  | proceed here does => exact logged.keep does.sameWork _ does.marks_aside
  | @work w value woken worker turn r' here does wakes =>
    obtain ⟨P, pc⟩ := worker
    cases does with
    | slept looking live active nothing =>
      show Logged s.records (duty (s.workers.set w { pool := P, pc := .asleep false })) s.log
      rw [duty_idle here looking rfl]
      exact logged
    | @exited pc c looking live inactive =>
      show Logged _ (duty (s.workers.set w { pool := P, pc := .exited })) s.log
      rw [duty_idle here looking rfl]
      exact logged.quiet .setPool
    | @picked pc c p f looking live active found taken pending =>
      show Logged _ (duty (s.workers.set w { pool := P, pc := .picked p })) s.log
      rw [duty_busy here rfl]
      exact (logged.pick taken pending).quiet (r := s.records.setInstance p _)
        (.ofInstances rfl rfl fun _ _ live => live)
    | @called p f task found live =>
      show Logged s.records (duty (s.workers.set w { pool := P, pc := .running _ })) (_ :: s.log)
      rw [duty_busy here rfl]
      exact logged.invoke executing (duty_some.mpr ⟨_, here, rfl, rfl⟩) found live
    | @stored call f found =>
      show Logged _ (duty (s.workers.set w { pool := P, pc := .returned _ })) (_ :: s.log)
      rw [duty_busy here rfl]
      exact logged.store executing (duty_some.mpr ⟨_, here, rfl, rfl⟩) found
    | @completed p f c found live kept =>
      have done := logged.complete (P := P) (c := c) executing (duty_some.mpr ⟨_, here, rfl, rfl⟩) found
      show Logged _ (duty (s.workers.set w { pool := P, pc := .ready })) _
      rw [duty_free here rfl]
      exact done.signalEnd
    | @released p f c ret r' found live detached deletes =>
      have done := logged.complete (P := P) (c := c) executing (duty_some.mpr ⟨_, here, rfl, rfl⟩) found
      have kept := done.quiet deletes.sameWork
      show Logged r' (duty (s.workers.set w { pool := P, pc := .ready })) _
      rw [duty_free here rfl]
      exact kept.signalEnd

end SysprogLabs.Tpool
