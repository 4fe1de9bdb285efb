import SysprogLabs.Tpool.Staff

/-! # Who executes which instance

A worker that has an instance in hand is on duty.  `Executing` relates the duties to the
flags of the instances: whatever is released, `is_running` marks the instances on duty,
and no instance is executed twice.  The steps that matter are those of the workers and
`thread_pool_push_task`; every other step leaves the work alone (`Records.SameWork`).
-/

namespace SysprogLabs.Tpool

variable {junk : Nat → Value} {first : Nat → Ptr → Prop} {s s' : Shape} {r r' : Records}
  {workers : List Worker} {P : Nat}

def Worker.onDuty (w : Worker) : Option WorkerPc := if w.pc.tpTask.isSome then some w.pc else none

/-- What the worker `i` is doing, if it has an instance in hand. -/
def duty (workers : List Worker) (i : Nat) : Option WorkerPc := workers[i]?.bind Worker.onDuty

theorem duty_some {i : Nat} {pc : WorkerPc} :
    duty workers i = some pc ↔ ∃ w, workers[i]? = some w ∧ w.pc = pc ∧ pc.tpTask.isSome := by
  rw [duty, Option.bind_eq_some_iff]
  constructor
  · rintro ⟨w, here, busy⟩
    rw [Worker.onDuty] at busy
    split at busy
    · next holds =>
      cases busy
      exact ⟨w, here, rfl, holds⟩
    · cases busy
  · rintro ⟨w, here, at_pc, holds⟩
    subst at_pc
    exact ⟨w, here, if_pos holds⟩

theorem Worker.notify_onDuty (w : Worker) : w.notify.onDuty = w.onDuty := by
  unfold Worker.notify
  split
  · next asleep =>
    -- Only a worker without an instance changes its place.
    rw [onDuty, onDuty, asleep]
    rfl
  · rfl

theorem duty_wake : duty (wakeWorkers P workers) = duty workers := by
  funext i
  rw [duty, duty, wakeWorkers, List.getElem?_map]
  cases workers[i]? with
  | none => rfl
  | some w =>
    rw [Option.map_some, Option.bind_some, Option.bind_some]
    split
    · exact w.notify_onDuty
    · rfl

theorem duty_hire : duty (workers ++ [{ pool := P, pc := .ready }]) = duty workers := by
  funext i
  rw [duty, duty, List.getElem?_append]
  split
  · rfl
  · next beyond =>
    rw [List.getElem?_eq_none (Nat.le_of_not_lt beyond)]
    cases i - workers.length with
    | zero => rfl
    | succ => rfl

theorem duty_set {i : Nat} {w : Worker} {pc : WorkerPc} (here : workers[i]? = some w) :
    duty (workers.set i { w with pc }) =
      fun j => if j = i then (if pc.tpTask.isSome then some pc else none) else duty workers j := by
  funext j
  obtain ⟨inside, -⟩ := List.getElem?_eq_some_iff.mp here
  rw [duty, List.getElem?_set]
  by_cases same : j = i
  · rw [if_pos same, if_pos same.symm, if_pos inside]
    rfl
  · rw [if_neg same, if_neg (Ne.symm same)]
    rfl

theorem duty_call {turn : Turn Client} {function : Call} (does : Calls junk r function turn r') :
    duty (turn.signals.foldl (Shape.receive []) s).workers = duty s.workers := by
  cases does with
  | closed => exact duty_wake
  | @pushed P t c task =>
    by_cases busy : c.AllBusy
    · simp only [if_pos busy]
      exact duty_wake.trans duty_hire
    · simp only [if_neg busy]
      exact duty_wake
  | poolRefused | poolCreated | counted | hasTasks | tooMany | taskCreated | lookedUp | notPushed
  | unpushed => rfl

/-! ## Steps that leave the work alone -/

/-- Instances may have been released; those that are left were neither taken nor completed. -/
structure Records.SameWork (r r' : Records) : Prop where
  nextInstance : r'.nextInstance = r.nextInstance
  instances : ∀ p f', r'.instances p = some f' → ∃ f, r.instances p = some f ∧
    f'.threadTask = f.threadTask ∧ f'.result = f.result ∧ f'.isFinished = f.isFinished ∧
    f'.isRunning = f.isRunning ∧ f'.isPushed = f.isPushed ∧ f'.pool = f.pool
  tasks : ∀ t task, r'.tasks t = some task → r.tasks t = some task

namespace Records.SameWork

theorem ofInstances (next : r'.nextInstance = r.nextInstance) (instances : r'.instances = r.instances)
    (tasks : ∀ t task, r'.tasks t = some task → r.tasks t = some task) : r.SameWork r' where
  nextInstance := next
  instances p f found := ⟨f, by rw [← instances, found], rfl, rfl, rfl, rfl, rfl, rfl⟩
  tasks := tasks

theorem refl (r : Records) : r.SameWork r := ofInstances rfl rfl fun _ _ live => live

theorem trans {r'' : Records} (h₁ : r.SameWork r') (h₂ : r'.SameWork r'') : r.SameWork r'' where
  nextInstance := h₂.nextInstance.trans h₁.nextInstance
  instances p f found := by
    obtain ⟨f₁, found₁, same₁⟩ := h₂.instances p f found
    obtain ⟨f₀, found₀, same₀⟩ := h₁.instances p f₁ found₁
    refine ⟨f₀, found₀, ?_⟩
    simp only [same₁, same₀, and_self]
  tasks t task live := h₁.tasks t task (h₂.tasks t task live)

theorem setPool {c : Option Counters} : r.SameWork (r.setPool P c) := ofInstances rfl rfl fun _ _ live => live

theorem dropTask {t : Nat} : r.SameWork (r.setTask t none) := by
  constructor
  · rfl
  · exact (SameWork.refl r).instances
  · intro u task live
    by_cases here : u = t
    · subst here
      cases (if_pos rfl).symm.trans live
    · rw [← live]
      exact (if_neg here).symm

/-- `is_joined` and `is_detached` are no part of the work. -/
theorem setInstance {p : Nat} {f : Fields} (found : r.instances p = some f) (joined detached : Bool) :
    r.SameWork (r.setInstance p (some { f with isJoined := joined, isDetached := detached })) where
  nextInstance := rfl
  instances q f' found' := by
    by_cases here : q = p
    · subst here
      cases (Records.setInstance_found _).symm.trans found'
      exact ⟨f, found, rfl, rfl, rfl, rfl, rfl, rfl⟩
    · have old : r.instances q = some f' := by rw [← found']; exact (if_neg here).symm
      exact ⟨f', old, rfl, rfl, rfl, rfl, rfl, rfl⟩
  tasks _ _ live := live

end Records.SameWork

theorem Records.Deletes.sameWork {t : Nat} {ret : Int} (deletes : r.Deletes t ret r') : r.SameWork r' := by
  cases deletes with
  | refused => exact .refl r
  | @released task live all =>
    constructor
    · rfl
    · intro p f found
      simp only [Records.release] at found
      split at found
      · cases found
      · exact ⟨f, found, rfl, rfl, rfl, rfl, rfl, rfl⟩
    · intro u task' live'
      simp only [Records.release] at live'
      split at live'
      · cases live'
      · exact live'

theorem Proceeds.sameWork {wait : WaitResult} {client : Client} {turn : Turn Client}
    (does : Proceeds r wait client turn r') : r.SameWork r' := by
  cases does with
  | deleted deletes => exact deletes.sameWork
  | released found finished deletes =>
    exact (Records.SameWork.setInstance found _ true).trans deletes.sameWork
  | detached found unfinished => exact .setInstance found _ true
  | blocked joins found unfinished => exact .setInstance found true _
  | joined joins found finished => exact .setInstance found true _
  | freed live => exact .dropTask
  | destroyed live => exact .setPool
  | askedFinished | askedRunning | expired | timedOut | woken | waitsAgain | leaves => exact .refl r

/-- Among the calls only a push makes an instance, and only `thread_task_new` a task. -/
theorem Calls.sameWork {function : Call} {turn : Turn Client} (does : Calls junk r function turn r')
    (noPush : ∀ P t, function ≠ .poolPushTask P t ∨ r' = r) (noTask : ∀ f arg, function ≠ .taskNew f arg) :
    r.SameWork r' := by
  cases does with
  | pushed live room found =>
    cases noPush _ _ with
    | inl other => exact absurd rfl other
    | inr same => rw [same]; exact .refl r
  | taskCreated => exact absurd rfl (noTask _ _)
  | closed => exact .setPool
  | poolCreated => exact .ofInstances rfl rfl fun _ _ live => live
  | poolRefused | counted | hasTasks | tooMany | lookedUp | notPushed | unpushed => exact .refl r

/-! ## Execution -/

structure Executing (r : Records) (duty : Nat → Option WorkerPc) : Prop where
  bounded : ∀ p f, r.instances p = some f → p < r.nextInstance
  known : ∀ i pc p, duty i = some pc → pc.tpTask = some p → p < r.nextInstance
  running : ∀ i pc p f, duty i = some pc → pc.tpTask = some p → r.instances p = some f →
    f.isRunning = true ∧ f.isFinished = false
  alone : ∀ i j pc pc' p, duty i = some pc → duty j = some pc' → pc.tpTask = some p → pc'.tpTask = some p → i = j
  held : ∀ p f, r.instances p = some f → f.isRunning = true → ∃ i pc, duty i = some pc ∧ pc.tpTask = some p

namespace Executing

variable {duty : Nat → Option WorkerPc}

theorem keep (executing : Executing r duty) (same : r.SameWork r') : Executing r' duty where
  bounded p f' found := by
    obtain ⟨f, old, -⟩ := same.instances p f' found
    rw [same.nextInstance]
    exact executing.bounded p f old
  known := by
    rw [same.nextInstance]
    exact executing.known
  running i pc p f' here hand found := by
    obtain ⟨f, old, -, -, finished, running, -⟩ := same.instances p f' found
    rw [finished, running]
    exact executing.running i pc p f here hand old
  alone := executing.alone
  held p f' found marked := by
    obtain ⟨f, old, -, -, -, running, -⟩ := same.instances p f' found
    exact executing.held p f old (running ▸ marked)

/-- A new instance is pending. -/
theorem push (executing : Executing r duty) {P t : Nat} {task : ThreadTask} {c : Counters} :
    Executing (r.push junk P t task c) duty where
  bounded p f found := by
    show p < r.nextInstance + 1
    simp only [Records.push] at found
    split at found
    · omega
    · exact Nat.lt_succ_of_lt (executing.bounded p f found)
  known i pc p here hand := Nat.lt_succ_of_lt (executing.known i pc p here hand)
  running i pc p f here hand found := by
    have old := executing.known i pc p here hand
    simp only [Records.push] at found
    rw [if_neg (by omega)] at found
    exact executing.running i pc p f here hand found
  alone := executing.alone
  held p f found marked := by
    simp only [Records.push] at found
    split at found
    · cases found
      cases marked
    · exact executing.held p f found marked

/-- An instance that nobody has in hand is picked up. -/
theorem pick (executing : Executing r duty) {i p : Nat} {f : Fields} (free : duty i = none)
    (taken : r.instances p = some f) (pending : f.Pending) :
    Executing (r.setInstance p (some { f with isRunning := true }))
      (fun j => if j = i then some (.picked p) else duty j) := by
  have nobody : ∀ j pc, duty j = some pc → pc.tpTask ≠ some p := by
    intro j pc here hand
    have running := (executing.running j pc p f here hand taken).1
    rw [pending.1] at running
    cases running
  constructor
  · intro q g found
    by_cases here : q = p
    · exact here ▸ executing.bounded p f taken
    · exact executing.bounded q g ((if_neg here).symm.trans found)
  · intro j pc q on hand
    split at on
    · cases on
      cases hand
      exact executing.bounded p f taken
    · exact executing.known j pc q on hand
  · intro j pc q g on hand found
    split at on
    · cases on
      cases hand
      cases (Records.setInstance_found _).symm.trans found
      exact ⟨rfl, pending.2⟩
    · have apart : q ≠ p := fun same => nobody j pc on (same ▸ hand)
      exact executing.running j pc q g on hand ((if_neg apart).symm.trans found)
  · intro j k pc pc' q on on' hand hand'
    by_cases at_j : j = i
    · by_cases at_k : k = i
      · rw [at_j, at_k]
      · rw [if_pos at_j] at on
        rw [if_neg at_k] at on'
        cases on
        cases hand
        exact absurd hand' (nobody k pc' on')
    · by_cases at_k : k = i
      · rw [if_neg at_j] at on
        rw [if_pos at_k] at on'
        cases on'
        cases hand'
        exact absurd hand (nobody j pc on)
      · rw [if_neg at_j] at on
        rw [if_neg at_k] at on'
        exact executing.alone j k pc pc' q on on' hand hand'
  · intro q g found marked
    by_cases here : q = p
    · exact ⟨i, .picked p, if_pos rfl, by rw [here]; rfl⟩
    · obtain ⟨j, pc, on, hand⟩ := executing.held q g ((if_neg here).symm.trans found) marked
      have apart : j ≠ i := by
        intro same
        rw [same, free] at on
        cases on
      exact ⟨j, pc, by rw [if_neg apart]; exact on, hand⟩

/-- A worker goes on with the instance it has in hand; the flags stay. -/
theorem goOn (executing : Executing r duty) {i p : Nat} {pc pc' : WorkerPc} (on : duty i = some pc)
    (hand : pc.tpTask = some p) (hand' : pc'.tpTask = some p) :
    Executing r (fun j => if j = i then some pc' else duty j) := by
  -- The worker `i` holds the same instance before and behind the step.
  have before : ∀ j qc q, (if j = i then some pc' else duty j) = some qc → qc.tpTask = some q →
      ∃ qc', duty j = some qc' ∧ qc'.tpTask = some q := by
    intro j qc q on' handq
    split at on'
    · next same =>
      cases on'
      cases hand'.symm.trans handq
      exact ⟨pc, same ▸ on, hand⟩
    · exact ⟨qc, on', handq⟩
  constructor
  · exact executing.bounded
  · intro j qc q on' handq
    obtain ⟨qc', old, hand₀⟩ := before j qc q on' handq
    exact executing.known j qc' q old hand₀
  · intro j qc q f on' handq found
    obtain ⟨qc', old, hand₀⟩ := before j qc q on' handq
    exact executing.running j qc' q f old hand₀ found
  · intro j k qc qc' q onj onk handj handk
    obtain ⟨_, oldj, handj'⟩ := before j qc q onj handj
    obtain ⟨_, oldk, handk'⟩ := before k qc' q onk handk
    exact executing.alone j k _ _ q oldj oldk handj' handk'
  · intro q f found marked
    obtain ⟨j, qc, old, handq⟩ := executing.held q f found marked
    by_cases here : j = i
    · subst here
      cases on.symm.trans old
      cases hand.symm.trans handq
      exact ⟨j, pc', if_pos rfl, hand'⟩
    · exact ⟨j, qc, by rw [if_neg here]; exact old, handq⟩

/-- The result of an instance changes. -/
theorem store (executing : Executing r duty) {p : Nat} {f : Fields} {value : Value}
    (found : r.instances p = some f) :
    Executing (r.setInstance p (some { f with result := value })) duty := by
  have before : ∀ q g, (r.setInstance p (some { f with result := value })).instances q = some g →
      ∃ g₀, r.instances q = some g₀ ∧ g.isRunning = g₀.isRunning ∧ g.isFinished = g₀.isFinished := by
    intro q g found'
    by_cases here : q = p
    · subst here
      cases (Records.setInstance_found _).symm.trans found'
      exact ⟨f, found, rfl, rfl⟩
    · exact ⟨g, (if_neg here).symm.trans found', rfl, rfl⟩
  constructor
  · intro q g found'
    obtain ⟨g₀, old, -⟩ := before q g found'
    exact executing.bounded q g₀ old
  · exact executing.known
  · intro j pc q g on hand found'
    obtain ⟨g₀, old, running, finished⟩ := before q g found'
    rw [running, finished]
    exact executing.running j pc q g₀ on hand old
  · exact executing.alone
  · intro q g found' marked
    obtain ⟨g₀, old, running, -⟩ := before q g found'
    exact executing.held q g₀ old (running ▸ marked)

/-- The worker `i` completes its instance. -/
theorem complete (executing : Executing r duty) {i p P : Nat} {f : Fields} {c : Counters} {pc : WorkerPc}
    (on : duty i = some pc) (hand : pc.tpTask = some p) (found : r.instances p = some f) :
    Executing (r.complete P p f c) (fun j => if j = i then none else duty j) := by
  have nobody : ∀ j qc, j ≠ i → duty j = some qc → qc.tpTask ≠ some p := by
    intro j qc apart on' hand'
    exact apart (executing.alone j i qc pc p on' on hand' hand)
  have before : ∀ q g, q ≠ p → (r.complete P p f c).instances q = some g → r.instances q = some g :=
    fun q g apart found' => (if_neg apart).symm.trans found'
  constructor
  · intro q g found'
    by_cases here : q = p
    · exact here ▸ executing.bounded p f found
    · exact executing.bounded q g (before q g here found')
  · intro j qc q on' hand'
    split at on'
    · cases on'
    · exact executing.known j qc q on' hand'
  · intro j qc q g on' hand' found'
    split at on'
    · cases on'
    · next apart =>
      have other : q ≠ p := fun same => nobody j qc apart on' (same ▸ hand')
      exact executing.running j qc q g on' hand' (before q g other found')
  · intro j k qc qc' q onj onk handj handk
    split at onj
    · cases onj
    · split at onk
      · cases onk
      · exact executing.alone j k qc qc' q onj onk handj handk
  · intro q g found' marked
    by_cases here : q = p
    · subst here
      cases (if_pos rfl).symm.trans found'
      cases marked
    · obtain ⟨j, qc, old, hand'⟩ := executing.held q g (before q g here found') marked
      have apart : j ≠ i := by
        intro same
        subst same
        cases on.symm.trans old
        cases hand.symm.trans hand'
        exact here rfl
      exact ⟨j, qc, by rw [if_neg apart]; exact old, hand'⟩

end Executing

/-- A worker that looks for a task has nothing in hand. -/
theorem duty_looking {i : Nat} {w : Worker} (here : workers[i]? = some w) (looking : w.pc.Looking) :
    duty workers i = none := by
  rw [duty, here, Option.bind_some, Worker.onDuty, looking.tpTask]
  rfl

theorem duty_free {i : Nat} {w : Worker} {pc : WorkerPc} (here : workers[i]? = some w) (free : pc.tpTask = none) :
    duty (workers.set i { w with pc }) = fun j => if j = i then none else duty workers j := by
  rw [duty_set here, free]
  rfl

theorem duty_busy {i p : Nat} {w : Worker} {pc : WorkerPc} (here : workers[i]? = some w)
    (hand : pc.tpTask = some p) :
    duty (workers.set i { w with pc }) = fun j => if j = i then some pc else duty workers j := by
  rw [duty_set here, hand]
  rfl

/-- A worker that had nothing in hand and takes nothing. -/
theorem duty_idle {i : Nat} {w : Worker} {pc : WorkerPc} (here : workers[i]? = some w)
    (looking : w.pc.Looking) (free : pc.tpTask = none) :
    duty (workers.set i { w with pc }) = duty workers := by
  rw [duty_free here free]
  funext j
  by_cases same : j = i
  · rw [if_pos same, same, duty_looking here looking]
  · rw [if_neg same]

theorem Change.executing {label : Action × Out} (change : Change junk first s label s')
    (executing : Executing s.records (duty s.workers)) : Executing s'.records (duty s'.workers) := by
  cases change with
  | @call c function turn r' idle does =>
    rw [duty_call does, Shape.receive_records]
    show Executing r' (duty s.workers)
    cases does with
    | pushed live room found => exact executing.push
    | taskCreated => exact { executing with }
    | closed => exact executing.keep .setPool
    | poolCreated => exact executing.keep (.ofInstances rfl rfl fun _ _ live => live)
    | poolRefused | counted | hasTasks | tooMany | lookedUp | notPushed | unpushed => exact executing
  | proceed here does => exact executing.keep does.sameWork
  | @work w value woken worker turn r' here does wakes =>
    obtain ⟨P, pc⟩ := worker
    cases does with
    | slept looking live active nothing =>
      show Executing s.records (duty (s.workers.set w { pool := P, pc := .asleep false }))
      rw [duty_idle here looking rfl]
      exact executing
    | @exited pc c looking live inactive =>
      show Executing _ (duty (s.workers.set w { pool := P, pc := .exited }))
      rw [duty_idle here looking rfl]
      exact executing.keep .setPool
    | @picked pc c p f looking live active found taken pending =>
      show Executing _ (duty (s.workers.set w { pool := P, pc := .picked p }))
      rw [duty_busy here rfl]
      exact (executing.pick (duty_looking here looking) taken pending).keep
        (r := s.records.setInstance p _) (.ofInstances rfl rfl fun _ _ live => live)
    | @called p f task found live =>
      show Executing s.records (duty (s.workers.set w { pool := P, pc := .running _ }))
      rw [duty_busy here rfl]
      exact executing.goOn (duty_some.mpr ⟨_, here, rfl, rfl⟩) rfl rfl
    | @stored call f found =>
      show Executing _ (duty (s.workers.set w { pool := P, pc := .returned _ }))
      rw [duty_busy here rfl]
      exact (executing.goOn (duty_some.mpr ⟨_, here, rfl, rfl⟩) rfl rfl).store found
    | @completed p f c found live kept =>
      show Executing _ (duty (s.workers.set w { pool := P, pc := .ready }))
      rw [duty_free here rfl]
      exact executing.complete (duty_some.mpr ⟨_, here, rfl, rfl⟩) rfl found
    | @released p f c ret r' found live detached deletes =>
      show Executing r' (duty (s.workers.set w { pool := P, pc := .ready }))
      rw [duty_free here rfl]
      exact (executing.complete (duty_some.mpr ⟨_, here, rfl, rfl⟩) rfl found).keep deletes.sameWork

end SysprogLabs.Tpool
