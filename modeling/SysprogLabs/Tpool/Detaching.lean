import SysprogLabs.Tpool.Joining
import SysprogLabs.Tpool.Releasing
import SysprogLabs.Tpool.Deleting

/-! # Detached tasks

`thread_task_detach` marks the newest instance of a task; the task is released when that
instance is finished, if no other one is in the way.  A worker that releases the task
signals the condition variable of its instance afterwards.
-/

namespace SysprogLabs.Tpool

open Prog

/-! ## Runs with pushes, detaches and workers -/

/-- The client is about to detach the task. -/
def Client.detaches (t : Nat) : Client → Bool
  | .locking .detach u _ _ => u == t
  | _ => false

/-- Another instance of the task of `p` is not finished. -/
def Records.othersUnfinished (r : Records) (t p : Nat) : Bool :=
  (r.tasks t).any fun task => task.list.any fun q => q ≠ p && (r.instances q).any fun g => !g.isFinished

/-- Clients create pools and tasks, push tasks and detach a task once.  A task whose instances
    have all finished is only detached if it has one instance; and once a task is detached, the
    last of its unfinished instances is not completed. -/
def Shape.detachesInTime (s : Shape) : Action → Bool
  | .call _ (.poolNew _) => true
  | .call _ (.poolThreadCount _) => true
  | .call _ (.poolPushTask _ _) => true
  | .call _ (.taskNew _ _) => true
  | .call _ (.onTask .detach t) => !s.log.contains (.detached t) && s.clients.all fun client => !client.detaches t
  | .call _ _ => false
  | .proceed c _ => match s.clients[c]? with
    | some (.locking .detach t _ _) =>
      !s.records.allOf t Fields.isFinished || (s.records.tasks t).any fun task => task.list.length == 1
    | _ => true
  | .work w _ _ => match s.workers[w]? with
    | some ⟨_, .returned p⟩ => (s.records.instances p).all fun f =>
      !s.log.contains (.detached f.threadTask) || s.records.othersUnfinished f.threadTask p
    | _ => true

section

variable {junk : Nat → Value} {first : Nat → Ptr → Prop} {s s' : Shape} {label : Action × Out} {action : Action}
  {r : Records} {c t p P : Nat} {f : Fields}

theorem Records.othersUnfinished_iff : r.othersUnfinished t p = true ↔ ∃ task, r.tasks t = some task ∧
    ∃ q ∈ task.list, q ≠ p ∧ ∃ g, r.instances q = some g ∧ g.isFinished = false := by
  simp only [othersUnfinished, Option.any_eq_true, List.any_eq_true, Bool.and_eq_true, decide_eq_true_eq,
    Bool.not_eq_true']

theorem Shape.detachesInTime_call {function : Call} (meets : s.detachesInTime (.call c function) = true) :
    (∀ P, function ≠ .poolDelete P) ∧ ∀ call t, function = .onTask call t → call = .detach ∧
      .detached t ∉ s.log ∧ ∀ client ∈ s.clients, client.detaches t = false := by
  cases function with
  | poolNew | poolThreadCount | poolPushTask | taskNew => exact ⟨nofun, nofun⟩
  | poolDelete => cases meets
  | onTask call t =>
    cases call with
    | detach =>
      refine ⟨nofun, ?_⟩
      rintro call u ⟨⟩
      simpa [detachesInTime] using meets
    | isFinished | isRunning | join | timedJoin | delete => cases meets

theorem Shape.detachesInTime_detach {wait : WaitResult} {pool : Ptr} (meets : s.detachesInTime (.proceed c wait) = true)
    (here : s.clients[c]? = some (.locking .detach t p pool)) (all : s.records.allOf t Fields.isFinished = true) :
    ∃ task, s.records.tasks t = some task ∧ task.list.length = 1 := by
  simpa [detachesInTime, here, all, Option.any_eq_true] using meets

theorem Shape.detachesInTime_complete {w : Nat} {value : Value} {woken : List Nat}
    (meets : s.detachesInTime (.work w value woken) = true) (here : s.workers[w]? = some ⟨P, .returned p⟩)
    (found : s.records.instances p = some f) (detached : .detached f.threadTask ∈ s.log) :
    s.records.othersUnfinished f.threadTask p = true := by
  simpa [detachesInTime, here, found, detached] using meets

/-- What holds in such runs. -/
structure Detaching (s : Shape) : Prop where
  quiet : ∀ client ∈ s.clients, client = .idle ∨ ∃ t p pool, client = .locking .detach t p pool
  unjoined : ∀ p f, s.records.instances p = some f → f.isJoined = false
  marked : ∀ p f, s.records.instances p = some f → f.isDetached = true → .detached f.threadTask ∈ s.log
  once : ∀ p q f g, s.records.instances p = some f → s.records.instances q = some g → f.isDetached = true →
    g.isDetached = true → f.threadTask = g.threadTask → p = q
  first : ∀ (c t p : Nat) pool, s.clients[c]? = some (.locking .detach t p pool) → .detached t ∉ s.log
  single : ∀ (c d t p q : Nat) pool pool', s.clients[c]? = some (.locking .detach t p pool) →
    s.clients[d]? = some (.locking .detach t q pool') → c = d
  held : ∀ (c t p : Nat) pool, s.clients[c]? = some (.locking .detach t p pool) → ∃ f, s.records.instances p = some f
  born : ∀ t, .detached t ∈ s.log → t < s.records.nextTask
  kept : ∀ t, t < s.records.nextTask → .detached t ∉ s.log → ∃ task, s.records.tasks t = some task
  /-- A detached task that is still there waits for one of its instances. -/
  waits : ∀ t task, .detached t ∈ s.log → s.records.tasks t = some task →
    ∃ q ∈ task.list, ∃ f, s.records.instances q = some f ∧ f.isFinished = false
  pools : ∀ P, P < s.records.nextPool → ∃ c, s.records.pools P = some c
  alive : s.Alive
  rooted : s.records.Rooted
  unstale : ∀ p, .stale p ∉ s.log

/-! ## One step -/

theorem Change.detachedLog (change : Change junk first s label s') : .detached t ∈ s'.log ↔ .detached t ∈ s.log ∨
    ∃ c wait p pool, label.1 = .proceed c wait ∧ s.clients[c]? = some (.locking .detach t p pool) := by
  cases change with
  | call idle does =>
    rw [does.sameLog]
    cases does with
    | taskCreated => simp
    | poolRefused | poolCreated | counted | hasTasks | closed | tooMany | pushed | lookedUp | notPushed | unpushed =>
      simp
  | @proceed c wait client turn r' here does =>
    have asks : (∃ d wait' p pool, Action.proceed c wait = .proceed d wait' ∧
        s.clients[d]? = some (.locking .detach t p pool)) ↔ ∃ p pool, client = .locking .detach t p pool := by
      constructor
      · rintro ⟨d, wait', p, pool, same, at_d⟩
        cases same
        exact ⟨p, pool, Option.some.inj (here.symm.trans at_d)⟩
      · rintro ⟨p, pool, same⟩
        exact ⟨c, wait, p, pool, rfl, same ▸ here⟩
    dsimp only
    rw [asks]
    cases does with
    | detached | released => simp [or_comm, eq_comm]
    | blocked joins | joined joins =>
      -- A client that joins does not detach.
      have other : ∀ {call : TaskCall} {timed : Bool} {u q : Nat} {ptr : Ptr}, call.Joins timed →
          ¬ ∃ p pool, Client.locking call u q ptr = .locking .detach t p pool := by
        rintro call timed u q ptr joins ⟨p, pool, same⟩
        cases same
        exact joins
      exact (or_iff_left (other joins)).symm
    | askedFinished | askedRunning | expired | timedOut | woken | deleted | freed | waitsAgain | leaves
    | destroyed => simp
  | @work w value woken worker turn r' here does wakes =>
    obtain ⟨P, pc⟩ := worker
    refine ⟨?_, ?_⟩
    · intro mem
      left
      cases does with
      | slept | exited | picked => exact mem
      | called | stored => simpa using mem
      | completed | released => simpa using Shape.signalEnd_log mem
    · rintro (old | ⟨c, wait, p, pool, same, -⟩)
      · have whole : Change junk first s _ _ := .work here does wakes
        exact whole.log_grows.subset old
      · cases same

/-- The deletions that release something are those of finished tasks with one instance, by
    the client that detaches the task. -/
theorem Detaching.deletion (inv : Detaching s) (sound : Sound s) (meets : s.detachesInTime action = true)
    (at_t : s.deletion action = some (t, r)) (all : r.allOf t Fields.deletable = true) :
    ∃ c wait p pool f task, action = .proceed c wait ∧ s.clients[c]? = some (.locking .detach t p pool) ∧
      s.records.tasks t = some task ∧ task.list = [p] ∧ s.records.instances p = some f ∧ f.isFinished = true := by
  obtain ⟨task, live, deletable⟩ := Records.allOf_iff.mp all
  rw [(Shape.deletion_later at_t).2.1] at live
  -- Nothing is joined, so that a deletable instance is finished.
  have finished : ∀ q ∈ task.list, ∀ f, r.instances q = some f → s.records.instances q = some f →
      f.isFinished = true := by
    intro q mem f found known
    obtain ⟨f', found', test⟩ := deletable q mem
    cases found.symm.trans found'
    simp only [Fields.deletable, inv.unjoined q f known, Bool.false_or, Bool.and_eq_true] at test
    exact test.2
  rcases Shape.deletion_cases at_t with ⟨c, wait, p, pool, -, here, -⟩ |
    ⟨c, wait, p, pool, f, at_action, here, found, done, rfl⟩ |
    ⟨w, value, woken, P, p, f, counters, at_action, here, found, -, detached, rfl, rfl⟩
  · rcases inv.quiet _ (List.mem_of_getElem? here) with same | ⟨_, _, _, same⟩ <;> cases same
  · have knows : f.threadTask = t := ((sound.aware _ (List.mem_of_getElem? here)).2 f found).1
    have inside : p ∈ task.list := sound.owned.whole p f task found (knows ▸ live)
    have every : s.records.allOf t Fields.isFinished = true := by
      refine Records.allOf_iff.mpr ⟨task, live, fun q mem => ?_⟩
      by_cases same : q = p
      · exact same ▸ ⟨f, found, done⟩
      · obtain ⟨g, known, -⟩ := sound.owned.listed t task q live mem
        exact ⟨g, known, finished q mem g ((if_neg same).trans known) known⟩
    subst at_action
    obtain ⟨task', live', one⟩ := Shape.detachesInTime_detach meets here every
    cases live.symm.trans live'
    obtain ⟨q, list⟩ := List.length_eq_one_iff.mp one
    rw [list, List.mem_singleton] at inside
    exact ⟨c, wait, p, pool, f, task, rfl, here, live, inside ▸ list, found, done⟩
  · subst at_action
    have others := Shape.detachesInTime_complete meets here found (inv.marked p f found detached)
    obtain ⟨task', live', q, mem, apart, g, known, unfinished⟩ := Records.othersUnfinished_iff.mp others
    cases live.symm.trans live'
    have same : (s.records.complete P p f counters).instances q = some g := (if_neg apart).trans known
    rw [finished q mem g same known] at unfinished
    cases unfinished

/-- An instance that goes is the only one of its task. -/
theorem Detaching.released (inv : Detaching s) (sound : Sound s) (change : Change junk first s label s')
    (meets : s.detachesInTime label.1 = true) (found : s.records.instances p = some f)
    (gone : s'.records.instances p = none) : f.isFinished = true ∧ s'.records.tasks f.threadTask = none ∧
      ∃ c wait pool, label.1 = .proceed c wait ∧ s.clients[c]? = some (.locking .detach f.threadTask p pool) := by
  obtain ⟨r, task, at_t, live, mem, all, records⟩ := change.released found gone sound.owned
  obtain ⟨c, wait, q, pool, g, task', at_label, here, live', list, known, done⟩ := inv.deletion sound meets at_t all
  cases live.symm.trans live'
  rw [list, List.mem_singleton] at mem
  subst mem
  cases found.symm.trans known
  refine ⟨done, ?_, c, wait, pool, at_label, here⟩
  rw [records]
  exact if_pos rfl

/-! ## Every step keeps the invariant -/

theorem Detaching.quietStep (inv : Detaching s) (change : Change junk first s label s')
    (meets : s.detachesInTime label.1 = true) :
    ∀ client ∈ s'.clients, client = .idle ∨ ∃ t p pool, client = .locking .detach t p pool := by
  intro client' mem
  cases change with
  | @call c function turn r' idle does =>
    rw [does.sameClients] at mem
    cases List.mem_or_eq_of_mem_set mem with
    | inl old => exact inv.quiet client' old
    | inr new =>
      subst new
      obtain ⟨noDelete, calls⟩ := Shape.detachesInTime_call meets
      cases does with
      | lookedUp =>
        obtain ⟨rfl, -⟩ := calls _ _ rfl
        exact .inr ⟨_, _, _, rfl⟩
      | unpushed =>
        obtain ⟨same, -⟩ := calls _ _ rfl
        cases same
      | closed => exact absurd rfl (noDelete _)
      | poolRefused | poolCreated | counted | hasTasks | tooMany | pushed | taskCreated | notPushed => exact .inl rfl
  | proceed here does =>
    cases List.mem_or_eq_of_mem_set mem with
    | inl old => exact inv.quiet client' old
    | inr new =>
      subst new
      have before := inv.quiet _ (List.mem_of_getElem? here)
      cases does with
      | detached | released => exact .inl rfl
      | blocked joins =>
        rcases before with same | ⟨_, _, _, same⟩ <;> cases same
        cases joins
      | askedFinished | askedRunning | expired | joined | timedOut | woken | deleted | freed | destroyed => exact .inl rfl
      | waitsAgain | leaves => rcases before with same | ⟨_, _, _, same⟩ <;> cases same
  | work here does wakes =>
    obtain ⟨c, at_c⟩ := List.mem_iff_getElem?.mp mem
    obtain ⟨client, before, told⟩ := Shape.receive_client at_c
    -- A signal does not move a client that is idle or wants the mutex.
    rcases inv.quiet client (List.mem_of_getElem? before) with rfl | ⟨t, p, pool, rfl⟩
    · rw [show Client.notify .idle = .idle from rfl, or_self] at told
      exact .inl told
    · rw [show Client.notify (.locking .detach t p pool) = .locking .detach t p pool from rfl, or_self] at told
      exact .inr ⟨t, p, pool, told⟩

theorem Detaching.unjoinedStep (inv : Detaching s) (sound : Sound s) (change : Change junk first s label s') {f' : Fields}
    (found : s'.records.instances p = some f') : f'.isJoined = false := by
  by_cases old : p < s.records.nextInstance
  · obtain ⟨f, before, sets⟩ := change.sets found old
    rcases sets.joined with same | ⟨c, wait, call, t, pool, timed, -, here, joins⟩
    · rw [same]
      exact inv.unjoined p f before
    · rcases inv.quiet _ (List.mem_of_getElem? here) with same | ⟨_, _, _, same⟩ <;> cases same
      cases joins
  · obtain ⟨c, P, t, task, counters, -, -, -, -, -, rfl⟩ := change.fresh sound found (Nat.not_lt.mp old)
    rfl

/-- A detached instance was detached before, or the step detaches it. -/
theorem Detaching.detachedStep (inv : Detaching s) (sound : Sound s) (change : Change junk first s label s') {f' : Fields}
    (found : s'.records.instances p = some f') (detached : f'.isDetached = true) :
    ∃ f, s.records.instances p = some f ∧ f'.threadTask = f.threadTask ∧ (f.isDetached = true ∨
      .detached f.threadTask ∉ s.log ∧ ∃ c wait pool, label.1 = .proceed c wait ∧
        s.clients[c]? = some (.locking .detach f.threadTask p pool)) := by
  by_cases old : p < s.records.nextInstance
  · obtain ⟨f, before, sets⟩ := change.sets found old
    obtain ⟨g, before', later⟩ := change.later.instances p f' found old
    cases before.symm.trans before'
    refine ⟨f, before, later.threadTask, ?_⟩
    rcases sets.detached with same | ⟨c, wait, t, pool, at_label, here⟩
    · exact .inl (same ▸ detached)
    · obtain rfl : f.threadTask = t := ((sound.aware _ (List.mem_of_getElem? here)).2 f before).1
      exact .inr ⟨inv.first c _ p pool here, c, wait, pool, at_label, here⟩
  · obtain ⟨c, P, t, task, counters, -, -, -, -, -, rfl⟩ := change.fresh sound found (Nat.not_lt.mp old)
    cases detached

theorem Detaching.onceStep (inv : Detaching s) (sound : Sound s) (change : Change junk first s label s') {q : Nat}
    {f' g' : Fields} (at_p : s'.records.instances p = some f') (at_q : s'.records.instances q = some g')
    (detached_p : f'.isDetached = true) (detached_q : g'.isDetached = true) (same : f'.threadTask = g'.threadTask) :
    p = q := by
  obtain ⟨f, found, owner, how⟩ := inv.detachedStep sound change at_p detached_p
  obtain ⟨g, found', owner', how'⟩ := inv.detachedStep sound change at_q detached_q
  rw [owner, owner'] at same
  rcases how with old | ⟨unlogged, c, wait, pool, at_label, here⟩
  · rcases how' with old' | ⟨unlogged', -⟩
    · exact inv.once p q f g found found' old old' same
    · exact absurd (same ▸ inv.marked p f found old) unlogged'
  · rcases how' with old' | ⟨-, d, wait', pool', at_label', here'⟩
    · exact absurd (same ▸ inv.marked q g found' old') unlogged
    · cases at_label.symm.trans at_label'
      have both := Option.some.inj (here.symm.trans here')
      rw [Client.locking.injEq] at both
      exact both.2.2.1

/-- A client that wants to detach a task finds it as it was when it looked up the instance. -/
theorem Detaching.lockingStep (inv : Detaching s) (sound : Sound s) (change : Change junk first s label s')
    (meets : s.detachesInTime label.1 = true) {pool : Ptr}
    (here : s'.clients[c]? = some (.locking .detach t p pool)) :
    .detached t ∉ s'.log ∧ ∃ f, s'.records.instances p = some f := by
  rcases change.locks here with ⟨before, stays⟩ | ⟨at_label, f, found, -⟩
  · -- No other client wants to detach the same task.
    have alone : ∀ d wait q pool', label.1 = .proceed d wait →
        s.clients[d]? ≠ some (.locking .detach t q pool') := by
      intro d wait q pool' at_label at_d
      obtain rfl := inv.single c d t p q pool pool' before at_d
      exact stays wait at_label
    constructor
    · rw [change.detachedLog]
      rintro (old | ⟨d, wait, q, pool', at_label, at_d⟩)
      · exact inv.first c t p pool before old
      · exact alone d wait q pool' at_label at_d
    · obtain ⟨f, found⟩ := inv.held c t p pool before
      cases still : s'.records.instances p with
      | some f' => exact ⟨f', rfl⟩
      | none =>
        have owner : f.threadTask = t := ((sound.aware _ (List.mem_of_getElem? before)).2 f found).1
        obtain ⟨-, -, d, wait, pool', at_label, at_d⟩ := inv.released sound change meets found still
        exact absurd (owner ▸ at_d) (alone d wait p pool' at_label)
  · rw [at_label] at meets
    obtain ⟨-, unlogged, -⟩ := (Shape.detachesInTime_call meets).2 _ _ rfl
    constructor
    · rw [change.detachedLog]
      rintro (old | ⟨d, wait, q, pool', same, -⟩)
      · exact unlogged old
      · cases at_label.symm.trans same
    · have none : s.deletion label.1 = none := by
        rw [at_label]
        rfl
      exact change.keeps none found

theorem Detaching.singleStep (inv : Detaching s) (change : Change junk first s label s')
    (meets : s.detachesInTime label.1 = true) {d q : Nat} {pool pool' : Ptr}
    (at_c : s'.clients[c]? = some (.locking .detach t p pool))
    (at_d : s'.clients[d]? = some (.locking .detach t q pool')) : c = d := by
  -- The call of one of them is refused while the other one is there.
  have refused : ∀ (c d p : Nat) pool, label.1 = .call c (.onTask .detach t) →
      s.clients[d]? ≠ some (.locking .detach t p pool) := by
    intro c d p pool at_label before
    rw [at_label] at meets
    obtain ⟨-, -, nobody⟩ := (Shape.detachesInTime_call meets).2 _ _ rfl
    have := nobody _ (List.mem_of_getElem? before)
    simp [Client.detaches] at this
  rcases change.locks at_c with ⟨before, -⟩ | ⟨call, -⟩
  · rcases change.locks at_d with ⟨before', -⟩ | ⟨call', -⟩
    · exact inv.single c d t p q pool pool' before before'
    · exact absurd before (refused d c p pool call')
  · rcases change.locks at_d with ⟨before', -⟩ | ⟨call', -⟩
    · exact absurd before' (refused c d q pool' call)
    · rw [call] at call'
      cases call'
      rfl

theorem Detaching.keptStep (inv : Detaching s) (sound : Sound s) (change : Change junk first s label s')
    (meets : s.detachesInTime label.1 = true) (old : t < s'.records.nextTask) (unlogged : .detached t ∉ s'.log) :
    ∃ task, s'.records.tasks t = some task := by
  rw [change.detachedLog] at unlogged
  cases gone : s'.records.tasks t with
  | some task => exact ⟨task, rfl⟩
  | none =>
    exfalso
    by_cases new : t < s.records.nextTask
    · obtain ⟨task, live⟩ := inv.kept t new fun logged => unlogged (.inl logged)
      rcases change.lostTask live gone with ⟨r, at_t, all, -⟩ | ⟨c, wait, -, here, -⟩
      · obtain ⟨c, wait, p, pool, -, -, at_label, here, -⟩ := inv.deletion sound meets at_t all
        exact unlogged (.inr ⟨c, wait, p, pool, at_label, here⟩)
      · rcases inv.quiet _ (List.mem_of_getElem? here) with same | ⟨_, _, _, same⟩ <;> cases same
    · rcases change.newTask with same | ⟨more, task, live⟩
      · omega
      · obtain rfl : t = s.records.nextTask := by omega
        rw [live] at gone
        cases gone

/-- An unfinished instance stays unfinished, or it is completed. -/
theorem Detaching.unfinishedStep (inv : Detaching s) (sound : Sound s) (change : Change junk first s label s')
    (meets : s.detachesInTime label.1 = true) (found : s.records.instances p = some f) (unfinished : f.isFinished = false)
    (stays : ∀ w value woken P, label.1 = .work w value woken → s.workers[w]? ≠ some ⟨P, .returned p⟩) :
    ∃ f', s'.records.instances p = some f' ∧ f'.threadTask = f.threadTask ∧ f'.isFinished = false := by
  cases still : s'.records.instances p with
  | none =>
    rw [(inv.released sound change meets found still).1] at unfinished
    cases unfinished
  | some f' =>
    have old := (sound.owned.born p f found).1
    obtain ⟨g, before, sets⟩ := change.sets still old
    cases found.symm.trans before
    obtain ⟨g, before', later⟩ := change.later.instances p f' still old
    cases found.symm.trans before'
    refine ⟨f', rfl, later.threadTask, ?_⟩
    rcases sets.finished with same | ⟨w, value, woken, P, at_label, here⟩
    · exact same.trans unfinished
    · exact absurd here (stays w value woken P at_label)

theorem Detaching.waitsStep (inv : Detaching s) (sound : Sound s) (change : Change junk first s label s')
    (meets : s.detachesInTime label.1 = true) {task : ThreadTask} (logged : .detached t ∈ s'.log)
    (live : s'.records.tasks t = some task) :
    ∃ q ∈ task.list, ∃ f, s'.records.instances q = some f ∧ f.isFinished = false := by
  have owned' := change.owned sound.owned
  -- It is enough to find an instance that the step does not complete.
  have enough : ∀ q f, s.records.instances q = some f → f.threadTask = t → f.isFinished = false →
      (∀ w value woken P, label.1 = .work w value woken → s.workers[w]? ≠ some ⟨P, .returned q⟩) →
      ∃ q ∈ task.list, ∃ f, s'.records.instances q = some f ∧ f.isFinished = false := by
    intro q f found owner unfinished stays
    obtain ⟨f', found', owner', unfinished'⟩ := inv.unfinishedStep sound change meets found unfinished stays
    refine ⟨q, owned'.whole q f' task found' ?_, f', found', unfinished'⟩
    rw [owner', owner]
    exact live
  rcases change.detachedLog.mp logged with before | ⟨c, wait, p, pool, at_label, here⟩
  · obtain ⟨task₀, live₀⟩ := change.oldTask live (inv.born t before)
    obtain ⟨q, mem, f, found, unfinished⟩ := inv.waits t task₀ before live₀
    obtain ⟨g, known, owner⟩ := sound.owned.listed t task₀ q live₀ mem
    cases found.symm.trans known
    by_cases done : ∃ w value woken P, label.1 = .work w value woken ∧ s.workers[w]? = some ⟨P, .returned q⟩
    · -- A worker completes this instance, but not the last one.
      obtain ⟨w, value, woken, P, at_label, here⟩ := done
      rw [at_label] at meets
      have others := Shape.detachesInTime_complete meets here found (owner ▸ before)
      obtain ⟨task', live', q', mem', apart, g, known', unfinished'⟩ := Records.othersUnfinished_iff.mp others
      obtain ⟨g', known'', owner'⟩ := sound.owned.listed _ task' q' live' mem'
      cases known'.symm.trans known''
      refine enough q' g known' (owner'.trans owner) unfinished' ?_
      intro w' value' woken' P' at_label' here'
      cases at_label.symm.trans at_label'
      cases here.symm.trans here'
      exact apart rfl
    · refine enough q f found owner unfinished ?_
      intro w value woken P at_label here
      exact done ⟨w, value, woken, P, at_label, here⟩
  · obtain ⟨f, found⟩ := inv.held c t p pool here
    have owner : f.threadTask = t := ((sound.aware _ (List.mem_of_getElem? here)).2 f found).1
    obtain ⟨task₀, live₀⟩ := inv.kept t (owner ▸ (sound.owned.born p f found).2) (inv.first c t p pool here)
    have inside : p ∈ task₀.list := sound.owned.whole p f task₀ found (owner ▸ live₀)
    by_cases every : s.records.allOf t Fields.isFinished = true
    · -- Then `p` is the only instance, and the task does not survive.
      exfalso
      rw [at_label] at meets
      obtain ⟨task', live', one⟩ := Shape.detachesInTime_detach meets here every
      cases live₀.symm.trans live'
      obtain ⟨q, list⟩ := List.length_eq_one_iff.mp one
      rw [list, List.mem_singleton] at inside
      subst inside
      obtain ⟨task', live', finished⟩ := Records.allOf_iff.mp every
      cases live₀.symm.trans live'
      obtain ⟨g, known, done⟩ := finished p (list ▸ List.mem_singleton_self p)
      cases found.symm.trans known
      have at_t : s.deletion label.1 = some (t, s.records.setInstance p (some { f with isDetached := true })) := by
        simp only [at_label, Shape.deletion, here, found, done, if_true]
      have all : (s.records.setInstance p (some { f with isDetached := true })).allOf t Fields.deletable = true := by
        refine Records.allOf_iff.mpr ⟨task₀, live₀, fun x mem => ?_⟩
        rw [list, List.mem_singleton] at mem
        subst mem
        exact ⟨_, Records.setInstance_found _, by simp [Fields.deletable, done]⟩
      obtain ⟨ret, deletes⟩ := change.deletes at_t
      rcases deletes.result with ⟨-, -, task', -, records⟩ | ⟨refused, -⟩
      · rw [records] at live
        cases (if_pos rfl).symm.trans live
      · rw [all] at refused
        cases refused
    · obtain ⟨q, mem, g, known, unfinished⟩ : ∃ q ∈ task₀.list, ∃ g, s.records.instances q = some g ∧
          g.isFinished = false := by
        by_contra none
        refine every (Records.allOf_iff.mpr ⟨task₀, live₀, fun q mem => ?_⟩)
        obtain ⟨g, known, -⟩ := sound.owned.listed t task₀ q live₀ mem
        refine ⟨g, known, ?_⟩
        by_contra unfinished
        exact none ⟨q, mem, g, known, Bool.eq_false_iff.mpr unfinished⟩
      obtain ⟨g', known', owner'⟩ := sound.owned.listed t task₀ q live₀ mem
      cases known.symm.trans known'
      refine enough q g known owner' unfinished ?_
      intro w value woken P same
      cases at_label.symm.trans same

theorem Detaching.step (inv : Detaching s) (sound : Sound s) (change : Change junk first s label s')
    (meets : s.detachesInTime label.1 = true) : Detaching s' where
  quiet := inv.quietStep change meets
  unjoined p f found := inv.unjoinedStep sound change found
  marked p f' found detached := by
    obtain ⟨f, before, owner, how⟩ := inv.detachedStep sound change found detached
    rw [owner, change.detachedLog]
    rcases how with old | ⟨-, c, wait, pool, at_label, here⟩
    · exact .inl (inv.marked p f before old)
    · exact .inr ⟨c, wait, p, pool, at_label, here⟩
  once p q f g found found' detached detached' same := inv.onceStep sound change found found' detached detached' same
  first c t p pool here := (inv.lockingStep sound change meets here).1
  single c d t p q pool pool' here here' := inv.singleStep change meets here here'
  held c t p pool here := (inv.lockingStep sound change meets here).2
  born t logged := by
    refine Nat.lt_of_lt_of_le ?_ change.nextTask
    rcases change.detachedLog.mp logged with before | ⟨c, wait, p, pool, at_label, here⟩
    · exact inv.born t before
    · obtain ⟨f, found⟩ := inv.held c t p pool here
      have owner : f.threadTask = t := ((sound.aware _ (List.mem_of_getElem? here)).2 f found).1
      exact owner ▸ (sound.owned.born p f found).2
  kept t old unlogged := inv.keptStep sound change meets old unlogged
  waits t task logged live := inv.waitsStep sound change meets logged live
  pools P old := by
    cases gone : s'.records.pools P with
    | some c => exact ⟨c, rfl⟩
    | none =>
      by_cases known : P < s.records.nextPool
      · obtain ⟨c, live⟩ := inv.pools P known
        obtain ⟨d, wait, -, here⟩ := change.lostPool live gone
        rcases inv.quiet _ (List.mem_of_getElem? here) with same | ⟨_, _, _, same⟩ <;> cases same
      · rcases change.newPool with same | ⟨more, c, live⟩
        · omega
        · obtain rfl : P = s.records.nextPool := by omega
          rw [live] at gone
          cases gone
  alive := by
    apply change.alive sound inv.alive
    intro p f found gone
    exact change.log_grows.subset (sound.logged.finished p f found (inv.released sound change meets found gone).1).1
  rooted := by
    apply change.rooted sound inv.rooted
    intro c wait t task at_label here
    rcases inv.quiet _ (List.mem_of_getElem? here) with same | ⟨_, _, _, same⟩ <;> cases same
  unstale := by
    apply change.unstale _ inv.unstale
    intro w value woken t r at_label at_t
    by_contra all
    obtain ⟨c, wait, p, pool, -, -, same, -⟩ := inv.deletion sound meets at_t ((Bool.not_eq_false _).mp all)
    cases at_label.symm.trans same

/-- Whatever the condition says about the next step, `delete_task` only releases a single instance. -/
theorem Detaching.share (inv : Detaching s) (sound : Sound s) (at_t : s.deletion action = some (t, r))
    (all : r.allOf t Fields.deletable = true) : r.sharePool t = true := by
  obtain ⟨task, live, deletable⟩ := Records.allOf_iff.mp all
  -- An instance that is deletable is detached.
  have detached : ∀ q ∈ task.list, ∀ f, r.instances q = some f → s.records.instances q = some f → f.isDetached = true := by
    intro q mem f found known
    obtain ⟨f', found', test⟩ := deletable q mem
    cases found.symm.trans found'
    simp only [Fields.deletable, inv.unjoined q f known, Bool.false_or, Bool.and_eq_true] at test
    exact test.1
  have single : ∃ p, ∀ q ∈ task.list, q = p := by
    have tasks := (Shape.deletion_later at_t).2.1
    have known : ∀ q ∈ task.list, ∃ g, s.records.instances q = some g ∧ g.threadTask = t :=
      fun q mem => sound.owned.listed t task q (tasks ▸ live) mem
    rcases Shape.deletion_cases at_t with ⟨c, wait, p, pool, -, here, -⟩ |
      ⟨c, wait, p, pool, f, -, here, -, -, rfl⟩ | ⟨w, value, woken, P, p, f, counters, -, -, found, -, on, rfl, rfl⟩
    · rcases inv.quiet _ (List.mem_of_getElem? here) with same | ⟨_, _, _, same⟩ <;> cases same
    · refine ⟨p, fun q mem => ?_⟩
      by_contra apart
      obtain ⟨g, at_q, owner⟩ := known q mem
      have marked := inv.marked q g at_q (detached q mem g ((if_neg apart).trans at_q) at_q)
      exact inv.first c t p pool here (owner ▸ marked)
    · refine ⟨p, fun q mem => ?_⟩
      by_contra apart
      obtain ⟨g, at_q, owner⟩ := known q mem
      exact apart (inv.once q p g f at_q found (detached q mem g ((if_neg apart).trans at_q) at_q) on owner)
  obtain ⟨p, single⟩ := single
  refine Records.sharePool_iff.mpr ⟨task, live, fun q mem => ?_⟩
  obtain ⟨f, found, -⟩ := deletable q mem
  refine ⟨f, found, ?_⟩
  cases head : task.list.head? with
  | none =>
    rw [List.head?_eq_none_iff.mp head] at mem
    cases mem
  | some x =>
    rw [Records.newestPool, head, Option.bind_some, single x (List.mem_of_head? head), ← single q mem, found,
      Option.bind_some]

end

variable {junk : Nat → Value} {s s' s₀ : System} {label : Action × Out}

def DetachesInTime (s : System) (label : Action × Out) (_ : System) : Prop :=
  s.shape.detachesInTime label.1 = true

instance : Decidable (DetachesInTime s label s') := inferInstanceAs (Decidable (_ = _))

theorem System.init_detaching (clients : Nat) : Detaching (System.init clients).shape := by
  have idle : ∀ client ∈ (System.init clients).shape.clients, client = .idle :=
    fun client mem => List.eq_of_mem_replicate mem
  have nobody : ∀ (c t p : Nat) pool, (System.init clients).shape.clients[c]? ≠ some (.locking .detach t p pool) := by
    intro c t p pool here
    cases idle _ (List.mem_of_getElem? here)
  refine ⟨fun client mem => .inl (idle client mem), nofun, nofun, ?_, ?_, ?_, ?_, nofun, nofun, nofun, nofun, nofun,
    nofun, nofun⟩
  · intro p q f g known
    cases known
  · intro c t p pool here
    exact absurd here (nobody c t p pool)
  · intro c d t p q pool pool' here
    exact absurd here (nobody c t p pool)
  · intro c t p pool here
    exact absurd here (nobody c t p pool)

theorem reachable_detaching {clients : Nat}
    (reachable : Reachable (StepWhen junk DetachesInTime) (System.init clients) s) :
    Detaching s.shape ∧ Orderly s := by
  apply reachable_invariant reachable
  · exact ⟨System.init_detaching clients, System.init_orderly clients⟩
  · intro s label s' sound inv step
    refine ⟨inv.1.step sound step.1.change step.2, step.1.orderly sound inv.2 ?_⟩
    exact Shape.releasesTogether_iff.mpr fun t r at_t all => inv.1.share sound at_t all

/-! ## The statements -/

/-- Every thread can go on: no piece of code reads or writes a released object. -/
structure NoFault (junk : Nat → Value) (s : System) : Prop where
  workers : ∀ w worker value, s.workers[w]? = some worker → worker.pc ≠ .exited →
    ∃ woken out s', Step junk s (.work w value woken, out) s'
  clients : ∀ c client wait, s.clients[c]? = some client → client ≠ .idle →
    ∃ out s', Step junk s (.proceed c wait, out) s'
  calls : ∀ c function, s.clients[c]? = some .idle → function.Valid s.heap →
    ∃ out s', Step junk s (.call c function, out) s'
  signals : ∀ p, .stale p ∉ s.log

theorem Detaching.homes (inv : Detaching s.shape) (orderly : Orderly s) : s.heap.records.Homes := by
  intro p P home
  obtain ⟨q, queued⟩ := orderly.queued
  obtain ⟨f, found, pool⟩ := Records.poolOf_some.mp home
  refine inv.pools P (queued.known p P f.place.2 ?_)
  rw [Records.place, found, Option.map_some, Fields.place, pool]

theorem Detaching.noFault (inv : Detaching s.shape) (orderly : Orderly s) (sound : Sound s.shape) : NoFault junk s where
  workers w worker value here stays := by
    obtain ⟨q, queued⟩ := orderly.queued
    obtain ⟨c, live⟩ := inv.pools worker.pool (sound.staffed.known worker (List.mem_of_getElem? here))
    obtain ⟨pool, live, -⟩ := Option.map_eq_some_iff.mp live
    refine worker_goes_on orderly inv.alive ?_ here stays live ?_ value
    · exact fun p i found => inv.rooted p i.fields (System.record found)
    · intro p i at_pc found
      obtain ⟨P, pc⟩ := worker
      obtain rfl : pc = .returned p := at_pc
      have running := (sound.executing.running w _ p i.fields
        (duty_some.mpr ⟨_, here, rfl, rfl⟩) rfl (System.record found)).1
      obtain ⟨task, known⟩ := inv.rooted p i.fields (System.record found)
      apply workerComplete_goes_on queued sound.owned sound.staffed.allocated (inv.homes orderly) found live running known
      rintro r detached rfl all
      have at_t : s.shape.deletion (.work w value []) =
          some (i.threadTask, s.shape.records.complete P p i.fields pool.counters) := by
        have detached : i.fields.isDetached = true := detached
        simp only [Shape.deletion, show s.shape.workers[w]? = _ from here, System.record found,
          System.pool_record live, detached, if_true]
        rfl
      exact inv.share sound at_t all
  clients c client wait here busy := by
    obtain ⟨q, queued⟩ := orderly.queued
    rcases inv.quiet client (List.mem_of_getElem? here) with rfl | ⟨t, p, ptr, rfl⟩
    · exact absurd rfl busy
    · obtain ⟨f, found⟩ := inv.held c t p ptr here
      obtain ⟨owner, home⟩ := (sound.aware _ (List.mem_of_getElem? here)).2 f found
      obtain ⟨-, P, pool⟩ := sound.owned.pushed p f found
      obtain ⟨i, live, rfl⟩ := System.object found
      obtain ⟨task, known⟩ := inv.rooted p i.fields found
      rw [owner] at known
      rw [pool] at home
      subst home
      apply Step.ofClient here
      apply threadTaskDetach_goes_on queued sound.owned sound.staffed.allocated (inv.homes orderly) live pool known
      rintro r finished rfl all
      have at_t : s.shape.deletion (.proceed c wait) =
          some (t, s.shape.records.setInstance p (some { i.fields with isDetached := true })) := by
        have finished : i.fields.isFinished = true := finished
        simp only [Shape.deletion, show s.shape.clients[c]? = _ from here, found, finished, if_true]
      exact inv.share sound at_t all
  calls c function idle valid := call_goes_on orderly sound idle valid
  signals := inv.unstale

/-- The task and the instances of it that `s₀` knows are released exactly once, and no pool
    counts an instance of it. -/
structure Gone (s₀ s : System) (t : Nat) : Prop where
  task : s.heap.tasks.freed.count t = 1
  instances : ∀ p i, s₀.heap.tpTasks.cell p = some i → i.threadTask = t → s.heap.tpTasks.freed.count p = 1
  uncounted : ∀ P pool, s.heap.pools.cell P = some pool → ∃ waiting begun, Listed s P pool waiting begun ∧
    ∀ p ∈ waiting ++ begun, ∃ i, s.heap.tpTasks.cell p = some i ∧ i.threadTask ≠ t

theorem run_later {cond : System → Action × Out → System → Prop} {ls : List (Action × Out)}
    (run : Run (StepWhen junk cond) s₀ ls s) : s₀.shape.records.Later s.shape.records := by
  apply run.invariant (Records.Later.refl _)
  intro s₁ label s₂ later step
  exact later.trans step.1.change.later

/-- In runs that detach in time no thread comes to a released object, and a detached task is gone
    as soon as its instances have finished. -/
theorem detached_released_once {clients : Nat} {ls : List (Action × Out)}
    (before : Reachable (StepWhen junk DetachesInTime) (System.init clients) s₀)
    (run : Run (StepWhen junk DetachesInTime) s₀ ls s) :
    NoFault junk s ∧ ∀ t, .detached t ∈ s.log →
      (∀ p i, s.heap.tpTasks.cell p = some i → i.threadTask = t → i.isFinished = true) → Gone s₀ s t := by
  have reachable : Reachable (StepWhen junk DetachesInTime) (System.init clients) s := by
    obtain ⟨labels, first⟩ := before
    exact ⟨_, first.append run⟩
  obtain ⟨inv, orderly⟩ := reachable_detaching reachable
  have sound := reachable_sound reachable
  refine ⟨inv.noFault orderly sound, ?_⟩
  intro t detached finished
  have dead : s.heap.tasks.cell t = none := by
    cases live : s.heap.tasks.cell t with
    | none => rfl
    | some task =>
      obtain ⟨q, mem, f, found, unfinished⟩ := inv.waits t task detached live
      obtain ⟨g, found', owner⟩ := sound.owned.listed t task q live mem
      cases found.symm.trans found'
      obtain ⟨i, live_q, rfl⟩ := System.object found
      have done : i.fields.isFinished = true := finished q i live_q owner
      rw [done] at unfinished
      cases unfinished
  -- An instance without its task does not exist.
  have none_left : ∀ p i, s.heap.tpTasks.cell p = some i → i.threadTask ≠ t := by
    intro p i live owner
    obtain ⟨task, known⟩ := inv.rooted p i.fields (System.record live)
    have known : s.heap.tasks.cell i.threadTask = some task := known
    rw [owner, dead] at known
    cases known
  constructor
  · rw [Store.count_freed, if_pos ⟨inv.born t detached, dead⟩]
  · intro p i live owner
    have later := run_later run
    have old : p < s₀.shape.records.nextInstance := Store.lt_next live
    have gone : s.heap.tpTasks.cell p = none := by
      cases still : s.heap.tpTasks.cell p with
      | none => rfl
      | some i' =>
        obtain ⟨f, found, later⟩ := later.instances p i'.fields (System.record still) old
        cases (System.record live).symm.trans found
        exact absurd (later.threadTask.trans owner) (none_left p i' still)
    rw [Store.count_freed, if_pos ⟨Nat.lt_of_lt_of_le old later.nextInstance, gone⟩]
  · intro P pool live
    obtain ⟨waiting, begun, listed⟩ := orderly.listed live
    refine ⟨waiting, begun, listed, fun p mem => ?_⟩
    obtain ⟨i, live_p, -⟩ := (listed.instances p).mp mem
    exact ⟨i, live_p, none_left p i live_p⟩

/-- A task that is pushed, and executed by the worker. -/
def executedTask : List Action := [.call 0 (.poolNew 1), .call 0 (.taskNew 7 5), .call 0 (.poolPushTask 0 0),
  .work 0 0 [], .work 0 0 [], .work 0 42 [], .work 0 0 []]

theorem detached_released_once_finished : ∃ s₀ s : System, ∃ i,
    Reachable (StepWhen (fun _ => 9) DetachesInTime) (System.init 1) s₀ ∧ s₀.heap.tpTasks.cell 0 = some i ∧
    i.threadTask = 0 ∧ NoFault (fun _ => 9) s ∧ Gone s₀ s 0 := by
  obtain ⟨outs, s₀, run, shown⟩ := replay_ends (fun _ => 9) DetachesInTime 5 executedTask (.init 1)
    (fun _ s₀ => (s₀.heap.tpTasks.cell 0).any (fun i => i.threadTask == 0) &&
      (replay (fun _ => 9) DetachesInTime 5 [.call 0 (.onTask .detach 0), .proceed 0 .woken] s₀).any fun result =>
        result.2.log.contains (.detached 0) &&
        (List.range result.2.heap.tpTasks.next).all fun p => (result.2.heap.tpTasks.cell p).all fun i => i.isFinished)
    (by decide +kernel)
  simp only [Bool.and_eq_true, Option.any_eq_true, beq_iff_eq, List.contains_iff_mem, List.all_eq_true, List.mem_range,
    Option.all_eq_true] at shown
  obtain ⟨⟨i, live, owner⟩, ⟨outs', s⟩, replayed, detached, finished⟩ := shown
  obtain ⟨safe, gone⟩ := detached_released_once ⟨_, run⟩ (replay_run replayed)
  refine ⟨s₀, s, i, ⟨_, run⟩, live, owner, safe, gone 0 detached ?_⟩
  intro p i live _
  exact finished p (Store.lt_next live) i live

/-- The task is detached while the worker executes its only instance. -/
def detachedWhileRunning : List Action := [.call 0 (.poolNew 1), .call 0 (.taskNew 7 5), .call 0 (.poolPushTask 0 0),
  .work 0 0 [], .work 0 0 [], .call 0 (.onTask .detach 0), .proceed 0 .woken, .work 0 42 [], .work 0 0 []]

/-- The task has two instances, and it is detached when both have finished. -/
def detachedAfterTwo : List Action := [.call 0 (.poolNew 1), .call 0 (.taskNew 7 5), .call 0 (.poolPushTask 0 0),
  .call 0 (.poolPushTask 0 0), .work 0 0 [], .work 0 0 [], .work 0 42 [], .work 0 0 [], .work 0 0 [], .work 0 0 [],
  .work 0 43 [], .work 0 0 [], .call 0 (.onTask .detach 0), .proceed 0 .woken]

/-- The worker signals the condition variable of the instance it has just released; and a
    detached task with two finished instances is not released at all. -/
theorem detached_mishandled :
    (∃ outs s, Run (Step fun _ => 9) (.init 1) (detachedWhileRunning.zip outs) s ∧ .stale 0 ∈ s.log ∧
      s.heap.tpTasks.freed = [0]) ∧
    (∃ outs s, Run (Step fun _ => 9) (.init 1) (detachedAfterTwo.zip outs) s ∧ .detached 0 ∈ s.log ∧
      s.heap.tasks.freed = [] ∧ s.heap.tpTasks.freed = [] ∧
      ∀ p < 2, ∃ i, s.heap.tpTasks.cell p = some i ∧ i.isFinished = true) := by
  constructor
  · obtain ⟨outs, s, run, shown⟩ := replay_ends (fun _ => 9) (fun _ _ _ => True) 5 detachedWhileRunning (.init 1)
      (fun _ s => s.log.contains (.stale 0) && s.heap.tpTasks.freed == [0]) (by decide +kernel)
    simp only [Bool.and_eq_true, beq_iff_eq, List.contains_iff_mem] at shown
    exact ⟨outs, s, run.mono fun _ _ _ step => step.1, shown.1, shown.2⟩
  · obtain ⟨outs, s, run, shown⟩ := replay_ends (fun _ => 9) (fun _ _ _ => True) 5 detachedAfterTwo (.init 1)
      (fun _ s => s.log.contains (.detached 0) && s.heap.tasks.freed == [] && s.heap.tpTasks.freed == [] &&
        (List.range 2).all fun p => (s.heap.tpTasks.cell p).any fun i => i.isFinished) (by decide +kernel)
    simp only [Bool.and_eq_true, beq_iff_eq, List.contains_iff_mem, List.all_eq_true, List.mem_range,
      Option.any_eq_true] at shown
    obtain ⟨⟨⟨detached, tasks⟩, instances⟩, finished⟩ := shown
    exact ⟨outs, s, run.mono fun _ _ _ step => step.1, detached, tasks, instances, finished⟩

end SysprogLabs.Tpool
