import SysprogLabs.Tpool.Pending
import SysprogLabs.Tpool.Wakeups

/-! # Sleeping workers and blocked deleters

Whoever changes what a blocked thread waits for tells it: a push and the start of
`thread_pool_delete` wake up all workers of the pool, and a worker that leaves its loop
signals `thread_finish_cond`.  That signal is meant for one thread: of two calls of
`thread_pool_delete` on the same pool, one may be left behind.
-/

namespace SysprogLabs.Tpool

section

variable {junk : Nat → Value} {first : Nat → Ptr → Prop} {s s' : Shape} {r r' : Records} {label : Action × Out}
  {P : Nat} {c c' : Counters}

/-! ## What a step does to a pool -/

/-- No worker of the pool is blocked on `work_cond` without a pending wakeup. -/
def Told (P : Nat) (workers : List Worker) : Prop := ⟨P, .asleep false⟩ ∉ workers

theorem wakeWorkers_told (P : Nat) (workers : List Worker) : Told P (wakeWorkers P workers) := by
  intro mem
  obtain ⟨w, -, same⟩ := List.mem_map.mp mem
  split at same
  · -- Nobody sleeps on behind a notification.
    rw [Worker.notify] at same
    split at same
    · cases same
    · next awake =>
      rw [same] at awake
      exact awake false rfl
  · next apart =>
    rw [same] at apart
    exact apart rfl

/-- What a step does to a pool that is there before and after it. -/
inductive Shape.Moves (s : Shape) (P : Nat) (c : Counters) : Action → Shape → Counters → Prop where
  | kept {action : Action} {s' : Shape} {c' : Counters} (active : c'.isActive = c.isActive)
      (threads : c'.threadsCnt = c.threadsCnt) : Moves s P c action s' c'
  | closed {d : Nat} {s' : Shape} {c' : Counters} (empty : ¬ c.tasksCnt > 0) (told : Told P s'.workers)
      (active : c'.isActive = false) (threads : c'.threadsCnt = c.threadsCnt) :
      Moves s P c (.call d (.poolDelete P)) s' c'
  | pushed {d t : Nat} {s' : Shape} {c' : Counters} (active : c'.isActive = c.isActive)
      (threads : c.threadsCnt ≤ c'.threadsCnt) : Moves s P c (.call d (.poolPushTask P t)) s' c'
  | left {w : Nat} {value : Value} {woken : List Nat} {s' : Shape} {c' : Counters} (inactive : c.isActive = false)
      (active : c'.isActive = false) (threads : c'.threadsCnt = c.threadsCnt - 1)
      (clients : s'.clients = wakeClients (Client.awaitsFinish P) woken s.clients)
      (wakes : wakesOne (Client.awaitsFinish P) woken s.clients = true) :
      Moves s P c (.work w value woken) s' c'

/-- The pool is there before and after the step with the same flag and the same threads. -/
def Records.Keeps (r r' : Records) (P : Nat) : Prop := ∀ c c', r.pools P = some c → r'.pools P = some c' →
  c'.isActive = c.isActive ∧ c'.threadsCnt = c.threadsCnt

theorem Records.Keeps.ofPools (same : r'.pools P = r.pools P) : r.Keeps r' P := by
  intro c c' live live'
  rw [same, live] at live'
  cases live'
  exact ⟨rfl, rfl⟩

theorem Records.Keeps.setPool {Q : Nat} {d d' : Counters} (live : r.pools Q = some d) (active : d'.isActive = d.isActive)
    (threads : d'.threadsCnt = d.threadsCnt) : r.Keeps (r.setPool Q (some d')) P := by
  intro c c' before after
  by_cases here : P = Q
  · subst here
    cases live.symm.trans before
    cases (Records.setPool_found _).symm.trans after
    exact ⟨active, threads⟩
  · exact Records.Keeps.ofPools (if_neg here) c c' before after

/-- The completion of an instance frees its worker. -/
theorem Records.Keeps.complete {Q p : Nat} {f : Fields} {d : Counters} (live : r.pools Q = some d) :
    r.Keeps (r.complete Q p f d) P := by
  have free : r.Keeps (r.setPool Q (some { d with activeThreadsCnt := d.activeThreadsCnt - 1 })) P :=
    .setPool live rfl rfl
  exact free

theorem Records.Deletes.keeps {t : Nat} {ret : Int} (deletes : r.Deletes t ret r') : r.Keeps r' P := by
  cases deletes with
  | refused => exact .ofPools rfl
  | released =>
    intro c c' live live'
    simp only [Records.release, live, Option.map_some] at live'
    split at live' <;> cases live' <;> exact ⟨rfl, rfl⟩

theorem Proceeds.keeps {wait : WaitResult} {client : Client} {turn : Turn Client}
    (does : Proceeds r wait client turn r') : r.Keeps r' P := by
  cases does with
  | deleted deletes => exact deletes.keeps
  | released found finished deletes =>
    intro c c' live
    exact deletes.keeps c c' live
  | @destroyed Q _ live =>
    intro c c' before after
    by_cases here : P = Q
    · subst here
      cases (Records.setPool_found _).symm.trans after
    · exact Records.Keeps.ofPools (if_neg here) c c' before after
  | askedFinished | askedRunning | expired | blocked | joined | timedOut | woken | detached | freed | waitsAgain
  | leaves => exact .ofPools rfl

theorem Change.moves (change : Change junk first s label s') (sound : Sound s) (live : s.records.pools P = some c)
    (live' : s'.records.pools P = some c') : s.Moves P c label.1 s' c' := by
  have kept : s.records.Keeps s'.records P → s.Moves P c label.1 s' c' := by
    intro keeps
    have same := keeps c c' live live'
    exact .kept same.1 same.2
  cases change with
  | @call d function turn r' idle does =>
    rw [Shape.receive_records] at kept live'
    cases does with
    | @closed Q e liveQ empty =>
      by_cases here : P = Q
      · subst here
        cases live.symm.trans liveQ
        cases (Records.setPool_found _).symm.trans live'
        exact .closed empty (wakeWorkers_told P _) rfl rfl
      · exact kept (.ofPools (if_neg here))
    | @pushed Q t e task liveQ room found =>
      by_cases here : P = Q
      · subst here
        cases live.symm.trans liveQ
        cases (if_pos rfl).symm.trans live'
        refine .pushed rfl ?_
        by_cases busy : c.AllBusy
        · simp only [if_pos busy]
          omega
        · simp only [if_neg busy]
          omega
      · exact kept (.ofPools (if_neg here))
    | poolCreated =>
      have old : P ≠ s.records.nextPool := Nat.ne_of_lt (sound.staffed.allocated P c live)
      exact kept (.ofPools (if_neg old))
    | poolRefused | counted | hasTasks | tooMany | taskCreated | lookedUp | notPushed | unpushed =>
      exact kept (.ofPools rfl)
  | proceed here does => exact kept does.keeps
  | @work w value woken worker turn r' here does wakes =>
    obtain ⟨Q, pc⟩ := worker
    rw [Shape.receive_records] at kept live'
    cases does with
    | @exited pc e looking liveQ inactive =>
      by_cases same : P = Q
      · subst same
        cases live.symm.trans liveQ
        cases (Records.setPool_found _).symm.trans live'
        exact .left inactive inactive rfl rfl (wakes _ rfl)
      · exact kept (.ofPools (if_neg same))
    | @picked pc e p f looking liveQ active found taken pending =>
      have counted : s.records.Keeps (s.records.setPool Q (some { e with activeThreadsCnt := e.activeThreadsCnt + 1 })) P :=
        .setPool liveQ rfl rfl
      exact kept counted
    | completed found liveQ free => exact kept (.complete liveQ)
    | @released p f e ret r' found liveQ detached deletes =>
      -- First the counter of the busy workers, then the release.
      obtain ⟨c₁, live₁⟩ : ∃ c₁, (s.records.complete Q p f e).pools P = some c₁ := by
        by_cases same : P = Q
        · exact ⟨_, if_pos same⟩
        · exact ⟨c, (if_neg same).trans live⟩
      have first := Records.Keeps.complete liveQ c c₁ live live₁
      have second := deletes.keeps c₁ c' live₁ live'
      exact .kept (second.1.trans first.1) (second.2.trans first.2)
    | slept | called | stored => exact kept (.ofPools rfl)

/-! ## Workers -/

theorem Calls.tells {function : Call} {turn : Turn Client} (does : Calls junk r function turn r') {t : Nat}
    (pushes : function = .poolPushTask P t) (done : turn.out = .returned 0) :
    Told P (turn.signals.foldl (Shape.receive []) s).workers := by
  cases does with
  | @pushed Q u e task live room found =>
    cases pushes
    by_cases busy : e.AllBusy
    · simp only [if_pos busy]
      exact wakeWorkers_told P _
    · simp only [if_neg busy]
      exact wakeWorkers_told P _
  | tooMany => cases done
  | poolRefused | poolCreated | counted | hasTasks | closed | taskCreated | lookedUp | notPushed | unpushed =>
    cases pushes

/-- A push that succeeds leaves no worker of the pool asleep. -/
theorem Change.tells (change : Change junk first s label s') {d t : Nat}
    (pushes : label = (.call d (.poolPushTask P t), .returned 0)) : Told P s'.workers := by
  cases change with
  | call idle does => exact does.tells (by injection pushes with same; injection same) (congrArg Prod.snd pushes)
  | proceed | work => cases pushes

theorem mem_wakeWorkers_asleep {w : Worker} {Q : Nat} {workers : List Worker} (asleep : w.pc = .asleep false)
    (mem : w ∈ wakeWorkers Q workers) : w ∈ workers := by
  obtain ⟨w₀, mem₀, -, rfl | rfl⟩ := mem_wakeWorkers mem
  · exact mem₀
  · rw [Worker.notify] at asleep
    split at asleep
    · cases asleep
    · next awake => exact absurd asleep (awake false)

theorem Calls.sleepers {function : Call} {turn : Turn Client} (does : Calls junk r function turn r') {w : Worker}
    (asleep : w.pc = .asleep false) (mem : w ∈ (turn.signals.foldl (Shape.receive []) s).workers) : w ∈ s.workers := by
  cases does with
  | @pushed P t c task =>
    by_cases busy : c.AllBusy
    · simp only [if_pos busy] at mem
      rcases List.mem_append.mp (mem_wakeWorkers_asleep asleep mem) with old | new
      · exact old
      · cases List.mem_singleton.mp new
        cases asleep
    · simp only [if_neg busy] at mem
      exact mem_wakeWorkers_asleep asleep mem
  | closed => exact mem_wakeWorkers_asleep asleep mem
  | poolRefused | poolCreated | counted | hasTasks | tooMany | taskCreated | lookedUp | notPushed | unpushed =>
    exact mem

/-- A worker that is asleep was so before, or it has just found nothing to do. -/
theorem Change.sleeper (change : Change junk first s label s') {w : Worker} (mem : w ∈ s'.workers)
    (asleep : w.pc = .asleep false) : w ∈ s.workers ∨ (s'.records = s.records ∧ first w.pool none ∧
      ∃ c, s.records.pools w.pool = some c ∧ c.isActive = true) := by
  cases change with
  | call idle does =>
    have old := does.sleepers asleep mem
    exact .inl old
  | proceed here does => exact .inl mem
  | @work i value woken worker turn r' here does wakes =>
    obtain ⟨P, pc⟩ := worker
    -- Unless the worker `i` falls asleep, the others are as before.
    have others : ∀ workers' : List Worker, turn.next ≠ .asleep false →
        workers' = s.workers.set i ⟨P, turn.next⟩ → w ∈ workers' → w ∈ s.workers := by
      intro workers' stays same mem
      rw [same] at mem
      cases List.mem_or_eq_of_mem_set mem with
      | inl old => exact old
      | inr new =>
        rw [new] at asleep
        exact absurd asleep stays
    cases does with
    | slept looking live active nothing =>
      cases List.mem_or_eq_of_mem_set mem with
      | inl old => exact .inl old
      | inr new =>
        subst new
        exact .inr ⟨rfl, nothing, _, live, active⟩
    | exited | picked | called | stored | completed | released => exact .inl (others _ nofun rfl mem)

/-- A worker only sleeps in an active pool without pending instances. -/
def Watchful (s : Shape) : Prop := ∀ P, ⟨P, .asleep false⟩ ∈ s.workers →
  ∃ c, s.records.pools P = some c ∧ c.isActive = true ∧ s.records.pendingIn P = ∅

theorem Change.watchful (change : Change junk first s label s') (sound : Sound s) (watchful : Watchful s)
    (nothing : ∀ P c, s.records.pools P = some c → first P none → s.records.pendingIn P = ∅) : Watchful s' := by
  intro P asleep
  rcases change.sleeper asleep rfl with before | ⟨same, found, c, live, active⟩
  · obtain ⟨c, live, active, free⟩ := watchful P before
    have quiet : s'.records.pendingIn P = ∅ := by
      rw [Finset.eq_empty_iff_forall_notMem]
      intro p pending
      rcases change.pendingIn sound pending with old | ⟨-, d, t, pushes⟩
      · rw [free] at old
        cases old
      · exact change.tells pushes asleep
    cases live' : s'.records.pools P with
    | none =>
      -- A pool that is being destroyed is not active.
      obtain ⟨d, wait, -, here⟩ := change.lostPool live live'
      have closed := (sound.aware _ (List.mem_of_getElem? here)).2 c live
      rw [active] at closed
      cases closed
    | some c' =>
      refine ⟨c', rfl, ?_, quiet⟩
      have moves := change.moves sound live live'
      generalize label.1 = action at moves
      cases moves with
      | kept same => exact same.trans active
      | closed empty told => exact absurd asleep told
      | pushed same => exact same.trans active
      | left inactive =>
        rw [active] at inactive
        cases inactive
  · rw [same]
    exact ⟨c, live, active, nothing P c live found⟩

/-! ## Deleters -/

/-- In `thread_pool_delete` of the pool, behind the test of `tasks_cnt`. -/
def Client.closes (P : Nat) : Client → Bool
  | .deleting Q _ => Q == P
  | .destroying Q => Q == P
  | _ => false

@[simp] theorem Client.notify_closes (client : Client) : client.notify.closes P = client.closes P := by
  cases client <;> rfl

theorem Client.closes_of_awaitsFinish {client : Client} (waits : client.awaitsFinish P = true) :
    client.closes P = true := by
  cases client with
  | deleting Q notified =>
    cases notified with
    | false => exact waits
    | true => cases waits
  | idle | locking | freeing | joining | destroying => cases waits

/-- A predicate that ignores notifications counts the same clients behind a signal. -/
theorem countP_wakeClients {q : Client → Bool} (blind : ∀ client : Client, q client.notify = q client)
    (waits : Client → Bool) (woken : List Nat) (clients : List Client) :
    (wakeClients waits woken clients).countP q = clients.countP q := by
  have same : (wakeClients waits woken clients).map q = clients.map q := by
    apply List.ext_getElem
    · simp [wakeClients]
    · intro i _ _
      simp only [wakeClients, List.getElem_map, List.getElem_mapIdx]
      split
      · exact blind _
      · rfl
  have count : ∀ l : List Client, l.countP q = (l.map q).countP id := by
    intro l
    rw [List.countP_map]
    rfl
  rw [count, same, ← count]

/-- At most one call of `thread_pool_delete` is behind the test of `tasks_cnt`, for every pool. -/
def Alone (s : Shape) : Prop := ∀ P, s.clients.countP (Client.closes P) ≤ 1

theorem Proceeds.closes {wait : WaitResult} {client : Client} {turn : Turn Client}
    (does : Proceeds r wait client turn r') (closes : turn.next.closes P = true) : client.closes P = true := by
  cases does with
  | waitsAgain | leaves => exact closes
  | askedFinished | askedRunning | expired | blocked | joined | timedOut | woken | deleted | detached | released
  | freed | destroyed => cases closes

/-- A call that starts to delete a pool finds it there, closes it, and waits while it has threads. -/
theorem Calls.closes {function : Call} {turn : Turn Client} (does : Calls junk r function turn r')
    (closes : turn.next.closes P = true) : function = .poolDelete P ∧ ∃ c, r'.pools P = some c ∧
      (turn.next = .deleting P false → c.threadsCnt ≠ 0) ∧ (turn.next = .destroying P → c.threadsCnt = 0) := by
  cases does with
  | @closed Q c live empty =>
    by_cases threads : c.threadsCnt ≠ 0
    · simp only [if_pos threads] at closes ⊢
      obtain rfl : Q = P := beq_iff_eq.mp closes
      exact ⟨rfl, _, Records.setPool_found _, fun _ => threads, nofun⟩
    · simp only [if_neg threads] at closes ⊢
      obtain rfl : Q = P := beq_iff_eq.mp closes
      exact ⟨rfl, _, Records.setPool_found _, nofun, fun _ => Decidable.not_not.mp threads⟩
  | poolRefused | poolCreated | counted | hasTasks | tooMany | pushed | taskCreated | lookedUp | notPushed
  | unpushed => cases closes

theorem Change.alone (change : Change junk first s label s') (alone : Alone s)
    (free : ∀ d P, label.1 = .call d (.poolDelete P) → s.clients.countP (Client.closes P) = 0) : Alone s' := by
  intro P
  have before := alone P
  cases change with
  | @call d function turn r' idle does =>
    rw [does.sameClients]
    show (s.clients.set d turn.next).countP (Client.closes P) ≤ 1
    have moved := countP_set_add (a := turn.next) idle (Client.closes P)
    rw [if_neg (show ¬ Client.closes P .idle = true from nofun)] at moved
    by_cases closes : turn.next.closes P = true
    · have nobody := free d P (congrArg _ (does.closes closes).1)
      rw [if_pos closes] at moved
      omega
    · rw [if_neg closes] at moved
      omega
  | @proceed d wait client turn r' here does =>
    show (s.clients.set d turn.next).countP (Client.closes P) ≤ 1
    have moved := countP_set_add (a := turn.next) here (Client.closes P)
    by_cases closes : turn.next.closes P = true
    · rw [if_pos closes, if_pos (does.closes closes)] at moved
      omega
    · rw [if_neg closes] at moved
      omega
  | @work i value woken worker turn r' here does wakes =>
    obtain ⟨Q, pc⟩ := worker
    have blind : ∀ client : Client, client.notify.closes P = client.closes P := Client.notify_closes
    cases does with
    | slept | picked | called | stored => exact before
    | exited | completed | released =>
      exact (countP_wakeClients blind _ _ _).symm ▸ before

/-- A deleter that is blocked was so before, or it has just found that threads are left. -/
theorem Change.blocked (change : Change junk first s label s') (mem : .deleting P false ∈ s'.clients) :
    .deleting P false ∈ s.clients ∨ ∃ c, s'.records.pools P = some c ∧ c.threadsCnt ≠ 0 := by
  cases change with
  | call idle does =>
    rw [does.sameClients] at mem
    rw [Shape.receive_records]
    cases List.mem_or_eq_of_mem_set mem with
    | inl old => exact .inl old
    | inr new =>
      obtain ⟨-, c, live, threads, -⟩ := does.closes (P := P) (by simp [← new, Client.closes])
      exact .inr ⟨c, live, threads new.symm⟩
  | proceed here does =>
    cases List.mem_or_eq_of_mem_set mem with
    | inl old => exact .inl old
    | inr new =>
      cases does with
      | waitsAgain live threads =>
        cases new
        exact .inr ⟨_, live, threads⟩
      | askedFinished | askedRunning | expired | blocked | joined | timedOut | woken | deleted | detached | released
      | freed | leaves | destroyed => cases new
  | @work i value woken worker turn r' here does wakes =>
    obtain ⟨Q, pc⟩ := worker
    -- A signal makes nobody wait.
    have old : ∀ waits, .deleting P false ∈ wakeClients waits woken s.clients → .deleting P false ∈ s.clients := by
      intro waits mem
      obtain ⟨client, before, same | ⟨-, same⟩⟩ := mem_wakeClients mem
      · exact same ▸ before
      · cases client <;> cases same
    cases does with
    | slept | picked | called | stored => exact .inl mem
    | exited | completed | released => exact .inl (old _ mem)

/-- A deleter only stays blocked while the pool is there and has threads left. -/
def Deferred (s : Shape) : Prop := ∀ P, .deleting P false ∈ s.clients → ∃ c, s.records.pools P = some c ∧ c.threadsCnt ≠ 0

theorem Change.deferred (change : Change junk first s label s') (sound : Sound s) (alone : Alone s)
    (deferred : Deferred s) : Deferred s' := by
  intro P mem
  rcases change.blocked mem with before | now
  · obtain ⟨c, live, threads⟩ := deferred P before
    have counted := sound.staffed.threads P c live
    cases live' : s'.records.pools P with
    | none =>
      -- Somebody else would have to be behind the wait loop.
      obtain ⟨d, wait, -, here⟩ := change.lostPool live live'
      obtain ⟨i, at_i⟩ := List.mem_iff_getElem?.mp before
      have same := eq_of_countP_le_one (alone P) at_i here (by simp [Client.closes]) (by simp [Client.closes])
      rw [same, here] at at_i
      cases at_i
    | some c' =>
      refine ⟨c', rfl, ?_⟩
      have moves := change.moves sound live live'
      generalize label.1 = action at moves
      cases moves with
      | kept active same => omega
      | closed empty told active same => omega
      | pushed active more => omega
      | left inactive active fewer clients wakes =>
        have one : s.clients.countP (Client.awaitsFinish P) ≤ 1 := by
          apply Nat.le_trans _ (alone P)
          exact List.countP_mono_left fun client _ => Client.closes_of_awaitsFinish
        have woke := wakeClients_all (fun client => awaitsFinish_notify client P) rfl wakes one
        rw [← clients] at woke
        have quiet := woke _ mem
        simp [Client.awaitsFinish] at quiet
  · exact now

end

variable {junk : Nat → Value} {s s' : System} {label : Action × Out} {P : Nat}

/-- What `get_task` does not find is not there. -/
theorem Orderly.first_none (orderly : Orderly s) (sound : Sound s.shape) {c : Counters}
    (live : s.shape.records.pools P = some c) (first : s.heap.first P none) : s.shape.records.pendingIn P = ∅ := by
  obtain ⟨q, queued⟩ := orderly.queued
  have empty : (q P).waiting = [] := List.head?_eq_none_iff.mp (queued.getTask _ _ first).symm
  rw [Finset.eq_empty_iff_forall_notMem]
  intro p pending
  have waits := Records.place_pending.mpr (sound.owned.mem_pendingIn.mp pending)
  have mem := (queued.waiting P c live p).mpr waits
  rw [empty] at mem
  cases mem

/-! ## The statements -/

/-- `thread_pool_delete` is not called while another call of it for the same pool waits for the workers. -/
def Shape.deletesAlone (s : Shape) : Action → Bool
  | .call _ (.poolDelete P) => s.clients.all fun client => !client.closes P
  | _ => true

/-- No two calls of `thread_pool_delete` on one pool overlap, except for those that are refused. -/
def OneDeleter (s : System) (label : Action × Out) (_ : System) : Prop := s.shape.deletesAlone label.1 = true

instance : Decidable (OneDeleter s label s') := inferInstanceAs (Decidable (_ = _))

theorem OneDeleter.free (one : OneDeleter s label s') {d P : Nat} (deletes : label.1 = .call d (.poolDelete P)) :
    s.shape.clients.countP (Client.closes P) = 0 := by
  rw [OneDeleter, deletes] at one
  rw [List.countP_eq_zero]
  intro client mem closes
  have other := List.all_eq_true.mp one client mem
  rw [closes] at other
  cases other

theorem reachable_watchful {cond : System → Action × Out → System → Prop} {clients : Nat}
    (single : ∀ s label s', cond s label s' → SinglePool s label s')
    (reachable : Reachable (StepWhen junk cond) (System.init clients) s) : Watchful s.shape := by
  apply reachable.induct
  · exact nofun
  · intro s label s' reachable watchful step
    have sound := reachable_sound reachable
    have orderly := (reachable_single single reachable).2
    apply step.1.change.watchful sound watchful
    intro P c live first
    exact orderly.first_none sound live first

theorem reachable_alone {cond : System → Action × Out → System → Prop} {clients : Nat}
    (one : ∀ s label s', cond s label s' → OneDeleter s label s')
    (reachable : Reachable (StepWhen junk cond) (System.init clients) s) : Alone s.shape := by
  apply reachable.invariant
  · intro P
    rw [List.countP_eq_zero.mpr]
    · exact Nat.zero_le 1
    · intro client mem
      rw [List.eq_of_mem_replicate mem]
      exact nofun
  · intro s label s' alone step
    apply step.1.change.alone alone
    intro d P deletes
    exact (one s label s' step.2).free deletes

theorem reachable_deferred {cond : System → Action × Out → System → Prop} {clients : Nat}
    (one : ∀ s label s', cond s label s' → OneDeleter s label s')
    (reachable : Reachable (StepWhen junk cond) (System.init clients) s) : Deferred s.shape := by
  apply reachable.induct
  · intro P mem
    cases List.eq_of_mem_replicate mem
  · intro s label s' reachable deferred step
    exact step.1.change.deferred (reachable_sound reachable) (reachable_alone one reachable) deferred

/-- Nobody sleeps for ever: a worker that is blocked on `work_cond` without a pending wakeup
    has nothing to do, and `thread_pool_delete` that is blocked on `thread_finish_cond` without
    one has workers to wait for, none of whom is blocked. -/
structure NoLostWakeup (s : System) : Prop where
  workers : ∀ P, ⟨P, .asleep false⟩ ∈ s.workers → ∃ pool, s.heap.pools.cell P = some pool ∧ pool.isActive = true ∧
    ∀ p i, s.heap.tpTasks.cell p = some i → i.pool = some P → i.isRunning = true ∨ i.isFinished = true
  deleters : ∀ P, .deleting P false ∈ s.clients → ∃ pool, s.heap.pools.cell P = some pool ∧ pool.isActive = false ∧
    0 < pool.threadsCnt ∧ ⟨P, .asleep false⟩ ∉ s.workers

theorem no_lost_wakeup {clients : Nat}
    (reachable : Reachable (StepWhen junk fun s label s' => SinglePool s label s' ∧ OneDeleter s label s')
      (System.init clients) s) : NoLostWakeup s := by
  have sound := reachable_sound reachable
  have watchful := reachable_watchful (fun _ _ _ meets => meets.1) reachable
  have deferred := reachable_deferred (fun _ _ _ meets => meets.2) reachable
  constructor
  · intro P asleep
    obtain ⟨c, live, active, quiet⟩ := watchful P asleep
    obtain ⟨pool, live_P, rfl⟩ := Option.map_eq_some_iff.mp live
    refine ⟨pool, live_P, active, ?_⟩
    intro p i live_p inPool
    by_contra waiting
    rw [not_or, Bool.not_eq_true, Bool.not_eq_true] at waiting
    have pending := sound.owned.mem_pendingIn.mpr ⟨i.fields, System.record live_p, inPool, waiting⟩
    rw [quiet] at pending
    cases pending
  · intro P blocked
    obtain ⟨c, live, threads⟩ := deferred P blocked
    have counted := sound.staffed.threads P c live
    have closed := (sound.aware _ blocked).2 c live
    obtain ⟨pool, live_P, rfl⟩ := Option.map_eq_some_iff.mp live
    refine ⟨pool, live_P, closed, ?_, ?_⟩
    · show 0 < pool.counters.threadsCnt
      omega
    · intro asleep
      obtain ⟨c, live', active, -⟩ := watchful P asleep
      cases live.symm.trans live'
      rw [closed] at active
      cases active

/-- The worker of one pool sleeps, and the other pool is being deleted. -/
def sleepsAndWaits : List Action := [.call 0 (.poolNew 1), .call 0 (.poolNew 1), .call 0 (.taskNew 7 5),
  .call 0 (.taskNew 8 6), .call 0 (.poolPushTask 0 0), .call 0 (.poolPushTask 1 1), .work 0 0 [], .work 0 0 [],
  .work 0 42 [], .work 0 0 [], .work 0 0 [], .work 1 0 [], .work 1 0 [], .work 1 43 [], .work 1 0 [],
  .call 0 (.onTask .join 1), .proceed 0 .woken, .call 0 (.onTask .delete 1), .proceed 0 .woken, .call 0 (.poolDelete 1)]

theorem no_lost_wakeup_two : ∃ s,
    Reachable (StepWhen (fun _ => 9) fun s label s' => SinglePool s label s' ∧ OneDeleter s label s') (System.init 1) s ∧
    ⟨0, .asleep false⟩ ∈ s.workers ∧ s.clients.any (Client.awaitsFinish 1) = true ∧ NoLostWakeup s := by
  obtain ⟨outs, s, run, shown⟩ := replay_ends (fun _ => 9) (fun s label s' => SinglePool s label s' ∧ OneDeleter s label s')
    5 sleepsAndWaits (.init 1) (fun _ s => s.workers.contains ⟨0, .asleep false⟩ && s.clients.any (Client.awaitsFinish 1))
    (by decide +kernel)
  rw [Bool.and_eq_true, List.contains_iff_mem] at shown
  exact ⟨s, ⟨_, run⟩, shown.1, shown.2, no_lost_wakeup ⟨_, run⟩⟩

/-- Two clients delete a pool whose only worker is idle. -/
def deletedByTwo : List Action := [.call 0 (.poolNew 1), .call 0 (.taskNew 7 5), .call 0 (.poolPushTask 0 0), .work 0 0 [],
  .work 0 0 [], .work 0 42 [], .work 0 0 [], .call 0 (.onTask .join 0), .proceed 0 .woken, .call 0 (.onTask .delete 0),
  .proceed 0 .woken, .call 0 (.poolDelete 0), .call 1 (.poolDelete 0), .work 0 0 [0]]

/-- The last worker wakes up one of them, and the other one stays blocked without a thread to wait for. -/
theorem deleter_left_behind : ∃ outs s,
    Run (StepWhen (fun _ => 9) fun s label s' => Careful s label s' ∧ SinglePool s label s') (.init 2)
      (deletedByTwo.zip outs) s ∧
    s.clients.any (Client.awaitsFinish 0) = true ∧
    ∃ pool, s.heap.pools.cell 0 = some pool ∧ pool.isActive = false ∧ pool.threadsCnt = 0 := by
  obtain ⟨outs, s, run, shown⟩ := replay_ends (fun _ => 9) (fun s label s' => Careful s label s' ∧ SinglePool s label s')
    5 deletedByTwo (.init 2) (fun _ s => s.clients.any (Client.awaitsFinish 0) &&
      (s.heap.pools.cell 0).any fun pool => !pool.isActive && pool.threadsCnt == 0) (by decide +kernel)
  simp only [Bool.and_eq_true, Option.any_eq_true, Bool.not_eq_true', beq_iff_eq] at shown
  exact ⟨outs, s, run, shown.1, shown.2⟩

end SysprogLabs.Tpool
