import SysprogLabs.Tpool.Lists
import Mathlib.Data.Finset.Card
import Mathlib.Data.Finset.Range

/-! # Pending instances

In which order the pending instances of a pool are taken, and whether there are enough
workers for them.  A new thread is only created when no worker is free at the moment of a
push; a worker that was created or woken up and has not yet taken an instance counts as free.
-/

namespace SysprogLabs.Tpool

section

variable {junk : Nat → Value} {first : Nat → Ptr → Prop} {s s' : Shape} {r r' : Records} {label : Action × Out}
  {t p P : Nat} {c : Counters}

/-- The instances of the pool that nobody has taken yet. -/
def Records.pendingIn (r : Records) (P : Nat) : Finset Nat :=
  (Finset.range r.nextInstance).filter fun p => r.place p = some (some P, true)

theorem Records.place_pending : r.place p = some (some P, true) ↔
    ∃ f, r.instances p = some f ∧ f.pool = some P ∧ f.Pending := by
  rw [place, Option.map_eq_some_iff]
  simp only [Fields.place, Prod.mk.injEq, Fields.Pending, Bool.and_eq_true, Bool.not_eq_true']

theorem Owned.mem_pendingIn (owned : Owned r) : p ∈ r.pendingIn P ↔
    ∃ f, r.instances p = some f ∧ f.pool = some P ∧ f.Pending := by
  rw [Records.pendingIn, Finset.mem_filter, Finset.mem_range, Records.place_pending]
  constructor
  · exact fun both => both.2
  · rintro ⟨f, found, rest⟩
    exact ⟨(owned.born p f found).1, f, found, rest⟩

/-- A pending instance was pending before, or it is being pushed. -/
theorem Change.pendingIn (change : Change junk first s label s') (sound : Sound s)
    (pending : p ∈ s'.records.pendingIn P) :
    p ∈ s.records.pendingIn P ∨
      (p = s.records.nextInstance ∧ ∃ c t, label = (.call c (.poolPushTask P t), .returned 0)) := by
  obtain ⟨f, found, pool, free⟩ := (change.owned sound.owned).mem_pendingIn.mp pending
  by_cases old : p < s.records.nextInstance
  · obtain ⟨f₀, before, later⟩ := change.later.instances p f found old
    exact .inl (sound.owned.mem_pendingIn.mpr ⟨f₀, before, later.pool ▸ pool, later.pending free⟩)
  · obtain ⟨c, Q, t, task, counters, rfl, new, -, -, -, rfl⟩ := change.fresh sound found (Nat.not_lt.mp old)
    cases pool
    exact .inr ⟨new, c, t, rfl⟩

/-! ## The order of the pickups -/

/-- No pool has two pending instances. -/
def Records.OnePending (r : Records) : Prop := ∀ P p q, p ∈ r.pendingIn P → q ∈ r.pendingIn P → p = q

theorem Change.onePending (change : Change junk first s label s') (sound : Sound s)
    (one : s.records.OnePending)
    (free : ∀ c P t, label.1 = .call c (.poolPushTask P t) → s.records.pendingIn P = ∅) : s'.records.OnePending := by
  intro P p q at_p at_q
  rcases change.pendingIn sound at_p with old | ⟨new, c, t, rfl⟩
  · rcases change.pendingIn sound at_q with old' | ⟨-, c, t, rfl⟩
    · exact one P p q old old'
    · rw [free c P t rfl] at old
      cases old
  · rcases change.pendingIn sound at_q with old' | ⟨new', -⟩
    · rw [free c P t rfl] at old'
      cases old'
    · rw [new, new']

/-! ## Enough workers -/

/-- A pool that may still create threads has a free worker for every pending instance. -/
def Records.Served (r : Records) : Prop :=
  ∀ P c, r.pools P = some c → c.isActive = true → c.threadsCnt = c.maxThreadsCnt ∨
    ((r.pendingIn P).card : Int) ≤ c.threadsCnt - c.activeThreadsCnt

/-- A push is refused, creates a thread, may not create one, or finds a free worker for every
    pending instance and one more. -/
def Records.servesPush (r : Records) (P : Nat) : Bool :=
  (r.pools P).all fun c => c.tasksCnt = tpoolMaxTasks || c.threadsCnt = c.maxThreadsCnt ||
    c.activeThreadsCnt = c.threadsCnt || ((r.pendingIn P).card : Int) < c.threadsCnt - c.activeThreadsCnt

/-- No pool loses a free worker. -/
def Records.Eases (r r' : Records) : Prop :=
  ∀ P c', r'.pools P = some c' → c'.isActive = true → ∃ c, r.pools P = some c ∧ c.isActive = true ∧
    c'.maxThreadsCnt = c.maxThreadsCnt ∧ c'.threadsCnt = c.threadsCnt ∧ c'.activeThreadsCnt ≤ c.activeThreadsCnt

theorem Records.SameThreads.eases (same : r.SameThreads r') (later : r.Later r')
    (allocated : ∀ P c, r.pools P = some c → P < r.nextPool) : r.Eases r' := by
  intro P c' live' active'
  obtain ⟨c, live, max, threads, active⟩ := same.pools P c' live'
  obtain ⟨d, live₀, later⟩ := later.pools P c' live' (allocated P c live)
  cases live.symm.trans live₀
  refine ⟨c, live, ?_, max, threads, active.le⟩
  by_contra closed
  rw [later.closed (Bool.eq_false_iff.mpr closed)] at active'
  cases active'

theorem Records.Eases.setPool {c' : Counters} (live : r.pools P = some c) (open' : c'.isActive = true → c.isActive = true ∧
    c'.maxThreadsCnt = c.maxThreadsCnt ∧ c'.threadsCnt = c.threadsCnt ∧ c'.activeThreadsCnt ≤ c.activeThreadsCnt) :
    r.Eases (r.setPool P (some c')) := by
  intro Q d live' active'
  by_cases here : Q = P
  · subst here
    cases (Records.setPool_found _).symm.trans live'
    exact ⟨c, live, open' active'⟩
  · exact ⟨d, (if_neg here).symm.trans live', active', rfl, rfl, Int.le_refl _⟩

theorem Records.Eases.complete {f : Fields} (live : r.pools P = some c) :
    r.Eases (r.complete P p f c) := by
  have same : r.Eases (r.setPool P (some { c with activeThreadsCnt := c.activeThreadsCnt - 1 })) :=
    .setPool live fun active => ⟨active, rfl, rfl, Int.sub_le_self _ (by decide)⟩
  exact same

theorem Records.Eases.trans {r'' : Records} (h₁ : r.Eases r') (h₂ : r'.Eases r'') : r.Eases r'' := by
  intro P c'' live'' active''
  obtain ⟨c', live', active', max', threads', busy'⟩ := h₂ P c'' live'' active''
  obtain ⟨c, live, active, max, threads, busy⟩ := h₁ P c' live' active'
  exact ⟨c, live, active, max'.trans max, threads'.trans threads, Int.le_trans busy' busy⟩

theorem Records.Served.keep (served : r.Served) (fewer : ∀ P, r'.pendingIn P ⊆ r.pendingIn P) (eases : r.Eases r') :
    r'.Served := by
  intro P c' live' active'
  obtain ⟨c, live, active, max, threads, busy⟩ := eases P c' live' active'
  have less := Finset.card_le_card (fewer P)
  rcases served P c live active with full | enough
  · exact .inl (by omega)
  · exact .inr (by omega)

theorem Records.Served.push (served : r.Served) (junk : Nat → Value) (task : ThreadTask) (live : r.pools P = some c)
    (room : c.tasksCnt ≠ tpoolMaxTasks) (bounded : c.threadsCnt ≤ c.maxThreadsCnt) (good : r.servesPush P = true)
    (grows : (r.push junk P t task c).pendingIn P ⊆ insert r.nextInstance (r.pendingIn P))
    (others : ∀ Q, Q ≠ P → (r.push junk P t task c).pendingIn Q ⊆ r.pendingIn Q) :
    (r.push junk P t task c).Served := by
  intro Q d live' active'
  by_cases here : Q = P
  · subst here
    cases (if_pos rfl).symm.trans live'
    have more := (Finset.card_le_card grows).trans (Finset.card_insert_le _ _)
    have before := served Q c live active'
    rw [servesPush, live, Option.all_some] at good
    simp only [Bool.or_eq_true, decide_eq_true_eq, room, false_or] at good
    dsimp only
    by_cases busy : c.AllBusy
    · -- The new thread is there for the new instance.
      rw [if_pos busy]
      obtain ⟨all, room⟩ := busy
      exact .inr (by omega)
    · rw [if_neg busy]
      rw [Counters.AllBusy, not_and] at busy
      omega
  · have less := Finset.card_le_card (others Q here)
    rcases served Q d ((if_neg here).symm.trans live') active' with full | enough
    · exact .inl full
    · exact .inr (by omega)

/-- A worker takes a pending instance of its pool. -/
theorem Records.Served.pick (served : r.Served) {f : Fields} (owned : Owned r) (live : r.pools P = some c)
    (taken : r.instances p = some f) (pool : f.pool = some P) (pending : f.Pending)
    (fewer : ∀ Q, r'.pendingIn Q ⊆ r.pendingIn Q) (gone : p ∉ r'.pendingIn P)
    (pools : r'.pools = (r.setPool P (some { c with activeThreadsCnt := c.activeThreadsCnt + 1 })).pools) :
    r'.Served := by
  intro Q d live' active'
  rw [pools] at live'
  by_cases here : Q = P
  · subst here
    cases (Records.setPool_found _).symm.trans live'
    have inside : p ∈ r.pendingIn Q := owned.mem_pendingIn.mpr ⟨f, taken, pool, pending⟩
    have less : r'.pendingIn Q ⊆ (r.pendingIn Q).erase p := by
      intro x mem
      exact Finset.mem_erase.mpr ⟨fun same => gone (same ▸ mem), fewer Q mem⟩
    have cards := Finset.card_le_card less
    have one := Finset.card_erase_add_one inside
    have before := served Q c live active'
    dsimp only
    omega
  · have less := Finset.card_le_card (fewer Q)
    rcases served Q d ((if_neg here).symm.trans live') active' with full | enough
    · exact .inl full
    · exact .inr (by omega)

theorem Change.served (change : Change junk first s label s') (sound : Sound s) (served : s.records.Served)
    (home : ∀ P c p f, s.records.pools P = some c → first P (some p) → s.records.instances p = some f →
      f.pool = some P)
    (unused : s.records.pendingIn s.records.nextPool = ∅)
    (good : ∀ c P t, label.1 = .call c (.poolPushTask P t) → s.records.servesPush P = true) : s'.records.Served := by
  have allocated := sound.staffed.allocated
  -- Unless the step is a push, no instance becomes pending.
  have fewer : (∀ c P t, label.1 ≠ .call c (.poolPushTask P t)) → ∀ P, s'.records.pendingIn P ⊆ s.records.pendingIn P := by
    intro other P p mem
    rcases change.pendingIn sound mem with old | ⟨-, c, t, rfl⟩
    · exact old
    · exact absurd rfl (other c P t)
  have started : ∀ p, (∀ f, s'.records.instances p = some f → ¬ f.Pending) → ∀ P, p ∉ s'.records.pendingIn P := by
    intro p busy P mem
    obtain ⟨f, found, -, free⟩ := (change.owned sound.owned).mem_pendingIn.mp mem
    exact busy f found free
  have later := change.later
  cases change with
  | @call d function turn r' idle does =>
    have whole : Change junk first s _ _ := .call idle does
    have origin := fun P p => whole.pendingIn sound (P := P) (p := p)
    rw [Shape.receive_records] at fewer later origin ⊢
    cases does with
    | @pushed P t c task live room known =>
      apply served.push junk task live room (sound.staffed.bounded P c live).1 (good d P t rfl)
      · intro p mem
        rw [Finset.mem_insert]
        rcases origin P p mem with old | new
        · exact .inr old
        · exact .inl new.1
      · intro Q apart p mem
        rcases origin Q p mem with old | ⟨-, _, _, same⟩
        · exact old
        · cases same
          exact absurd rfl apart
    | @poolCreated max ok =>
      have fewer := fewer (by rintro c P t ⟨⟩)
      intro P c' live' active'
      by_cases new : P = s.records.nextPool
      · subst new
        cases (if_pos rfl).symm.trans live'
        have none := Finset.card_le_card (fewer s.records.nextPool)
        rw [unused] at none
        exact .inr (by simpa using none)
      · have less := Finset.card_le_card (fewer P)
        rcases served P c' ((if_neg new).symm.trans live') active' with full | enough
        · exact .inl full
        · exact .inr (by omega)
    | closed live empty =>
      exact served.keep (fewer (by rintro c P t ⟨⟩)) (.setPool live nofun)
    | tooMany => exact served
    | taskCreated =>
      exact served.keep (fewer (by rintro c P t ⟨⟩)) (Records.SameThreads.eases (.ofPools rfl rfl) later allocated)
    | poolRefused | counted | hasTasks | lookedUp | notPushed | unpushed => exact served
  | proceed here does =>
    exact served.keep (fewer (by rintro c P t ⟨⟩)) (does.sameThreads.eases later allocated)
  | @work w value woken worker turn r' here does wakes =>
    have fewer := fewer (by rintro c P t ⟨⟩)
    obtain ⟨P, pc⟩ := worker
    rw [Shape.receive_records] at fewer later started ⊢
    cases does with
    | slept | called => exact served
    | exited looking live inactive =>
      refine served.keep fewer (.setPool live ?_)
      intro active
      rw [inactive] at active
      cases active
    | @picked pc c p f looking live active found taken pending =>
      refine served.pick sound.owned live taken (home P c p f live found taken) pending fewer ?_ rfl
      apply started
      intro g at_p free
      cases (Records.setInstance_found _).symm.trans at_p
      cases free.1
    | stored found =>
      exact served.keep fewer (Records.SameThreads.eases (.ofPools rfl rfl) later allocated)
    | completed found live kept =>
      exact served.keep fewer (.complete live)
    | @released p f c ret r' found live detached deletes =>
      have allocated' : ∀ Q d, (s.records.complete P p f c).pools Q = some d → Q < s.records.nextPool := by
        intro Q d live'
        by_cases same : Q = P
        · exact same ▸ allocated P c live
        · exact allocated Q d ((if_neg same).symm.trans live')
      exact served.keep fewer (.trans (.complete live) (deletes.sameThreads.eases deletes.later allocated'))

end

variable {junk : Nat → Value} {s s' : System} {label : Action × Out} {p P : Nat}

theorem Orderly.first_home (orderly : Orderly s) {c : Counters} {f : Fields} (live : s.shape.records.pools P = some c)
    (first : s.heap.first P (some p)) (found : s.shape.records.instances p = some f) : f.pool = some P := by
  obtain ⟨q, queued⟩ := orderly.queued
  have head := queued.getTask _ _ first
  have mem : p ∈ (q P).waiting := List.mem_of_head? head.symm
  obtain ⟨g, found', pool, -⟩ := Records.place_pending.mp ((queued.waiting P c live p).mp mem)
  cases found.symm.trans found'
  exact pool

theorem Orderly.unused (orderly : Orderly s) (sound : Sound s.shape) :
    s.shape.records.pendingIn s.shape.records.nextPool = ∅ := by
  obtain ⟨q, queued⟩ := orderly.queued
  rw [Finset.eq_empty_iff_forall_notMem]
  intro p mem
  obtain ⟨f, found, pool, free⟩ := sound.owned.mem_pendingIn.mp mem
  exact Nat.lt_irrefl _ (queued.known p _ true (Records.place_pending.mpr ⟨f, found, pool, free⟩))

/-! ## The statements -/

/-- A push finds no pending instance in its pool. -/
def Shape.pushesAlone (s : Shape) : Action → Bool
  | .call _ (.poolPushTask P _) => s.records.pendingIn P = ∅
  | _ => true

def PushesAlone (s : System) (label : Action × Out) (_ : System) : Prop := s.shape.pushesAlone label.1 = true

instance : Decidable (PushesAlone s label s') := inferInstanceAs (Decidable (_ = _))

theorem reachable_onePending {clients : Nat}
    (reachable : Reachable (StepWhen junk PushesAlone) (System.init clients) s) : s.shape.records.OnePending := by
  apply reachable_invariant reachable
  · intro P p q mem
    cases mem
  · intro s label s' sound one step
    apply step.1.change.onePending sound one
    intro c P t at_label
    have alone := step.2
    rw [PushesAlone, at_label] at alone
    exact of_decide_eq_true alone

/-- If a task is only pushed while no instance is pending in the pool, then whenever a worker
    picks an instance up, no earlier one of the same pool is still pending. -/
theorem oldest_first {clients w : Nat} {value : Value} {woken : List Nat} {out : Out}
    (reachable : Reachable (StepWhen junk PushesAlone) (System.init clients) s)
    (step : Step junk s (.work w value woken, out) s') (picks : s'.workers[w]? = some ⟨P, .picked p⟩) :
    ∃ i, s'.heap.tpTasks.cell p = some i ∧ ∀ q < p, ∀ j, s'.heap.tpTasks.cell q = some j → j.pool = i.pool →
      j.isRunning = true ∨ j.isFinished = true := by
  have one := reachable_onePending reachable
  have owned := (reachable_sound reachable).owned
  obtain ⟨⟨Q, pc⟩, turn, here, returned, -, -, shape⟩ := Step.ofWork step
  have does : Works s.heap.records (s.heap.first Q) value Q pc turn s'.heap.records :=
    Worker.proceed_yields turn s'.heap returned
  have picks : s'.shape.workers[w]? = some ⟨P, .picked p⟩ := picks
  rw [shape] at picks
  have put : ∀ pc', (s.workers.set w ⟨Q, pc'⟩)[w]? = some ⟨Q, pc'⟩ :=
    fun pc' => List.getElem?_set_self (List.getElem?_eq_some_iff.mp here).1
  generalize records : s'.heap.records = r' at does
  cases does with
  | slept | exited | called | stored | completed | released => cases (put _).symm.trans picks
  | @picked _ c _ f looking live active found taken pending =>
    cases (put _).symm.trans picks
    obtain ⟨-, Q', pool⟩ := owned.pushed p f taken
    have at_p : s'.shape.records.instances p = some { f with isRunning := true } := by
      show s'.heap.records.instances p = _
      rw [records]
      exact Records.setInstance_found _
    obtain ⟨i, live_p, fields⟩ := System.object at_p
    refine ⟨i, live_p, ?_⟩
    intro q earlier j live_q samePool
    have at_q : s.heap.records.instances q = some j.fields := by
      have after : s'.heap.records.instances q = some j.fields := records_instance live_q
      rw [records] at after
      exact (if_neg (Nat.ne_of_lt earlier)).symm.trans after
    by_contra waiting
    rw [not_or, Bool.not_eq_true, Bool.not_eq_true] at waiting
    have pool_j : j.fields.pool = some Q' := samePool.trans ((congrArg Fields.pool fields).trans pool)
    have same := one Q' q p (owned.mem_pendingIn.mpr ⟨_, at_q, pool_j, waiting⟩)
      (owned.mem_pendingIn.mpr ⟨f, taken, pool, pending⟩)
    omega

/-- Two instances, pushed one after the other has been taken. -/
theorem oldest_first_alternating : ∃ s s' : System, Reachable (StepWhen (fun _ => 9) PushesAlone) (System.init 1) s ∧
    Step (fun _ => 9) s (.work 1 0 [], .running) s' ∧
    ∃ i, s'.heap.tpTasks.cell 1 = some i ∧ ∀ q < 1, ∀ j, s'.heap.tpTasks.cell q = some j → j.pool = i.pool →
      j.isRunning = true ∨ j.isFinished = true := by
  obtain ⟨outs, s', run, shown⟩ := replay_ends (fun _ => 9) PushesAlone 5 [.call 0 (.poolNew 2),
    .call 0 (.taskNew 7 5), .call 0 (.poolPushTask 0 0), .work 0 0 [], .call 0 (.poolPushTask 0 0), .work 1 0 []]
    (.init 1) (fun outs s => outs == [.created 0, .created 0, .returned 0, .running, .returned 0, .running] &&
      s.workers[1]? == some ⟨0, .picked 1⟩) (by decide +kernel)
  rw [Bool.and_eq_true, beq_iff_eq, beq_iff_eq] at shown
  obtain ⟨rfl, picks⟩ := shown
  obtain ⟨s, before, step⟩ := run.last rfl
  exact ⟨s, s', ⟨_, before⟩, step.1, oldest_first ⟨_, before⟩ step.1 picks⟩

/-- Two pushes in front of the first pickup. -/
def pushedTwice : List Action := [.call 0 (.poolNew 1), .call 0 (.taskNew 7 5), .call 0 (.taskNew 8 6),
  .call 0 (.poolPushTask 0 0), .call 0 (.poolPushTask 0 1), .work 0 0 []]

/-- The instance that was pushed last is taken, and the first one stays pending. -/
theorem newest_first : ∃ outs s, Run (Step fun _ => 9) (.init 1) (pushedTwice.zip outs) s ∧
    s.workers[0]? = some ⟨0, .picked 1⟩ ∧
    (∃ i, s.heap.tpTasks.cell 1 = some i ∧ i.pool = some 0) ∧
    ∃ j, s.heap.tpTasks.cell 0 = some j ∧ j.pool = some 0 ∧ j.isRunning = false ∧ j.isFinished = false := by
  obtain ⟨outs, s, run, shown⟩ := replay_ends (fun _ => 9) (fun _ _ _ => True) 5 pushedTwice (.init 1)
    (fun _ s => s.workers[0]? == some ⟨0, .picked 1⟩ && (s.heap.tpTasks.cell 1).any (fun i => i.pool == some 0) &&
      (s.heap.tpTasks.cell 0).any (fun j => j.pool == some 0 && (!j.isRunning && !j.isFinished))) (by decide +kernel)
  simp only [Bool.and_eq_true, beq_iff_eq, Option.any_eq_true, Bool.not_eq_true'] at shown
  exact ⟨outs, s, run.mono fun _ _ _ step => step.1, shown.1.1, shown.1.2, shown.2⟩

def Shape.servesPush (s : Shape) : Action → Bool
  | .call _ (.poolPushTask P _) => s.records.servesPush P
  | _ => true

/-- Every push that is not refused gets a new thread or a free worker, unless the pool has all its threads. -/
def InTime (s : System) (label : Action × Out) (s' : System) : Prop :=
  Together s label s' ∧ s.shape.servesPush label.1 = true

instance : Decidable (InTime s label s') := inferInstanceAs (Decidable (_ ∧ _))

theorem reachable_served {clients : Nat} (reachable : Reachable (StepWhen junk InTime) (System.init clients) s) :
    s.shape.records.Served := by
  have both : Orderly s ∧ s.shape.records.Served := by
    apply reachable_invariant reachable
    · exact ⟨System.init_orderly clients, fun P c live => by cases live⟩
    · intro s label s' sound inv step
      have orderly := inv.1
      refine ⟨step.1.orderly sound orderly step.2.1, ?_⟩
      apply step.1.change.served sound inv.2
      · intro P c p f live first found
        exact orderly.first_home live first found
      · exact orderly.unused sound
      · intro c P t at_label
        have good := step.2.2
        rw [at_label] at good
        exact good
  exact both.2

/-- Under this condition no pending instance of an active pool waits for a busy worker while
    the pool may still create a thread. -/
theorem work_conserved {clients : Nat} {pool : ThreadPool} {i : ThreadPoolTask}
    (reachable : Reachable (StepWhen junk InTime) (System.init clients) s)
    (live : s.heap.pools.cell P = some pool) (active : pool.isActive = true)
    (pending : s.heap.tpTasks.cell p = some i ∧ i.pool = some P ∧ i.isRunning = false ∧ i.isFinished = false)
    (busy : ∀ w ∈ s.workers, w.isThread P = true → w.isBusy P = true) :
    pool.threadsCnt = pool.maxThreadsCnt := by
  have sound := reachable_sound reachable
  obtain ⟨found, inPool, free⟩ := pending
  have waits : p ∈ s.shape.records.pendingIn P :=
    sound.owned.mem_pendingIn.mpr ⟨i.fields, System.record found, inPool, free⟩
  have counters := System.pool_record live
  have threads : pool.threadsCnt = s.workers.countP (Worker.isThread P) := sound.staffed.threads P _ counters
  have working : pool.activeThreadsCnt = s.workers.countP (Worker.isBusy P) := sound.staffed.active P _ counters
  have all : s.workers.countP (Worker.isThread P) ≤ s.workers.countP (Worker.isBusy P) :=
    List.countP_mono_left fun w mem => busy w mem
  rcases reachable_served reachable P _ counters active with full | enough
  · exact full
  · have some_waits := Finset.card_pos.mpr ⟨p, waits⟩
    have enough : ((s.shape.records.pendingIn P).card : Int) ≤ pool.threadsCnt - pool.activeThreadsCnt := enough
    omega

/-- Both threads of a pool are busy, and a third instance waits. -/
def threePushes : List Action := [.call 0 (.poolNew 2), .call 0 (.taskNew 7 5), .call 0 (.poolPushTask 0 0),
  .work 0 0 [], .call 0 (.poolPushTask 0 0), .work 1 0 [], .call 0 (.poolPushTask 0 0)]

theorem work_conserved_three : ∃ s pool, Reachable (StepWhen (fun _ => 9) InTime) (System.init 1) s ∧
    s.heap.pools.cell 0 = some pool ∧ pool.threadsCnt = pool.maxThreadsCnt := by
  obtain ⟨outs, s, run, shown⟩ := replay_ends (fun _ => 9) InTime 5 threePushes (.init 1)
    (fun _ s => (s.heap.pools.cell 0).any (fun pool => pool.isActive) &&
      (s.heap.tpTasks.cell 2).any (fun i => i.pool == some 0 && (!i.isRunning && !i.isFinished)) &&
      s.workers.all fun w => !w.isThread 0 || w.isBusy 0) (by decide +kernel)
  simp only [Bool.and_eq_true, beq_iff_eq, Option.any_eq_true, Bool.not_eq_true', List.all_eq_true,
    Bool.or_eq_true] at shown
  obtain ⟨⟨⟨pool, live, active⟩, i, pending⟩, busy⟩ := shown
  refine ⟨s, pool, ⟨_, run⟩, live, work_conserved ⟨_, run⟩ live active pending ?_⟩
  intro w mem thread
  rcases busy w mem with other | isBusy
  · rw [thread] at other
    cases other
  · exact isBusy

/-- Two pushes in a row; then the only worker that was created takes the second instance. -/
def pushedTogether : List Action := [.call 0 (.poolNew 2), .call 0 (.taskNew 7 5), .call 0 (.taskNew 8 6),
  .call 0 (.poolPushTask 0 0), .call 0 (.poolPushTask 0 1), .work 0 0 [], .work 0 0 []]

/-- An instance is pending, the only worker executes the function of the other one, and the
    pool has one thread of two. -/
theorem work_waits : ∃ outs s, Run (Step fun _ => 9) (.init 1) (pushedTogether.zip outs) s ∧
    (∃ pool, s.heap.pools.cell 0 = some pool ∧ pool.isActive = true ∧ pool.threadsCnt = 1 ∧ pool.maxThreadsCnt = 2) ∧
    (∃ i, s.heap.tpTasks.cell 0 = some i ∧ i.pool = some 0 ∧ i.isRunning = false ∧ i.isFinished = false) ∧
    s.workers = [⟨0, .running ⟨1, 8, 6⟩⟩] := by
  obtain ⟨outs, s, run, shown⟩ := replay_ends (fun _ => 9) (fun _ _ _ => True) 5 pushedTogether (.init 1)
    (fun _ s => (s.heap.pools.cell 0).any (fun pool => pool.isActive && (pool.threadsCnt == 1 && pool.maxThreadsCnt == 2)) &&
      (s.heap.tpTasks.cell 0).any (fun i => i.pool == some 0 && (!i.isRunning && !i.isFinished)) &&
      s.workers == [⟨0, .running ⟨1, 8, 6⟩⟩]) (by decide +kernel)
  simp only [Bool.and_eq_true, beq_iff_eq, Option.any_eq_true, Bool.not_eq_true'] at shown
  exact ⟨outs, s, run.mono fun _ _ _ step => step.1, shown.1.1, shown.1.2, shown.2⟩

end SysprogLabs.Tpool
