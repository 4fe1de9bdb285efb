import SysprogLabs.Tpool.Shutdown
import SysprogLabs.Tpool.Joining
import Mathlib.Data.Nat.Find

/-! # Pushed tasks are completed

From the moment on when nobody pushes into a pool any more, its workers complete all the
instances that it has.  Every step of a worker that has something to do makes the work
less, and as long as there is work some worker of the pool is not blocked.  So whoever
joins one of the instances returns at some time.
-/

namespace SysprogLabs.Tpool

section

variable {junk : Nat → Value} {first : Nat → Ptr → Prop} {s s' : Shape} {r r' : Records} {label : Action × Out}
  {P : Nat} {c : Counters}

/-! ## The work that is left -/

/-- The steps that are left of the instance that the worker has in hand. -/
def WorkerPc.toDo : WorkerPc → Nat
  | .picked _ => 3
  | .running _ => 2
  | .returned _ => 1
  | _ => 0

def Worker.toDo (P : Nat) (w : Worker) : Nat := if w.pool = P then w.pc.toDo else 0

/-- The steps that are left for the workers of the pool: a pending instance takes four. -/
def Shape.toServe (s : Shape) (P : Nat) : Nat :=
  4 * (s.records.pendingIn P).card + (s.workers.map (Worker.toDo P)).sum

theorem WorkerPc.toDo_pos {pc : WorkerPc} : 0 < pc.toDo ↔ pc.tpTask.isSome := by
  cases pc <;> simp [toDo, tpTask]

theorem WorkerPc.Looking.toDo {pc : WorkerPc} (looking : pc.Looking) : pc.toDo = 0 := by
  cases pc <;> simp_all [WorkerPc.toDo, WorkerPc.Looking]

@[simp] theorem Worker.notify_toDo (w : Worker) : w.notify.toDo P = w.toDo P := by
  obtain ⟨Q, pc⟩ := w
  cases pc <;> rfl

@[simp] theorem sum_wakeWorkers {Q : Nat} (workers : List Worker) :
    ((wakeWorkers Q workers).map (Worker.toDo P)).sum = (workers.map (Worker.toDo P)).sum := by
  rw [wakeWorkers, List.map_map]
  congr 1
  apply List.map_congr_left
  intro w _
  simp only [Function.comp]
  split <;> simp

/-- A new thread has nothing in hand, and a notified one has what it had. -/
theorem Calls.toDo {function : Call} {turn : Turn Client} (does : Calls junk r function turn r') :
    ((turn.signals.foldl (Shape.receive []) s).workers.map (Worker.toDo P)).sum = (s.workers.map (Worker.toDo P)).sum := by
  cases does with
  | @pushed Q t c task =>
    by_cases busy : c.AllBusy
    · simp [busy, Shape.receive, Worker.toDo, WorkerPc.toDo]
    · simp [busy, Shape.receive]
  | closed => simp [Shape.receive]
  | poolRefused | poolCreated | counted | hasTasks | tooMany | taskCreated | lookedUp | notPushed | unpushed => rfl

/-- A worker signals clients only. -/
theorem Works.receive_workers {found : Ptr → Prop} {value : Value} {pc : WorkerPc} {turn : Turn WorkerPc} {woken : List Nat}
    (does : Works r found value P pc turn r') : (turn.signals.foldl (Shape.receive woken) s).workers = s.workers := by
  cases does <;> rfl

/-- A worker goes on with what it has in hand, takes an instance, or finds none in its pool. -/
theorem Works.toDo {found : Ptr → Prop} {value : Value} {pc : WorkerPc} {turn : Turn WorkerPc}
    (does : Works r found value P pc turn r') :
    turn.next.toDo + 1 = pc.toDo ∨
      pc.toDo = 0 ∧ ∃ c, r.pools P = some c ∧
        ((turn.next.toDo = 0 ∧ (c.isActive = true → found none)) ∨
          (turn.next.toDo = 3 ∧ ∃ p f, found (some p) ∧ r.instances p = some f ∧ f.Pending ∧
            r'.instances p = some { f with isRunning := true })) := by
  cases does with
  | slept looking live active nothing => exact .inr ⟨looking.toDo, _, live, .inl ⟨rfl, fun _ => nothing⟩⟩
  | exited looking live inactive =>
    refine .inr ⟨looking.toDo, _, live, .inl ⟨rfl, ?_⟩⟩
    intro active
    rw [inactive] at active
    cases active
  | picked looking live active first taken pending =>
    exact .inr ⟨looking.toDo, _, live, .inr ⟨rfl, _, _, first, taken, pending, Records.setInstance_found _⟩⟩
  | called | stored | completed | released => exact .inl rfl

/-- The worker has an instance in hand, or there is one for it to take. -/
def Shape.HasWork (s : Shape) (P i : Nat) : Prop :=
  ∃ w, s.workers[i]? = some w ∧ w.pool = P ∧ w.pc ≠ .exited ∧ (0 < w.pc.toDo ∨ (s.records.pendingIn P).Nonempty)

/-- As long as nothing is pushed, the work only gets less; where it stays the same, so do the
    instances that nobody has taken, and no worker of the pool has gone on with its work. -/
theorem Change.toServe (change : Change junk first s label s') (sound : Sound s)
    (home : ∀ c p f, s.records.pools P = some c → first P (some p) → s.records.instances p = some f → f.pool = some P)
    (nothing : ∀ c, s.records.pools P = some c → (c.isActive = true → first P none) → s.records.pendingIn P = ∅)
    (quiet : ∀ d t, label ≠ (.call d (.poolPushTask P t), .returned 0)) :
    s'.toServe P < s.toServe P ∨
      (s'.toServe P = s.toServe P ∧ s'.records.pendingIn P = s.records.pendingIn P ∧
        ∀ i value woken, label.1 = .work i value woken → ¬ s.HasWork P i) := by
  have fewer : s'.records.pendingIn P ⊆ s.records.pendingIn P := by
    intro p mem
    rcases change.pendingIn sound mem with old | ⟨-, d, t, same⟩
    · exact old
    · exact absurd same (quiet d t)
  -- Unless a worker takes an instance or goes on with one, the rest is as it was.
  have settle : (s'.workers.map (Worker.toDo P)).sum = (s.workers.map (Worker.toDo P)).sum →
      (∀ i value woken, label.1 = .work i value woken → ¬ s.HasWork P i) →
      s'.toServe P < s.toServe P ∨ (s'.toServe P = s.toServe P ∧ s'.records.pendingIn P = s.records.pendingIn P ∧
        ∀ i value woken, label.1 = .work i value woken → ¬ s.HasWork P i) := by
    intro same idle
    rcases fewer.eq_or_ssubset with equal | less
    · right
      refine ⟨?_, equal, idle⟩
      rw [Shape.toServe, Shape.toServe, equal, same]
    · left
      have less := Finset.card_lt_card less
      rw [Shape.toServe, Shape.toServe, same]
      omega
  cases change with
  | call idle does => exact settle does.toDo (by simp)
  | proceed here does => exact settle rfl (by simp)
  | @work i value woken worker turn r' here does wakes =>
    obtain ⟨Q, pc⟩ := worker
    have moved := sum_set_add (a := ⟨Q, turn.next⟩) here (Worker.toDo P)
    simp only [Shape.toServe, does.receive_workers, Shape.receive_records] at settle fewer ⊢
    have less := Finset.card_le_card fewer
    by_cases inPool : Q = P
    · subst inPool
      simp only [Worker.toDo, if_true] at moved
      have goes := does.toDo
      dsimp only at goes
      rcases goes with busy | ⟨free, c, live, ⟨rests, none⟩ | ⟨takes, p, f, found, taken, pending, now⟩⟩
      · left
        omega
      · apply settle
        · omega
        · rintro j value' woken' own ⟨w, at_j, -, -, work⟩
          cases own
          cases here.symm.trans at_j
          rw [nothing c live none] at work
          simp [free] at work
      · left
        -- What has been taken is not pending any more.
        have mem : p ∈ s.records.pendingIn Q :=
          sound.owned.mem_pendingIn.mpr ⟨f, taken, home c p f live found taken, pending⟩
        have gone : p ∉ r'.pendingIn Q := by
          intro still
          rw [Records.pendingIn, Finset.mem_filter, Records.place_pending] at still
          obtain ⟨-, g, at_p, -, free⟩ := still
          cases now.symm.trans at_p
          cases free.1
        have less := Finset.card_lt_card (Finset.ssubset_iff_subset_ne.mpr ⟨fewer, fun same => gone (same ▸ mem)⟩)
        omega
    · apply settle
      · simp only [Worker.toDo, if_neg inPool] at moved
        omega
      · rintro j value' woken' own ⟨w, at_j, home, -⟩
        cases own
        cases here.symm.trans at_j
        exact inPool home

/-! ## Pools with instances have workers -/

/-- Every pool may have a thread, and one in which something is pending has one. -/
structure Manned (s : Shape) : Prop where
  room : ∀ P c, s.records.pools P = some c → 0 < c.maxThreadsCnt
  manned : ∀ P, (s.records.pendingIn P).Nonempty → ∃ c, s.records.pools P = some c ∧ c.threadsCnt ≠ 0

theorem Change.room (change : Change junk first s label s') (sound : Sound s)
    (room : ∀ P c, s.records.pools P = some c → 0 < c.maxThreadsCnt) :
    ∀ P c, s'.records.pools P = some c → 0 < c.maxThreadsCnt := by
  intro P c' live'
  have later := change.later
  have allocated := (change.staffed sound.staffed).allocated P c' live'
  by_cases old : P < s.records.nextPool
  · obtain ⟨c, live, kept⟩ := later.pools P c' live' old
    rw [kept.max]
    exact room P c live
  · -- Only `thread_pool_new` makes a pool, and it has tested the number.
    have other : s'.records.nextPool = s.records.nextPool → 0 < c'.maxThreadsCnt := by
      intro same
      omega
    cases change with
    | call idle does =>
      rw [Shape.receive_records] at other live' allocated
      cases does with
      | @poolCreated max good =>
        have new : P = s.records.nextPool := by
          have below : P < s.records.nextPool + 1 := allocated
          omega
        subst new
        cases (if_pos rfl).symm.trans live'
        dsimp only
        omega
      | poolRefused | counted | hasTasks | closed | tooMany | pushed | taskCreated | lookedUp | notPushed | unpushed =>
        exact other rfl
    | proceed here does => exact other does.sameThreads.nextPool
    | @work i value woken worker turn r' here does wakes =>
      obtain ⟨Q, pc⟩ := worker
      rw [Shape.receive_records] at other
      cases does with
      | released found live detached deletes => exact other deletes.sameThreads.nextPool
      | slept | exited | picked | called | stored | completed => exact other rfl

theorem Change.manned (change : Change junk first s label s') (sound : Sound s) (closing : Closing s) (manned : Manned s) :
    Manned s' where
  room := change.room sound manned.room
  manned := by
    rintro P ⟨p, mem⟩
    have staffed := change.staffed sound.staffed
    rcases change.pendingIn sound mem with old | ⟨new, d, t, pushes⟩
    · obtain ⟨c, live, threads⟩ := manned.manned P ⟨p, old⟩
      obtain ⟨f, found, pool, -⟩ := sound.owned.mem_pendingIn.mp old
      cases live' : s'.records.pools P with
      | none =>
        -- The pool that is freed has no instances.
        obtain ⟨d, wait, -, here⟩ := change.lostPool live live'
        have closed := sound.aware.closes (List.mem_of_getElem? here) (P := P) (by simp [Client.closes])
        exact absurd pool (closing.emptied P c live (closed.2 c live) p f found)
      | some c' =>
        refine ⟨c', rfl, ?_⟩
        have counted := sound.staffed.threads P c live
        have moves := change.moves sound live live'
        generalize label.1 = action at moves
        cases moves with
        | kept active same => omega
        | closed empty told active same => omega
        | pushed active more => omega
        | left inactive => exact absurd pool (closing.emptied P c live inactive p f found)
    · obtain ⟨f, found, -⟩ := (change.owned sound.owned).mem_pendingIn.mp mem
      obtain ⟨d', Q, t', task, c, same, -, -, live, records, -⟩ := change.fresh sound found (Nat.le_of_eq new.symm)
      cases pushes.symm.trans same
      have room := manned.room P c live
      have threads := sound.staffed.threads P c live
      have busy := sound.staffed.active P c live
      have fewer : s.workers.countP (Worker.isBusy P) ≤ s.workers.countP (Worker.isThread P) :=
        List.countP_mono_left fun w _ => isThread_of_isBusy
      rw [records]
      refine ⟨_, if_pos rfl, ?_⟩
      dsimp only
      split
      · omega
      · next idle =>
        rw [Counters.AllBusy, not_and] at idle
        omega

end

variable {junk : Nat → Value} {s s' : System} {label : Action × Out} {P : Nat} {clients : Nat}

theorem reachable_manned {cond : System → Action × Out → System → Prop}
    (used : ∀ s label s', cond s label s' → WellUsed s label s')
    (reachable : Reachable (StepWhen junk cond) (System.init clients) s) : Manned s.shape := by
  apply reachable.induct
  · refine ⟨nofun, ?_⟩
    rintro P ⟨p, mem⟩
    cases mem
  · intro s label s' reachable manned step
    have settled := reachable_settled (reachable.mono fun s l s' step => ⟨step.1, used s l s' step.2⟩)
    exact step.1.change.manned settled.sound settled.closing manned

/-! ## The next step of the work -/

/-- The call is no push into the pool, or it is refused. -/
def NoPush (P : Nat) (_ : System) (label : Action × Out) (_ : System) : Prop :=
  ∀ d t, label ≠ (.call d (.poolPushTask P t), .returned 0)

theorem Settled.serves (settled : Settled s) (step : Step junk s label s') (quiet : NoPush P s label s') :
    s'.shape.toServe P < s.shape.toServe P ∨
      (s'.shape.toServe P = s.shape.toServe P ∧ s'.shape.records.pendingIn P = s.shape.records.pendingIn P ∧
        ∀ i value woken, label.1 = .work i value woken → ¬ s.shape.HasWork P i) := by
  apply step.change.toServe settled.sound _ _ quiet
  · intro c p f live first found
    exact settled.orderly.first_home live first found
  · intro c live none
    by_cases active : c.isActive = true
    · exact settled.orderly.first_none settled.sound live (none active)
    · rw [Finset.eq_empty_iff_forall_notMem]
      intro p mem
      obtain ⟨f, found, pool, -⟩ := settled.sound.owned.mem_pendingIn.mp mem
      exact settled.closing.emptied P c live (by simpa using active) p f found pool

/-- As long as there is work, a worker that has some is not blocked. -/
theorem Settled.has_work (settled : Settled s) (manned : Manned s.shape) (left : s.shape.toServe P ≠ 0) :
    ∃ i w, s.workers[i]? = some w ∧ w.pool = P ∧ w.pc ≠ .exited ∧ w.pc ≠ .asleep false ∧ s.shape.HasWork P i := by
  by_cases pending : (s.shape.records.pendingIn P).Nonempty
  · obtain ⟨c, live, threads⟩ := manned.manned P pending
    have counted : c.threadsCnt = s.workers.countP (Worker.isThread P) := settled.sound.staffed.threads P c live
    obtain ⟨w, mem, thread⟩ := List.countP_pos_iff (p := Worker.isThread P) (l := s.workers).mp (by omega)
    obtain ⟨i, here⟩ := List.mem_iff_getElem?.mp mem
    have inPool : w.pool = P ∧ w.pc ≠ .exited := by simpa [Worker.isThread] using thread
    refine ⟨i, w, here, inPool.1, inPool.2, ?_, w, here, inPool.1, inPool.2, .inr pending⟩
    intro asleep
    obtain ⟨Q, pc⟩ := w
    obtain ⟨rfl, -⟩ := inPool
    cases asleep
    obtain ⟨-, -, -, none⟩ := settled.watchful Q mem
    simp [none] at pending
  · rw [Shape.toServe, Finset.not_nonempty_iff_eq_empty.mp pending, Finset.card_empty, Nat.mul_zero, Nat.zero_add] at left
    obtain ⟨k, mem_k, some_left⟩ := List.sum_pos_iff_exists_pos_nat.mp (Nat.pos_of_ne_zero left)
    obtain ⟨w, mem, rfl⟩ := List.mem_map.mp mem_k
    obtain ⟨i, here⟩ := List.mem_iff_getElem?.mp mem
    rw [Worker.toDo] at some_left
    split at some_left
    · next inPool =>
      refine ⟨i, w, here, inPool, ?_, ?_, w, here, inPool, ?_, .inl some_left⟩
      all_goals
        intro same
        rw [same] at some_left
        simp [WorkerPc.toDo] at some_left
    · simp at some_left

/-- A step of another thread leaves a worker its work, or less is left behind it. -/
theorem Settled.keeps_work (settled : Settled s) (step : Step junk s label s') (quiet : NoPush P s label s') {i : Nat}
    (work : s.shape.HasWork P i) (other : ¬ ∃ value woken, label.1 = .work i value woken) :
    s'.shape.toServe P < s.shape.toServe P ∨ s'.shape.HasWork P i := by
  rcases settled.serves step quiet with less | ⟨-, pending, -⟩
  · exact .inl less
  · right
    obtain ⟨w, here, inPool, stays, some_left⟩ := work
    rw [← pending] at some_left
    obtain ⟨w', here', (rfl | rfl) | ⟨value, woken, turn, own, -⟩⟩ := step.change.worker_kept here
    · exact ⟨w', here', inPool, stays, some_left⟩
    · refine ⟨_, here', by simp [inPool], by simp [stays], ?_⟩
      rwa [WorkerPc.toDo_pos, Worker.notify_tpTask, ← WorkerPc.toDo_pos]
    · exact absurd ⟨value, woken, own⟩ other

/-! ## Fair runs -/

/-- The workers of the pool go on at some time, unless they are blocked without a pending wakeup. -/
def WorkersFair (state : Nat → System) (label : Nat → Option (Action × Out)) (P : Nat) : Prop :=
  ∀ (n i : Nat) (w : Worker), (state n).workers[i]? = some w → w.pool = P → w.pc ≠ .exited → w.pc ≠ .asleep false →
    ∃ m ≥ n, ∃ l, label m = some l ∧ ∃ value woken, l.1 = .work i value woken

/-- The steps from the moment on when nobody pushes into the pool. -/
structure Draining (P : Nat) (s : System) (label : Action × Out) (s' : System) : Prop where
  used : WellUsed s label s'
  quiet : NoPush P s label s'

section

variable {state : Nat → System} {label : Nat → Option (Action × Out)} {n : Nat}

theorem Draining.reachable (reachable : Reachable (StepWhen junk WellUsed) (System.init clients) s) {l : Action × Out}
    (step : StepWhen junk (Draining P) s l s') : Reachable (StepWhen junk WellUsed) (System.init clients) s' :=
  reachable.step ⟨step.1, step.2.used⟩

/-- As long as there is work, it gets less at some time. -/
theorem WorkersFair.serves (fair : WorkersFair state label P) (trace : Trace (StepWhen junk (Draining P)) state label)
    (reachable : Reachable (StepWhen junk WellUsed) (System.init clients) (state n))
    (left : (state n).shape.toServe P ≠ 0) :
    ∃ m ≥ n, Reachable (StepWhen junk WellUsed) (System.init clients) (state m) ∧
      (state m).shape.toServe P < (state n).shape.toServe P := by
  obtain ⟨i, w, here, inPool, stays, awake, work⟩ :=
    (reachable_settled reachable).has_work (reachable_manned (fun _ _ _ => id) reachable) left
  -- Until its next step the worker keeps its work, unless others have made it less.
  have kept : ∀ s l s', (Reachable (StepWhen junk WellUsed) (System.init clients) s ∧
      (s.shape.toServe P < (state n).shape.toServe P ∨
        s.shape.toServe P ≤ (state n).shape.toServe P ∧ s.shape.HasWork P i)) →
      StepWhen junk (Draining P) s l s' → ¬ (∃ value woken, l.1 = .work i value woken) →
      Reachable (StepWhen junk WellUsed) (System.init clients) s' ∧
      (s'.shape.toServe P < (state n).shape.toServe P ∨
        s'.shape.toServe P ≤ (state n).shape.toServe P ∧ s'.shape.HasWork P i) := by
    rintro s l s' ⟨reachable, progress⟩ step other
    refine ⟨Draining.reachable reachable step, ?_⟩
    have settled := reachable_settled reachable
    have never_more : s'.shape.toServe P ≤ s.shape.toServe P := by
      rcases settled.serves step.1 step.2.quiet with less | ⟨same, -⟩
      · omega
      · omega
    rcases progress with less | ⟨bound, work⟩
    · left
      omega
    · rcases settled.keeps_work step.1 step.2.quiet work other with less | work'
      · left
        omega
      · exact .inr ⟨by omega, work'⟩
  obtain ⟨m, later, ⟨action, out⟩, at_m, ⟨value, woken, rfl⟩, reachable_m, progress⟩ :=
    trace.next ⟨reachable, .inr ⟨Nat.le_refl _, work⟩⟩ kept (fair n i w here inPool stays awake)
  have step := trace.moves m _ at_m
  refine ⟨m + 1, by omega, Draining.reachable reachable_m step, ?_⟩
  rcases (reachable_settled reachable_m).serves step.1 step.2.quiet with less | ⟨same, -, idle⟩
  · omega
  · rcases progress with less | ⟨-, work⟩
    · omega
    · exact absurd work (idle i value woken rfl)

/-- At some time nothing is left to do, and it stays so. -/
theorem WorkersFair.drains (fair : WorkersFair state label P) (trace : Trace (StepWhen junk (Draining P)) state label)
    (reachable : Reachable (StepWhen junk WellUsed) (System.init clients) (state n)) :
    ∃ m ≥ n, ∀ k ≥ m, Reachable (StepWhen junk WellUsed) (System.init clients) (state k) ∧
      (state k).shape.toServe P = 0 := by
  obtain ⟨m, later, reachable_m, none⟩ : ∃ m ≥ n,
      Reachable (StepWhen junk WellUsed) (System.init clients) (state m) ∧ (state m).shape.toServe P = 0 := by
    refine eventually_of_rank (P := Reachable (StepWhen junk WellUsed) (System.init clients))
      (fun s => s.shape.toServe P) reachable ?_
    intro n reachable
    by_cases left : (state n).shape.toServe P = 0
    · exact ⟨n, Nat.le_refl n, .inl ⟨reachable, left⟩⟩
    · obtain ⟨m, later, reachable', less⟩ := fair.serves trace reachable left
      exact ⟨m, later, .inr ⟨reachable', less⟩⟩
  refine ⟨m, later, ?_⟩
  apply trace.always (P := fun s => Reachable (StepWhen junk WellUsed) (System.init clients) s ∧ s.shape.toServe P = 0)
    ⟨reachable_m, none⟩
  rintro k - l - step ⟨reachable, none⟩
  refine ⟨Draining.reachable reachable step, ?_⟩
  rcases (reachable_settled reachable).serves step.1 step.2.quiet with less | ⟨same, -⟩
  · omega
  · omega

/-! ## What is left behind -/

theorem Shape.toServe_zero {s : Shape} (none : s.toServe P = 0) :
    s.records.pendingIn P = ∅ ∧ ∀ w ∈ s.workers, w.pool = P → w.pc.tpTask = .none := by
  rw [toServe, Nat.add_eq_zero_iff] at none
  constructor
  · rw [← Finset.card_eq_zero]
    omega
  · intro w mem inPool
    have rests := List.sum_eq_zero_iff_forall_eq_nat.mp none.2 _ (List.mem_map_of_mem mem)
    rw [Worker.toDo, if_pos inPool] at rests
    have idle : ¬ w.pc.tpTask.isSome := (not_congr WorkerPc.toDo_pos).mp (by omega)
    simpa using idle

/-- When nothing is left to do, every instance of the pool is finished. -/
theorem Settled.finished_all (settled : Settled s) (none : s.shape.toServe P = 0) {p : Nat} {f : Fields}
    (found : s.shape.records.instances p = some f) (pool : f.pool = some P) : f.isFinished = true := by
  obtain ⟨pending, idle⟩ := Shape.toServe_zero none
  by_contra unfinished
  rw [Bool.not_eq_true] at unfinished
  cases running : f.isRunning with
  | false =>
    have mem : p ∈ s.shape.records.pendingIn P :=
      settled.sound.owned.mem_pendingIn.mpr ⟨f, found, pool, running, unfinished⟩
    rw [pending] at mem
    cases mem
  | true =>
    obtain ⟨i, pc, on, hand⟩ := settled.sound.executing.held p f found running
    obtain ⟨w, here, rfl, -⟩ := duty_some.mp on
    have mem := List.mem_of_getElem? here
    have home := settled.closing.inHand w mem p f hand found
    rw [pool, Option.some.injEq] at home
    rw [idle w mem home.symm] at hand
    cases hand

/-- An instance of the pool is still there, or it has been completed. -/
theorem Draining.kept (trace : Trace (StepWhen junk (Draining P)) state label)
    (reachable : Reachable (StepWhen junk WellUsed) (System.init clients) (state n)) {p : Nat} {f : Fields}
    (found : (state n).shape.records.instances p = some f) (pool : f.pool = some P) :
    ∀ m ≥ n, (∃ g, (state m).shape.records.instances p = some g ∧ g.pool = some P) ∨ .completed p ∈ (state m).log := by
  have both : ∀ m ≥ n, Sound (state m).shape ∧
      ((∃ g, (state m).shape.records.instances p = some g ∧ g.pool = some P) ∨ .completed p ∈ (state m).log) := by
    apply trace.always (P := fun s => Sound s.shape ∧
      ((∃ g, s.shape.records.instances p = some g ∧ g.pool = some P) ∨ .completed p ∈ s.log))
    · exact ⟨reachable_sound reachable, .inl ⟨f, found, pool⟩⟩
    · rintro m - l - step ⟨sound, ⟨g, found, pool⟩ | completed⟩
      · refine ⟨step.1.sound sound, ?_⟩
        cases still : (state (m + 1)).shape.records.instances p with
        | none => exact .inr (step.2.used.careful.records p g found still)
        | some g' =>
          obtain ⟨g₀, found₀, later⟩ := step.1.change.later.instances p g' still (sound.owned.born p g found).1
          cases found.symm.trans found₀
          exact .inl ⟨g', rfl, by rw [later.pool, pool]⟩
      · exact ⟨step.1.sound sound, .inr (step.1.change.log_grows.subset completed)⟩
  intro m later
  exact (both m later).2

/-- The pool has worked off the instances that it had in `s₀`. -/
structure WorkedOff (P : Nat) (s₀ s : System) : Prop where
  /-- The functions of the instances were called once, and the instances were completed, even if they are released now. -/
  completed : ∀ p i, s₀.heap.tpTasks.cell p = some i → i.pool = some P → .completed p ∈ s.log ∧ invocations s.log p = 1
  finished : ∀ p i, s.heap.tpTasks.cell p = some i → i.pool = some P → i.isFinished = true
  idle : ∀ w ∈ s.workers, w.pool = P → w.pc.tpTask = none

theorem WorkersFair.workedOff (fair : WorkersFair state label P) (trace : Trace (StepWhen junk (Draining P)) state label)
    (reachable : Reachable (StepWhen junk WellUsed) (System.init clients) (state n)) :
    ∃ m ≥ n, ∀ k ≥ m, Reachable (StepWhen junk WellUsed) (System.init clients) (state k) ∧
    WorkedOff P (state n) (state k) := by
  obtain ⟨m, later, drained⟩ := fair.drains trace reachable
  refine ⟨m, later, ?_⟩
  intro k later'
  obtain ⟨reachable_k, none⟩ := drained k later'
  have settled := reachable_settled reachable_k
  have logged := settled.sound.logged
  refine ⟨reachable_k, ?_, ?_, (Shape.toServe_zero none).2⟩
  · intro p i live inPool
    have completed : .completed p ∈ (state k).log := by
      rcases Draining.kept trace reachable (System.record live) inPool k (by omega) with ⟨g, found, pool⟩ | completed
      · exact (logged.finished p g found (settled.finished_all none found pool)).1
      · exact completed
    exact ⟨completed, (logged.completed p completed).1⟩
  · intro p i live inPool
    exact settled.finished_all none (System.record live) inPool

end

/-! ## Joins -/

theorem reachable_heard {cond : System → Action × Out → System → Prop}
    (one : ∀ s label s', cond s label s' → OneJoiner s label s')
    (reachable : Reachable (StepWhen junk cond) (System.init clients) s) : Heard s.shape := by
  apply reachable_invariant reachable
  · exact nofun
  · intro s label s' sound heard step
    refine step.1.change.heard sound heard ?_
    intro w value woken P q at_w here
    have few := one s label s' step.2
    rw [OneJoiner, at_w] at few
    simp only [System.crowded, show s.workers[w]? = _ from here, decide_eq_false_iff_not, Nat.not_lt] at few
    exact few

/-- The client goes on at some time while it is in a call, unless it is blocked without a pending wakeup. -/
def ClientFair (state : Nat → System) (label : Nat → Option (Action × Out)) (d : Nat) : Prop :=
  ∀ (n : Nat) (client : Client), (state n).clients[d]? = some client → client ≠ .idle →
    (∀ p, client.awaitsEnd p = false) → (∀ Q, client.awaitsFinish Q = false) →
    ∃ m ≥ n, ∃ l, label m = some l ∧ ∃ wait, l.1 = .proceed d wait

/-- The steps of a run in which a join can be relied on. -/
structure Reliable (P : Nat) (s : System) (label : Action × Out) (s' : System) : Prop where
  draining : Draining P s label s'
  one : OneJoiner s label s'
  punctual : Punctual s label s'

section

variable {d t p : Nat}

/-- The client has called `thread_task_join` for the instance `p`, and the call has not returned. -/
def System.InJoin (s : System) (d t p : Nat) : Prop := Joining s.shape d t p ∧ s.clients[d]? ≠ some .idle

theorem System.InJoin.places (inside : s.InJoin d t p) :
    (∃ pool, s.clients[d]? = some (.locking .join t p pool)) ∨
      ∃ pool notified, s.clients[d]? = some (.joining t p pool false notified) := by
  obtain ⟨locking | joining | idle, stays⟩ := inside
  · exact .inl locking
  · exact .inr joining
  · exact absurd idle stays

/-- A call that has not returned goes on, and the client makes no other one. -/
theorem Step.in_join (step : Step junk s label s') (inside : s.InJoin d t p)
    (open' : ∀ wait value, label ≠ (.proceed d wait, .joined value)) :
    s'.InJoin d t p ∧ ∀ function, label.1 ≠ .call d function := by
  have noCall : ∀ function, label.1 ≠ .call d function := by
    intro function calls
    obtain ⟨action, out⟩ := label
    cases calls
    obtain ⟨turn, idle, -⟩ := Step.calls step
    exact inside.2 idle
  refine ⟨⟨step.change.keeps_joining noCall inside.1, ?_⟩, noCall⟩
  intro idle
  obtain ⟨client, here, (same | same) | ⟨wait, turn, rfl, does, same⟩⟩ := step.change.client noCall idle
  · exact inside.2 (same ▸ here)
  · cases client with
    | idle => exact inside.2 here
    | locking | freeing | joining | deleting | destroying => cases same
  · generalize s'.shape.records = r' at does
    have here : s.clients[d]? = some client := here
    rcases inside.places with ⟨pool, at_d⟩ | ⟨pool, notified, at_d⟩
    · cases at_d.symm.trans here
      cases does with
      | blocked => cases same
      | joined => exact open' wait _ rfl
    · cases at_d.symm.trans here
      cases does with
      | woken => exact open' wait _ rfl

/-- When its instance is completed, a join that goes on returns. -/
theorem Step.join_ends {wait : WaitResult} {out : Out} (sound : Sound s.shape) (step : Step junk s (.proceed d wait, out) s')
    (inside : s.InJoin d t p) (completed : .completed p ∈ s.log) : ∃ value, out = .joined value := by
  obtain ⟨client, turn, here, does, rfl, -⟩ := Step.proceeds step
  generalize s'.shape.records = r' at does
  rcases inside.places with ⟨pool, at_d⟩ | ⟨pool, notified, at_d⟩
  · cases at_d.symm.trans here
    cases does with
    | blocked joins found unfinished =>
      rw [(sound.logged.completed p completed).2.2 _ found] at unfinished
      cases unfinished
    | joined => exact ⟨_, rfl⟩
  · cases at_d.symm.trans here
    cases does with
    | woken => exact ⟨_, rfl⟩

/-- When its instance is completed, a join is not blocked. -/
theorem Heard.awake (heard : Heard s.shape) (inside : s.InJoin d t p) (completed : .completed p ∈ s.log) :
    ∃ client, s.clients[d]? = some client ∧ client ≠ .idle ∧ (∀ q, client.awaitsEnd q = false) ∧
      ∀ Q, client.awaitsFinish Q = false := by
  rcases inside.places with ⟨pool, here⟩ | ⟨pool, notified, here⟩
  · exact ⟨_, here, by simp, fun _ => rfl, fun _ => rfl⟩
  · refine ⟨_, here, by simp, ?_, fun _ => rfl⟩
    have told := heard p completed _ (List.mem_of_getElem? here)
    cases notified with
    | true => exact fun _ => rfl
    | false => simp [Client.awaitsEnd] at told

end

section

variable {state : Nat → System} {label : Nat → Option (Action × Out)} {d t p : Nat}

/-- From its call on the client is in `thread_task_join`, until it returns. -/
theorem Reliable.in_join {task : ThreadTask} (trace : Trace (StepWhen junk (Reliable P)) state label)
    (calls : label 0 = some (.call d (.onTask .join t), .running))
    (live : (state 0).heap.tasks.cell t = some task) (newest : task.list.head? = some p) {k : Nat}
    (open' : ∀ j ≤ k, ∀ wait value, label j ≠ some (.proceed d wait, .joined value)) : (state (k + 1)).InJoin d t p := by
  induction k with
  | zero =>
    obtain ⟨turn, idle, does, out, -, places⟩ := Step.calls (trace.moves 0 _ calls).1
    have at_d : (state 1).clients[d]? = some turn.next := by
      rw [places]
      exact List.getElem?_set_self (List.getElem?_eq_some_iff.mp idle).1
    generalize (state 1).shape.records = r' at does
    cases does with
    | @lookedUp _ _ q task' f live' first =>
      obtain rfl := Option.some.inj (live.symm.trans live')
      obtain rfl : p = q := Option.some.inj (newest.symm.trans first)
      exact ⟨.inl ⟨_, at_d⟩, by simp [at_d]⟩
    | notPushed _ _ answer => rcases answer with rfl | rfl <;> cases out
  | succ k ih =>
    have before := ih fun j less => open' j (by omega)
    cases at_k : label (k + 1) with
    | none =>
      rw [trace.rests _ at_k]
      exact before
    | some l =>
      refine ((trace.moves _ l at_k).1.in_join before ?_).1
      intro wait value same
      exact open' (k + 1) (Nat.le_refl _) wait value (same ▸ at_k)

/-- If the client stayed in the call, its instance would be completed, and then it would go on. -/
theorem Reliable.join_ends
    (reachable : Reachable (StepWhen junk fun s l s' => WellUsed s l s' ∧ OneJoiner s l s') (System.init clients) (state 0))
    (trace : Trace (StepWhen junk (Reliable P)) state label) (workers : WorkersFair state label P)
    (client : ClientFair state label d) (inPool : ∃ i, (state 0).heap.tpTasks.cell p = some i ∧ i.pool = some P) :
    ¬ ∀ k, (state (k + 1)).InJoin d t p ∧ ∀ wait value, label k ≠ some (.proceed d wait, .joined value) := by
  intro never
  obtain ⟨m₀, -, drained⟩ := workers.workedOff (trace.mono fun s l s' step => ⟨step.1, step.2.draining⟩)
    (reachable.mono fun s l s' step => (⟨step.1, step.2.1⟩ : StepWhen junk WellUsed s l s'))
  obtain ⟨i, live, pool⟩ := inPool
  have completed : ∀ k ≥ m₀, .completed p ∈ (state k).log := by
    intro k later
    exact ((drained k later).2.completed p i live pool).1
  have heard : Heard (state (m₀ + 1)).shape := by
    have later : Reachable (StepWhen junk fun s l s' => WellUsed s l s' ∧ OneJoiner s l s') (System.init clients)
        (state (m₀ + 1)) := by
      refine trace.always reachable ?_ (m₀ + 1) (Nat.zero_le _)
      intro m _ l _ step reachable
      exact reachable.step ⟨step.1, step.2.draining.used, step.2.one⟩
    exact reachable_heard (fun _ _ _ both => both.2) later
  obtain ⟨client₀, here, busy, awake, free⟩ := heard.awake (never m₀).1 (completed _ (by omega))
  obtain ⟨m, later, ⟨action, out⟩, at_m, wait, rfl⟩ := client (m₀ + 1) client₀ here busy awake free
  obtain ⟨k, rfl⟩ : ∃ k, m = k + 1 := ⟨m - 1, by omega⟩
  obtain ⟨value, rfl⟩ := Step.join_ends (reachable_sound (drained (k + 1) (by omega)).1) (trace.moves _ _ at_m).1
    (never k).1 (completed (k + 1) (by omega))
  exact (never (k + 1)).2 wait value at_m

end

/-! ## Runs that come to rest -/

theorem Worker.notify_awake (w : Worker) : w.notify.pc ≠ .asleep false := by
  unfold Worker.notify
  split
  · simp
  · next awake => exact awake false

section

variable {state : Nat → System} {label : Nat → Option (Action × Out)} {last : Nat}

/-- A run is fair if in the end every worker of the pool is blocked or has left its loop. -/
theorem WorkersFair.of_rest (trace : Trace (Step junk) state label) (ends : ∀ n ≥ last, state n = s')
    (rest : ∀ w ∈ s'.workers, w.pool = P → w.pc = .exited ∨ w.pc = .asleep false) : WorkersFair state label P := by
  intro n i w here inPool stays awake
  by_contra never
  -- Without a step of its own the worker would stay awake.
  have after : ∀ m ≥ n, ∃ w, (state m).workers[i]? = some w ∧ w.pool = P ∧ w.pc ≠ .exited ∧ w.pc ≠ .asleep false := by
    apply trace.always (P := fun s => ∃ w, s.workers[i]? = some w ∧ w.pool = P ∧ w.pc ≠ .exited ∧ w.pc ≠ .asleep false)
    · exact ⟨w, here, inPool, stays, awake⟩
    · rintro m later l at_m step ⟨w, here, inPool, stays, awake⟩
      obtain ⟨w', here', (rfl | rfl) | ⟨value, woken, turn, own, -⟩⟩ := step.change.worker_kept here
      · exact ⟨w', here', inPool, stays, awake⟩
      · refine ⟨_, here', by simp [inPool], by simp [stays], ?_⟩
        exact w.notify_awake
      · exact absurd ⟨m, later, l, at_m, value, woken, own⟩ never
  obtain ⟨w, here, inPool, stays, awake⟩ := after (max n last) (Nat.le_max_left _ _)
  rw [ends _ (Nat.le_max_right _ _)] at here
  rcases rest w (List.mem_of_getElem? here) inPool with exited | asleep
  · exact stays exited
  · exact awake asleep

theorem ClientFair.of_rest {d : Nat} (trace : Trace (Step junk) state label) (ends : ∀ n ≥ last, state n = s')
    (rest : s'.clients[d]? = some .idle) : ClientFair state label d := by
  intro n client here busy _ _
  by_contra never
  have after : ∀ m ≥ n, ∃ client, (state m).clients[d]? = some client ∧ client ≠ .idle := by
    apply trace.always (P := fun s => ∃ client, s.clients[d]? = some client ∧ client ≠ .idle)
    · exact ⟨client, here, busy⟩
    · rintro m later l at_m step ⟨client, here, busy⟩
      obtain ⟨client', here'⟩ := step.change.still_there here
      refine ⟨client', here', ?_⟩
      rintro rfl
      have noCall : ∀ function, l.1 ≠ .call d function := by
        intro function calls
        obtain ⟨action, out⟩ := l
        cases calls
        obtain ⟨turn, idle, -⟩ := Step.calls step
        exact busy (Option.some.inj (here.symm.trans idle))
      obtain ⟨client₀, here₀, (same | same) | ⟨wait, turn, own, -⟩⟩ := step.change.client noCall here'
      · exact busy (Option.some.inj (here.symm.trans (same ▸ here₀)))
      · cases here.symm.trans here₀
        cases client with
        | idle => exact busy rfl
        | locking | freeing | joining | deleting | destroying => cases same
      · exact never ⟨m, later, l, at_m, wait, congrArg Prod.fst own⟩
  obtain ⟨client, here, busy⟩ := after (max n last) (Nat.le_max_left _ _)
  rw [ends _ (Nat.le_max_right _ _), rest] at here
  exact busy (Option.some.inj here).symm

end

/-- A client pushes a task and joins it before the worker has come. -/
def joinedLater : List Action := [.call 0 (.poolNew 1), .call 0 (.taskNew 7 5), .call 0 (.poolPushTask 0 0),
  .call 0 (.onTask .join 0), .proceed 0 .woken, .work 0 0 [], .work 0 0 [], .work 0 42 [], .work 0 0 [0],
  .proceed 0 .woken, .work 0 0 []]

/-- The join finds the instance 0 as the newest one of its task. -/
def System.finds (s : System) : Action → Bool
  | .call _ (.onTask .join t) => (s.heap.tasks.cell t).any (fun task => task.list.head? == some 0) &&
      (s.heap.tpTasks.cell 0).any fun i => i.pool == some 0
  | _ => true

/-- The state in front of the join, and a fair run from there, which comes to rest. -/
theorem joined_later : ∃ (state : Nat → System) (label : Nat → Option (Action × Out)),
    Reachable (StepWhen (fun _ => 9) fun s l s' => WellUsed s l s' ∧ OneJoiner s l s') (System.init 1) (state 0) ∧
    Trace (StepWhen (fun _ => 9) (Reliable 0)) state label ∧ WorkersFair state label 0 ∧ ClientFair state label 0 ∧
    label 0 = some (.call 0 (.onTask .join 0), .running) ∧
    (∃ task, (state 0).heap.tasks.cell 0 = some task ∧ task.list.head? = some 0) ∧
    ∃ i, (state 0).heap.tpTasks.cell 0 = some i ∧ i.pool = some 0 := by
  obtain ⟨outs, s, run, shown⟩ := replay_ends (fun _ => 9) (fun s l s' => (WellUsed s l s' ∧ OneJoiner s l s') ∧
      Punctual s l s' ∧ s.finds l.1 = true) 5 joinedLater (.init 1)
    (fun outs s => outs == [.created 0, .created 0, .returned 0, .running, .running, .running, .running, .running,
      .running, .joined 42, .running] && (s.workers == [⟨0, .asleep false⟩] && s.clients == [.idle]))
    (by decide +kernel)
  simp only [Bool.and_eq_true, beq_iff_eq] at shown
  obtain ⟨rfl, workers, clients⟩ := shown
  rw [← List.take_append_drop 3 (joinedLater.zip _)] at run
  obtain ⟨s₀, before, after⟩ := run.split
  have there : s₀.finds (.call 0 (.onTask .join 0)) = true := by
    cases after with
    | cons calls => exact calls.2.2.2
  simp only [System.finds, Bool.and_eq_true, Option.any_eq_true, beq_iff_eq] at there
  obtain ⟨state, rfl, trace, ends⟩ := after.trace
  have plain := trace.mono fun s l s' step => step.1
  refine ⟨state, _, ⟨_, before.mono fun s l s' step => ⟨step.1, step.2.1⟩⟩, ⟨?_, trace.rests⟩, ?_, ?_, rfl, there⟩
  · intro n l at_n
    have step := trace.moves n l at_n
    refine ⟨step.1, ⟨step.2.1.1, ?_⟩, step.2.1.2, step.2.2.1⟩
    rintro d t rfl
    have mem := List.mem_of_getElem? at_n
    simp [joinedLater] at mem
  · apply WorkersFair.of_rest plain ends
    simp [workers]
  · apply ClientFair.of_rest plain ends
    simp [clients]

/-! ## The statements -/

/-- From the moment on when nobody pushes into a pool any more, fair workers complete all the instances that it has. -/
theorem work_drains {state : Nat → System} {label : Nat → Option (Action × Out)}
    (reachable : Reachable (StepWhen junk WellUsed) (System.init clients) (state 0))
    (trace : Trace (StepWhen junk (Draining P)) state label) (fair : WorkersFair state label P) :
    ∃ m, ∀ k ≥ m, WorkedOff P (state 0) (state k) := by
  obtain ⟨m, -, drained⟩ := fair.workedOff trace reachable
  exact ⟨m, fun k later => (drained k later).2⟩

theorem work_drains_joined :
    ∃ (state : Nat → System) (m : Nat), (∃ i, (state 0).heap.tpTasks.cell 0 = some i ∧ i.pool = some 0) ∧
    ∀ k ≥ m, WorkedOff 0 (state 0) (state k) := by
  obtain ⟨state, label, reachable, trace, workers, -, -, -, inPool⟩ := joined_later
  obtain ⟨m, drained⟩ := work_drains (reachable.mono fun s l s' step => (⟨step.1, step.2.1⟩ : StepWhen _ WellUsed s l s'))
    (trace.mono fun s l s' step => (⟨step.1, step.2.draining⟩ : StepWhen _ (Draining 0) s l s')) workers
  exact ⟨state, m, inPool, drained⟩

/-- In a fair run `thread_task_join` returns what the function of the task has returned for
    its newest instance, if nobody pushes into the pool of the instance meanwhile. -/
theorem join_returns {state : Nat → System} {label : Nat → Option (Action × Out)} {d t p : Nat} {task : ThreadTask}
    (reachable : Reachable (StepWhen junk fun s l s' => WellUsed s l s' ∧ OneJoiner s l s') (System.init clients) (state 0))
    (trace : Trace (StepWhen junk (Reliable P)) state label) (workers : WorkersFair state label P)
    (client : ClientFair state label d) (calls : label 0 = some (.call d (.onTask .join t), .running))
    (live : (state 0).heap.tasks.cell t = some task) (newest : task.list.head? = some p)
    (inPool : ∃ i, (state 0).heap.tpTasks.cell p = some i ∧ i.pool = some P) :
    ∃ m wait value, label m = some (.proceed d wait, .joined value) ∧ JoinedResult p task value (state (m + 1)) ∧
      ∀ k < m, 0 < k → ∀ function out, label k ≠ some (.call d function, out) := by
  have returns : ∃ m wait value, label m = some (.proceed d wait, .joined value) := by
    by_contra never
    simp only [not_exists] at never
    apply Reliable.join_ends (t := t) reachable trace workers client inPool
    intro k
    exact ⟨Reliable.in_join trace calls live newest fun j _ => never j, never k⟩
  -- The first return is the one of this call.
  classical
  obtain ⟨wait, value, at_m⟩ := Nat.find_spec returns
  have first : ∀ j < Nat.find returns, ∀ wait value, label j ≠ some (.proceed d wait, .joined value) := by
    intro j less wait value same
    exact Nat.find_min returns less ⟨wait, value, same⟩
  generalize Nat.find returns = m at at_m first
  have positive : m ≠ 0 := by
    rintro rfl
    cases calls.symm.trans at_m
  obtain ⟨k, rfl⟩ := Nat.exists_eq_succ_of_ne_zero positive
  have inside := fun j (less : j ≤ k) => Reliable.in_join trace calls live newest (k := j)
    fun i before => first i (by omega)
  refine ⟨k + 1, wait, value, at_m, ?_, ?_⟩
  · have kept : ∀ m ≥ 0, Reachable (StepWhen junk WellUsed) (System.init clients) (state m) ∧
        .created t task.function task.arg ∈ (state m).log := by
      have used := reachable.mono fun s l s' step => (⟨step.1, step.2.1⟩ : StepWhen junk WellUsed s l s')
      apply trace.always (P := fun s => Reachable (StepWhen junk WellUsed) (System.init clients) s ∧
        .created t task.function task.arg ∈ s.log) ⟨used, (reachable_sound used).logged.tasks t task live⟩
      intro m _ l _ step both
      exact ⟨both.1.step ⟨step.1, step.2.draining.used⟩, step.1.change.log_grows.subset both.2⟩
    obtain ⟨reachable_k, created⟩ := kept (k + 1) (Nat.zero_le _)
    have step := trace.moves _ _ at_m
    exact Step.joined ⟨step.1, step.2.punctual⟩ (reachable_sound reachable_k) (reachable_registered reachable_k)
      created (inside k (Nat.le_refl k)).1
  · intro j less positive function out calls'
    obtain ⟨i, rfl⟩ := Nat.exists_eq_succ_of_ne_zero (Nat.pos_iff_ne_zero.mp positive)
    obtain ⟨turn, idle, -⟩ := Step.calls (trace.moves _ _ calls').1
    exact (inside i (by omega)).2 idle

theorem join_returns_later : ∃ (state : Nat → System) (task : ThreadTask) (m : Nat) (value : Value),
    (state 0).heap.tasks.cell 0 = some task ∧ JoinedResult 0 task value (state (m + 1)) := by
  obtain ⟨state, label, reachable, trace, workers, client, calls, ⟨task, live, newest⟩, inPool⟩ := joined_later
  obtain ⟨m, wait, value, -, joined, -⟩ := join_returns reachable trace workers client calls live newest inPool
  exact ⟨state, task, m, value, live, joined⟩

end SysprogLabs.Tpool
