import SysprogLabs.Tpool.Closing
import SysprogLabs.Tpool.Releasing

/-! # Safe shutdown

`thread_pool_delete` refuses a pool with instances and leaves it as it is.  Otherwise the
workers leave their loops one after the other, the last one wakes the deleter up, and when
the pool is freed nobody is left who could use it.
-/

namespace SysprogLabs.Tpool

open Prog

variable {junk : Nat → Value} {s s' : System} {label : Action × Out} {P : Nat} {out : Out}

/-! ## The decision -/

theorem threadPoolDelete_refused {h : Heap} : (threadPoolDelete P).Yields h fun turn h' =>
    turn.out = .returned tpoolErrHasTasks →
      h' = h ∧ turn = { next := .idle, out := .returned tpoolErrHasTasks } := by
  rw [threadPoolDelete, yields_bind, Lens.yields_load]
  intro Q at_P pool live
  rw [yields_ite]
  constructor
  · intro holds
    rw [yields_pure]
    exact fun _ => ⟨rfl, rfl⟩
  · intro empty
    rw [yields_bind]
    intro _ h₁ _
    rw [yields_bind]
    intro next h₂ _
    rw [yields_pure]
    intro same
    cases same

/-- A refused call changes nothing. -/
theorem Step.refused {d : Nat} (step : Step junk s (.call d (.poolDelete P), .returned tpoolErrHasTasks) s') :
    s' = s := by
  obtain ⟨turn, idle, returned, refused, shape⟩ := Step.ofCall step
  obtain ⟨heap, rfl⟩ := threadPoolDelete_refused turn s'.heap returned refused.symm
  obtain ⟨inside, at_d⟩ := List.getElem?_eq_some_iff.mp idle
  have same : s.clients.set d .idle = s.clients := by
    rw [← at_d]
    exact List.set_getElem_self inside
  obtain ⟨h, workers, clients, log⟩ := s
  obtain ⟨h', workers', clients', log'⟩ := s'
  cases heap
  cases shape
  exact congrArg (System.mk _ _ · _) same

/-- `thread_pool_delete` is refused if the pool has an instance, and goes on otherwise. -/
theorem Step.decides {d : Nat} (orderly : Orderly s) (step : Step junk s (.call d (.poolDelete P), out) s') :
    (out = .returned tpoolErrHasTasks ↔ ∃ p i, s.heap.tpTasks.cell p = some i ∧ i.pool = some P) ∧
      (out = .returned tpoolErrHasTasks ∨
        (out = .running ∧ ∃ client, s'.clients[d]? = some client ∧ client.closes P = true)) := by
  obtain ⟨turn, idle, does, rfl, -, clients⟩ := Step.calls step
  have instances : (∃ p f, s.shape.records.instances p = some f ∧ f.pool = some P) ↔
      ∃ p i, s.heap.tpTasks.cell p = some i ∧ i.pool = some P := by
    constructor
    · rintro ⟨p, f, found, pool⟩
      obtain ⟨i, live, rfl⟩ := System.object found
      exact ⟨p, i, live, pool⟩
    · rintro ⟨p, i, live, pool⟩
      exact ⟨p, i.fields, System.record live, pool⟩
  rw [← instances]
  generalize s'.shape.records = r' at does
  cases does with
  | hasTasks live holds => exact ⟨iff_of_true rfl ((orderly.counted.positive_iff live).mp holds), .inl rfl⟩
  | @closed _ c live empty =>
    refine ⟨iff_of_false nofun fun holds => empty ((orderly.counted.positive_iff live).mpr holds), .inr ⟨rfl, ?_⟩⟩
    rw [clients, List.getElem?_set_self (List.getElem?_eq_some_iff.mp idle).1]
    refine ⟨_, rfl, ?_⟩
    split
    · exact beq_self_eq_true P
    · exact beq_self_eq_true P

/-- In the wait loop of `thread_pool_delete`. -/
def Client.waits : Client → Bool
  | .deleting _ _ => true
  | _ => false

/-- A client that deletes a pool waits for the workers, or it has freed the pool and returns 0. -/
theorem Step.deleting {d : Nat} {wait : WaitResult} {client : Client} (step : Step junk s (.proceed d wait, out) s')
    (here : s.clients[d]? = some client) (closes : client.closes P = true) :
    (out = .running ∧ client.waits = true ∧ ∃ client', s'.clients[d]? = some client' ∧ client'.closes P = true ∧
      s'.shape.records = s.shape.records ∧
      ((client' = .destroying P ∧ ∃ c, s.shape.records.pools P = some c ∧ c.threadsCnt = 0) ∨
        ∃ c, s.shape.records.pools P = some c ∧ c.threadsCnt ≠ 0)) ∨
    (out = .returned 0 ∧ client = .destroying P ∧ (∃ c, s.shape.records.pools P = some c) ∧
      s'.shape.records = s.shape.records.setPool P none) := by
  obtain ⟨client₀, turn, here₀, does, rfl, -, clients⟩ := Step.proceeds step
  cases here.symm.trans here₀
  rw [clients, List.getElem?_set_self (List.getElem?_eq_some_iff.mp here).1]
  generalize s'.shape.records = r' at does
  cases does with
  | waitsAgain live threads =>
    obtain rfl := beq_iff_eq.mp closes
    exact .inl ⟨rfl, rfl, _, rfl, closes, rfl, .inr ⟨_, live, threads⟩⟩
  | leaves live threads =>
    obtain rfl := beq_iff_eq.mp closes
    exact .inl ⟨rfl, rfl, _, rfl, closes, rfl, .inl ⟨rfl, _, live, threads⟩⟩
  | destroyed live =>
    obtain rfl := beq_iff_eq.mp closes
    exact .inr ⟨rfl, rfl, ⟨_, live⟩, rfl⟩
  | askedFinished | askedRunning | expired | blocked | joined | timedOut | woken | deleted | detached | released
  | freed => cases closes

/-! ## The way to the end -/

/-- The client is in `thread_pool_delete` of the pool, behind the test of `tasks_cnt`. -/
def System.Deleting (s : System) (d P : Nat) : Prop := ∃ client, s.clients[d]? = some client ∧ client.closes P = true

/-- The workers that have not left their loop yet, and the wait loop of the deleter. -/
def System.toLeave (s : System) (d P : Nat) : Nat :=
  s.workers.countP (Worker.isThread P) + if (s.clients[d]?).any Client.waits then 1 else 0

section

variable {clients d : Nat}

/-- The pool is there, it is not active, and its threads are counted. -/
theorem Settled.pool (settled : Settled s) (deleting : s.Deleting d P) : ∃ c, s.shape.records.pools P = some c ∧
    c.isActive = false ∧ c.threadsCnt = s.workers.countP (Worker.isThread P) ∧
    (s.clients[d]? = some (.destroying P) → s.workers.countP (Worker.isThread P) = 0) := by
  obtain ⟨client, here, closes⟩ := deleting
  obtain ⟨c, live, gone⟩ := settled.closing.attended d client P here closes
  have inactive := (settled.sound.aware.closes (List.mem_of_getElem? here) closes).2 c live
  have threads := settled.sound.staffed.threads P c live
  refine ⟨c, live, inactive, threads, ?_⟩
  intro destroys
  cases here.symm.trans destroys
  rw [gone rfl] at threads
  exact Int.natCast_eq_zero.mp threads.symm

@[simp] theorem Client.notify_waits (client : Client) : client.notify.waits = client.waits := by
  cases client <;> rfl

/-- A step of another thread leaves the client where it is, or notifies it. -/
theorem Step.deleter_aside {client : Client} (step : Step junk s label s') (here : s.clients[d]? = some client)
    (closes : client.closes P = true) (aside : ∀ wait, label.1 ≠ .proceed d wait) :
    ∃ client', s'.clients[d]? = some client' ∧ client'.closes P = true ∧ client'.waits = client.waits := by
  have noCall : ∀ function, label.1 ≠ .call d function := by
    intro function calls
    obtain ⟨action, out⟩ := label
    cases calls
    obtain ⟨turn, idle, -⟩ := Step.calls step
    cases here.symm.trans idle
    cases closes
  obtain ⟨client', here'⟩ := step.change.still_there here
  refine ⟨client', here', ?_⟩
  obtain ⟨client₀, here₀, (rfl | rfl) | ⟨wait, turn, own, -⟩⟩ := step.change.client noCall here'
  · cases here.symm.trans here₀
    exact ⟨closes, rfl⟩
  · cases here.symm.trans here₀
    simp [closes]
  · exact absurd (congrArg Prod.fst own) (aside wait)

/-- A step of another thread takes threads away from the pool, if anything. -/
theorem Settled.step_aside (settled : Settled s) (deleting : s.Deleting d P) (step : StepWhen junk WellUsed s label s')
    (aside : ∀ wait, label.1 ≠ .proceed d wait) : s'.Deleting d P ∧
      (s'.clients[d]?).any Client.waits = (s.clients[d]?).any Client.waits ∧
      s'.workers.countP (Worker.isThread P) ≤ s.workers.countP (Worker.isThread P) := by
  obtain ⟨c, live, inactive, threads, -⟩ := settled.pool deleting
  obtain ⟨client, here, closes⟩ := deleting
  have change := step.1.change
  obtain ⟨client', here', same, waits⟩ := step.1.deleter_aside here closes aside
  have fewer : s'.workers.countP (Worker.isThread P) ≤ s.workers.countP (Worker.isThread P) := by
    cases live' : s'.shape.records.pools P with
    | none =>
      obtain ⟨e, wait, steps, at_e⟩ := change.lostPool live live'
      have equal := eq_of_countP_le_one (settled.alone P) here at_e closes (by simp [Client.closes])
      exact absurd (equal ▸ steps) (aside wait)
    | some c' =>
      have counted : c'.threadsCnt = s'.workers.countP (Worker.isThread P) :=
        (change.staffed settled.sound.staffed).threads P c' live'
      have moves := change.moves settled.sound live live'
      have open' : s.shape.pushesActive label.1 = true := step.2.active
      generalize label.1 = action at moves open'
      cases moves with
      | kept active same => omega
      | closed empty told active same => omega
      | left closed active same => omega
      | pushed active same =>
        rw [Shape.pushesActive_push open' live] at inactive
        cases inactive
  refine ⟨⟨client', here', same⟩, ?_, fewer⟩
  rw [here, here', Option.any_some, Option.any_some, waits]

/-- A worker of the pool leaves its loop when it goes on. -/
theorem Settled.worker_leaves (settled : Settled s) (deleting : s.Deleting d P) {i : Nat} {w : Worker} {value : Value}
    {woken : List Nat} (here : s.workers[i]? = some w) (inPool : w.pool = P) (stays : w.pc ≠ .exited)
    (step : Step junk s (.work i value woken, out) s') : s'.shape.records.instances = s.shape.records.instances ∧
      s'.workers.countP (Worker.isThread P) + 1 = s.workers.countP (Worker.isThread P) := by
  obtain ⟨c, live, inactive, threads, -⟩ := settled.pool deleting
  have idle := settled.closing.looking settled.watchful settled.alive live inactive (List.mem_of_getElem? here) inPool stays
  have staffed := step.change.staffed settled.sound.staffed
  obtain ⟨w₀, turn, here₀, returned, rfl, -, -⟩ := Step.ofWork step
  cases here.symm.trans here₀
  have does : Works s.shape.records (s.heap.first w.pool) value w.pool w.pc turn s'.shape.records :=
    Worker.proceed_yields turn s'.heap returned
  have counted := staffed.threads P
  obtain ⟨Q, pc⟩ := w
  cases inPool
  generalize s'.shape.records = r' at does counted ⊢
  have left : r' = s.shape.records.setPool Q (some { c with threadsCnt := c.threadsCnt - 1 }) := by
    rcases idle with rfl | rfl
    · cases does with
      | slept looking live' active | picked looking live' active =>
        cases live.symm.trans live'
        rw [inactive] at active
        cases active
      | exited looking live' =>
        cases live.symm.trans live'
        rfl
    · cases does with
      | slept looking live' active | picked looking live' active =>
        cases live.symm.trans live'
        rw [inactive] at active
        cases active
      | exited looking live' =>
        cases live.symm.trans live'
        rfl
  subst left
  have after : c.threadsCnt - 1 = s'.workers.countP (Worker.isThread Q) := counted _ (Records.setPool_found _)
  refine ⟨rfl, ?_⟩
  dsimp only at threads ⊢
  omega

/-- A worker that is left can go on. -/
theorem Settled.worker_returns (junk : Nat → Value) (settled : Settled s) (deleting : s.Deleting d P)
    (threads : s.workers.countP (Worker.isThread P) ≠ 0) : ∃ i w, s.workers[i]? = some w ∧ w.pool = P ∧ w.pc ≠ .exited ∧
      w.pc ≠ .asleep false ∧ ∃ woken out s', Step junk s (.work i 0 woken, out) s' := by
  obtain ⟨w, mem, thread⟩ := List.countP_pos_iff.mp (Nat.pos_of_ne_zero threads)
  obtain ⟨i, here⟩ := List.mem_iff_getElem?.mp mem
  have inPool : w.pool = P ∧ w.pc ≠ .exited := by simpa [Worker.isThread] using thread
  obtain ⟨c, live, inactive, -⟩ := settled.pool deleting
  have idle := settled.closing.looking settled.watchful settled.alive live inactive mem inPool.1 inPool.2
  obtain ⟨pool, live_P, -⟩ := Option.map_eq_some_iff.mp live
  obtain ⟨q, queued⟩ := settled.orderly.queued
  refine ⟨i, w, here, inPool.1, inPool.2, ?_, ?_⟩
  · rcases idle with same | same <;> simp [same]
  · apply Step.ofSection here
    obtain ⟨Q, pc⟩ := w
    cases inPool.1
    rcases idle with rfl | rfl
    · exact workerPickUp_returns queued live_P
    · exact workerPickUp_returns queued live_P

/-- When no worker is left, the client is not blocked, and it can go on. -/
theorem Settled.client_returns (junk : Nat → Value) (settled : Settled s) (deleting : s.Deleting d P)
    (none : s.workers.countP (Worker.isThread P) = 0) : (∃ client, s.clients[d]? = some client ∧ client.closes P = true ∧
      client.awaitsFinish P = false) ∧ ∃ out s', Step junk s (.proceed d .woken, out) s' := by
  obtain ⟨c, live, inactive, threads, -⟩ := settled.pool deleting
  obtain ⟨pool, live_P, -⟩ := Option.map_eq_some_iff.mp live
  obtain ⟨client, here, closes⟩ := deleting
  constructor
  · refine ⟨client, here, closes, ?_⟩
    by_contra blocked
    rw [Bool.not_eq_false] at blocked
    have same : client = .deleting P false := by
      cases client with
      | deleting Q notified =>
        cases notified with
        | false =>
          obtain rfl : Q = P := beq_iff_eq.mp blocked
          rfl
        | true => cases blocked
      | idle | locking | freeing | joining | destroying => cases blocked
    subst same
    obtain ⟨c', live', some_left⟩ := settled.deferred P (List.mem_of_getElem? here)
    cases live.symm.trans live'
    omega
  · apply Step.ofClient here
    cases client with
    | deleting Q notified =>
      obtain rfl : Q = P := beq_iff_eq.mp closes
      rw [Client.proceed, threadPoolDeleteWoken, awaitThreads, ensures_bind, ensures_bind, Lens.ensures_load]
      refine ⟨Q, rfl, pool, live_P, ?_⟩
      rw [ensures_pure, ensures_pure]
      trivial
    | destroying Q =>
      obtain rfl : Q = P := beq_iff_eq.mp closes
      rw [Client.proceed, threadPoolDestroy, ensures_bind, Lens.ensures_free_some]
      refine ⟨pool, live_P, ?_⟩
      rw [ensures_pure]
      trivial
    | idle | locking | freeing | joining => cases closes

/-- Without workers the client leaves the wait loop when it goes on, or it returns 0. -/
theorem Settled.client_leaves (settled : Settled s) (deleting : s.Deleting d P)
    (none : s.workers.countP (Worker.isThread P) = 0) {wait : WaitResult}
    (step : Step junk s (.proceed d wait, out) s') : s'.shape.records.instances = s.shape.records.instances ∧
      (out = .returned 0 ∨ (s'.Deleting d P ∧ s'.toLeave d P < s.toLeave d P)) := by
  obtain ⟨c, live, -, threads, -⟩ := settled.pool deleting
  have staffed := step.change.staffed settled.sound.staffed
  obtain ⟨client, here, closes⟩ := deleting
  rcases step.deleting here closes with ⟨-, waits, client', here', closes', same, ⟨rfl, -⟩ | ⟨c₀, live₀, some_left⟩⟩ |
    ⟨returned, -, -, freed⟩
  · refine ⟨by rw [same], .inr ⟨⟨_, here', closes'⟩, ?_⟩⟩
    have live' : s'.shape.records.pools P = some c := by rw [same, live]
    have counted : c.threadsCnt = s'.workers.countP (Worker.isThread P) := staffed.threads P c live'
    have behind : Client.waits (.destroying P) = false := rfl
    simp only [System.toLeave, here, here', Option.any_some, waits, behind, if_true, Bool.false_eq_true, if_false]
    omega
  · cases live.symm.trans live₀
    omega
  · exact ⟨by rw [freed]; rfl, .inl returned⟩

/-- The client stays in the call and less is left to be done, until it returns 0 and no thread is left. -/
theorem Settled.step_deleting (settled : Settled s) (deleting : s.Deleting d P) (step : StepWhen junk WellUsed s label s') :
    (s'.Deleting d P ∧ s'.toLeave d P ≤ s.toLeave d P ∧
      s'.workers.countP (Worker.isThread P) ≤ s.workers.countP (Worker.isThread P)) ∨
      s.workers.countP (Worker.isThread P) = 0 ∧ ∃ wait, label.1 = .proceed d wait := by
  by_cases own : ∃ wait, label.1 = .proceed d wait
  · obtain ⟨c, live, -, threads, gone⟩ := settled.pool deleting
    obtain ⟨client, here, closes⟩ := deleting
    have staffed := step.1.change.staffed settled.sound.staffed
    obtain ⟨action, out⟩ := label
    obtain ⟨wait, rfl⟩ := own
    rcases step.1.deleting here closes with ⟨-, waits, client', here', closes', same, -⟩ | ⟨-, rfl, -⟩
    · left
      have live' : s'.shape.records.pools P = some c := by rw [same, live]
      have counted : c.threadsCnt = s'.workers.countP (Worker.isThread P) := staffed.threads P c live'
      refine ⟨⟨client', here', closes'⟩, ?_, by omega⟩
      rw [System.toLeave, System.toLeave, here, Option.any_some, if_pos waits]
      split
      · omega
      · omega
    · exact .inr ⟨gone here, wait, rfl⟩
  · obtain ⟨deleting', waits, fewer⟩ := settled.step_aside deleting step fun wait same => own ⟨wait, same⟩
    refine .inl ⟨deleting', ?_, fewer⟩
    rw [System.toLeave, System.toLeave, waits]
    exact Nat.add_le_add_right fewer _

theorem Careful.of_kept (same : s'.shape.records.instances = s.shape.records.instances) : Careful s label s' := by
  rintro p _ ⟨there, gone⟩
  obtain ⟨i, live⟩ := Option.isSome_iff_exists.mp there
  have still := System.record live
  rw [← same] at still
  obtain ⟨j, live', -⟩ := System.object still
  rw [live'] at gone
  cases gone

/-- A step that is no call and releases nothing meets the condition. -/
theorem WellUsed.of_kept (noCall : ∀ c function, label.1 ≠ .call c function)
    (same : s'.shape.records.instances = s.shape.records.instances) : WellUsed s label s' := by
  obtain ⟨action, out⟩ := label
  cases action with
  | call c function => exact absurd rfl (noCall c function)
  | proceed | work => exact ⟨.of_kept same, rfl, rfl, rfl⟩

/-- From every state in which a client deletes the pool some run leads to its return. -/
theorem Settled.returns_soon (reachable : Reachable (StepWhen junk WellUsed) (System.init clients) s)
    (deleting : s.Deleting d P) : ∃ ls s' wait,
      Run (StepWhen junk WellUsed) s (ls ++ [(.proceed d wait, .returned 0)]) s' ∧ ls.length ≤ s.toLeave d P := by
  induction measure : s.toLeave d P using Nat.strongRecOn generalizing s with
  | ind r ih =>
    have settled := reachable_settled reachable
    -- One step of the worker or of the client, and then the rest.
    have go_on : ∀ l s', StepWhen junk WellUsed s l s' → s'.Deleting d P → s'.toLeave d P < s.toLeave d P →
        ∃ ls s' wait, Run (StepWhen junk WellUsed) s (ls ++ [(.proceed d wait, .returned 0)]) s' ∧ ls.length ≤ r := by
      intro l s' step deleting' less
      obtain ⟨ls, s'', wait, run, short⟩ := ih _ (measure ▸ less) (reachable.step step) deleting' rfl
      exact ⟨l :: ls, s'', wait, .cons step run, by rw [List.length_cons]; omega⟩
    by_cases threads : s.workers.countP (Worker.isThread P) = 0
    · obtain ⟨-, out, s', step⟩ := settled.client_returns junk deleting threads
      obtain ⟨same, returned | ⟨deleting', less⟩⟩ := settled.client_leaves deleting threads step
      · subst returned
        exact ⟨[], s', .woken, .single ⟨step, .of_kept nofun same⟩, Nat.zero_le _⟩
      · exact go_on _ s' ⟨step, .of_kept nofun same⟩ deleting' less
    · obtain ⟨i, w, here, inPool, stays, -, woken, out, s', step⟩ := settled.worker_returns junk deleting threads
      obtain ⟨same, fewer⟩ := settled.worker_leaves deleting here inPool stays step
      have meets : StepWhen junk WellUsed s (.work i 0 woken, out) s' := ⟨step, .of_kept nofun same⟩
      obtain ⟨deleting', waits, -⟩ := settled.step_aside deleting meets nofun
      refine go_on _ s' meets deleting' ?_
      rw [System.toLeave, System.toLeave, waits]
      omega

/-! ## Fair runs -/

/-- The workers of the pool and the client go on at some time, unless they are blocked
    without a pending wakeup. -/
structure Fair (state : Nat → System) (label : Nat → Option (Action × Out)) (d P : Nat) : Prop where
  workers : ∀ (n i : Nat) (w : Worker), (state n).workers[i]? = some w → w.pool = P → w.pc ≠ .exited →
    w.pc ≠ .asleep false → ∃ m ≥ n, ∃ l, label m = some l ∧ ∃ value woken, l.1 = .work i value woken
  client : ∀ (n : Nat) (client : Client), (state n).clients[d]? = some client → client.closes P = true →
    client.awaitsFinish P = false → ∃ m ≥ n, ∃ l, label m = some l ∧ ∃ wait, l.1 = .proceed d wait

/-- The client deletes the pool, and not more than this is left to be done. -/
structure Underway (junk : Nat → Value) (clients d P left : Nat) (s : System) : Prop where
  reachable : Reachable (StepWhen junk WellUsed) (System.init clients) s
  deleting : s.Deleting d P
  bound : s.toLeave d P ≤ left

variable {left : Nat}

theorem Underway.step (under : Underway junk clients d P left s) (step : StepWhen junk WellUsed s label s') :
    (Underway junk clients d P left s' ∧
      s'.workers.countP (Worker.isThread P) ≤ s.workers.countP (Worker.isThread P)) ∨
      s.workers.countP (Worker.isThread P) = 0 ∧ ∃ wait, label.1 = .proceed d wait := by
  rcases (reachable_settled under.reachable).step_deleting under.deleting step with ⟨deleting, less, fewer⟩ | returns
  · exact .inl ⟨⟨under.reachable.step step, deleting, Nat.le_trans less under.bound⟩, fewer⟩
  · exact .inr returns

variable {state : Nat → System} {label : Nat → Option (Action × Out)} {n : Nat}

/-- A worker that is left leaves its loop at some time. -/
theorem Fair.worker_leaves (fair : Fair state label d P) (trace : Trace (StepWhen junk WellUsed) state label)
    (under : Underway junk clients d P left (state n))
    (threads : (state n).workers.countP (Worker.isThread P) ≠ 0) :
    ∃ m ≥ n, Underway junk clients d P left (state m) ∧ (state m).toLeave d P < left := by
  have settled := reachable_settled under.reachable
  obtain ⟨i, w, here, inPool, stays, awake, -⟩ := settled.worker_returns junk under.deleting threads
  -- Until its next step the worker stays in the pool, and the client waits for it.
  have kept : ∀ s l s', (Underway junk clients d P left s ∧ ∃ w, s.workers[i]? = some w ∧ w.pool = P ∧ w.pc ≠ .exited) →
      StepWhen junk WellUsed s l s' → ¬ (∃ value woken, l.1 = .work i value woken) →
      Underway junk clients d P left s' ∧ ∃ w, s'.workers[i]? = some w ∧ w.pool = P ∧ w.pc ≠ .exited := by
    rintro s l s' ⟨under, w, here, inPool, stays⟩ step other
    rcases under.step step with ⟨under', -⟩ | ⟨nobody, -⟩
    · refine ⟨under', ?_⟩
      obtain ⟨w', here', (rfl | rfl) | ⟨value, woken, turn, own, -⟩⟩ := step.1.change.worker_kept here
      · exact ⟨w', here', inPool, stays⟩
      · exact ⟨_, here', by rw [Worker.notify_pool, inPool], fun left => stays (Worker.notify_exited.mp left)⟩
      · exact absurd ⟨value, woken, own⟩ other
    · have other := List.countP_eq_zero.mp nobody w (List.mem_of_getElem? here)
      simp [Worker.isThread, inPool, stays] at other
  obtain ⟨m, later, ⟨action, out⟩, at_m, ⟨value, woken, rfl⟩, under_m, w', here', inPool', stays'⟩ :=
    trace.next ⟨under, w, here, inPool, stays⟩ kept (fair.workers n i w here inPool stays awake)
  have step := trace.moves m _ at_m
  have settled_m := reachable_settled under_m.reachable
  obtain ⟨-, fewer⟩ := settled_m.worker_leaves under_m.deleting here' inPool' stays' step.1
  obtain ⟨deleting', waits, -⟩ := settled_m.step_aside under_m.deleting step (by simp)
  have bound := under_m.bound
  have less : (state (m + 1)).toLeave d P < left := by
    simp only [System.toLeave, waits] at bound ⊢
    omega
  exact ⟨m + 1, by omega, ⟨under_m.reachable.step step, deleting', Nat.le_of_lt less⟩, less⟩

/-- Without workers the client leaves the wait loop at some time, or it returns 0. -/
theorem Fair.client_leaves (fair : Fair state label d P) (trace : Trace (StepWhen junk WellUsed) state label)
    (under : Underway junk clients d P left (state n))
    (threads : (state n).workers.countP (Worker.isThread P) = 0) :
    ∃ m ≥ n, (∃ wait, label m = some (.proceed d wait, .returned 0)) ∨
      (Underway junk clients d P left (state m) ∧ (state m).toLeave d P < left) := by
  have settled := reachable_settled under.reachable
  obtain ⟨⟨client, here, closes, awake⟩, -⟩ := settled.client_returns junk under.deleting threads
  -- Until its next step the client stays where no worker is left.
  have kept : ∀ s l s', (Underway junk clients d P left s ∧ s.workers.countP (Worker.isThread P) = 0) →
      StepWhen junk WellUsed s l s' → ¬ (∃ wait, l.1 = .proceed d wait) →
      Underway junk clients d P left s' ∧ s'.workers.countP (Worker.isThread P) = 0 := by
    rintro s l s' ⟨under, nobody⟩ step other
    rcases under.step step with ⟨under', fewer⟩ | ⟨-, own⟩
    · exact ⟨under', by omega⟩
    · exact absurd own other
  obtain ⟨m, later, ⟨action, out⟩, at_m, ⟨wait, rfl⟩, under_m, nobody⟩ :=
    trace.next ⟨under, threads⟩ kept (fair.client n client here closes awake)
  have step := trace.moves m _ at_m
  have bound := under_m.bound
  rcases (reachable_settled under_m.reachable).client_leaves under_m.deleting nobody step.1 with
    ⟨-, rfl | ⟨deleting', less⟩⟩
  · exact ⟨m, later, .inl ⟨wait, at_m⟩⟩
  · exact ⟨m + 1, by omega, .inr ⟨⟨under_m.reachable.step step, deleting', by omega⟩, by omega⟩⟩

/-- In a fair run `thread_pool_delete` returns 0, once it is behind the test of `tasks_cnt`. -/
theorem Fair.returns (fair : Fair state label d P) (trace : Trace (StepWhen junk WellUsed) state label)
    (reachable : Reachable (StepWhen junk WellUsed) (System.init clients) (state n)) (deleting : (state n).Deleting d P) :
    ∃ m ≥ n, ∃ wait, label m = some (.proceed d wait, .returned 0) := by
  refine eventually_of_rank (P := fun s => Reachable (StepWhen junk WellUsed) (System.init clients) s ∧ s.Deleting d P)
    (fun s => s.toLeave d P) ⟨reachable, deleting⟩ ?_
  rintro n ⟨reachable, deleting⟩
  have under : Underway junk clients d P ((state n).toLeave d P) (state n) := ⟨reachable, deleting, Nat.le_refl _⟩
  by_cases threads : (state n).workers.countP (Worker.isThread P) = 0
  · obtain ⟨m, later, returns | ⟨under', less⟩⟩ := fair.client_leaves trace under threads
    · exact ⟨m, later, .inl returns⟩
    · exact ⟨m, later, .inr ⟨⟨under'.reachable, under'.deleting⟩, less⟩⟩
  · obtain ⟨m, later, under', less⟩ := fair.worker_leaves trace under threads
    exact ⟨m, later, .inr ⟨⟨under'.reachable, under'.deleting⟩, less⟩⟩

end

/-! ## The statements -/

/-- What `thread_pool_delete` does in a run that meets the condition, seen from one state of it. -/
structure SafeShutdown (junk : Nat → Value) (s : System) : Prop where
  starts : ∀ (d P : Nat) pool, s.clients[d]? = some .idle → s.heap.pools.cell P = some pool →
    ∃ out s', Step junk s (.call d (.poolDelete P), out) s'
  /-- The call is refused exactly if the pool holds an unreleased instance. -/
  decides : ∀ d P out s', Step junk s (.call d (.poolDelete P), out) s' →
    (out = .returned tpoolErrHasTasks ↔ ∃ p i, s.heap.tpTasks.cell p = some i ∧ i.pool = some P)
  unchanged : ∀ d P s', Step junk s (.call d (.poolDelete P), .returned tpoolErrHasTasks) s' → s' = s
  goesOn : ∀ d P out s', Step junk s (.call d (.poolDelete P), out) s' → out ≠ .returned tpoolErrHasTasks →
    out = .running ∧ s'.Deleting d P
  /-- Behind the test the call returns nothing but 0, and then the pool is freed. -/
  answers : ∀ d P wait out s', s.Deleting d P → Step junk s (.proceed d wait, out) s' →
    (out = .running ∧ s'.Deleting d P) ∨
      (out = .returned 0 ∧ s.clients[d]? = some (.destroying P) ∧ s'.heap.pools.cell P = none)
  /-- Behind the wait loop the pool is empty, and all its workers have left theirs. -/
  finished : ∀ (d P : Nat), s.clients[d]? = some (.destroying P) → ∃ pool, s.heap.pools.cell P = some pool ∧
    pool.task = none ∧ pool.lastTask = none ∧ pool.tasksCnt = 0 ∧ pool.threadsCnt = 0 ∧ pool.activeThreadsCnt = 0 ∧
    (∀ p i, s.heap.tpTasks.cell p = some i → i.pool ≠ some P) ∧ ∀ w ∈ s.workers, w.pool = P → w.pc = .exited
  freed : ∀ w ∈ s.workers, s.heap.pools.cell w.pool = none → w.pc = .exited
  ended : ∀ (i : Nat) (w : Worker) value woken out s', s.workers[i]? = some w → w.pc = .exited →
    ¬ Step junk s (.work i value woken, out) s'
  /-- The call can always be brought to its end, by as many steps as there are workers to leave. -/
  returns : ∀ d P, s.Deleting d P → ∃ ls s' wait,
    Run (StepWhen junk WellUsed) s (ls ++ [(.proceed d wait, .returned 0)]) s' ∧ ls.length ≤ s.toLeave d P
  /-- In every fair run it returns 0. -/
  fair : ∀ d P state label, state 0 = s → Trace (StepWhen junk WellUsed) state label → Fair state label d P →
    s.Deleting d P → ∃ m wait, label m = some (.proceed d wait, .returned 0)

/-- A worker that has left its loop makes no step any more. -/
theorem Step.not_exited {i : Nat} {w : Worker} {value : Value} {woken : List Nat} (here : s.workers[i]? = some w)
    (exited : w.pc = .exited) : ¬ Step junk s (.work i value woken, out) s' := by
  intro step
  obtain ⟨w₀, turn, here₀, returned, -⟩ := Step.ofWork step
  cases here.symm.trans here₀
  have does : Works s.shape.records (s.heap.first w.pool) value w.pool w.pc turn s'.shape.records :=
    Worker.proceed_yields turn s'.heap returned
  rw [exited] at does
  generalize s'.shape.records = r' at does
  cases does with
  | slept looking | exited looking | picked looking => cases looking

/-- Behind the wait loop nothing is left of the pool but its memory. -/
theorem Settled.finished (settled : Settled s) {d : Nat} (here : s.clients[d]? = some (.destroying P)) :
    ∃ pool, s.heap.pools.cell P = some pool ∧
      pool.task = none ∧ pool.lastTask = none ∧ pool.tasksCnt = 0 ∧ pool.threadsCnt = 0 ∧ pool.activeThreadsCnt = 0 ∧
      (∀ p i, s.heap.tpTasks.cell p = some i → i.pool ≠ some P) ∧ ∀ w ∈ s.workers, w.pool = P → w.pc = .exited := by
  have deleting : s.Deleting d P := ⟨_, here, by simp [Client.closes]⟩
  obtain ⟨c, live, inactive, threads, gone⟩ := settled.pool deleting
  have nobody : ∀ w ∈ s.workers, w.pool = P → w.pc = .exited := by
    intro w mem inPool
    have left := List.countP_eq_zero.mp (gone here) w mem
    simpa [Worker.isThread, inPool] using left
  have busy := settled.sound.staffed.active P c live
  have idle : s.workers.countP (Worker.isBusy P) = 0 := by
    rw [List.countP_eq_zero]
    intro w mem isBusy
    simp only [Worker.isBusy, Bool.and_eq_true, beq_iff_eq] at isBusy
    rw [nobody w mem isBusy.1] at isBusy
    cases isBusy.2
  have empty := settled.closing.emptied P c live inactive
  obtain ⟨pool, live_P, rfl⟩ := Option.map_eq_some_iff.mp live
  obtain ⟨waiting, begun, listed⟩ := settled.orderly.listed live_P
  have instances : ∀ p i, s.heap.tpTasks.cell p = some i → i.pool ≠ some P :=
    fun p i live => empty p i.fields (System.record live)
  have count : pool.tasksCnt = 0 := by
    rw [listed.count]
    have none : waiting ++ begun = [] := by
      rw [List.eq_nil_iff_forall_not_mem]
      intro p mem
      obtain ⟨i, live, inPool⟩ := (listed.instances p).mp mem
      exact instances p i live inPool
    rw [none]
    rfl
  refine ⟨pool, live_P, listed.empty.1.mpr count, listed.empty.2.mpr count, count, ?_, ?_, instances, nobody⟩
  · have counted : pool.threadsCnt = s.workers.countP (Worker.isThread P) := threads
    rw [counted, gone here]
    rfl
  · have counted : pool.activeThreadsCnt = s.workers.countP (Worker.isBusy P) := busy
    rw [counted, idle]
    rfl

theorem shutdown_safe {clients : Nat} (reachable : Reachable (StepWhen junk WellUsed) (System.init clients) s) :
    SafeShutdown junk s := by
  have settled := reachable_settled reachable
  constructor
  · intro d P pool idle live
    exact call_goes_on settled.orderly settled.sound idle ⟨pool, live⟩
  · intro d P out s' step
    exact (step.decides settled.orderly).1
  · intro d P s' step
    exact step.refused
  · intro d P out s' step accepted
    exact (step.decides settled.orderly).2.resolve_left accepted
  · rintro d P wait out s' ⟨client, here, closes⟩ step
    rcases step.deleting here closes with ⟨rfl, -, client', here', closes', -⟩ | ⟨rfl, rfl, -, freed⟩
    · exact .inl ⟨rfl, client', here', closes'⟩
    · refine .inr ⟨rfl, here, ?_⟩
      have gone : s'.shape.records.pools P = none := by
        rw [freed]
        exact Records.setPool_found _
      exact Option.map_eq_none_iff.mp gone
  · intro d P here
    exact settled.finished here
  · intro w mem gone
    exact settled.closing.left w mem (Option.map_eq_none_iff.mpr gone)
  · intro i w value woken out s' here exited
    exact Step.not_exited here exited
  · intro d P deleting
    exact Settled.returns_soon reachable deleting
  · intro d P state label start trace fair deleting
    subst start
    obtain ⟨m, -, wait, returned⟩ := fair.returns trace reachable deleting
    exact ⟨m, wait, returned⟩

/-- The worker of an empty pool has left its loop, and the deleter is about to free the pool. -/
def shutDownPool : List Action := [.call 0 (.poolNew 1), .call 0 (.taskNew 7 5), .call 0 (.poolPushTask 0 0), .work 0 0 [],
  .work 0 0 [], .work 0 42 [], .work 0 0 [], .call 0 (.poolDelete 0), .call 0 (.onTask .join 0), .proceed 0 .woken,
  .call 0 (.onTask .delete 0), .proceed 0 .woken, .call 0 (.poolDelete 0), .work 0 0 [0], .proceed 0 .woken]

theorem shutdown_safe_pool : ∃ s, Reachable (StepWhen (fun _ => 9) WellUsed) (System.init 1) s ∧
    (s.clients[0]?).any (Client.closes 0) = true ∧ (s.clients[0]?).any Client.waits = false ∧
    SafeShutdown (fun _ => 9) s := by
  obtain ⟨outs, s, run, shown⟩ := replay_ends (fun _ => 9) WellUsed 5 shutDownPool (.init 1)
    (fun _ s => (s.clients[0]?).any (Client.closes 0) && !(s.clients[0]?).any Client.waits) (by decide +kernel)
  rw [Bool.and_eq_true, Bool.not_eq_true'] at shown
  exact ⟨s, ⟨_, run⟩, shown.1, shown.2, shutdown_safe ⟨_, run⟩⟩

/-- Nobody else can bring a deleter to an end whose pool is gone. -/
theorem Step.stranded {d : Nat} (step : Step junk s label s') (deleting : s.Deleting d P)
    (gone : P < s.shape.records.nextPool ∧ s.shape.records.pools P = none) :
    (s'.Deleting d P ∧ P < s'.shape.records.nextPool ∧ s'.shape.records.pools P = none) ∧
      ∀ wait, label.1 ≠ .proceed d wait := by
  obtain ⟨client, here, closes⟩ := deleting
  have aside : ∀ wait, label.1 ≠ .proceed d wait := by
    intro wait own
    obtain ⟨action, out⟩ := label
    cases own
    rcases step.deleting here closes with ⟨-, -, -, -, -, -, ⟨-, c, live, -⟩ | ⟨c, live, -⟩⟩ | ⟨-, -, ⟨c, live⟩, -⟩
    all_goals
      rw [gone.2] at live
      cases live
  obtain ⟨client', here', closes', -⟩ := step.deleter_aside here closes aside
  have later := step.change.later
  refine ⟨⟨⟨client', here', closes'⟩, Nat.lt_of_lt_of_le gone.1 later.nextPool, ?_⟩, aside⟩
  rw [Option.eq_none_iff_forall_ne_some]
  intro c' live'
  obtain ⟨c, live, -⟩ := later.pools P c' live' gone.1
  rw [gone.2] at live
  cases live

/-- Two clients delete an empty pool, and one of them frees it. -/
def freedByOne : List Action := [.call 0 (.poolNew 1), .call 0 (.poolDelete 0), .call 1 (.poolDelete 0), .proceed 0 .woken]

/-- The other one never returns. -/
theorem second_never_returns : ∃ outs s,
    Run (StepWhen (fun _ => 9) fun s label s' => Careful s label s' ∧ SinglePool s label s' ∧ PushesActive s label s')
      (.init 2) (freedByOne.zip outs) s ∧ outs = [.created 0, .running, .running, .returned 0] ∧
    ∀ ls s', Run (Step fun _ => 9) s ls s' → ∀ wait out s'', ¬ Step (fun _ => 9) s' (.proceed 1 wait, out) s'' := by
  obtain ⟨outs, s, run, shown⟩ := replay_ends (fun _ => 9)
    (fun s label s' => Careful s label s' ∧ SinglePool s label s' ∧ PushesActive s label s') 5 freedByOne (.init 2)
    (fun outs s => outs == [.created 0, .running, .running, .returned 0] && (s.clients[1]?).any (Client.closes 0) &&
      decide (0 < s.heap.pools.next) && (s.heap.pools.cell 0).isNone) (by decide +kernel)
  simp only [Bool.and_eq_true, beq_iff_eq, Option.any_eq_true, decide_eq_true_eq, Option.isNone_iff_eq_none] at shown
  obtain ⟨⟨⟨rfl, deleting⟩, allocated⟩, gone⟩ := shown
  refine ⟨_, s, run, rfl, ?_⟩
  intro ls s' later wait out s'' step
  have stranded : s'.Deleting 1 0 ∧ 0 < s'.shape.records.nextPool ∧ s'.shape.records.pools 0 = none := by
    apply later.invariant
    · exact ⟨deleting, allocated, Option.map_eq_none_iff.mpr gone⟩
    · intro s l s' inv step
      exact (step.stranded inv.1 inv.2).1
  exact (step.stranded stranded.1 stranded.2).2 wait rfl

end SysprogLabs.Tpool
