import SysprogLabs.Tpool.Execution
import SysprogLabs.Tpool.Sleepers

/-! # Pools that are being deleted

`thread_pool_delete` goes on only when `tasks_cnt` is 0.  From then on the pool has no
instances, as long as nobody pushes one, so that its workers have nothing in hand: each of
them is on the way to `get_task` or has left its loop.
-/

namespace SysprogLabs.Tpool

section

variable {junk : Nat → Value} {first : Nat → Ptr → Prop} {s s' : Shape} {r r' : Records} {label : Action × Out}
  {P : Nat} {c c' : Counters}

/-! ## Where the workers go -/

theorem getElem?_wakeWorkers {Q i : Nat} {workers : List Worker} {w' : Worker}
    (here : (wakeWorkers Q workers)[i]? = some w') : ∃ w, workers[i]? = some w ∧ (w' = w ∨ w' = w.notify) := by
  rw [wakeWorkers, List.getElem?_map, Option.map_eq_some_iff] at here
  obtain ⟨w, here, same⟩ := here
  refine ⟨w, here, ?_⟩
  split at same
  · exact .inr same.symm
  · exact .inl same.symm

/-- A call wakes workers up, or it creates one in a pool that is there. -/
theorem Calls.worker {function : Call} {turn : Turn Client} (does : Calls junk r function turn r') {i : Nat} {w' : Worker}
    (here : (turn.signals.foldl (Shape.receive []) s).workers[i]? = some w') :
    (∃ w, s.workers[i]? = some w ∧ (w' = w ∨ w' = w.notify)) ∨
      (s.workers[i]? = none ∧ w'.pc = .ready ∧ ∃ c, r.pools w'.pool = some c) := by
  cases does with
  | @pushed P t c task live =>
    by_cases busy : c.AllBusy
    · simp only [if_pos busy] at here
      obtain ⟨w, at_i, told⟩ := getElem?_wakeWorkers here
      by_cases old : i < s.workers.length
      · exact .inl ⟨w, (List.getElem?_append_left old).symm.trans at_i, told⟩
      · right
        refine ⟨List.getElem?_eq_none (Nat.le_of_not_lt old), ?_⟩
        have new : w = ⟨P, .ready⟩ := List.mem_singleton.mp
          (List.mem_of_getElem? ((List.getElem?_append_right (Nat.le_of_not_lt old)).symm.trans at_i))
        rcases told with rfl | rfl
        · rw [new]
          exact ⟨rfl, c, live⟩
        · rw [new]
          exact ⟨rfl, c, live⟩
    · simp only [if_neg busy] at here
      exact .inl (getElem?_wakeWorkers here)
  | closed => exact .inl (getElem?_wakeWorkers here)
  | poolRefused | poolCreated | counted | hasTasks | tooMany | taskCreated | lookedUp | notPushed | unpushed =>
    exact .inl ⟨w', here, .inl rfl⟩

/-- A worker stays where it is, is notified, goes on itself, or is new. -/
theorem Change.worker (change : Change junk first s label s') {i : Nat} {w' : Worker} (here : s'.workers[i]? = some w') :
    (∃ w, s.workers[i]? = some w ∧ ((w' = w ∨ w' = w.notify) ∨ ∃ value woken turn,
      label.1 = .work i value woken ∧ Works s.records (first w.pool) value w.pool w.pc turn s'.records ∧
      w' = ⟨w.pool, turn.next⟩)) ∨
    (s.workers[i]? = none ∧ w'.pc = .ready ∧ (∃ d function, label.1 = .call d function) ∧
      ∃ c, s.records.pools w'.pool = some c) := by
  cases change with
  | call idle does =>
    rcases does.worker here with ⟨w, at_i, told⟩ | ⟨none, new, live⟩
    · exact .inl ⟨w, at_i, .inl told⟩
    · exact .inr ⟨none, new, ⟨_, _, rfl⟩, live⟩
  | proceed _ does => exact .inl ⟨w', here, .inl (.inl rfl)⟩
  | @work j value woken worker turn r' at_j does wakes =>
    left
    rw [Shape.receive_records]
    -- A worker signals clients only.
    have same : (s.workers.set j ⟨worker.pool, turn.next⟩)[i]? = some w' := by
      rw [← here]
      cases turn
      obtain ⟨Q, pc⟩ := worker
      cases does <;> rfl
    by_cases own : j = i
    · subst own
      rw [List.getElem?_set_self (List.getElem?_eq_some_iff.mp at_j).1, Option.some.injEq] at same
      exact ⟨worker, at_j, .inr ⟨value, woken, turn, rfl, does, same.symm⟩⟩
    · rw [List.getElem?_set_ne own] at same
      exact ⟨w', same, .inl (.inl rfl)⟩

/-- Workers do not go away. -/
theorem Change.workers_length (change : Change junk first s label s') : s.workers.length ≤ s'.workers.length := by
  cases change with
  | call idle does =>
    cases does with
    | @pushed P t c task =>
      by_cases busy : c.AllBusy
      · simp [if_pos busy, Shape.receive, wakeWorkers]
      · simp [if_neg busy, Shape.receive, wakeWorkers]
    | closed => simp [Shape.receive, wakeWorkers]
    | poolRefused | poolCreated | counted | hasTasks | tooMany | taskCreated | lookedUp | notPushed | unpushed =>
      exact Nat.le_refl _
  | proceed here does => exact Nat.le_refl _
  | @work i value woken worker turn r' here does wakes =>
    obtain ⟨Q, pc⟩ := worker
    cases does <;> exact Nat.le_of_eq List.length_set.symm

/-- A worker stays where it is, is notified, or goes on itself. -/
theorem Change.worker_kept (change : Change junk first s label s') {i : Nat} {w : Worker} (here : s.workers[i]? = some w) :
    ∃ w', s'.workers[i]? = some w' ∧ ((w' = w ∨ w' = w.notify) ∨ ∃ value woken turn,
      label.1 = .work i value woken ∧ Works s.records (first w.pool) value w.pool w.pc turn s'.records ∧
      w' = ⟨w.pool, turn.next⟩) := by
  have inside := Nat.lt_of_lt_of_le (List.getElem?_eq_some_iff.mp here).1 change.workers_length
  refine ⟨_, List.getElem?_eq_getElem inside, ?_⟩
  rcases change.worker (List.getElem?_eq_getElem inside) with ⟨w₀, at_i, moved⟩ | ⟨none, -⟩
  · cases here.symm.trans at_i
    exact moved
  · rw [here] at none
    cases none

/-! ## Where the deleters go -/

/-- A client that deletes the pool did so before, or it has just looked at the pool. -/
theorem Change.closer (change : Change junk first s label s') {i : Nat} {client' : Client}
    (here : s'.clients[i]? = some client') (closes : client'.closes P = true) :
    (∃ c, s'.records.pools P = some c ∧ (client' = .destroying P → c.threadsCnt = 0)) ∨
      ∃ client, s.clients[i]? = some client ∧ client.closes P = true ∧
        (client' = .destroying P → client = .destroying P) ∧ ∀ wait, label.1 ≠ .proceed i wait := by
  cases change with
  | @call d function turn r' idle does =>
    rw [does.sameClients] at here
    rw [Shape.receive_records]
    by_cases own : d = i
    · subst own
      rw [List.getElem?_set_self (List.getElem?_eq_some_iff.mp idle).1, Option.some.injEq] at here
      subst here
      obtain ⟨-, c, live, -, gone⟩ := does.closes closes
      exact .inl ⟨c, live, gone⟩
    · rw [List.getElem?_set_ne own] at here
      exact .inr ⟨client', here, closes, id, nofun⟩
  | @proceed d wait client turn r' at_d does =>
    by_cases own : d = i
    · subst own
      rw [List.getElem?_set_self (List.getElem?_eq_some_iff.mp at_d).1, Option.some.injEq] at here
      subst here
      left
      cases does with
      | waitsAgain live threads =>
        obtain rfl := beq_iff_eq.mp closes
        exact ⟨_, live, nofun⟩
      | leaves live threads =>
        obtain rfl := beq_iff_eq.mp closes
        exact ⟨_, live, fun _ => threads⟩
      | askedFinished | askedRunning | expired | blocked | joined | timedOut | woken | deleted | detached | released
      | freed | destroyed => cases closes
    · rw [List.getElem?_set_ne own] at here
      refine .inr ⟨client', here, closes, id, ?_⟩
      intro wait' same
      cases same
      exact own rfl
  | work at_w does wakes =>
    right
    obtain ⟨client, before, told⟩ := Shape.receive_client here
    refine ⟨client, before, ?_, ?_, nofun⟩
    · rcases told with rfl | rfl
      · exact closes
      · rwa [Client.notify_closes] at closes
    · intro destroys
      rcases told with rfl | rfl
      · exact destroys
      · cases client <;> cases destroys
        rfl

/-! ## The invariant -/

/-- `tasks_cnt` is positive as long as the pool has an unreleased instance. -/
theorem Records.Counted.positive_iff (counted : r.Counted) (live : r.pools P = some c) :
    c.tasksCnt > 0 ↔ ∃ p f, r.instances p = some f ∧ f.pool = some P := by
  obtain ⟨l, -, mem, count, -⟩ := counted P c live
  have some_there : 0 < l.length ↔ ∃ p f, r.instances p = some f ∧ f.pool = some P := by
    rw [List.length_pos_iff_exists_mem]
    simp only [mem, Records.poolOf_some]
  rw [← some_there]
  omega

/-- What holds of the pools, if no push comes behind the start of `thread_pool_delete`. -/
structure Closing (s : Shape) : Prop where
  /-- A worker works on instances of its pool. -/
  inHand : ∀ w ∈ s.workers, ∀ p f, w.pc.tpTask = some p → s.records.instances p = some f → f.pool = some w.pool
  /-- A pool that is not active has no instances. -/
  emptied : ∀ P c, s.records.pools P = some c → c.isActive = false →
    ∀ p f, s.records.instances p = some f → f.pool ≠ some P
  /-- The pool that a client deletes is there, and behind the wait loop it has no threads. -/
  attended : ∀ (i : Nat) (client : Client) P, s.clients[i]? = some client → client.closes P = true →
    ∃ c, s.records.pools P = some c ∧ (client = .destroying P → c.threadsCnt = 0)
  /-- All workers of a pool that is gone have left their loop. -/
  left : ∀ w ∈ s.workers, s.records.pools w.pool = none → w.pc = .exited

theorem Shape.Aware.closes (aware : s.Aware) {client : Client} (mem : client ∈ s.clients) (closes : client.closes P = true) :
    P < s.records.nextPool ∧ ∀ c, s.records.pools P = some c → c.isActive = false := by
  have knows := aware client mem
  cases client with
  | deleting Q =>
    obtain rfl : Q = P := beq_iff_eq.mp closes
    exact knows
  | destroying Q =>
    obtain rfl : Q = P := beq_iff_eq.mp closes
    exact knows
  | idle | locking | freeing | joining => cases closes

/-- The steps that do not push into a pool that is being deleted. -/
def Shape.pushesActive (s : Shape) : Action → Bool
  | .call _ (.poolPushTask P _) => (s.records.pools P).all fun c => c.isActive
  | _ => true

theorem Shape.pushesActive_push {d t : Nat} (meets : s.pushesActive (.call d (.poolPushTask P t)) = true)
    (live : s.records.pools P = some c) : c.isActive = true := by
  rw [pushesActive, live] at meets
  exact meets

/-- A worker takes what it has in hand from `get_task`. -/
theorem Works.inHand {found : Ptr → Prop} {value : Value} {pc : WorkerPc} {turn : Turn WorkerPc} {p : Nat}
    (does : Works r found value P pc turn r') (hand : turn.next.tpTask = some p) :
    pc.tpTask = some p ∨ (found (some p) ∧ (∃ c, r.pools P = some c) ∧ ∃ f, r.instances p = some f) := by
  cases does with
  | picked looking live active first taken pending =>
    cases hand
    exact .inr ⟨first, ⟨_, live⟩, _, taken⟩
  | called | stored => exact .inl hand
  | slept | exited | completed | released => cases hand

@[simp] theorem Worker.notify_exited {w : Worker} : w.notify.pc = .exited ↔ w.pc = .exited := by
  unfold Worker.notify
  split
  · next asleep => simp [asleep]
  · rfl

namespace Closing

theorem inHandStep (inv : Closing s) (sound : Sound s) (change : Change junk first s label s')
    (home : ∀ P c p f, s.records.pools P = some c → first P (some p) → s.records.instances p = some f →
      f.pool = some P) :
    ∀ w ∈ s'.workers, ∀ p f, w.pc.tpTask = some p → s'.records.instances p = some f → f.pool = some w.pool := by
  intro w' mem p f' hand found
  obtain ⟨i, here⟩ := List.mem_iff_getElem?.mp mem
  -- Where the instance was there before, it was so with the same pool.
  have before : ∀ Q, p < s.records.nextInstance → (∀ f, s.records.instances p = some f → f.pool = some Q) →
      f'.pool = some Q := by
    intro Q old pool
    obtain ⟨f, at_p, later⟩ := change.later.instances p f' found old
    rw [later.pool]
    exact pool f at_p
  have kept : ∀ w, s.workers[i]? = some w → w.pc.tpTask = some p → f'.pool = some w.pool := by
    intro w at_i hand
    have known := sound.executing.known i w.pc p (duty_some.mpr ⟨w, at_i, rfl, by simp [hand]⟩) hand
    exact before w.pool known fun f => inv.inHand w (List.mem_of_getElem? at_i) p f hand
  rcases change.worker here with ⟨w, at_i, (rfl | rfl) | ⟨value, woken, turn, -, does, rfl⟩⟩ | ⟨-, new, -⟩
  · exact kept _ at_i hand
  · rw [Worker.notify_pool]
    exact kept w at_i (by rwa [Worker.notify_tpTask] at hand)
  · rcases does.inHand hand with old | ⟨may, ⟨c, live⟩, f, taken⟩
    · exact kept w at_i old
    · apply before w.pool (sound.owned.born p f taken).1
      intro g at_p
      exact home w.pool c p g live may at_p
  · rw [new] at hand
    cases hand

theorem emptiedStep (inv : Closing s) (sound : Sound s) (change : Change junk first s label s')
    (counted : s.records.Counted)
    (known : ∀ p f P, s.records.instances p = some f → f.pool = some P → P < s.records.nextPool)
    (meets : s.pushesActive label.1 = true) : ∀ P c, s'.records.pools P = some c → c.isActive = false →
      ∀ p f, s'.records.instances p = some f → f.pool ≠ some P := by
  intro P c' live' inactive p f' found pool
  by_cases old : p < s.records.nextInstance
  · obtain ⟨f, at_p, later⟩ := change.later.instances p f' found old
    rw [later.pool] at pool
    obtain ⟨c, live, -⟩ := change.later.pools P c' live' (known p f P at_p pool)
    have moves := change.moves sound live live'
    have before := inv.emptied P c live
    generalize label.1 = action at moves
    cases moves with
    | kept active => exact before (active ▸ inactive) p f at_p pool
    | pushed active => exact before (active ▸ inactive) p f at_p pool
    | left closed => exact before closed p f at_p pool
    | closed empty => exact empty ((counted.positive_iff live).mpr ⟨p, f, at_p, pool⟩)
  · obtain ⟨d, Q, t, task, c, rfl, -, -, live, -, rfl⟩ := change.fresh sound found (Nat.le_of_not_lt old)
    cases pool
    have active := Shape.pushesActive_push meets live
    have moves := change.moves sound live live'
    cases moves with
    | kept same | pushed same =>
      rw [same, active] at inactive
      cases inactive

theorem attendedStep (inv : Closing s) (sound : Sound s) (alone : Alone s) (change : Change junk first s label s')
    (meets : s.pushesActive label.1 = true) : ∀ (i : Nat) (client : Client) P, s'.clients[i]? = some client →
      client.closes P = true → ∃ c, s'.records.pools P = some c ∧ (client = .destroying P → c.threadsCnt = 0) := by
  intro i client' P here closes'
  rcases change.closer here closes' with now | ⟨client, at_i, closes, same, others⟩
  · exact now
  · obtain ⟨c, live, gone⟩ := inv.attended i client P at_i closes
    have inactive := (sound.aware.closes (List.mem_of_getElem? at_i) closes).2 c live
    cases live' : s'.records.pools P with
    | none =>
      -- Two clients would be deleting the pool.
      obtain ⟨d, wait, steps, at_d⟩ := change.lostPool live live'
      have equal := eq_of_countP_le_one (alone P) at_i at_d closes (by simp [Client.closes])
      rw [equal] at others
      exact absurd steps (others wait)
    | some c' =>
      refine ⟨c', rfl, ?_⟩
      intro destroys
      have none := gone (same destroys)
      have moves := change.moves sound live live'
      have counted := (change.staffed sound.staffed).threads P c' live'
      generalize label.1 = action at moves meets
      cases moves with
      | kept active threads => exact threads.trans none
      | closed empty told active threads => exact threads.trans none
      | pushed active threads =>
        rw [Shape.pushesActive_push meets live] at inactive
        cases inactive
      | left inactive active threads => omega

theorem leftStep (inv : Closing s) (sound : Sound s) (change : Change junk first s label s') :
    ∀ w ∈ s'.workers, s'.records.pools w.pool = none → w.pc = .exited := by
  intro w' mem gone
  obtain ⟨i, here⟩ := List.mem_iff_getElem?.mp mem
  rcases change.worker here with ⟨w, at_i, moved⟩ | ⟨-, -, ⟨d, function, calls⟩, c, live⟩
  · have same : w'.pool = w.pool := by
      rcases moved with (rfl | rfl) | ⟨_, _, _, _, _, rfl⟩
      · rfl
      · exact w.notify_pool
      · rfl
    rw [same] at gone
    have exited : w.pc = .exited := by
      cases live : s.records.pools w.pool with
      | none => exact inv.left w (List.mem_of_getElem? at_i) live
      | some c =>
        -- Behind the wait loop of its deleter the pool has no threads.
        obtain ⟨d, wait, -, at_d⟩ := change.lostPool live gone
        obtain ⟨c₀, live₀, none⟩ := inv.attended d _ w.pool at_d (by simp [Client.closes])
        cases live.symm.trans live₀
        have threads := sound.staffed.threads w.pool c live
        rw [none rfl] at threads
        have nobody := List.countP_eq_zero.mp (Int.natCast_eq_zero.mp threads.symm) w (List.mem_of_getElem? at_i)
        simpa [Worker.isThread] using nobody
    rcases moved with (rfl | rfl) | ⟨_, _, _, _, does, rfl⟩
    · exact exited
    · exact Worker.notify_exited.mpr exited
    · rw [exited] at does
      generalize s'.records = r' at does
      cases does with
      | slept looking | exited looking | picked looking => cases looking
  · -- A pool does not go away in the call that creates a thread.
    obtain ⟨e, wait, steps, -⟩ := change.lostPool live gone
    rw [calls] at steps
    cases steps

theorem step (inv : Closing s) (sound : Sound s) (alone : Alone s) (change : Change junk first s label s')
    (counted : s.records.Counted)
    (known : ∀ p f P, s.records.instances p = some f → f.pool = some P → P < s.records.nextPool)
    (home : ∀ P c p f, s.records.pools P = some c → first P (some p) → s.records.instances p = some f →
      f.pool = some P) (meets : s.pushesActive label.1 = true) : Closing s' where
  inHand := inv.inHandStep sound change home
  emptied := inv.emptiedStep sound change counted known meets
  attended := inv.attendedStep sound alone change meets
  left := inv.leftStep sound change

/-- No worker of a pool that is being deleted has anything in hand, and none of them sleeps. -/
theorem looking (inv : Closing s) (watchful : Watchful s) (alive : s.Alive) (live : s.records.pools P = some c)
    (inactive : c.isActive = false) {w : Worker} (mem : w ∈ s.workers) (inPool : w.pool = P) (stays : w.pc ≠ .exited) :
    w.pc = .ready ∨ w.pc = .asleep true := by
  have free : w.pc.tpTask = none := by
    rw [Option.eq_none_iff_forall_ne_some]
    intro p hand
    obtain ⟨i, at_i⟩ := List.mem_iff_getElem?.mp mem
    obtain ⟨f, found⟩ := alive i w.pc p (duty_some.mpr ⟨w, at_i, rfl, by simp [hand]⟩) hand
    have pool := inv.inHand w mem p f hand found
    rw [inPool] at pool
    exact inv.emptied P c live inactive p f found pool
  obtain ⟨Q, pc⟩ := w
  cases inPool
  cases pc with
  | ready => exact .inl rfl
  | asleep notified =>
    cases notified with
    | true => exact .inr rfl
    | false =>
      obtain ⟨c', live', active, -⟩ := watchful Q mem
      cases live.symm.trans live'
      rw [inactive] at active
      cases active
  | picked | running | returned => cases free
  | exited => exact absurd rfl stays

end Closing

end

/-! ## Runs -/

variable {junk : Nat → Value} {s s' : System} {label : Action × Out} {P : Nat}

/-- No push starts behind the start of `thread_pool_delete` of its pool. -/
def PushesActive (s : System) (label : Action × Out) (_ : System) : Prop := s.shape.pushesActive label.1 = true

instance : Decidable (PushesActive s label s') := inferInstanceAs (Decidable (_ = _))

/-- No instance is released while it is pending or running, every task is pushed to a single
    pool, and behind the start of `thread_pool_delete` neither a push into the pool nor
    another deletion of it starts. -/
structure WellUsed (s : System) (label : Action × Out) (s' : System) : Prop where
  careful : Careful s label s'
  single : SinglePool s label s'
  active : PushesActive s label s'
  alone : OneDeleter s label s'

instance : Decidable (WellUsed s label s') :=
  decidable_of_iff (Careful s label s' ∧ SinglePool s label s' ∧ PushesActive s label s' ∧ OneDeleter s label s')
    ⟨fun h => ⟨h.1, h.2.1, h.2.2.1, h.2.2.2⟩, fun h => ⟨h.careful, h.single, h.active, h.alone⟩⟩

/-- The invariants of a run that meets the condition. -/
structure Settled (s : System) : Prop where
  sound : Sound s.shape
  orderly : Orderly s
  alive : s.shape.Alive
  watchful : Watchful s.shape
  alone : Alone s.shape
  deferred : Deferred s.shape
  closing : Closing s.shape

theorem System.init_closing (clients : Nat) : Closing (System.init clients).shape where
  inHand := nofun
  emptied := nofun
  attended i client P here closes := by
    rw [List.eq_of_mem_replicate (List.mem_of_getElem? here)] at closes
    cases closes
  left := nofun

theorem reachable_settled {clients : Nat}
    (reachable : Reachable (StepWhen junk WellUsed) (System.init clients) s) : Settled s := by
  have kept : ∀ s, Reachable (StepWhen junk WellUsed) (System.init clients) s → Closing s.shape → Settled s := by
    intro s reachable closing
    exact ⟨reachable_sound reachable, (reachable_single (fun _ _ _ => WellUsed.single) reachable).2,
      reachable_alive (fun _ _ _ => WellUsed.careful) reachable,
      reachable_watchful (fun _ _ _ => WellUsed.single) reachable,
      reachable_alone (fun _ _ _ => WellUsed.alone) reachable,
      reachable_deferred (fun _ _ _ => WellUsed.alone) reachable, closing⟩
  apply kept s reachable
  apply reachable.induct
  · exact System.init_closing clients
  · intro s label s' reachable closing step
    obtain ⟨sound, orderly, alive, watchful, alone, deferred, closing⟩ := kept s reachable closing
    apply closing.step sound alone step.1.change orderly.counted _ _ step.2.active
    · intro p f P found pool
      exact orderly.known found pool
    · intro P c p f live first found
      exact orderly.first_home live first found

end SysprogLabs.Tpool
