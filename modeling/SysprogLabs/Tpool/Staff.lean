import SysprogLabs.Tpool.Changes
import SysprogLabs.Lib.Slots

/-! # Counting the workers

`threads_cnt` counts the workers of a pool that have not left their loop, and
`active_threads_cnt` those between the pickup and the completion of an instance.  This
holds in every run, whatever is released.
-/

namespace SysprogLabs.Tpool

variable {junk : Nat → Value} {first : Nat → Ptr → Prop} {s s' : Shape} {r r' : Records}
  {workers : List Worker} {P : Nat}

/-- The instance a worker has in hand, from its pickup to its completion. -/
def WorkerPc.tpTask : WorkerPc → Option Nat
  | .picked p => some p
  | .running call => some call.tpTask
  | .returned p => some p
  | _ => none

/-- A worker of the pool that has not left its loop. -/
def Worker.isThread (P : Nat) (w : Worker) : Bool := w.pool == P && !(w.pc == .exited)

/-- A worker of the pool that has an instance in hand. -/
def Worker.isBusy (P : Nat) (w : Worker) : Bool := w.pool == P && w.pc.tpTask.isSome

theorem WorkerPc.Looking.tpTask {pc : WorkerPc} (looking : pc.Looking) : pc.tpTask = none := by
  cases pc with
  | ready => rfl
  | asleep => rfl
  | picked | running | returned | exited => cases looking

theorem WorkerPc.Looking.ne_exited {pc : WorkerPc} (looking : pc.Looking) : (pc == .exited) = false := by
  cases pc with
  | ready => rfl
  | asleep => rfl
  | picked | running | returned | exited => cases looking

theorem isThread_staying {w : Worker} (stays : (w.pc == .exited) = false) : w.isThread P = (w.pool == P) := by
  rw [Worker.isThread, stays, Bool.not_false, Bool.and_true]

theorem isThread_exited {P Q : Nat} : Worker.isThread P { pool := Q, pc := .exited } = false := by
  simp [Worker.isThread]

theorem isBusy_free {w : Worker} (free : w.pc.tpTask = none) : w.isBusy P = false := by
  rw [Worker.isBusy, free, Option.isSome_none, Bool.and_false]

theorem isBusy_busy {w : Worker} {p : Nat} (busy : w.pc.tpTask = some p) : w.isBusy P = (w.pool == P) := by
  rw [Worker.isBusy, busy, Option.isSome_some, Bool.and_true]

@[simp] theorem Worker.notify_pool (w : Worker) : w.notify.pool = w.pool := by
  unfold Worker.notify
  split <;> rfl

@[simp] theorem Worker.notify_tpTask (w : Worker) : w.notify.pc.tpTask = w.pc.tpTask := by
  unfold Worker.notify
  split
  · next asleep => rw [asleep]; rfl
  · rfl

@[simp] theorem Worker.notify_isThread (w : Worker) : w.notify.isThread P = w.isThread P := by
  unfold Worker.notify
  split
  · next asleep =>
    unfold Worker.isThread
    rw [asleep]
    rfl
  · rfl

@[simp] theorem Worker.notify_isBusy (w : Worker) : w.notify.isBusy P = w.isBusy P := by
  rw [Worker.isBusy, Worker.isBusy, notify_pool, notify_tpTask]

/-- Waking workers up changes nothing a predicate can see that ignores notifications. -/
theorem countP_wakeWorkers {q : Worker → Bool} (blind : ∀ w : Worker, q w.notify = q w) :
    (wakeWorkers P workers).countP q = workers.countP q := by
  induction workers with
  | nil => rfl
  | cons w workers ih =>
    have same : q (if w.pool = P then w.notify else w) = q w := by
      split
      · exact blind w
      · rfl
    rw [wakeWorkers, List.map_cons, List.countP_cons, List.countP_cons, same]
    rw [wakeWorkers] at ih
    rw [ih]

theorem mem_wakeWorkers {w : Worker} (mem : w ∈ wakeWorkers P workers) :
    ∃ w₀ ∈ workers, w.pool = w₀.pool ∧ (w = w₀ ∨ w = w₀.notify) := by
  obtain ⟨w₀, mem₀, rfl⟩ := List.mem_map.mp mem
  split
  · exact ⟨w₀, mem₀, by simp, .inr rfl⟩
  · exact ⟨w₀, mem₀, rfl, .inl rfl⟩

/-! ## The invariant -/

structure Staffed (r : Records) (workers : List Worker) : Prop where
  known : ∀ w ∈ workers, w.pool < r.nextPool
  allocated : ∀ P c, r.pools P = some c → P < r.nextPool
  threads : ∀ P c, r.pools P = some c → c.threadsCnt = workers.countP (Worker.isThread P)
  active : ∀ P c, r.pools P = some c → c.activeThreadsCnt = workers.countP (Worker.isBusy P)
  bounded : ∀ P c, r.pools P = some c → c.threadsCnt ≤ c.maxThreadsCnt ∧ c.maxThreadsCnt ≤ tpoolMaxThreads

/-- No thread counter of a pool that is still there has changed. -/
structure Records.SameThreads (r r' : Records) : Prop where
  nextPool : r'.nextPool = r.nextPool
  pools : ∀ P c', r'.pools P = some c' → ∃ c, r.pools P = some c ∧ c'.maxThreadsCnt = c.maxThreadsCnt ∧
    c'.threadsCnt = c.threadsCnt ∧ c'.activeThreadsCnt = c.activeThreadsCnt

namespace Records.SameThreads

theorem ofPools (next : r'.nextPool = r.nextPool) (pools : r'.pools = r.pools) : r.SameThreads r' where
  nextPool := next
  pools P c found := ⟨c, by rw [← pools, found], rfl, rfl, rfl⟩

theorem refl (r : Records) : r.SameThreads r := ofPools rfl rfl

theorem trans {r'' : Records} (h₁ : r.SameThreads r') (h₂ : r'.SameThreads r'') : r.SameThreads r'' where
  nextPool := h₂.nextPool.trans h₁.nextPool
  pools P c found := by
    obtain ⟨c₁, found₁, max₁, threads₁, active₁⟩ := h₂.pools P c found
    obtain ⟨c₀, found₀, max₀, threads₀, active₀⟩ := h₁.pools P c₁ found₁
    exact ⟨c₀, found₀, max₁.trans max₀, threads₁.trans threads₀, active₁.trans active₀⟩

theorem setPool {c c' : Counters} (live : r.pools P = some c) (max : c'.maxThreadsCnt = c.maxThreadsCnt)
    (threads : c'.threadsCnt = c.threadsCnt) (active : c'.activeThreadsCnt = c.activeThreadsCnt) :
    r.SameThreads (r.setPool P (some c')) where
  nextPool := rfl
  pools Q c'' found := by
    by_cases here : Q = P
    · subst here
      cases (Records.setPool_found _).symm.trans found
      exact ⟨c, live, max, threads, active⟩
    · have old : r.pools Q = some c'' := by rw [← found]; exact (if_neg here).symm
      exact ⟨c'', old, rfl, rfl, rfl⟩

theorem dropPool : r.SameThreads (r.setPool P none) where
  nextPool := rfl
  pools Q c found := by
    by_cases here : Q = P
    · subst here
      cases (Records.setPool_found _).symm.trans found
    · have old : r.pools Q = some c := by rw [← found]; exact (if_neg here).symm
      exact ⟨c, old, rfl, rfl, rfl⟩

end Records.SameThreads

theorem Records.Deletes.sameThreads {t : Nat} {ret : Int} (deletes : r.Deletes t ret r') :
    r.SameThreads r' := by
  cases deletes with
  | refused => exact .refl r
  | @released task live all =>
    constructor
    · rfl
    · intro P c' found
      simp only [Records.release] at found
      split at found
      · obtain ⟨c, live, rfl⟩ := Option.map_eq_some_iff.mp found
        exact ⟨c, live, rfl, rfl, rfl⟩
      · exact ⟨c', found, rfl, rfl, rfl⟩

theorem Proceeds.sameThreads {wait : WaitResult} {client : Client} {turn : Turn Client}
    (does : Proceeds r wait client turn r') : r.SameThreads r' := by
  cases does with
  | deleted deletes => exact deletes.sameThreads
  | @released t p pool f ret r' found finished deletes =>
    have detached : r.SameThreads (r.setInstance p (some { f with isDetached := true })) := .ofPools rfl rfl
    exact detached.trans deletes.sameThreads
  | destroyed live => exact .dropPool
  | blocked | joined | detached | freed => exact .ofPools rfl rfl
  | askedFinished | askedRunning | expired | timedOut | woken | waitsAgain | leaves => exact .refl r

namespace Staffed

theorem keep (staffed : Staffed r workers) (same : r.SameThreads r') : Staffed r' workers where
  known w mem := same.nextPool ▸ staffed.known w mem
  allocated P c' found := by
    obtain ⟨c, old, -⟩ := same.pools P c' found
    exact same.nextPool ▸ staffed.allocated P c old
  threads P c' found := by
    obtain ⟨c, old, -, threads, -⟩ := same.pools P c' found
    rw [threads, staffed.threads P c old]
  active P c' found := by
    obtain ⟨c, old, -, -, active⟩ := same.pools P c' found
    rw [active, staffed.active P c old]
  bounded P c' found := by
    obtain ⟨c, old, max, threads, -⟩ := same.pools P c' found
    rw [max, threads]
    exact staffed.bounded P c old

theorem wake (staffed : Staffed r workers) (Q : Nat) : Staffed r (wakeWorkers Q workers) where
  known w mem := by
    obtain ⟨w₀, mem₀, pool, -⟩ := mem_wakeWorkers mem
    rw [pool]
    exact staffed.known w₀ mem₀
  allocated := staffed.allocated
  threads P c found := by rw [countP_wakeWorkers Worker.notify_isThread, staffed.threads P c found]
  active P c found := by rw [countP_wakeWorkers Worker.notify_isBusy, staffed.active P c found]
  bounded := staffed.bounded

/-- A pool that was just allocated has no worker. -/
theorem addPool (staffed : Staffed r workers) {c : Counters} (threads : c.threadsCnt = 0)
    (active : c.activeThreadsCnt = 0) (max : 0 ≤ c.maxThreadsCnt ∧ c.maxThreadsCnt ≤ tpoolMaxThreads) :
    Staffed (r.addPool c) workers := by
  have nobody : ∀ q : Worker → Bool, (∀ w, q w = true → w.pool = r.nextPool) → workers.countP q = 0 := by
    intro q inPool
    rw [List.countP_eq_zero]
    intro w mem holds
    have known := staffed.known w mem
    rw [inPool w holds] at known
    omega
  have cases : ∀ P c', (r.addPool c).pools P = some c' → (P = r.nextPool ∧ c' = c) ∨ r.pools P = some c' := by
    intro P c' found
    by_cases here : P = r.nextPool
    · subst here
      cases (if_pos rfl).symm.trans found
      exact .inl ⟨rfl, rfl⟩
    · exact .inr (by rw [← found]; exact (if_neg here).symm)
  constructor
  · intro w mem
    exact Nat.lt_succ_of_lt (staffed.known w mem)
  · intro P c' found
    cases cases P c' found with
    | inl new => rw [new.1]; exact Nat.lt_succ_self _
    | inr old => exact Nat.lt_succ_of_lt (staffed.allocated P c' old)
  · intro P c' found
    cases cases P c' found with
    | inl new =>
      obtain ⟨rfl, rfl⟩ := new
      rw [threads, nobody _ fun w holds => by simp [Worker.isThread] at holds; exact holds.1]
      rfl
    | inr old => exact staffed.threads P c' old
  · intro P c' found
    cases cases P c' found with
    | inl new =>
      obtain ⟨rfl, rfl⟩ := new
      rw [active, nobody _ fun w holds => by simp [Worker.isBusy] at holds; exact holds.1]
      rfl
    | inr old => exact staffed.active P c' old
  · intro P c' found
    cases cases P c' found with
    | inl new =>
      obtain ⟨rfl, rfl⟩ := new
      rw [threads]
      exact max
    | inr old => exact staffed.bounded P c' old

/-- A worker moves on, and the counters of its pool with it. -/
theorem move (staffed : Staffed r workers) {i : Nat} {w : Worker} {c : Counters} (c' : Counters) (pc : WorkerPc)
    (here : workers[i]? = some w) (live : r.pools w.pool = some c) (max : c'.maxThreadsCnt = c.maxThreadsCnt)
    (threads : c'.threadsCnt + (if w.isThread w.pool then 1 else 0 : Nat) =
      c.threadsCnt + (if Worker.isThread w.pool { w with pc } then 1 else 0 : Nat))
    (active : c'.activeThreadsCnt + (if w.isBusy w.pool then 1 else 0 : Nat) =
      c.activeThreadsCnt + (if Worker.isBusy w.pool { w with pc } then 1 else 0 : Nat))
    (fewer : c'.threadsCnt ≤ c.threadsCnt) :
    Staffed (r.setPool w.pool (some c')) (workers.set i { w with pc }) := by
  have cases : ∀ P c'', (r.setPool w.pool (some c')).pools P = some c'' →
      (P = w.pool ∧ c'' = c') ∨ (P ≠ w.pool ∧ r.pools P = some c'') := by
    intro P c'' found
    by_cases at_pool : P = w.pool
    · subst at_pool
      cases (Records.setPool_found _).symm.trans found
      exact .inl ⟨rfl, rfl⟩
    · exact .inr ⟨at_pool, by rw [← found]; exact (if_neg at_pool).symm⟩
  have elsewhere : ∀ P, P ≠ w.pool → ∀ q : Worker → Bool, (∀ v, q v = true → v.pool = P) →
      (workers.set i { w with pc }).countP q = workers.countP q := by
    intro P apart q inPool
    have moved := countP_set_add (a := { w with pc }) here q
    have before : q w = false := Bool.eq_false_iff.mpr fun holds => apart (inPool w holds).symm
    have after : q { w with pc } = false := Bool.eq_false_iff.mpr fun holds => apart (inPool _ holds).symm
    rw [before, after] at moved
    simpa using moved
  have countThreads := countP_set_add (a := { w with pc }) here (Worker.isThread w.pool)
  have countActive := countP_set_add (a := { w with pc }) here (Worker.isBusy w.pool)
  have oldThreads := staffed.threads w.pool c live
  have oldActive := staffed.active w.pool c live
  constructor
  · intro v mem
    cases List.mem_or_eq_of_mem_set mem with
    | inl old => exact staffed.known v old
    | inr new => rw [new]; exact staffed.known w (List.mem_of_getElem? here)
  · intro P c'' found
    cases cases P c'' found with
    | inl new => rw [new.1]; exact staffed.allocated w.pool c live
    | inr old => exact staffed.allocated P c'' old.2
  · intro P c'' found
    cases cases P c'' found with
    | inl new =>
      obtain ⟨rfl, rfl⟩ := new
      omega
    | inr old =>
      rw [elsewhere P old.1 _ fun v holds => by simp [Worker.isThread] at holds; exact holds.1]
      exact staffed.threads P c'' old.2
  · intro P c'' found
    cases cases P c'' found with
    | inl new =>
      obtain ⟨rfl, rfl⟩ := new
      omega
    | inr old =>
      rw [elsewhere P old.1 _ fun v holds => by simp [Worker.isBusy] at holds; exact holds.1]
      exact staffed.active P c'' old.2
  · intro P c'' found
    cases cases P c'' found with
    | inl new =>
      obtain ⟨rfl, rfl⟩ := new
      have bounded := staffed.bounded w.pool c live
      rw [max]
      omega
    | inr old => exact staffed.bounded P c'' old.2

/-- A worker moves on without a change of the counters. -/
theorem stay (staffed : Staffed r workers) {i : Nat} {w : Worker} (pc : WorkerPc) (here : workers[i]? = some w)
    (threads : ∀ P, Worker.isThread P { w with pc } = w.isThread P)
    (active : ∀ P, Worker.isBusy P { w with pc } = w.isBusy P) :
    Staffed r (workers.set i { w with pc }) := by
  have unseen : ∀ q : Worker → Bool, q { w with pc } = q w →
      (workers.set i { w with pc }).countP q = workers.countP q := by
    intro q same
    have moved := countP_set_add (a := { w with pc }) here q
    rw [same] at moved
    omega
  constructor
  · intro v mem
    cases List.mem_or_eq_of_mem_set mem with
    | inl old => exact staffed.known v old
    | inr new => rw [new]; exact staffed.known w (List.mem_of_getElem? here)
  · exact staffed.allocated
  · intro P c found
    rw [unseen _ (threads P)]
    exact staffed.threads P c found
  · intro P c found
    rw [unseen _ (active P)]
    exact staffed.active P c found
  · exact staffed.bounded

/-- `thread_pool_push_task` creates a thread only while there are fewer than allowed. -/
theorem push (staffed : Staffed r workers) (junk : Nat → Value) (t : Nat) (task : ThreadTask) {c : Counters}
    (live : r.pools P = some c) :
    Staffed (r.push junk P t task c)
      (workers ++ if c.AllBusy then [{ pool := P, pc := .ready }] else []) := by
  have cases : ∀ Q c', (r.push junk P t task c).pools Q = some c' →
      (Q = P ∧ c' = { c with threadsCnt := if c.AllBusy then c.threadsCnt + 1 else c.threadsCnt,
                             tasksCnt := c.tasksCnt + 1 }) ∨ (Q ≠ P ∧ r.pools Q = some c') := by
    intro Q c' found
    by_cases here : Q = P
    · subst here
      cases (if_pos rfl).symm.trans found
      exact .inl ⟨rfl, rfl⟩
    · exact .inr ⟨here, by rw [← found]; exact (if_neg here).symm⟩
  have inPool := staffed.allocated P c live
  have bounded := staffed.bounded P c live
  constructor
  · intro w mem
    cases List.mem_append.mp mem with
    | inl old => exact staffed.known w old
    | inr new =>
      split at new
      · rw [List.mem_singleton.mp new]
        exact inPool
      · cases new
  · intro Q c' found
    cases cases Q c' found with
    | inl new => rw [new.1]; exact inPool
    | inr old => exact staffed.allocated Q c' old.2
  · intro Q c' found
    rw [List.countP_append, Int.natCast_add]
    cases cases Q c' found with
    | inl new =>
      obtain ⟨rfl, rfl⟩ := new
      rw [← staffed.threads Q c live]
      by_cases busy : c.AllBusy
      · rw [if_pos busy, if_pos busy]
        simp [Worker.isThread]
      · rw [if_neg busy, if_neg busy]
        simp
    | inr old =>
      rw [← staffed.threads Q c' old.2]
      by_cases busy : c.AllBusy
      · rw [if_pos busy]
        simp [Worker.isThread, Ne.symm old.1]
      · rw [if_neg busy]
        simp
  · intro Q c' found
    rw [List.countP_append, Int.natCast_add]
    have idle : (if c.AllBusy then [{ pool := P, pc := .ready }] else []).countP (Worker.isBusy Q) = 0 := by
      split
      · simp [Worker.isBusy, WorkerPc.tpTask]
      · rfl
    rw [idle]
    cases cases Q c' found with
    | inl new =>
      obtain ⟨rfl, rfl⟩ := new
      rw [← staffed.active Q c live]
      simp
    | inr old =>
      rw [← staffed.active Q c' old.2]
      simp
  · intro Q c' found
    cases cases Q c' found with
    | inl new =>
      obtain ⟨rfl, rfl⟩ := new
      by_cases busy : c.AllBusy
      · rw [if_pos busy]
        exact ⟨Int.add_one_le_of_lt busy.2, bounded.2⟩
      · rw [if_neg busy]
        exact bounded
    | inr old => exact staffed.bounded Q c' old.2

end Staffed

/-! ## Every step keeps it -/

theorem Change.staffed {label : Action × Out} (change : Change junk first s label s')
    (staffed : Staffed s.records s.workers) : Staffed s'.records s'.workers := by
  cases change with
  | call idle does =>
    cases does with
    | poolCreated good =>
      rw [not_or, Int.not_lt, Int.not_le] at good
      exact staffed.addPool rfl rfl ⟨Int.le_of_lt good.2, good.1⟩
    | @closed P c live empty =>
      have closed : s.records.SameThreads (s.records.setPool P (some { c with isActive := false })) :=
        .setPool live rfl rfl rfl
      exact (staffed.keep closed).wake P
    | @pushed P t c task live room found =>
      have pushed := (staffed.push junk t task live).wake P
      by_cases busy : c.AllBusy
      · simp only [if_pos busy] at pushed ⊢
        exact pushed
      · simp only [if_neg busy, List.append_nil] at pushed ⊢
        exact pushed
    | taskCreated => exact staffed.keep (.ofPools rfl rfl)
    | poolRefused | counted | hasTasks | tooMany | lookedUp | notPushed | unpushed => exact staffed
  | proceed here does => exact staffed.keep does.sameThreads
  | @work w value woken worker turn r' here does wakes =>
    obtain ⟨P, pc⟩ := worker
    cases does with
    | slept looking live active nothing =>
      apply staffed.stay (.asleep false) here
      · intro Q
        exact (isThread_staying rfl).trans (isThread_staying looking.ne_exited).symm
      · intro Q
        exact (isBusy_free rfl).trans (isBusy_free looking.tpTask).symm
    | @exited pc c looking live inactive =>
      have moved := staffed.move { c with threadsCnt := c.threadsCnt - 1 } .exited here live rfl
        (by
          rw [isThread_staying looking.ne_exited, isThread_exited]
          simp)
        (by
          rw [isBusy_free looking.tpTask, isBusy_free rfl])
        (Int.sub_le_self _ (by decide))
      exact moved
    | @picked pc c p f looking live active found taken pending =>
      have moved := staffed.move { c with activeThreadsCnt := c.activeThreadsCnt + 1 } (.picked p) here live rfl
        (by
          rw [isThread_staying looking.ne_exited, isThread_staying rfl])
        (by
          rw [isBusy_free looking.tpTask, isBusy_busy rfl]
          simp)
        (Int.le_refl _)
      exact moved.keep (.ofPools rfl rfl)
    | called found live => exact staffed.stay (.running _) here (fun _ => rfl) fun _ => rfl
    | stored found =>
      have stayed := staffed.stay (.returned _) here (fun _ => rfl) fun _ => rfl
      exact stayed.keep (.ofPools rfl rfl)
    | @completed p f c found live kept =>
      have moved := staffed.move { c with activeThreadsCnt := c.activeThreadsCnt - 1 } .ready here live rfl
        (by
          rw [isThread_staying rfl, isThread_staying rfl])
        (by
          rw [isBusy_busy rfl, isBusy_free rfl]
          simp)
        (Int.le_refl _)
      exact moved.keep (.ofPools rfl rfl)
    | @released p f c ret r' found live detached deletes =>
      have moved := staffed.move { c with activeThreadsCnt := c.activeThreadsCnt - 1 } .ready here live rfl
        (by
          rw [isThread_staying rfl, isThread_staying rfl])
        (by
          rw [isBusy_busy rfl, isBusy_free rfl]
          simp)
        (Int.le_refl _)
      have completed : Staffed (s.records.complete P p f c) (s.workers.set w { pool := P, pc := .ready }) :=
        moved.keep (.ofPools rfl rfl)
      exact completed.keep deletes.sameThreads

end SysprogLabs.Tpool
