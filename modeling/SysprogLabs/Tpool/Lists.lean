import SysprogLabs.Tpool.Queues
import SysprogLabs.Tpool.Lifetimes

/-! # Lists and counters of the pools

As long as `delete_task` only releases instances of one pool at a time, the list of every
pool consists of the instances that were pushed to it, and `tasks_cnt` is their number.
-/

namespace SysprogLabs.Tpool

open Prog

section

variable {junk : Nat → Value} {first : Nat → Ptr → Prop} {s s' : Shape} {r r' : Records} {label : Action × Out}
  {t p P : Nat} {c : Counters}

/-! ## The pools of the instances of a task -/

/-- All instances of the task have the pool of the newest one. -/
def Records.sharePool (r : Records) (t : Nat) : Bool :=
  (r.tasks t).any fun task => r.allOf t fun f => f.pool == r.newestPool task

theorem Records.sharePool_iff : r.sharePool t = true ↔ ∃ task, r.tasks t = some task ∧
    ∀ p ∈ task.list, ∃ f, r.instances p = some f ∧ f.pool = r.newestPool task := by
  simp only [sharePool, Option.any_eq_true, allOf_iff]
  constructor
  · rintro ⟨task, live, task', live', all⟩
    cases live.symm.trans live'
    exact ⟨task, live, fun p mem => by simpa using all p mem⟩
  · rintro ⟨task, live, all⟩
    exact ⟨task, live, task, live, fun p mem => by simpa using all p mem⟩

/-- If `delete_task` only releases tasks with instances of one pool, a step does. -/
theorem Change.together (change : Change junk first s label s') (owned : Owned s.records)
    (share : ∀ t r, s.deletion label.1 = some (t, r) → r.allOf t Fields.deletable = true → r.sharePool t = true)
    {q : Nat} {f g : Fields} (at_p : s.records.instances p = some f) (at_q : s.records.instances q = some g)
    (gone_p : s'.records.instances p = none) (gone_q : s'.records.instances q = none) : f.pool = g.pool := by
  obtain ⟨r, task, deletion, live, mem_p, all, -⟩ := change.released at_p gone_p owned
  obtain ⟨r', task', deletion', live', mem_q, -, -⟩ := change.released at_q gone_q owned
  rw [deletion, Option.some.injEq, Prod.mk.injEq] at deletion'
  obtain ⟨same, rfl⟩ := deletion'
  rw [same] at live
  cases live.symm.trans live'
  obtain ⟨-, tasks, instances⟩ := Shape.deletion_later deletion
  obtain ⟨task', known, pools⟩ := Records.sharePool_iff.mp (share _ _ deletion all)
  rw [tasks, same] at known
  cases live'.symm.trans known
  have pool : ∀ x h, s.records.instances x = some h → x ∈ task.list → h.pool = r.newestPool task := by
    intro x h at_x mem
    obtain ⟨h', found, later⟩ := instances x h at_x
    obtain ⟨h'', found', home⟩ := pools x mem
    cases found.symm.trans found'
    rw [← later.pool, home]
  rw [pool p f at_p mem_p, pool q g at_q mem_q]

/-- The instances of a task that is there have one pool. -/
def Records.Housed (r : Records) : Prop :=
  ∀ p q f g task, r.instances p = some f → r.instances q = some g → f.threadTask = g.threadTask →
    r.tasks f.threadTask = some task → f.pool = g.pool

theorem Change.housed (change : Change junk first s label s') (sound : Sound s) (housed : s.records.Housed)
    (home : ∀ c P t, label.1 = .call c (.poolPushTask P t) →
      s.records.allOf t (fun f => f.pool == some P) = true) : s'.records.Housed := by
  -- An instance is an old one of an old task, or the one that is being pushed.
  have origin : ∀ p f task, s'.records.instances p = some f → s'.records.tasks f.threadTask = some task →
      (∃ f₀ task₀, s.records.instances p = some f₀ ∧ f.threadTask = f₀.threadTask ∧ f.pool = f₀.pool ∧
        s.records.tasks f₀.threadTask = some task₀) ∨
      (p = s.records.nextInstance ∧ s.records.allOf f.threadTask (fun g => g.pool == f.pool) = true) := by
    intro p f task found live
    by_cases old : p < s.records.nextInstance
    · obtain ⟨f₀, before, later⟩ := change.later.instances p f found old
      have born := (sound.owned.born p f₀ before).2
      rw [later.threadTask] at live
      obtain ⟨task₀, known⟩ := change.oldTask live born
      exact .inl ⟨f₀, task₀, before, later.threadTask, later.pool, known⟩
    · obtain ⟨c, P, t, task, counters, rfl, new, -, -, -, rfl⟩ := change.fresh sound found (Nat.not_lt.mp old)
      exact .inr ⟨new, home c P t rfl⟩
  have mixed : ∀ (f g f₀ : Fields) (task : ThreadTask) (p₀ : Nat), s.records.instances p₀ = some f₀ →
      f.threadTask = f₀.threadTask → f.pool = f₀.pool → s.records.tasks f₀.threadTask = some task →
      s.records.allOf g.threadTask (fun h => h.pool == g.pool) = true → f.threadTask = g.threadTask →
      f.pool = g.pool := by
    intro f g f₀ task p₀ before task_eq pool_eq known all same
    obtain ⟨task', live, pools⟩ := Records.allOf_iff.mp all
    rw [← same, task_eq] at live
    cases known.symm.trans live
    obtain ⟨h, found, home⟩ := pools p₀ (sound.owned.whole p₀ f₀ task before known)
    cases before.symm.trans found
    rw [pool_eq]
    exact eq_of_beq home
  intro p q f g task at_p at_q same live
  rcases origin p f task at_p live with ⟨f₀, task₀, before, task_f, pool_f, known⟩ | ⟨new, all⟩
  · rcases origin q g task at_q (same ▸ live) with ⟨g₀, -, before', task_g, pool_g, -⟩ | ⟨new', all'⟩
    · rw [pool_f, pool_g]
      exact housed p q f₀ g₀ task₀ before before' (by rw [← task_f, ← task_g, same]) known
    · exact mixed f g f₀ task₀ p before task_f pool_f known all' same
  · rcases origin q g task at_q (same ▸ live) with ⟨g₀, task₀, before', task_g, pool_g, known⟩ | ⟨new', -⟩
    · exact (mixed g f g₀ task₀ q before' task_g pool_g known all same.symm).symm
    · subst new new'
      cases at_p.symm.trans at_q
      rfl

theorem Records.Housed.sharePool (housed : r.Housed) (owned : Owned r) {task : ThreadTask}
    (live : r.tasks t = some task) : r.sharePool t = true := by
  refine Records.sharePool_iff.mpr ⟨task, live, ?_⟩
  intro p mem
  obtain ⟨f, found, owner⟩ := owned.listed t task p live mem
  refine ⟨f, found, ?_⟩
  cases head : task.list.head? with
  | none =>
    rw [List.head?_eq_none_iff.mp head] at mem
    cases mem
  | some newest =>
    obtain ⟨g, found', owner'⟩ := owned.listed t task newest live (List.mem_of_head? head)
    rw [newestPool, head, Option.bind_some, found', Option.bind_some]
    exact housed p newest f g task found found' (owner.trans owner'.symm) (owner ▸ live)

/-! ## `tasks_cnt` -/

def Records.poolOf (r : Records) (p : Nat) : Option Ptr := (r.instances p).map Fields.pool

theorem Records.poolOf_some : r.poolOf p = some (some P) ↔ ∃ f, r.instances p = some f ∧ f.pool = some P :=
  Option.map_eq_some_iff

theorem Records.poolOf_setInstance {f f' : Fields} (found : r.instances p = some f)
    (pool : f'.pool = f.pool) : (r.setInstance p (some f')).poolOf = r.poolOf := by
  funext x
  rw [poolOf, poolOf]
  by_cases here : x = p
  · rw [here, Records.setInstance_found, found, Option.map_some, Option.map_some, pool]
  · exact congrArg _ (if_neg here)

/-- `tasks_cnt` is the number of unreleased instances of the pool. -/
def Records.Counted (r : Records) : Prop :=
  ∀ P c, r.pools P = some c → ∃ l : List Nat, l.Nodup ∧ (∀ p, p ∈ l ↔ r.poolOf p = some (some P)) ∧
    c.tasksCnt = l.length ∧ c.tasksCnt ≤ tpoolMaxTasks

namespace Records.Counted

theorem keep (counted : r.Counted) (pools : ∀ P c', r'.pools P = some c' → ∃ c, r.pools P = some c ∧
    c'.tasksCnt = c.tasksCnt) (same : r'.poolOf = r.poolOf) : r'.Counted := by
  intro P c' live'
  obtain ⟨c, live, count⟩ := pools P c' live'
  rw [same, count]
  exact counted P c live

theorem setInstance (counted : r.Counted) {f f' : Fields} (found : r.instances p = some f) (pool : f'.pool = f.pool) :
    (r.setInstance p (some f')).Counted :=
  counted.keep (fun _ c live => ⟨c, live, rfl⟩) (poolOf_setInstance found pool)

theorem setPool (counted : r.Counted) {c' : Counters} (live : r.pools P = some c) (count : c'.tasksCnt = c.tasksCnt) :
    (r.setPool P (some c')).Counted := by
  refine counted.keep ?_ rfl
  intro Q d live'
  by_cases here : Q = P
  · subst here
    cases (Records.setPool_found _).symm.trans live'
    exact ⟨c, live, count⟩
  · exact ⟨d, (if_neg here).symm.trans live', rfl⟩

theorem dropPool (counted : r.Counted) : (r.setPool P none).Counted := by
  refine counted.keep ?_ rfl
  intro Q d live'
  by_cases here : Q = P
  · subst here
    cases (Records.setPool_found _).symm.trans live'
  · exact ⟨d, (if_neg here).symm.trans live', rfl⟩

/-- No instance has the pool that is allocated next. -/
theorem addPool (counted : r.Counted) (zero : c.tasksCnt = 0) (unused : ∀ p, r.poolOf p ≠ some (some r.nextPool)) :
    (r.addPool c).Counted := by
  intro P d live
  by_cases new : P = r.nextPool
  · subst new
    cases (if_pos rfl).symm.trans live
    refine ⟨[], .nil, fun p => ⟨nofun, fun mem => absurd mem (unused p)⟩, zero, ?_⟩
    rw [zero]
    decide
  · exact counted P d ((if_neg new).symm.trans live)

theorem push (counted : r.Counted) (junk : Nat → Value) (task : ThreadTask) (live : r.pools P = some c)
    (room : c.tasksCnt ≠ tpoolMaxTasks) (unborn : r.instances r.nextInstance = none) :
    (r.push junk P t task c).Counted := by
  have new : (r.push junk P t task c).poolOf r.nextInstance = some (some P) :=
    Records.poolOf_some.mpr ⟨_, if_pos rfl, rfl⟩
  have old : ∀ p, p ≠ r.nextInstance → (r.push junk P t task c).poolOf p = r.poolOf p :=
    fun p apart => congrArg _ (if_neg apart)
  have nowhere : r.poolOf r.nextInstance = none := by rw [poolOf, unborn, Option.map_none]
  intro Q d live'
  by_cases here : Q = P
  · subst here
    cases (if_pos rfl).symm.trans live'
    obtain ⟨l, nodup, mem, count, bound⟩ := counted Q c live
    refine ⟨r.nextInstance :: l, ?_, ?_, ?_, ?_⟩
    · refine List.nodup_cons.mpr ⟨fun inside => ?_, nodup⟩
      rw [mem, nowhere] at inside
      cases inside
    · intro p
      rw [List.mem_cons]
      by_cases same : p = r.nextInstance
      · rw [same, new]
        simp
      · rw [old p same, mem]
        simp [same]
    · show c.tasksCnt + 1 = ((l.length + 1 : Nat) : Int)
      omega
    · show c.tasksCnt + 1 ≤ tpoolMaxTasks
      omega
  · obtain ⟨l, nodup, mem, count, bound⟩ := counted Q d ((if_neg here).symm.trans live')
    refine ⟨l, nodup, fun p => ?_, count, bound⟩
    rw [mem]
    by_cases same : p = r.nextInstance
    · rw [same, new, nowhere]
      simp [Ne.symm here]
    · rw [old p same]

/-- Instances of one pool are released, and their number is subtracted in that pool. -/
theorem release (counted : r.Counted) {task : ThreadTask} (nodup : task.list.Nodup)
    (share : ∀ p ∈ task.list, ∃ f, r.instances p = some f ∧ f.pool = r.newestPool task) :
    (r.release t task).Counted := by
  have gone : ∀ p ∈ task.list, (r.release t task).poolOf p = none :=
    fun p mem => congrArg (Option.map Fields.pool) (if_pos mem)
  have kept : ∀ p, p ∉ task.list → (r.release t task).poolOf p = r.poolOf p :=
    fun p outside => congrArg _ (if_neg outside)
  intro Q d live'
  simp only [Records.release] at live'
  split at live'
  · next newest =>
    obtain ⟨c, live, rfl⟩ := Option.map_eq_some_iff.mp live'
    obtain ⟨l, distinct, mem, count, bound⟩ := counted Q c live
    have inside : ∀ p ∈ task.list, p ∈ l := by
      intro p listed
      obtain ⟨f, found, pool⟩ := share p listed
      exact (mem p).mpr (Records.poolOf_some.mpr ⟨f, found, pool.trans newest⟩)
    have fewer := length_filter_add distinct nodup inside
    refine ⟨l.filter fun p => p ∉ task.list, distinct.filter _, fun p => ?_, ?_, ?_⟩
    · rw [List.mem_filter, mem]
      by_cases listed : p ∈ task.list
      · simp [gone p listed, listed]
      · simp [kept p listed, listed]
    · show c.tasksCnt - task.list.length = _
      omega
    · show c.tasksCnt - task.list.length ≤ _
      omega
  · next elsewhere =>
    obtain ⟨l, distinct, mem, count, bound⟩ := counted Q d live'
    refine ⟨l, distinct, fun p => ?_, count, bound⟩
    rw [mem]
    by_cases listed : p ∈ task.list
    · obtain ⟨f, found, pool⟩ := share p listed
      rw [gone p listed, Records.poolOf_some]
      constructor
      · rintro ⟨g, found', pool'⟩
        cases found.symm.trans found'
        exact absurd (pool.symm.trans pool') elsewhere
      · intro none
        cases none
    · rw [kept p listed]

end Records.Counted

theorem Records.Deletes.counted {ret : Int} (deletes : r.Deletes t ret r') (counted : r.Counted)
    (distinct : ∀ task, r.tasks t = some task → task.list.Nodup)
    (share : r.allOf t Fields.deletable = true → r.sharePool t = true) : r'.Counted := by
  rcases deletes.result with ⟨all, -, task, live, rfl⟩ | ⟨-, -, rfl⟩
  · obtain ⟨task', live', pools⟩ := Records.sharePool_iff.mp (share all)
    cases live.symm.trans live'
    exact counted.release (distinct task live) pools
  · exact counted

theorem Records.Counted.complete (counted : r.Counted) {f : Fields} (found : r.instances p = some f)
    (live : r.pools P = some c) : (r.complete P p f c).Counted := by
  have finished : (r.setInstance p (some { f with isFinished := true, isRunning := false })).Counted :=
    counted.setInstance found rfl
  have live' : (r.setInstance p (some { f with isFinished := true, isRunning := false })).pools P = some c := live
  exact finished.setPool live' rfl

theorem Shape.deletion_counted {action : Action} (at_t : s.deletion action = some (t, r)) (counted : s.records.Counted) :
    r.Counted := by
  rcases Shape.deletion_cases at_t with ⟨-, -, -, -, -, -, rfl⟩ | ⟨-, -, p, -, f, -, -, found, -, rfl⟩ |
    ⟨-, -, -, P, p, f, c, -, -, found, live, -, -, rfl⟩
  · exact counted
  · exact counted.setInstance found rfl
  · exact counted.complete found live

theorem Change.counted (change : Change junk first s label s') (owned : Owned s.records)
    (allocated : ∀ p P, s.records.poolOf p = some (some P) → P < s.records.nextPool)
    (share : ∀ t r, s.deletion label.1 = some (t, r) → r.allOf t Fields.deletable = true → r.sharePool t = true)
    (counted : s.records.Counted) : s'.records.Counted := by
  have unborn : s.records.instances s.records.nextInstance = none := by
    cases found : s.records.instances s.records.nextInstance with
    | none => rfl
    | some f => exact absurd (owned.born _ f found).1 (Nat.lt_irrefl _)
  cases at_t : s.deletion label.1 with
  | some deletion =>
    obtain ⟨t, r⟩ := deletion
    obtain ⟨ret, deletes⟩ := change.deletes at_t
    have tasks := (Shape.deletion_later at_t).2.1
    have counted' : r.Counted := Shape.deletion_counted at_t counted
    exact deletes.counted counted' (fun task live => owned.nodup t task (tasks ▸ live)) (share t r at_t)
  | none =>
    cases change with
    | call idle does =>
      rw [Shape.receive_records]
      cases does with
      | pushed live room found => exact counted.push junk _ live room unborn
      | closed live empty => exact counted.setPool live rfl
      | poolCreated =>
        exact counted.addPool rfl fun p at_p => Nat.lt_irrefl _ (allocated p _ at_p)
      | taskCreated => exact counted.keep (fun P c live => ⟨c, live, rfl⟩) rfl
      | poolRefused | counted | hasTasks | tooMany | lookedUp | notPushed | unpushed => exact counted
    | proceed here does =>
      simp only [Shape.deletion, here] at at_t
      cases does with
      | deleted => cases at_t
      | released found finished => simp [found, finished] at at_t
      | detached found | blocked joins found | joined joins found => exact counted.setInstance found rfl
      | freed => exact counted.keep (fun P c live => ⟨c, live, rfl⟩) rfl
      | destroyed => exact counted.dropPool
      | askedFinished | askedRunning | expired | timedOut | woken | waitsAgain | leaves => exact counted
    | @work w value woken worker turn r' here does wakes =>
      obtain ⟨P, pc⟩ := worker
      simp only [Shape.deletion, here] at at_t
      rw [Shape.receive_records]
      cases does with
      | released found live detached => simp [found, live, detached] at at_t
      | exited looking live => exact counted.setPool live rfl
      | @picked pc c p f looking live active first taken =>
        have active' : (s.records.setPool P (some { c with activeThreadsCnt := c.activeThreadsCnt + 1 })).Counted :=
          counted.setPool live rfl
        exact active'.setInstance taken rfl
      | stored found => exact counted.setInstance found rfl
      | completed found live => exact counted.complete found live
      | slept | called => exact counted

/-- `delete_task` releases no task with instances of several pools. -/
def Shape.releasesTogether (s : Shape) (action : Action) : Bool :=
  (s.deletion action).all fun (t, r) => !r.allOf t Fields.deletable || r.sharePool t

theorem Shape.releasesTogether_iff {action : Action} : s.releasesTogether action = true ↔
    ∀ t r, s.deletion action = some (t, r) → r.allOf t Fields.deletable = true → r.sharePool t = true := by
  rw [releasesTogether]
  cases s.deletion action with
  | none => simp
  | some deletion =>
    obtain ⟨t, r⟩ := deletion
    constructor
    · intro holds t' r' same all
      cases same
      simpa [all] using holds
    · intro holds
      cases all : r.allOf t Fields.deletable with
      | false => simp [all]
      | true => simpa [all] using holds t r rfl all

/-- A task is pushed to the pool of its unreleased instances, if there are any. -/
def Shape.pushesHome (s : Shape) : Action → Bool
  | .call _ (.poolPushTask P t) => s.records.allOf t fun f => f.pool == some P
  | _ => true

theorem Shape.deletion_sharePool {action : Action} (at_t : s.deletion action = some (t, r))
    (share : s.records.sharePool t = true) : r.sharePool t = true := by
  obtain ⟨-, tasks, instances⟩ := Shape.deletion_later at_t
  obtain ⟨task, live, all⟩ := Records.sharePool_iff.mp share
  have pool : ∀ p f', s.records.instances p = some f' → ∃ g, r.instances p = some g ∧ g.pool = f'.pool := by
    intro p f' found
    obtain ⟨g, found', later⟩ := instances p f' found
    exact ⟨g, found', later.pool⟩
  have newest : r.newestPool task = s.records.newestPool task := by
    rw [Records.newestPool, Records.newestPool]
    cases head : task.list.head? with
    | none => rfl
    | some p =>
      obtain ⟨f', found, -⟩ := all p (List.mem_of_head? head)
      obtain ⟨g, found', same⟩ := pool p f' found
      rw [Option.bind_some, Option.bind_some, found, found', Option.bind_some, Option.bind_some, same]
  refine Records.sharePool_iff.mpr ⟨task, tasks ▸ live, fun p mem => ?_⟩
  obtain ⟨f', found, home⟩ := all p mem
  obtain ⟨g, found', same⟩ := pool p f' found
  exact ⟨g, found', by rw [same, home, newest]⟩

theorem Records.Housed.together (housed : s.records.Housed) (owned : Owned s.records) {action : Action} :
    s.releasesTogether action = true := by
  rw [Shape.releasesTogether_iff]
  intro t r at_t all
  obtain ⟨later, tasks, -⟩ := Shape.deletion_later at_t
  obtain ⟨task, live, -⟩ := Records.allOf_iff.mp all
  have share := housed.sharePool owned (tasks ▸ live)
  exact Shape.deletion_sharePool at_t share

end

/-! ## Runs -/

variable {junk : Nat → Value} {s s' : System} {label : Action × Out}

/-- `delete_task` only releases tasks that were pushed to one pool. -/
def Together (s : System) (label : Action × Out) (_ : System) : Prop := s.shape.releasesTogether label.1 = true

instance : Decidable (Together s label s') := inferInstanceAs (Decidable (_ = _))

/-- Every task is pushed to a single pool. -/
def SinglePool (s : System) (label : Action × Out) (_ : System) : Prop := s.shape.pushesHome label.1 = true

instance : Decidable (SinglePool s label s') := inferInstanceAs (Decidable (_ = _))

/-- The lists of the pools are queues, and the counters are their lengths. -/
structure Orderly (s : System) : Prop where
  queued : s.heap.Queued
  counted : s.shape.records.Counted

theorem System.init_orderly (clients : Nat) : Orderly (System.init clients) := ⟨System.init_queued clients, nofun⟩

/-- The pool of an instance has been allocated. -/
theorem Orderly.known (orderly : Orderly s) {p P : Nat} {f : Fields} (found : s.shape.records.instances p = some f)
    (pool : f.pool = some P) : P < s.shape.records.nextPool := by
  obtain ⟨q, queued⟩ := orderly.queued
  refine queued.known p P f.place.2 ?_
  show (s.shape.records.instances p).map Fields.place = _
  rw [found, Option.map_some, Fields.place, pool]

theorem Step.orderly (step : Step junk s label s') (sound : Sound s.shape) (orderly : Orderly s)
    (together : s.shape.releasesTogether label.1 = true) : Orderly s' := by
  have share := Shape.releasesTogether_iff.mp together
  constructor
  · apply step.queued sound _ orderly.queued
    intro p q f g at_p at_q gone_p gone_q
    exact step.change.together sound.owned share at_p at_q gone_p gone_q
  · apply step.change.counted sound.owned _ share orderly.counted
    intro p P at_p
    obtain ⟨f, found, pool⟩ := Records.poolOf_some.mp at_p
    exact orderly.known found pool

theorem reachable_orderly {cond : System → Action × Out → System → Prop} {clients : Nat}
    (together : ∀ s label s', cond s label s' → Together s label s')
    (reachable : Reachable (StepWhen junk cond) (System.init clients) s) : Orderly s := by
  apply reachable_invariant reachable
  · exact System.init_orderly clients
  · intro s label s' sound orderly step
    exact step.1.orderly sound orderly (together s label s' step.2)

/-- If every task is pushed to one pool, its instances have one pool. -/
theorem reachable_single {cond : System → Action × Out → System → Prop} {clients : Nat}
    (single : ∀ s label s', cond s label s' → SinglePool s label s')
    (reachable : Reachable (StepWhen junk cond) (System.init clients) s) : s.shape.records.Housed ∧ Orderly s := by
  apply reachable_invariant reachable
  · refine ⟨?_, System.init_orderly clients⟩
    intro p q f g task found
    cases found
  · intro s label s' sound inv step
    have home := single s label s' step.2
    constructor
    · apply step.1.change.housed sound inv.1
      intro c P t at_label
      rw [SinglePool, at_label] at home
      exact home
    · exact step.1.orderly sound inv.2 (inv.1.together sound.owned)

/-! ## The statements -/

/-- The list of a pool: its pending instances, then those that workers have taken, all
    unreleased instances of the pool and no others. -/
structure Listed (s : System) (P : Nat) (pool : ThreadPool) (waiting begun : List Nat) : Prop where
  list : DList s.heap.links.next s.heap.links.prev pool.task (waiting ++ begun)
  last : pool.lastTask = (waiting ++ begun).getLast?
  inverse : ∀ a ∈ waiting ++ begun, ∀ b ∈ waiting ++ begun,
    s.heap.links.next a = some b ↔ s.heap.links.prev b = some a
  nodup : (waiting ++ begun).Nodup
  instances : ∀ p, p ∈ waiting ++ begun ↔ ∃ i, s.heap.tpTasks.cell p = some i ∧ i.pool = some P
  pending : ∀ p ∈ waiting, ∀ i, s.heap.tpTasks.cell p = some i → i.isRunning = false ∧ i.isFinished = false
  taken : ∀ p ∈ begun, ∀ i, s.heap.tpTasks.cell p = some i → i.isRunning = true ∨ i.isFinished = true
  count : pool.tasksCnt = (waiting ++ begun).length
  bounded : 0 ≤ pool.tasksCnt ∧ pool.tasksCnt ≤ tpoolMaxTasks
  empty : (pool.task = none ↔ pool.tasksCnt = 0) ∧ (pool.lastTask = none ↔ pool.tasksCnt = 0)
  /-- `get_task` finds a pending instance if there is one, and it is the first one of the list. -/
  found : (getTask P).Ensures s.heap fun found h => found = waiting.head? ∧ h = s.heap
  front : ∀ p, waiting.head? = some p → pool.task = some p

theorem Orderly.listed (orderly : Orderly s) {P : Nat} {pool : ThreadPool} (live : s.heap.pools.cell P = some pool) :
    ∃ waiting begun, Listed s P pool waiting begun := by
  obtain ⟨q, queued⟩ := orderly.queued
  have counters : s.heap.records.pools P = some pool.counters := records_pool live
  have line := queued.line P _ counters
  have list : DList s.heap.links.next s.heap.links.prev pool.task (q P).tasks := by
    rw [← (links_pool live).1]
    exact line.list
  have last : pool.lastTask = (q P).tasks.getLast? := by
    rw [← (links_pool live).2]
    exact line.last
  have instances : ∀ p, p ∈ (q P).tasks ↔ ∃ i, s.heap.tpTasks.cell p = some i ∧ i.pool = some P := by
    intro p
    rw [queued.mem_tasks counters]
    constructor
    · rintro ⟨b, at_p⟩
      obtain ⟨f, found, place⟩ := Option.map_eq_some_iff.mp at_p
      obtain ⟨i, live, rfl⟩ := Option.map_eq_some_iff.mp found
      exact ⟨i, live, congrArg Prod.fst place⟩
    · rintro ⟨i, live, pool⟩
      exact ⟨_, by rw [place_live live, pool]⟩
  obtain ⟨l, nodup, mem, count, bound⟩ := orderly.counted P _ counters
  have same : l.length = (q P).tasks.length := by
    refine ((List.perm_ext_iff_of_nodup nodup list.nodup).mpr fun p => ?_).length_eq
    rw [mem, instances, Records.poolOf_some]
    constructor
    · rintro ⟨f, found, pool⟩
      obtain ⟨i, live, rfl⟩ := System.object found
      exact ⟨i, live, pool⟩
    · rintro ⟨i, live, pool⟩
      exact ⟨i.fields, System.record live, pool⟩
  have count' : pool.tasksCnt = (q P).tasks.length := by rw [← same]; exact count
  refine ⟨(q P).waiting, (q P).begun, list, last, ?_, list.nodup, instances, ?_, ?_, count', ?_, ?_,
    queued.getTask_returns live, ?_⟩
  · exact fun a mem_a b mem_b => list.next_iff_prev mem_a mem_b
  · intro p mem i live
    have at_p := (queued.waiting P _ counters p).mp mem
    rw [place_live live, Option.some.injEq, Prod.mk.injEq] at at_p
    simpa using at_p.2
  · intro p mem i live
    have at_p := (queued.begun P _ counters p).mp mem
    rw [place_live live, Option.some.injEq, Prod.mk.injEq] at at_p
    cases running : i.isRunning <;> cases finished : i.isFinished <;> simp_all
  · exact ⟨by omega, bound⟩
  · have head := list.chain.head_eq
    rw [head, last, List.head?_eq_none_iff, List.getLast?_eq_none_iff, count', Int.natCast_eq_zero, List.length_eq_zero_iff]
    exact ⟨Iff.rfl, Iff.rfl⟩
  · intro p first
    rw [list.chain.head_eq, Queue.tasks, List.head?_append, first]
    rfl

end SysprogLabs.Tpool
