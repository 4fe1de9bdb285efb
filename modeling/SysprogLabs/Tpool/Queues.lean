import SysprogLabs.Tpool.Lines
import SysprogLabs.Tpool.Relinking
import SysprogLabs.Tpool.Runs

/-! # The queues of the pools

A pool is a queue: instances nobody has taken yet, newest first, and behind them those
that were taken, in the order of their pickups.  `Queued` says that the lists in the heap
are these queues; a pickup then always takes the first instance of the list.
-/

namespace SysprogLabs.Tpool

open Prog

variable {junk : Nat → Value}

structure Queue where
  waiting : List Nat
  begun : List Nat

namespace Queue

def tasks (q : Queue) : List Nat := q.waiting ++ q.begun

def push (q : Queue) (p : Nat) : Queue := { q with waiting := p :: q.waiting }

/-- The first waiting instance is taken. -/
def pick (q : Queue) : Queue := { waiting := q.waiting.tail, begun := q.begun ++ q.waiting.head?.toList }

def remove (q : Queue) (p : Nat) : Queue where
  waiting := q.waiting.filter fun x => x ≠ p
  begun := q.begun.filter fun x => x ≠ p

end Queue

/-- The pool of an instance, and whether it is pending. -/
def Fields.place (f : Fields) : Ptr × Bool := (f.pool, !f.isRunning && !f.isFinished)

def Records.place (r : Records) (p : Nat) : Option (Ptr × Bool) := (r.instances p).map Fields.place

structure Queued (r : Records) (k : Links) (q : Nat → Queue) : Prop where
  line : ∀ P c, r.pools P = some c → Line k P (q P).tasks
  waiting : ∀ P c, r.pools P = some c → ∀ p, p ∈ (q P).waiting ↔ r.place p = some (some P, true)
  begun : ∀ P c, r.pools P = some c → ∀ p, p ∈ (q P).begun ↔ r.place p = some (some P, false)
  known : ∀ p P b, r.place p = some (some P, b) → P < r.nextPool

namespace Queued

variable {r r' : Records} {k k' : Links} {q : Nat → Queue} {P Q p : Nat} {c : Counters}

theorem mem_tasks (queued : Queued r k q) (live : r.pools P = some c) :
    p ∈ (q P).tasks ↔ ∃ b, r.place p = some (some P, b) := by
  rw [Queue.tasks, List.mem_append, queued.waiting P c live, queued.begun P c live, Bool.exists_bool, or_comm]

/-- The lists of two pools have no instance in common. -/
theorem apart (queued : Queued r k q) {d : Counters} (liveP : r.pools P = some c) (liveQ : r.pools Q = some d)
    (ne : Q ≠ P) : ∀ x ∈ (q P).tasks, x ∉ (q Q).tasks := by
  intro x memP memQ
  obtain ⟨_, atP⟩ := (queued.mem_tasks liveP).mp memP
  obtain ⟨_, atQ⟩ := (queued.mem_tasks liveQ).mp memQ
  rw [atP, Option.some.injEq, Prod.mk.injEq, Option.some.injEq] at atQ
  exact ne atQ.1.symm

/-- Neither the places nor the links change; pools may be released. -/
theorem keep (queued : Queued r k q) (place : r'.place = r.place)
    (pools : ∀ P c', r'.pools P = some c' → ∃ c, r.pools P = some c) (next : r.nextPool ≤ r'.nextPool) :
    Queued r' k q where
  line P c' live := by
    obtain ⟨c, live⟩ := pools P c' live
    exact queued.line P c live
  waiting P c' live := by
    obtain ⟨c, live⟩ := pools P c' live
    rw [place]
    exact queued.waiting P c live
  begun P c' live := by
    obtain ⟨c, live⟩ := pools P c' live
    rw [place]
    exact queued.begun P c live
  known p P b at_p := Nat.lt_of_lt_of_le (queued.known p P b (place ▸ at_p)) next

/-- A new pool is empty. -/
theorem addPool (queued : Queued r k q) (task : k.task r.nextPool = none)
    (lastTask : k.lastTask r.nextPool = none) :
    Queued (r.addPool c) k (Function.update q r.nextPool ⟨[], []⟩) := by
  have pools : ∀ P d, (r.addPool c).pools P = some d → P = r.nextPool ∨ (P ≠ r.nextPool ∧ r.pools P = some d) := by
    intro P d live
    by_cases new : P = r.nextPool
    · exact .inl new
    · exact .inr ⟨new, (if_neg new).symm.trans live⟩
  have nobody : ∀ p b, r.place p ≠ some (some r.nextPool, b) :=
    fun p b at_p => Nat.lt_irrefl _ (queued.known p _ b at_p)
  constructor
  · intro P d live
    cases pools P d live with
    | inl new =>
      subst new
      rw [Function.update_self]
      exact ⟨⟨task, .nil, nofun⟩, lastTask⟩
    | inr old =>
      rw [Function.update_of_ne old.1]
      exact queued.line P d old.2
  · intro P d live p
    cases pools P d live with
    | inl new =>
      subst new
      rw [Function.update_self]
      exact ⟨nofun, fun at_p => absurd at_p (nobody p _)⟩
    | inr old =>
      rw [Function.update_of_ne old.1]
      exact queued.waiting P d old.2 p
  · intro P d live p
    cases pools P d live with
    | inl new =>
      subst new
      rw [Function.update_self]
      exact ⟨nofun, fun at_p => absurd at_p (nobody p _)⟩
    | inr old =>
      rw [Function.update_of_ne old.1]
      exact queued.begun P d old.2 p
  · intro p P b at_p
    exact Nat.lt_succ_of_lt (queued.known p P b at_p)

/-- The pool of the changed place gets a new queue, and the others keep theirs. -/
theorem update (queued : Queued r k q) {q' : Queue} (bound : P < r.nextPool)
    (pools : ∀ Q d', r'.pools Q = some d' → ∃ d, r.pools Q = some d) (next : r.nextPool ≤ r'.nextPool)
    (line : Line k' P q'.tasks) (waiting : ∀ x, x ∈ q'.waiting ↔ r'.place x = some (some P, true))
    (begun : ∀ x, x ∈ q'.begun ↔ r'.place x = some (some P, false))
    (others : ∀ Q d, Q ≠ P → r.pools Q = some d → Line k' Q (q Q).tasks)
    (places : ∀ x Q b, Q ≠ P → (r'.place x = some (some Q, b) ↔ r.place x = some (some Q, b))) :
    Queued r' k' (Function.update q P q') where
  line Q d' live' := by
    by_cases here : Q = P
    · subst here
      rw [Function.update_self]
      exact line
    · obtain ⟨d, liveQ⟩ := pools Q d' live'
      rw [Function.update_of_ne here]
      exact others Q d here liveQ
  waiting Q d' live' x := by
    by_cases here : Q = P
    · subst here
      rw [Function.update_self]
      exact waiting x
    · obtain ⟨d, liveQ⟩ := pools Q d' live'
      rw [Function.update_of_ne here, places x Q true here]
      exact queued.waiting Q d liveQ x
  begun Q d' live' x := by
    by_cases here : Q = P
    · subst here
      rw [Function.update_self]
      exact begun x
    · obtain ⟨d, liveQ⟩ := pools Q d' live'
      rw [Function.update_of_ne here, places x Q false here]
      exact queued.begun Q d liveQ x
  known x Q b at_x := by
    by_cases here : Q = P
    · subst here
      exact Nat.lt_of_lt_of_le bound next
    · exact Nat.lt_of_lt_of_le (queued.known x Q b ((places x Q b here).mp at_x)) next

theorem place_push {t : Nat} {task : ThreadTask} (x : Nat) : (r.push junk P t task c).place x =
    if x = r.nextInstance then some (some P, true) else r.place x :=
  apply_ite (Option.map Fields.place) _ _ _

theorem place_setInstance {f : Option Fields} (x : Nat) :
    (r.setInstance p f).place x = if x = p then f.map Fields.place else r.place x :=
  apply_ite (Option.map Fields.place) _ _ _

/-- A new instance is the first one that waits. -/
theorem push (queued : Queued r k q) {t : Nat} {task : ThreadTask} (live : r.pools P = some c)
    (bound : P < r.nextPool) (unborn : r.instances r.nextInstance = none) (fresh : k.fresh = r.nextInstance)
    (free : k.prev k.fresh = none) :
    Queued (r.push junk P t task c) (k.push P) (Function.update q P ((q P).push r.nextInstance)) := by
  have nowhere : ∀ b Q, r.place r.nextInstance ≠ some (some Q, b) := by
    intro b Q at_new
    rw [Records.place, unborn] at at_new
    cases at_new
  have outside : ∀ Q d, r.pools Q = some d → k.fresh ∉ (q Q).tasks := by
    intro Q d liveQ mem
    obtain ⟨b, at_new⟩ := (queued.mem_tasks liveQ).mp mem
    exact nowhere b Q (fresh ▸ at_new)
  apply queued.update bound
  · intro Q d' live'
    by_cases here : Q = P
    · exact ⟨c, here ▸ live⟩
    · exact ⟨d', (if_neg here).symm.trans live'⟩
  · exact Nat.le_refl _
  · rw [← fresh]
    exact (queued.line P c live).push (outside P c live) free
  · intro x
    rw [place_push, Queue.push, List.mem_cons]
    by_cases new : x = r.nextInstance
    · simp [new]
    · rw [if_neg new, queued.waiting P c live]
      simp [new]
  · intro x
    rw [place_push, Queue.push, queued.begun P c live]
    by_cases new : x = r.nextInstance
    · simp [new, nowhere]
    · rw [if_neg new]
  · intro Q d ne liveQ
    refine (queued.line Q d liveQ).push_other ne (outside Q d liveQ) ?_
    intro x first
    have mem : x ∈ (q P).tasks := List.mem_of_head? ((queued.line P c live).task_eq.symm.trans first)
    exact queued.apart live liveQ ne x mem
  · intro x Q b ne
    rw [place_push]
    by_cases new : x = r.nextInstance
    · rw [if_pos new, new]
      simp [nowhere, Ne.symm ne]
    · rw [if_neg new]

/-- The first waiting instance goes to the end of the queue. -/
theorem pick (queued : Queued r k q) {rest : List Nat} (live : r.pools P = some c) (bound : P < r.nextPool)
    (first : (q P).waiting = p :: rest)
    (place : ∀ x, r'.place x = if x = p then some (some P, false) else r.place x)
    (pools : ∀ Q d', r'.pools Q = some d' → ∃ d, r.pools Q = some d) (next : r.nextPool ≤ r'.nextPool) :
    Queued r' (k.moveToEnd P p) (Function.update q P (q P).pick) := by
  have at_p : r.place p = some (some P, true) :=
    (queued.waiting P c live p).mp (first ▸ List.mem_cons_self)
  have line : Line k P (p :: (rest ++ (q P).begun)) := by
    have line := queued.line P c live
    rw [Queue.tasks, first] at line
    exact line
  have picked : (q P).pick = ⟨rest, (q P).begun ++ [p]⟩ := by
    rw [Queue.pick, first]
    rfl
  have once : p ∉ rest := by
    intro mem
    exact (List.nodup_cons.mp line.list.nodup).1 (List.mem_append_left _ mem)
  rw [picked]
  apply queued.update bound pools next
  · have moved := line.moveToEnd
    rw [List.append_assoc] at moved
    exact moved
  · intro x
    have before := queued.waiting P c live x
    rw [first, List.mem_cons] at before
    rw [place]
    by_cases here : x = p
    · simp [here, once]
    · rw [if_neg here, ← before]
      simp [here]
  · intro x
    have before := queued.begun P c live x
    rw [place, List.mem_append, List.mem_singleton]
    by_cases here : x = p
    · simp [here]
    · rw [if_neg here, ← before]
      simp [here]
  · intro Q d ne liveQ
    refine (queued.line Q d liveQ).moveToEnd_other line ne ?_
    intro x mem
    refine queued.apart live liveQ ne x ?_
    rw [Queue.tasks, first]
    exact mem
  · intro x Q b ne
    rw [place]
    by_cases here : x = p
    · rw [if_pos here, here, at_p]
      simp [Ne.symm ne]
    · rw [if_neg here]

theorem filter_ne {l₁ l₂ : List Nat} (nodup : (l₁ ++ p :: l₂).Nodup) :
    (l₁ ++ p :: l₂).filter (fun x => x ≠ p) = l₁ ++ l₂ := by
  rw [List.nodup_append, List.nodup_cons] at nodup
  obtain ⟨-, ⟨behind, -⟩, before⟩ := nodup
  rw [List.filter_append, List.filter_cons_of_neg (by simp)]
  congr 1
  · rw [List.filter_eq_self]
    intro x mem
    simpa using before x mem p List.mem_cons_self
  · rw [List.filter_eq_self]
    intro x mem
    simpa using fun same : x = p => behind (same ▸ mem)

/-- One instance is released. -/
theorem remove (queued : Queued r k q) {b : Bool} (live : r.pools P = some c) (bound : P < r.nextPool)
    (at_p : r.place p = some (some P, b)) :
    Queued (r.setInstance p none) (k.unlink P p) (Function.update q P ((q P).remove p)) := by
  have line := queued.line P c live
  obtain ⟨l₁, l₂, split⟩ := List.append_of_mem ((queued.mem_tasks live).mpr ⟨b, at_p⟩)
  rw [split] at line
  apply queued.update bound
  · exact fun Q d liveQ => ⟨d, liveQ⟩
  · exact Nat.le_refl _
  · have removed : ((q P).remove p).tasks = l₁ ++ l₂ := by
      rw [Queue.tasks, Queue.remove, ← List.filter_append, ← Queue.tasks, split]
      exact filter_ne line.list.nodup
    rw [removed]
    exact line.unlink
  · intro x
    rw [place_setInstance, Queue.remove, List.mem_filter, queued.waiting P c live]
    by_cases here : x = p
    · simp [here]
    · simp [here]
  · intro x
    rw [place_setInstance, Queue.remove, List.mem_filter, queued.begun P c live]
    by_cases here : x = p
    · simp [here]
    · simp [here]
  · intro Q d ne liveQ
    refine (queued.line Q d liveQ).unlink_other line ne ?_
    intro x mem
    exact queued.apart live liveQ ne x (split ▸ mem)
  · intro x Q b' ne
    rw [place_setInstance]
    by_cases here : x = p
    · rw [if_pos here, here, at_p]
      simp [Ne.symm ne]
    · rw [if_neg here]

/-- All instances of a task are released, one after the other. -/
theorem removeAll (queued : Queued r k q) {list : List Nat} (live : r.pools P = some c) (bound : P < r.nextPool)
    (nodup : list.Nodup) (uniform : ∀ p ∈ list, ∃ b, r.place p = some (some P, b)) :
    ∃ q', Queued { r with instances := fun p => if p ∈ list then none else r.instances p }
      (k.unlinkAll P list) q' := by
  induction list generalizing r k q with
  | nil =>
    have same : { r with instances := fun p => if p ∈ [] then none else r.instances p } = r := by simp
    rw [same]
    exact ⟨q, queued⟩
  | cons p list ih =>
    obtain ⟨b, at_p⟩ := uniform p List.mem_cons_self
    obtain ⟨outside, rest⟩ := List.nodup_cons.mp nodup
    obtain ⟨q', later⟩ := ih (queued.remove live bound at_p) live bound rest (by
      intro x mem
      have apart : x ≠ p := fun same => outside (same ▸ mem)
      rw [place_setInstance, if_neg apart]
      exact uniform x (List.mem_cons_of_mem p mem))
    refine ⟨q', ?_⟩
    have same : (fun x => if x ∈ list then none else (r.setInstance p none).instances x) =
        fun x => if x ∈ p :: list then none else r.instances x := by
      funext x
      by_cases inside : x ∈ list
      · rw [if_pos inside, if_pos (List.mem_cons_of_mem p inside)]
      · by_cases here : x = p
        · rw [if_neg inside, here, Records.setInstance_found, if_pos List.mem_cons_self]
        · rw [if_neg inside, if_neg (by simp [inside, here])]
          exact if_neg here
    rw [← same]
    exact later

end Queued

/-! ## `get_task` -/

section

variable {h : Heap} {q : Nat → Queue} {P : Nat}

theorem place_live {p : Nat} {i : ThreadPoolTask} (live : h.tpTasks.cell p = some i) :
    h.records.place p = some (i.pool, !i.isRunning && !i.isFinished) := by
  rw [Records.place, records_instance live]
  rfl

/-- The loop of `get_task` finds the first pending instance of what is left of the list. -/
theorem getTask_loop {rest : List Nat} {cursor : Ptr} (chain : Chain h.links.next cursor rest)
    (inside : ∀ x ∈ rest, ∃ b, h.records.place x = some (some P, b)) :
    (Prog.loop (fun task => match task with
      | none => return .done none
      | some _ => do
        let t ← tpTaskHeap.load task
        if t.isRunning || t.isFinished then return .again t.next else return .done task) cursor).Ensures h
      fun found h' => found = rest.find? (fun x => h.records.place x = some (some P, true)) ∧ h' = h := by
  induction rest generalizing cursor with
  | nil =>
    obtain rfl : cursor = none := chain
    rw [ensures_loop, ensures_pure]
    exact ⟨rfl, rfl⟩
  | cons p rest ih =>
    obtain ⟨rfl, chain⟩ := chain
    obtain ⟨b, at_p⟩ := inside p List.mem_cons_self
    obtain ⟨f, found, -⟩ := Option.map_eq_some_iff.mp at_p
    obtain ⟨i, live, -⟩ := Option.map_eq_some_iff.mp found
    rw [place_live live, Option.some.injEq, Prod.mk.injEq] at at_p
    rw [ensures_loop, ensures_bind, Lens.ensures_load]
    refine ⟨p, rfl, i, live, ?_⟩
    by_cases taken : (i.isRunning || i.isFinished) = true
    · rw [if_pos taken, ensures_pure]
      have started : ¬ h.records.place p = some (some P, true) := by
        rw [place_live live]
        cases running : i.isRunning <;> cases finished : i.isFinished <;> simp_all
      rw [List.find?_cons_of_neg (by simpa using started)]
      apply ih
      · rw [← (links_tpTask live).1]
        exact chain
      · exact fun x mem => inside x (List.mem_cons_of_mem p mem)
    · rw [if_neg taken, ensures_pure]
      have pending : h.records.place p = some (some P, true) := by
        rw [place_live live, at_p.1]
        cases running : i.isRunning <;> cases finished : i.isFinished <;> simp_all
      rw [List.find?_cons_of_pos (by simpa using pending)]
      exact ⟨rfl, rfl⟩

/-- `get_task` returns the first waiting instance. -/
theorem Queued.getTask_returns (queued : Queued h.records h.links q) {pool : ThreadPool}
    (live : h.pools.cell P = some pool) :
    (getTask P).Ensures h fun found h' => found = (q P).waiting.head? ∧ h' = h := by
  have counters : h.records.pools P = some pool.counters := records_pool live
  have line := queued.line P _ counters
  have waiting := queued.waiting P _ counters
  have begun := queued.begun P _ counters
  have first : (q P).tasks.find? (fun x => h.records.place x = some (some P, true)) = (q P).waiting.head? := by
    rw [Queue.tasks, List.find?_append]
    have none : (q P).begun.find? (fun x => h.records.place x = some (some P, true)) = none := by
      rw [List.find?_eq_none]
      intro x mem
      rw [(begun x).mp mem]
      simp
    rw [none, Option.or_none]
    cases shape : (q P).waiting with
    | nil => rfl
    | cons p rest =>
      rw [List.find?_cons_of_pos]
      · rfl
      · simpa using (waiting p).mp (shape ▸ List.mem_cons_self)
  rw [SysprogLabs.Tpool.getTask, ensures_bind, Lens.ensures_load]
  refine ⟨P, rfl, pool, live, ?_⟩
  rw [← first]
  apply getTask_loop
  · rw [← (links_pool live).1]
    exact line.list.chain
  · exact fun x mem => (queued.mem_tasks counters).mp mem

theorem Queued.getTask (queued : Queued h.records h.links q) : (getTask P).Yields h fun found _ =>
    found = (q P).waiting.head? := by
  have lives : (SysprogLabs.Tpool.getTask P).Yields h fun _ _ => ∃ pool, h.pools.cell P = some pool := by
    rw [SysprogLabs.Tpool.getTask, yields_bind, Lens.yields_load]
    intro P' at_P pool live _ _ _
    cases at_P
    exact ⟨pool, live⟩
  intro found h' returned
  obtain ⟨pool, live⟩ := lives found h' returned
  exact ((queued.getTask_returns live).of_returns returned).1

end

/-! ## Every step keeps the queues -/

/-- The lists in the heap are queues. -/
def Heap.Queued (h : Heap) : Prop := ∃ q, Tpool.Queued h.records h.links q

section

variable {h h₁ h' : Heap} {r r' : Records} {k : Links} {q : Nat → Queue} {p P t : Nat} {c : Counters} {f f' : Fields}

theorem place_kept (found : r.instances p = some f) (same : f'.place = f.place) :
    (r.setInstance p (some f')).place = r.place := by
  funext x
  rw [Queued.place_setInstance]
  by_cases here : x = p
  · rw [if_pos here, here, Records.place, found, Option.map_some, Option.map_some, same]
  · rw [if_neg here]

theorem Queued.setInstance (queued : Queued r k q) (found : r.instances p = some f) (same : f'.place = f.place) :
    Queued (r.setInstance p (some f')) k q :=
  queued.keep (place_kept found same) (fun _ c live => ⟨c, live⟩) (Nat.le_refl _)

theorem Queued.setPool (queued : Queued r k q) (live : r.pools P = some c) {c' : Counters} :
    Queued (r.setPool P (some c')) k q := by
  have same : (r.setPool P (some c')).place = r.place := rfl
  apply queued.keep same
  · intro Q d live'
    by_cases here : Q = P
    · exact ⟨c, here ▸ live⟩
    · exact ⟨d, (if_neg here).symm.trans live'⟩
  · exact Nat.le_refl _

/-- A running instance is completed; it has left the waiting part long ago. -/
theorem place_complete (found : r.instances p = some f) (running : f.isRunning = true) :
    (r.complete P p f c).place = r.place := by
  have same : Fields.place { f with isFinished := true, isRunning := false } = f.place := by
    simp [Fields.place, running]
  exact place_kept found same

theorem Queued.complete (queued : Queued r k q) (found : r.instances p = some f) (live : r.pools P = some c)
    (running : f.isRunning = true) : Queued (r.complete P p f c) k q := by
  apply queued.keep (place_complete found running)
  · intro Q d live'
    by_cases here : Q = P
    · exact ⟨c, here ▸ live⟩
    · exact ⟨d, (if_neg here).symm.trans live'⟩
  · exact Nat.le_refl _

theorem Queued.dropPool (queued : Queued r k q) : Queued (r.setPool P none) (k.dropPool P) q := by
  have others : ∀ Q d, (r.setPool P none).pools Q = some d → Q ≠ P ∧ r.pools Q = some d := by
    intro Q d live
    by_cases here : Q = P
    · subst here
      cases (Records.setPool_found _).symm.trans live
    · exact ⟨here, (if_neg here).symm.trans live⟩
  constructor
  · intro Q d live
    obtain ⟨apart, live⟩ := others Q d live
    apply (queued.line Q d live).congr
    · exact fun _ _ => rfl
    · exact fun _ _ => rfl
    · exact Function.update_of_ne apart _ _
    · exact Function.update_of_ne apart _ _
  · exact fun Q d live => queued.waiting Q d (others Q d live).2
  · exact fun Q d live => queued.begun Q d (others Q d live).2
  · exact queued.known

/-- All instances that go from `h` to `h'` have the same pool. -/
def Heap.ReleasesUniformly (h h' : Heap) : Prop :=
  ∀ p q f g, h.records.instances p = some f → h.records.instances q = some g →
    h'.records.instances p = none → h'.records.instances q = none → f.pool = g.pool

theorem Heap.ReleasesUniformly.mono (uniform : h.ReleasesUniformly h') (place : h₁.records.place = h.records.place) :
    h₁.ReleasesUniformly h' := by
  have pool : ∀ x g, h₁.records.instances x = some g → ∃ g₀, h.records.instances x = some g₀ ∧ g₀.pool = g.pool := by
    intro x g at_x
    have both : h₁.records.place x = h.records.place x := congrFun place x
    rw [Records.place, Records.place, at_x] at both
    obtain ⟨g₀, found, same⟩ := Option.map_eq_some_iff.mp both.symm
    exact ⟨g₀, found, congrArg Prod.fst same⟩
  intro p q f g found found' gone gone'
  obtain ⟨f₀, old, same⟩ := pool p f found
  obtain ⟨g₀, old', same'⟩ := pool q g found'
  rw [← same, ← same']
  exact uniform p q f₀ g₀ old old' gone gone'

theorem deleteTask_queued {ret : Int} (queued : h.Queued) (owned : Owned h.records)
    (allocated : ∀ P c, h.records.pools P = some c → P < h.records.nextPool)
    (returned : (deleteTask t).Returns h ret h') (uniform : h.ReleasesUniformly h') : h'.Queued := by
  obtain ⟨q, queued⟩ := queued
  have deletes : h.records.Deletes t ret h'.records := deleteTask_yields h rfl ret h' returned
  have links := deleteTask_links ret h' returned
  rw [Heap.Queued]
  rw [Heap.ReleasesUniformly] at uniform
  generalize h'.records = r' at deletes uniform
  generalize h'.links = k' at links
  cases deletes with
  | refused live mem found kept =>
    cases links with
    | inl same => exact ⟨q, same.2 ▸ queued⟩
    | inr zero => exact absurd zero.1 (by decide)
  | @released task live all pool =>
    obtain ⟨same, -⟩ | ⟨-, task', P, live', newest, rfl⟩ := links
    · exact absurd rfl same
    cases live.symm.trans live'
    by_cases empty : task.list = []
    · rw [Records.release_empty empty, empty]
      exact ⟨q, queued.keep rfl (fun _ c live => ⟨c, live⟩) (Nat.le_refl _)⟩
    · obtain ⟨P', c, newest', livePool⟩ := pool empty
      cases (newest empty).symm.trans newest'
      -- The newest instance is one of those that are released, and its pool is `P`.
      obtain ⟨p₀, head, at_p₀⟩ := Option.bind_eq_some_iff.mp newest'
      obtain ⟨f₀, found₀, pool₀⟩ := Option.bind_eq_some_iff.mp at_p₀
      have dead : ∀ p ∈ task.list, (h.records.release t task).instances p = none := fun p mem => if_pos mem
      have inPool : ∀ p ∈ task.list, ∃ b, h.records.place p = some (some P, b) := by
        intro p mem
        obtain ⟨f, found, -⟩ := all p mem
        have same := uniform p p₀ f f₀ found found₀ (dead p mem) (dead p₀ (List.mem_of_head? head))
        refine ⟨f.place.2, ?_⟩
        rw [Records.place, found, Option.map_some, Fields.place, same, pool₀]
      obtain ⟨q', removed⟩ := queued.removeAll livePool (allocated P c livePool) (owned.nodup t task live) inPool
      refine ⟨q', removed.keep rfl ?_ (Nat.le_refl _)⟩
      intro Q d live'
      simp only [Records.release] at live'
      split at live'
      · obtain ⟨d₀, old, -⟩ := Option.map_eq_some_iff.mp live'
        exact ⟨d₀, old⟩
      · exact ⟨d, live'⟩

theorem workerPickUp_links (queued : Queued h.records h.links q) (live : h.records.pools P = some c) :
    (workerPickUp P).Yields h fun turn h' => h'.links = match turn.next with
      | .picked p => h.links.moveToEnd P p
      | _ => h.links := by
  rw [workerPickUp, yields_bind]
  intro found h₁ returned
  obtain ⟨rfl, -⟩ := getTask_yields found h₁ returned
  have first := queued.getTask found h₁ returned
  apply workerTake_links _ h₁ rfl
  intro p at_p
  rw [(queued.line P c live).task_eq, Queue.tasks, List.head?_append, ← first, at_p]
  rfl

end

/-- A worker that looks for a task finds the first waiting instance, or none. -/
theorem Queued.pickUp {s : System} {turn : Turn WorkerPc} {value : Value} {pc : WorkerPc} {P : Nat} {h' : Heap}
    {q : Nat → Queue} (queued : Queued s.heap.records s.heap.links q) (sound : Sound s.shape)
    (returned : (workerPickUp P).Returns s.heap turn h') (looking : pc.Looking)
    (does : Works s.heap.records (s.heap.first P) value P pc turn h'.records) : h'.Queued := by
  rw [Heap.Queued]
  have links : ∀ c, s.heap.records.pools P = some c → h'.links = match turn.next with
      | .picked p => s.heap.links.moveToEnd P p
      | _ => s.heap.links := fun c live => workerPickUp_links queued live turn h' returned
  generalize h'.records = r' at does
  cases does with
  | slept looking live active nothing =>
    rw [links _ live]
    exact ⟨q, queued⟩
  | exited looking live inactive =>
    rw [links _ live]
    exact ⟨q, queued.setPool live⟩
  | @picked pc c p f looking live active found taken pending =>
    rw [links _ live]
    have first := queued.getTask _ _ found
    obtain ⟨rest, shape⟩ := List.head?_eq_some_iff.mp first.symm
    refine ⟨_, queued.pick live (sound.staffed.allocated P c live) shape ?_ ?_ ?_⟩
    · intro x
      rw [Queued.place_setInstance]
      by_cases here : x = p
      · have inPool : s.heap.records.place p = some (some P, true) :=
          (queued.waiting P c live p).mp (shape ▸ List.mem_cons_self)
        rw [Records.place, taken, Option.map_some, Option.some.injEq, Fields.place, Prod.mk.injEq] at inPool
        rw [if_pos here, if_pos here, Option.map_some, Fields.place]
        simp [inPool.1]
      · rw [if_neg here, if_neg here]
        rfl
    · intro Q d live'
      by_cases here : Q = P
      · exact ⟨c, here ▸ live⟩
      · exact ⟨d, (if_neg here).symm.trans live'⟩
    · exact Nat.le_refl _
  | called | stored | completed | released => cases looking

theorem Step.queued_call {s s' : System} {c : Nat} {function : Call} {out : Out}
    (step : Step junk s (.call c function, out) s') (sound : Sound s.shape) (queued : s.heap.Queued) :
    s'.heap.Queued := by
  obtain ⟨q, queued⟩ := queued
  obtain ⟨turn, -, returned, -⟩ := Step.ofCall step
  have does : Calls junk s.heap.records function turn s'.heap.records :=
    Call.start_yields s.heap rfl turn s'.heap returned
  have links := makeCall_links s.heap rfl turn s'.heap returned
  beta_reduce at links
  rw [Heap.Queued]
  generalize s'.heap.records = r' at does
  generalize s'.heap.links = k' at links
  cases does with
  | @pushed P t c task live room found =>
    obtain ⟨P', t', same, -, rfl⟩ | ⟨refused, -⟩ := links
    · cases same
      refine ⟨_, queued.push live (sound.staffed.allocated P c live) ?_ rfl ?_⟩
      · exact Option.map_eq_none_iff.mpr s.heap.tpTasks.next_dead
      · show (s.heap.tpTasks.cell s.heap.tpTasks.next).bind _ = none
        rw [s.heap.tpTasks.next_dead]
        rfl
    · exact absurd rfl (refused P t rfl)
  | @poolCreated max good =>
    obtain ⟨P', t', same, -⟩ | ⟨-, rfl⟩ := links
    · cases same
    · refine ⟨_, queued.addPool ?_ ?_⟩
      · show (s.heap.pools.cell s.heap.pools.next).bind _ = none
        rw [s.heap.pools.next_dead]
        rfl
      · show (s.heap.pools.cell s.heap.pools.next).bind _ = none
        rw [s.heap.pools.next_dead]
        rfl
  | tooMany live full =>
    obtain ⟨P', t', -, success, -⟩ | ⟨-, rfl⟩ := links
    · cases success
    · exact ⟨q, queued⟩
  | closed live empty =>
    obtain ⟨P', t', same, -⟩ | ⟨-, rfl⟩ := links
    · cases same
    · exact ⟨q, queued.setPool live⟩
  | taskCreated =>
    obtain ⟨P', t', same, -⟩ | ⟨-, rfl⟩ := links
    · cases same
    · exact ⟨q, { queued with }⟩
  | poolRefused | counted | hasTasks | lookedUp | notPushed | unpushed =>
    obtain ⟨P', t', same, -⟩ | ⟨-, rfl⟩ := links
    · cases same
    · exact ⟨q, queued⟩

theorem Step.queued_proceed {s s' : System} {c : Nat} {wait : WaitResult} {out : Out}
    (step : Step junk s (.proceed c wait, out) s') (sound : Sound s.shape)
    (uniform : s.heap.ReleasesUniformly s'.heap) (queued : s.heap.Queued) : s'.heap.Queued := by
  obtain ⟨client, turn, -, returned, -⟩ := Step.ofProceed step
  have does : Proceeds s.heap.records wait client turn s'.heap.records :=
    Client.proceed_yields s.heap rfl turn s'.heap returned
  by_cases keeps : client.relinks = false
  · have links := Client.proceed_links keeps s.heap rfl turn s'.heap returned
    obtain ⟨q, queued⟩ := queued
    refine ⟨q, ?_⟩
    rw [links]
    generalize s'.heap.records = r' at does
    cases does with
    | blocked joins found unfinished => exact queued.setInstance found rfl
    | joined joins found finished => exact queued.setInstance found rfl
    | freed live => exact queued.keep rfl (fun _ c live => ⟨c, live⟩) (Nat.le_refl _)
    | askedFinished | askedRunning | expired | timedOut | woken | waitsAgain | leaves => exact queued
    | deleted | detached | released | destroyed => cases keeps
  · cases client with
    | idle | freeing | joining | deleting => exact absurd rfl keeps
    | destroying P =>
      have links := threadPoolDestroy_links s.heap rfl turn s'.heap returned
      obtain ⟨q, queued⟩ := queued
      refine ⟨q, ?_⟩
      rw [links]
      generalize s'.heap.records = r' at does
      cases does with
      | destroyed live => exact queued.dropPool
    | locking call t p ptr =>
      cases call with
      | isFinished | isRunning | join | timedJoin => exact absurd rfl keeps
      | delete =>
        obtain ⟨ret, deleted⟩ := threadTaskDelete_splits turn s'.heap returned
        exact deleteTask_queued queued sound.owned sound.staffed.allocated deleted uniform
      | detach =>
        obtain ⟨h₁, f, found, records, links, rest⟩ := threadTaskDetach_splits turn s'.heap returned
        have queued₁ : h₁.Queued := by
          obtain ⟨q, queued⟩ := queued
          refine ⟨q, ?_⟩
          rw [records, links]
          exact queued.setInstance found rfl
        cases rest with
        | inl same => exact same ▸ queued₁
        | inr deletes =>
          obtain ⟨ret, deleted⟩ := deletes
          refine deleteTask_queued queued₁ ?_ ?_ deleted ?_
          · rw [records]
            exact sound.owned.setInstance found rfl rfl rfl
          · rw [records]
            exact sound.staffed.allocated
          · apply uniform.mono
            rw [records]
            exact place_kept found rfl

theorem Step.queued_work {s s' : System} {w : Nat} {value : Value} {woken : List Nat} {out : Out}
    (step : Step junk s (.work w value woken, out) s') (sound : Sound s.shape)
    (uniform : s.heap.ReleasesUniformly s'.heap) (queued : s.heap.Queued) : s'.heap.Queued := by
  obtain ⟨⟨P, pc⟩, turn, here, returned, -⟩ := Step.ofWork step
  have does : Works s.heap.records (s.heap.first P) value P pc turn s'.heap.records :=
    Worker.proceed_yields turn s'.heap returned
  obtain ⟨q, queued⟩ := queued
  cases pc with
  | ready =>
    have looking : WorkerPc.Looking .ready := trivial
    exact queued.pickUp sound returned looking does
  | asleep notified =>
    have looking : WorkerPc.Looking (.asleep notified) := trivial
    exact queued.pickUp sound returned looking does
  | exited =>
    generalize s'.heap.records = r' at does
    cases does with
    | picked looking | slept looking | exited looking => cases looking
  | picked p =>
    have links := workerCall_links s.heap rfl turn s'.heap returned
    refine ⟨q, ?_⟩
    rw [links]
    generalize s'.heap.records = r' at does
    cases does with
    | picked looking | slept looking | exited looking => cases looking
    | called found live => exact queued
  | running call =>
    have links := workerStore_links s.heap rfl turn s'.heap returned
    refine ⟨q, ?_⟩
    rw [links]
    generalize s'.heap.records = r' at does
    cases does with
    | picked looking | slept looking | exited looking => cases looking
    | stored found => exact queued.setInstance found rfl
  | returned p =>
    obtain ⟨h₁, f, c, found, live, records, links, rest⟩ := workerComplete_splits turn s'.heap returned
    have on : duty s.workers w = some (.returned p) := duty_some.mpr ⟨_, here, rfl, rfl⟩
    have running := (sound.executing.running w _ p f on rfl found).1
    have queued₁ : h₁.Queued := by
      refine ⟨q, ?_⟩
      rw [records, links]
      exact queued.complete found live running
    cases rest with
    | inl same => exact same ▸ queued₁
    | inr deletes =>
      obtain ⟨ret, deleted⟩ := deletes
      refine deleteTask_queued queued₁ ?_ ?_ deleted ?_
      · rw [records]
        exact sound.owned.complete found
      · rw [records]
        intro Q d live'
        by_cases same : Q = P
        · exact same ▸ sound.staffed.allocated P c live
        · exact sound.staffed.allocated Q d ((if_neg same).symm.trans live')
      · apply uniform.mono
        rw [records]
        exact place_complete found running

theorem Step.queued {s s' : System} {label : Action × Out} (step : Step junk s label s') (sound : Sound s.shape)
    (uniform : s.heap.ReleasesUniformly s'.heap) (queued : s.heap.Queued) : s'.heap.Queued := by
  obtain ⟨action, out⟩ := label
  cases action with
  | call c function => exact step.queued_call sound queued
  | proceed c wait => exact step.queued_proceed sound uniform queued
  | work w value woken => exact step.queued_work sound uniform queued

theorem System.init_queued (clients : Nat) : (System.init clients).heap.Queued :=
  ⟨fun _ => ⟨[], []⟩, nofun, nofun, nofun, nofun⟩

end SysprogLabs.Tpool
