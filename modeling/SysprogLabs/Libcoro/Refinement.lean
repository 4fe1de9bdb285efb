import SysprogLabs.Libcoro.Lists
import SysprogLabs.Libcoro.Rounds

/-! # The library schedules round-robin

`Abstracts` relates the heap, the flags and the saved contexts to a `View`; every step of the code
is a step of the view with the same label (`Step.onView`), and inside of `coro_sched_wait` the code
always goes on (`goes_on`).
-/

namespace SysprogLabs.Libcoro

open Prog

variable {s s' : State} {v v' : View} {label : Label}

/-- The saved context goes on with `body`. -/
def Coro.Continues (x : Coro) (c : Nat) (body : Body) : Prop :=
  (x.ctx = some (.start c) ∧ x.func = body) ∨ x.ctx = some (.yielded c (.coro c) body)

/-- A coroutine in the heap and its task. -/
def State.Holds (s : State) (place : Place) (task : Nat × Option Body) : Prop :=
  ∃ x, s.coros.cell task.1 = some x ∧ match task.2 with
    | none => x.isFinished = true
    | some body => x.isFinished = false ∧ (place ≠ .inside task.1 → x.Continues task.1 body)

/-- The variables that say who runs. -/
def State.At (s : State) (v : View) : Prop :=
  match v.place with
  | .main => s.control = .main ∧ s.coroThisPtr = some .sched ∧ s.isSchedWaiting = false
  | .waiting => s.control = .waiting ∧ s.coroThisPtr = some .sched ∧ s.isSchedWaiting = false
  | .inside c => s.coroThisPtr = some (.coro c) ∧ s.isSchedWaiting = true ∧
      s.coroSched.ctx = some (.waiting .sched) ∧ ∃ body, (c, some body) ∈ v.tasks ∧ s.control = .body c body

structure Abstracts (s : State) (v : View) : Prop where
  inv : v.Inv
  listed : s.Listed (v.tasks.map Prod.fst)
  created : s.coros.next = v.created
  returned : s.returned = v.returned
  alone : s.coroSched.next = none
  holds : ∀ task ∈ v.tasks, s.Holds v.place task
  here : s.At v

theorem init_abstracts : Abstracts .init .init where
  inv := View.init_inv
  listed := ⟨⟨rfl, .nil, by simp [View.init]⟩, by simp [View.init]⟩
  created := rfl
  returned := rfl
  alone := rfl
  holds := by simp [View.init]
  here := ⟨rfl, rfl, rfl⟩

/-- As long as no task runs it does not matter where control is. -/
theorem State.Holds.outside {place place' : Place} {task : Nat × Option Body} (holds : s.Holds place task)
    (outside : ∀ c, place ≠ .inside c) : s.Holds place' task := by
  obtain ⟨x, live, holds⟩ := holds
  refine ⟨x, live, ?_⟩
  obtain ⟨c, body⟩ := task
  cases body with
  | none => exact holds
  | some body => exact ⟨holds.1, fun _ => holds.2 (outside c)⟩

/-! ## Creating a coroutine -/

theorem State.Relinks.holds (relinks : s.Relinks s') {place : Place} {task : Nat × Option Body}
    (holds : s.Holds place task) : s'.Holds place task := by
  obtain ⟨x, live, holds⟩ := holds
  obtain ⟨x', live', same⟩ := relinks.keeps live
  have fields := Coro.unlinked_fields same
  refine ⟨x', live', ?_⟩
  obtain ⟨c, body⟩ := task
  cases body with
  | none => exact fields.1.trans holds
  | some body =>
    refine ⟨fields.1.trans holds.1, fun outside => ?_⟩
    simp only [Coro.Continues, fields]
    exact holds.2 outside

/-- The new coroutine is in front of the list, and nothing else has changed. -/
structure State.Gains (s : State) (body : Body) (l : List Nat) (s' : State) : Prop where
  listed : s'.Listed (s.coros.next :: l)
  created : s'.coros.next = s.coros.next + 1
  fresh : ∀ place, s'.Holds place (s.coros.next, some body)
  old : ∀ place task, s.Holds place task → s'.Holds place task
  rest : s' = { s with coros := s'.coros, coroList := s'.coroList }

/-- Allocating does not touch the list. -/
theorem State.Listed.alloc {l : List Nat} (listed : s.Listed l) (x : Coro) :
    { s with coros := s.coros.alloc x }.Listed l := by
  have old : ∀ d ∈ l, d ≠ s.coros.next := by
    intro d mem
    obtain ⟨y, at_d⟩ := listed.live d mem
    exact Nat.ne_of_lt (Store.lt_next at_d)
  refine ⟨listed.list.congr (fun d mem => ?_) (fun d mem => ?_), fun d mem => ?_⟩
  · simp [State.nextOf, old d mem]
  · simp [State.prevOf, old d mem]
  · simpa [old d mem] using listed.live d mem

theorem coroNew_returns {body : Body} {l : List Nat} (listed : s.Listed l) :
    (coroNew body).Ensures s fun c s' => c = s.coros.next ∧ s.Gains body l s' := by
  let x : Coro := { ret := 0, func := body, ctx := some (.start s.coros.next), isFinished := false, switchCount := 0,
                    next := none, prev := none }
  simp only [coroNew, ensures_bind, Lens.ensures_malloc, ensures_read, setThis, ensures_update, this, id,
    ensures_require, modifyCoro, coroHeap_get, coroHeap_set, ensures_pure]
  refine ⟨_, rfl, ?_⟩
  simp only [Lens.ensures_modify, coroHeap_get, coroHeap_set]
  refine ⟨s.coros.next, rfl, _, by rw [Store.alloc_cell, if_pos rfl], ?_⟩
  rw [Store.alloc_put]
  have fresh : s.coros.next ∉ l := by
    intro mem
    obtain ⟨y, live⟩ := listed.live _ mem
    exact absurd (Store.lt_next live) (Nat.lt_irrefl _)
  have at_c : { s with coros := s.coros.alloc x }.coros.cell s.coros.next = some x := by simp
  refine (coroListAdd_returns (listed.alloc x) at_c fresh).mono fun _ s' added => ⟨trivial, ?_⟩
  obtain ⟨relinks, listed'⟩ := added
  refine ⟨listed', relinks.created, fun _ => relinks.holds ⟨x, at_c, rfl, fun _ => .inl ⟨rfl, rfl⟩⟩, ?_, ?_⟩
  · rintro place task ⟨y, live, holds⟩
    refine relinks.holds ⟨y, ?_, holds⟩
    rw [Store.alloc_cell, if_neg (Nat.ne_of_lt (Store.lt_next live)), live]
  · have rest := relinks.rest
    exact rest

/-- The new task in front, with the running one gone on. -/
theorem Abstracts.new (abstracts : Abstracts s v) {body : Body} (gains : s.Gains body (v.tasks.map Prod.fst) s')
    {tasks : List (Nat × Option Body)} (same : tasks.map Prod.fst = v.tasks.map Prod.fst) (control : Control)
    (holds : ∀ task ∈ tasks, s.Holds v.place task)
    (inv : View.Inv { v with tasks := (v.created, some body) :: tasks, created := v.created + 1 })
    (here : { s' with control := control }.At
      { v with tasks := (v.created, some body) :: tasks, created := v.created + 1 }) :
    Abstracts { s' with control := control }
      { v with tasks := (v.created, some body) :: tasks, created := v.created + 1 } where
  inv := inv
  listed := by
    have listed := gains.listed
    rw [abstracts.created] at listed
    rw [List.map_cons, same]
    exact ⟨listed.list, listed.live⟩
  created := by
    have created := gains.created
    rw [abstracts.created] at created
    exact created
  returned := by
    have returned : s'.returned = s.returned := by rw [gains.rest]
    exact returned.trans abstracts.returned
  alone := by
    have sched : s'.coroSched = s.coroSched := by rw [gains.rest]
    exact sched ▸ abstracts.alone
  holds task mem := by
    obtain rfl | mem := List.mem_cons.mp mem
    · have fresh := gains.fresh v.place
      rw [abstracts.created] at fresh
      exact fresh
    · exact gains.old v.place task (holds task mem)
  here := here

/-! ## Switching -/

/-- What a saved context of a coroutine goes on with. -/
theorem jump_continues {c : Nat} {body : Body} {x : Coro} {Q : Unit → State → Prop} (live : s.coros.cell c = some x)
    (continues : x.Continues c body)
    (holds : Q () { s with coroThisPtr := some (.coro c), control := .body c body }) :
    (jump (.coro c)).Ensures s Q := by
  simp only [jump, ensures_bind, loadCoro, Lens.ensures_load, coroHeap_get, ensures_require]
  refine ⟨c, rfl, x, live, ?_⟩
  obtain ⟨ctx, func⟩ | ctx := continues
  · refine ⟨_, ctx, ?_⟩
    simp only [resume, ensures_bind, setThis, ensures_update, loadCoro, Lens.ensures_load, coroHeap_get, goto]
    exact ⟨c, rfl, x, live, func ▸ holds⟩
  · refine ⟨_, ctx, ?_⟩
    simp only [resume, ensures_bind, setThis, ensures_update, goto]
    exact holds

/-- The context of the scheduler goes on in the loop of `coro_sched_wait`. -/
theorem jump_waiting {Q : Unit → State → Prop} (ctx : s.coroSched.ctx = some (.waiting .sched))
    (holds : Q () { s with coroThisPtr := some .sched, isSchedWaiting := false, control := .waiting }) :
    (jump .sched).Ensures s Q := by
  simp only [jump, ensures_bind, loadCoro, ensures_read, ensures_require]
  refine ⟨_, ctx, ?_⟩
  simp only [resume, ensures_bind, setThis, ensures_update, goto]
  exact holds

/-- Saving the context of the scheduler. -/
def State.saveSched (s : State) (ctx : Context) : State :=
  { s with coroSched := { s.coroSched with switchCount := s.coroSched.switchCount + 1, ctx := some ctx } }

theorem coroYieldTo_sched {save : Who → Context} {target : Who} {Q : Unit → State → Prop}
    (here : s.coroThisPtr = some .sched) (rest : (jump target).Ensures (s.saveSched (save .sched)) Q) :
    (coroYieldTo save target).Ensures s Q := by
  simp only [coroYieldTo, ensures_bind, this, ensures_read, id, ensures_require]
  refine ⟨.sched, here, ?_⟩
  simp only [modifyCoro, ensures_update]
  exact rest

/-- Saving the context of a coroutine. -/
def State.saveCoro (s : State) (c : Nat) (x : Coro) (ctx : Context) : State :=
  { s with coros := s.coros.put c { x with switchCount := x.switchCount + 1, ctx := some ctx } }

theorem coroYieldTo_coro {save : Who → Context} {target : Who} {c : Nat} {x : Coro} {Q : Unit → State → Prop}
    (here : s.coroThisPtr = some (.coro c)) (live : s.coros.cell c = some x)
    (rest : (jump target).Ensures (s.saveCoro c x (save (.coro c))) Q) : (coroYieldTo save target).Ensures s Q := by
  simp only [coroYieldTo, ensures_bind, this, ensures_read, id, ensures_require]
  refine ⟨.coro c, here, ?_⟩
  simp only [modifyCoro, Lens.ensures_modify, coroHeap_get, coroHeap_set]
  refine ⟨c, rfl, x, live, c, rfl, _, by rw [Store.put_cell, if_pos rfl, live, Option.map_some], ?_⟩
  rw [Store.put_put]
  exact rest

/-! ## The steps of the code -/

/-- A program whose every result is a step of the view. -/
def Refines (p : Prog State Label) (s : State) (v : View) : Prop :=
  p.Ensures s fun label s' => ∃ v', v.Step label v' ∧ Abstracts s' v'

theorem Abstracts.task_split (abstracts : Abstracts s v) {c : Nat} (place : v.place = .inside c) :
    ∃ body t₁ t₂ x, v.tasks = t₁ ++ (c, some body) :: t₂ ∧ s.control = .body c body ∧
      s.coros.cell c = some x ∧ x.isFinished = false := by
  have here := abstracts.here
  simp only [State.At, place] at here
  obtain ⟨-, -, -, body, mem, control⟩ := here
  obtain ⟨t₁, t₂, tasks⟩ := List.append_of_mem mem
  obtain ⟨x, live, running, -⟩ := abstracts.holds _ mem
  exact ⟨body, t₁, t₂, x, tasks, control, live, running⟩

/-- What `coro_yield` jumps to. -/
def nextOf (x : Coro) : Who := match x.next with
  | none => .sched
  | some c => .coro c

theorem coroYield_sched {save : Who → Context} {Q : Who → State → Prop} (here : s.coroThisPtr = some .sched)
    (alone : s.coroSched.next = none) (rest : (jump .sched).Ensures (s.saveSched (save .sched)) fun _ => Q .sched) :
    (coroYield save).Ensures s Q := by
  simp only [coroYield, ensures_bind, this, ensures_read, id, ensures_require, ensures_pure]
  refine ⟨.sched, here, ?_⟩
  simp only [loadCoro, ensures_read, alone]
  exact coroYieldTo_sched here rest

theorem coroYield_coro {save : Who → Context} {c : Nat} {x : Coro} {Q : Who → State → Prop}
    (here : s.coroThisPtr = some (.coro c)) (live : s.coros.cell c = some x)
    (rest : (jump (nextOf x)).Ensures (s.saveCoro c x (save (.coro c))) fun _ => Q (nextOf x)) :
    (coroYield save).Ensures s Q := by
  simp only [coroYield, ensures_bind, this, ensures_read, id, ensures_require, ensures_pure]
  refine ⟨.coro c, here, ?_⟩
  simp only [loadCoro, Lens.ensures_load, coroHeap_get]
  exact ⟨c, rfl, x, live, coroYieldTo_coro here live rest⟩

theorem MainCall.refines (abstracts : Abstracts s v) (place : v.place = .main) {call : MainCall}
    (allowed : call.Allowed s) : Refines call.run s v := by
  have here := abstracts.here
  simp only [State.At, place] at here
  obtain ⟨control, this, flag⟩ := here
  cases call with
  | new body =>
    refine ensures_bind.mpr ((coroNew_returns abstracts.listed).mono fun c s' created => ensures_pure.mpr ?_)
    obtain ⟨rfl, gains⟩ := created
    have step := @View.Step.newMain v body place
    have at_main : s'.control = .main ∧ s'.coroThisPtr = some .sched ∧ s'.isSchedWaiting = false := by
      rw [gains.rest]
      exact ⟨control, this, flag⟩
    rw [abstracts.created]
    refine ⟨_, step, abstracts.new gains rfl s'.control abstracts.holds (step.inv abstracts.inv) ?_⟩
    simpa only [State.At, place] using at_main
  | wait =>
    have step := View.Step.wait place
    refine ensures_bind.mpr (ensures_update.mpr (ensures_pure.mpr ⟨_, step, ?_⟩))
    have holds : ∀ task ∈ v.tasks, s.Holds .waiting task := fun task mem =>
      (abstracts.holds task mem).outside (by simp [place])
    exact ⟨step.inv abstracts.inv, ⟨abstracts.listed.list, abstracts.listed.live⟩, abstracts.created,
      abstracts.returned, abstracts.alone, holds, rfl, this, flag⟩
  | yield =>
    refine ensures_bind.mpr (coroYield_sched this abstracts.alone ?_)
    -- The context that has just been saved is the one control is transferred to.
    simp only [jump, ensures_bind, loadCoro, ensures_read, ensures_require, State.saveSched]
    refine ⟨_, rfl, ?_⟩
    simp only [resume, ensures_bind, setThis, ensures_update, goto, ensures_pure]
    refine ⟨v, .yieldMain place, abstracts.inv, ⟨abstracts.listed.list, abstracts.listed.live⟩, abstracts.created,
      abstracts.returned, abstracts.alone, abstracts.holds, ?_⟩
    simpa only [State.At, place] using ⟨trivial, trivial, flag⟩
  | delete c =>
    obtain ⟨mem, live⟩ := allowed
    obtain ⟨x, live⟩ := Option.ne_none_iff_exists'.mp live
    have off : c ∉ v.tasks.map Prod.fst := by
      intro listed
      rw [abstracts.returned] at mem
      exact (List.nodup_append.mp abstracts.inv.apart).2.2 c listed c mem rfl
    have step : v.Step (.delete c) v := .delete place (abstracts.returned ▸ mem)
    refine ensures_bind.mpr (Lens.ensures_free_some.mpr ⟨x, live, ensures_pure.mpr ⟨v, step, ?_⟩⟩)
    refine ⟨abstracts.inv, abstracts.listed.free off, abstracts.created, abstracts.returned, abstracts.alone, ?_, ?_⟩
    · intro task mem
      obtain ⟨y, live, holds⟩ := abstracts.holds task mem
      have other : task.1 ≠ c := fun same => off (same ▸ List.mem_map_of_mem mem)
      exact ⟨y, by simpa [other] using live, holds⟩
    · simpa only [State.At, place] using ⟨control, this, flag⟩

theorem Abstracts.first_eq (abstracts : Abstracts s v) : s.coroList = (v.tasks.map Prod.fst).head? :=
  abstracts.listed.list.chain.head_eq

/-- The task a coroutine stands for has finished when the coroutine has. -/
theorem Abstracts.finished_iff (abstracts : Abstracts s v) {task : Nat × Option Body} (mem : task ∈ v.tasks) :
    s.Finished task.1 ↔ task.2 = none := by
  obtain ⟨x, live, holds⟩ := abstracts.holds task mem
  obtain ⟨c, body⟩ := task
  cases body with
  | none => simpa [State.Finished, live] using holds
  | some body => simp [State.Finished, live, holds.1]

theorem Abstracts.split_at (abstracts : Abstracts s v) {d : Nat} {l₁ l₂ : List Nat}
    (split : v.tasks.map Prod.fst = l₁ ++ d :: l₂) (finished : s.Finished d) :
    ∃ t₁ t₂, v.tasks = t₁ ++ (d, none) :: t₂ ∧ t₁.map Prod.fst = l₁ ∧ t₂.map Prod.fst = l₂ := by
  obtain ⟨t₁, rest, tasks, front, back⟩ := List.map_eq_append_iff.mp split
  obtain ⟨task, t₂, rfl, rfl, behind⟩ := List.map_eq_cons_iff.mp back
  have none := (abstracts.finished_iff (show task ∈ v.tasks by simp [tasks])).mp finished
  refine ⟨t₁, t₂, ?_, front, behind⟩
  rw [tasks, ← none]

/-- One round of the loop of `coro_sched_wait`. -/
theorem coroSchedWait_refines (abstracts : Abstracts s v) (place : v.place = .waiting) : Refines coroSchedWait s v := by
  have here := abstracts.here
  simp only [State.At, place] at here
  obtain ⟨control, this, flag⟩ := here
  have outside : ∀ c, v.place ≠ .inside c := by simp [place]
  have first := abstracts.first_eq
  have chain := abstracts.listed.list.chain
  simp only [Refines, coroSchedWait, ensures_bind, ensures_read]
  cases tasks : v.tasks with
  | nil =>
    rw [tasks] at first
    rw [show s.coroList = none from first]
    have step := View.Step.returnedNone place tasks
    refine ensures_bind.mpr (ensures_update.mpr (ensures_pure.mpr ⟨_, step, ?_⟩))
    exact ⟨step.inv abstracts.inv, ⟨abstracts.listed.list, abstracts.listed.live⟩, abstracts.created,
      abstracts.returned, abstracts.alone, by simp [tasks], rfl, this, flag⟩
  | cons task t =>
    obtain ⟨c, body⟩ := task
    rw [tasks] at first
    rw [show s.coroList = some c from first]
    simp only [ensures_bind]
    have found := findFinished_returns chain abstracts.listed.live
    rw [show s.coroList = some c from first] at found
    refine found.mono fun found s' result => ?_
    obtain ⟨rfl, ⟨rfl, busy⟩ | ⟨d, l₁, l₂, rfl, split, finished⟩⟩ := result
    · have mem : (c, body) ∈ v.tasks := tasks ▸ List.mem_cons_self
      have running : ∀ task ∈ v.tasks, task.2 ≠ none := fun task mem none =>
        busy task.1 (List.mem_map_of_mem mem) ((abstracts.finished_iff mem).mpr none)
      obtain ⟨body, rfl⟩ := Option.ne_none_iff_exists'.mp (running _ mem)
      obtain ⟨x, live, -, continues⟩ := abstracts.holds _ mem
      have step := View.Step.first place tasks running
      simp only [ensures_bind, ensures_update, ensures_read, ensures_require]
      refine ⟨c, first, coroYieldTo_sched this (jump_continues live (continues (outside c)) ?_)⟩
      refine ensures_pure.mpr ⟨_, step, step.inv abstracts.inv, ⟨abstracts.listed.list, abstracts.listed.live⟩,
        abstracts.created, abstracts.returned, abstracts.alone, ?_, rfl, rfl, rfl, body, mem, rfl⟩
      exact fun task mem => (abstracts.holds task mem).outside outside
    · obtain ⟨t₁, t₂, split_tasks, rfl, rfl⟩ := abstracts.split_at split finished
      have step := View.Step.returned place split_tasks
      have deleted := coroListDelete_returns (split ▸ abstracts.listed)
      simp only [ensures_bind]
      refine deleted.mono fun _ s' taken => ?_
      obtain ⟨relinks, listed⟩ := taken
      have rest := relinks.rest
      refine ensures_update.mpr (ensures_update.mpr (ensures_pure.mpr ⟨_, step, step.inv abstracts.inv, ?_, ?_, ?_, ?_,
        ?_, ?_⟩))
      · rw [List.map_append]
        exact ⟨listed.list, listed.live⟩
      · exact relinks.created.trans abstracts.created
      · rw [rest]
        exact congrArg _ abstracts.returned
      · rw [rest]
        exact abstracts.alone
      · intro task mem
        have mem : task ∈ v.tasks := by
          rw [split_tasks]
          simp only [List.mem_append, List.mem_cons] at mem ⊢
          tauto
        exact (relinks.holds (abstracts.holds task mem)).outside outside
      · rw [rest]
        exact ⟨rfl, this, flag⟩

/-- Behind a change of the running coroutine that is ready to be resumed, or has finished. -/
theorem Abstracts.holds_put (abstracts : Abstracts s v) {c : Nat} {x y : Coro} {body body' : Option Body}
    {t₁ t₂ : List (Nat × Option Body)} (place : v.place = .inside c) (tasks : v.tasks = t₁ ++ (c, body) :: t₂)
    (live : s.coros.cell c = some x) (place' : Place)
    (new : match body' with
      | none => y.isFinished = true
      | some rest => y.isFinished = false ∧ (place' ≠ .inside c → y.Continues c rest)) :
    ∀ task ∈ t₁ ++ (c, body') :: t₂, { s with coros := s.coros.put c y }.Holds place' task := by
  have here : { s with coros := s.coros.put c y }.Holds place' (c, body') := by
    refine ⟨y, by simp [live], ?_⟩
    cases body' with
    | none => exact new
    | some rest => exact new
  have nodup := (List.nodup_append.mp abstracts.inv.apart).1
  rw [tasks] at nodup
  have other : ∀ task, task ∈ t₁ ++ t₂ → { s with coros := s.coros.put c y }.Holds place' task := by
    intro task mem
    have apart : task.1 ≠ c := by
      have once := (List.nodup_cons.mp ((List.perm_middle.map Prod.fst).nodup_iff.mp nodup)).1
      have elsewhere := List.mem_map_of_mem (f := Prod.fst) mem
      exact fun same => once (same ▸ elsewhere)
    have listed : task ∈ v.tasks := by
      rw [tasks]
      simp only [List.mem_append, List.mem_cons] at mem ⊢
      tauto
    obtain ⟨z, at_task, holds⟩ := abstracts.holds task listed
    refine ⟨z, by simpa [apart] using at_task, ?_⟩
    obtain ⟨d, body⟩ := task
    cases body with
    | none => exact holds
    | some body =>
      -- Only `c` runs, so this one has a context to go on with.
      refine ⟨holds.1, fun _ => holds.2 ?_⟩
      rw [place]
      rintro ⟨⟩
      exact apart rfl
  intro task mem
  simp only [List.mem_append, List.mem_cons] at mem
  obtain mem | rfl | mem := mem
  · exact other task (List.mem_append_left _ mem)
  · exact here
  · exact other task (List.mem_append_right _ mem)

/-- What a running coroutine does. -/
theorem runBody_refines (abstracts : Abstracts s v) {c : Nat} {body : Body} (place : v.place = .inside c)
    (control : s.control = .body c body) : Refines (runBody c body) s v := by
  obtain ⟨body', t₁, t₂, x, tasks, control', live, running⟩ := abstracts.task_split place
  obtain ⟨-, rfl⟩ := Control.body.inj (control.symm.trans control')
  have here := abstracts.here
  simp only [State.At, place] at here
  obtain ⟨this, flag, sched, -⟩ := here
  have listed := abstracts.listed
  rw [tasks, List.map_append, List.map_cons] at listed
  cases body with
  | ret value =>
    have step := View.Step.finish place tasks
    refine ensures_bind.mpr (Lens.ensures_modify.mpr ⟨c, rfl, x, live, ?_⟩)
    refine ensures_bind.mpr (Lens.ensures_modify.mpr ⟨c, rfl, { x with ret := value }, by simp [live], ?_⟩)
    simp only [coroHeap_get, coroHeap_set, Store.put_put, ensures_bind, ensures_read, id, flag, Bool.true_eq_false,
      if_false]
    -- The flag is set, so there is a place to return to.
    refine jump_waiting sched (ensures_pure.mpr ⟨_, step, step.inv abstracts.inv, ?_, abstracts.created,
      abstracts.returned, abstracts.alone, ?_, rfl, rfl, rfl⟩)
    · have put := listed.put (y := { x with ret := value, isFinished := true }) live rfl rfl
      rw [List.map_append, List.map_cons]
      exact ⟨put.list, put.live⟩
    · exact abstracts.holds_put place tasks live .waiting rfl
  | yield rest =>
    refine ensures_bind.mpr (coroYield_coro this live ?_)
    let y : Coro := { x with switchCount := x.switchCount + 1, ctx := some (.yielded c (.coro c) rest) }
    have put := listed.put (y := y) live rfl rfl
    have holds : ∀ place', ∀ task ∈ t₁ ++ (c, some rest) :: t₂, { s with coros := s.coros.put c y }.Holds place' task :=
      fun place' => abstracts.holds_put place tasks live place' ⟨running, fun _ => .inr rfl⟩
    have next := listed.next_eq live
    cases t₂ with
    | nil =>
      have step := View.Step.yieldLast place tasks
      rw [nextOf, show x.next = none from next]
      refine jump_waiting sched (ensures_pure.mpr ⟨_, step, step.inv abstracts.inv, ?_, abstracts.created,
        abstracts.returned, abstracts.alone, holds .waiting, rfl, rfl, rfl⟩)
      rw [List.map_append, List.map_cons]
      exact ⟨put.list, put.live⟩
    | cons task t₂ =>
      obtain ⟨d, behind⟩ := task
      have step := View.Step.yieldNext place tasks
      rw [nextOf, show x.next = some d from next]
      have mem : (d, behind) ∈ t₁ ++ (c, some rest) :: (d, behind) :: t₂ := by simp
      have busy := (abstracts.inv.busy c place).2 (d, behind) (by simp [tasks])
      obtain ⟨behind, rfl⟩ := Option.ne_none_iff_exists'.mp busy
      obtain ⟨z, at_d, -, continues⟩ := holds .waiting _ mem
      refine jump_continues at_d (continues (by simp)) (ensures_pure.mpr ⟨_, step, step.inv abstracts.inv, ?_,
        abstracts.created, abstracts.returned, abstracts.alone, holds _, rfl, flag, sched, behind, mem, rfl⟩)
      rw [List.map_append, List.map_cons]
      exact ⟨put.list, put.live⟩
  | new body rest =>
    have step := View.Step.new place tasks
    refine ensures_bind.mpr ((coroNew_returns abstracts.listed).mono fun d s' created => ?_)
    obtain ⟨rfl, gains⟩ := created
    refine ensures_bind.mpr (ensures_update.mpr (ensures_pure.mpr ?_))
    rw [abstracts.created]
    have same : (t₁ ++ (c, some rest) :: t₂).map Prod.fst = v.tasks.map Prod.fst := by simp [tasks]
    refine ⟨_, step, abstracts.new gains same _ ?_ (step.inv abstracts.inv) ?_⟩
    · have holds : ∀ task ∈ t₁ ++ (c, some rest) :: t₂, { s with coros := s.coros.put c x }.Holds v.place task :=
        abstracts.holds_put place tasks live v.place ⟨running, fun outside => absurd place outside⟩
      rwa [Store.put_self live] at holds
    · have saved : s'.coroThisPtr = s.coroThisPtr ∧ s'.isSchedWaiting = s.isSchedWaiting ∧ s'.coroSched = s.coroSched := by
        rw [gains.rest]
        exact ⟨rfl, rfl, rfl⟩
      simp only [State.At, place, saved]
      exact ⟨this, flag, sched, rest, by simp, rfl⟩

/-- Each step of the code is one of the view. -/
theorem Step.onView (step : Step s label s') (abstracts : Abstracts s v) :
    ∃ v', v.Step label v' ∧ Abstracts s' v' := by
  have here := abstracts.here
  cases place : v.place with
  | main =>
    simp only [State.At, place] at here
    rw [Step, here.1] at step
    obtain ⟨call, allowed, returned⟩ := step
    exact (call.refines abstracts place allowed).of_returns returned
  | waiting =>
    simp only [State.At, place] at here
    rw [Step, here.1] at step
    exact (coroSchedWait_refines abstracts place).of_returns step
  | inside c =>
    simp only [State.At, place] at here
    obtain ⟨-, -, -, body, -, control⟩ := here
    rw [Step, control] at step
    exact (runBody_refines abstracts place control).of_returns step

/-- Outside of `main` the code does not stop. -/
theorem goes_on (abstracts : Abstracts s v) (inside : v.place ≠ .main) : ∃ label s', Step s label s' := by
  have here := abstracts.here
  cases place : v.place with
  | main => exact absurd place inside
  | waiting =>
    simp only [State.At, place] at here
    obtain ⟨label, s', returned, -⟩ := coroSchedWait_refines abstracts place
    exact ⟨label, s', by rwa [Step, here.1]⟩
  | inside c =>
    simp only [State.At, place] at here
    obtain ⟨-, -, -, body, -, control⟩ := here
    obtain ⟨label, s', returned, -⟩ := runBody_refines abstracts place control
    exact ⟨label, s', by rwa [Step, control]⟩

theorem run_onView {labels : List Label} (run : Run Step s labels s') (abstracts : Abstracts s v) :
    ∃ v', Run View.Step v labels v' ∧ Abstracts s' v' :=
  run.simulate abstracts fun _ _ _ _ related step => step.onView related

end SysprogLabs.Libcoro
