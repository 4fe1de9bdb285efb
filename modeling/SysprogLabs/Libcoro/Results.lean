import SysprogLabs.Libcoro.Scheduling

/-! # What the coroutines have done

Behind any run, `coro_status`, `coro_switch_count` and `coro_is_finished` say of each coroutine that
is still there what its body says: how often it has yielded, and what it returns once it has finished.
The links of the list do not matter here, so the steps are followed on the coroutines without them.
-/

namespace SysprogLabs.Libcoro

open Prog

variable {s s' : State} {v v' : View} {label : Label} {labels : List Label} {c d : Nat} {x : Coro}

/-! ## What the library tells -/

def coroStatus (x : Coro) : Int := x.ret

def coroSwitchCount (x : Coro) : Int := x.switchCount

def coroIsFinished (x : Coro) : Bool := x.isFinished

/-! ## What a body says -/

namespace Body

/-- What the body returns. -/
def value : Body → Int
  | .ret value => value
  | .yield rest => rest.value
  | .new _ rest => rest.value

/-- How often the body calls `coro_yield`. -/
def yields : Body → Nat
  | .ret _ => 0
  | .yield rest => rest.yields + 1
  | .new _ rest => rest.yields

/-- What remains of the body behind its first call. -/
def next : Body → Option Body
  | .ret _ => none
  | .yield rest => some rest
  | .new _ rest => some rest

/-- What the first call of the body changes in the coroutine `c` that runs it. -/
def act (c : Nat) : Body → Coro → Coro
  | .ret value, x => { x with ret := value, isFinished := true }
  | .yield rest, x => { x with switchCount := x.switchCount + 1, ctx := some (.yielded c (.coro c) rest) }
  | .new _ _, x => x

end Body

/-- What the fields of a coroutine say when `rest` remains of its body. -/
def Coro.Owes (x : Coro) : Option Body → Prop
  | none => x.isFinished = true ∧ x.ret = x.func.value ∧ x.switchCount = x.func.yields
  | some rest => x.isFinished = false ∧ x.ret = 0 ∧ rest.value = x.func.value ∧ x.switchCount + rest.yields = x.func.yields

/-- A coroutine that has just been created. -/
def Coro.started (c : Nat) (body : Body) : Coro where
  ret := 0
  func := body
  ctx := some (.start c)
  isFinished := false
  switchCount := 0
  next := none
  prev := none

theorem Coro.started_owes (c : Nat) (body : Body) : (Coro.started c body).Owes (some body) :=
  ⟨rfl, rfl, rfl, Int.zero_add _⟩

/-- The call is made, and the rest of the body remains. -/
theorem Body.act_owes {body : Body} (owes : x.Owes (some body)) : (body.act c x).Owes body.next := by
  obtain ⟨running, ret, value, count⟩ := owes
  cases body with
  | ret => exact ⟨rfl, value, by simpa [act, yields] using count⟩
  | yield =>
    refine ⟨running, ret, value, ?_⟩
    simp only [act, yields, Nat.cast_add, Nat.cast_one] at count ⊢
    omega
  | new => exact ⟨running, ret, value, count⟩

/-! ## What the code changes -/

/-- The coroutines without their links. -/
def State.told (s : State) (d : Nat) : Option Coro := (s.coros.cell d).map Coro.unlinked

theorem modify_told {p : Ptr} {f : Coro → Coro} {told : Nat → Option Coro} (links : ∀ x, (f x).unlinked = x.unlinked) :
    (coroHeap.modify p f).Maintains fun s => s.told = told := by
  intro s a s' same returned
  have changed : (coroHeap.modify p f).Yields s fun _ s' => s'.told = told := by
    simp only [Lens.yields_modify, coroHeap_get, coroHeap_set]
    rintro q - x live
    funext d
    rw [← same]
    by_cases here : d = q
    · simp [State.told, here, live, links]
    · simp [State.told, here]
  exact changed a s' returned

section

variable {told : Nat → Option Coro}

theorem when_told {cond : Prop} [Decidable cond] {p : Prog State Unit} (kept : p.Maintains fun s => s.told = told) :
    (Prog.when cond p).Maintains fun s => s.told = told :=
  .ite kept .pure

theorem load_told {p : Ptr} : (coroHeap.load p).Maintains fun s => s.told = told := Lens.maintains_load

theorem coroListAdd_told : (coroListAdd c).Maintains fun s => s.told = told :=
  .bind .read fun _ => .bind (modify_told fun _ => rfl) fun _ => .bind (modify_told fun _ => rfl) fun _ =>
    .bind (when_told (modify_told fun _ => rfl)) fun _ => .update fun _ same => same

theorem coroListDelete_told : (coroListDelete c).Maintains fun s => s.told = told :=
  .bind load_told fun _ => .bind (when_told (modify_told fun _ => rfl)) fun _ =>
    .bind (when_told (modify_told fun _ => rfl)) fun _ => when_told (.update fun _ same => same)

/-- The search for a finished coroutine changes nothing. -/
theorem findFinished_maintains {first : Ptr} {P : State → Prop} : (findFinished first).Maintains P := by
  refine Maintains.loop (fun p => ?_) first
  cases p with
  | none => exact .pure
  | some c => exact .bind Lens.maintains_load fun _ => .ite .pure .pure

theorem loadCoro_told {who : Who} : (loadCoro who).Maintains fun s => s.told = told := by
  cases who with
  | sched => exact .read
  | coro c => exact load_told

/-- Control goes elsewhere, and the coroutines stay as they are. -/
theorem jump_told {target : Who} : (jump target).Maintains fun s => s.told = told := by
  refine .bind loadCoro_told fun _ => .bind .require fun ctx => ?_
  have set : ∀ {who}, (setThis who).Maintains fun s => s.told = told := .update fun _ same => same
  have goes : ∀ {control}, (goto control).Maintains fun s => s.told = told := .update fun _ same => same
  cases ctx with
  | start c => exact .bind set fun _ => .bind loadCoro_told fun _ => goes
  | yielded c source rest => exact .bind set fun _ => goes
  | waiting source => exact .bind set fun _ => .bind (.update fun _ same => same) fun _ => goes
  | main source => exact .bind set fun _ => goes

end

theorem told_put {t : State} {y : Coro} (live : s.coros.cell c = some x) (coros : t.coros = s.coros.put c y) :
    t.told = Function.update s.told c (some y.unlinked) := by
  funext d
  by_cases here : d = c
  · simp [State.told, coros, here, live]
  · simp [State.told, coros, here]

/-- A coroutine that yields counts it and saves its context. -/
theorem coroYield_told {save : Who → Context} (here : s.coroThisPtr = some (.coro c)) :
    (coroYield save).Yields s fun _ s' => s'.told = Function.update s.told c
      ((s.told c).map fun x => { x with switchCount := x.switchCount + 1, ctx := some (save (.coro c)) }) := by
  simp only [coroYield, coroYieldTo, this, yields_bind, yields_read, yields_require, yields_pure, id, here,
    Option.some.injEq, forall_eq', loadCoro, modifyCoro, Lens.yields_load, Lens.yields_modify, coroHeap_get,
    coroHeap_set, Store.put_cell, if_true, Store.put_put]
  intro _ _ x live y counted
  rw [live, Option.map_some, Option.some.injEq] at counted
  subst counted
  refine fun _ s' jumped => (jump_told _ _ s' (told_put live rfl) jumped).trans ?_
  rw [State.told, live]
  rfl

/-- `coro_new` adds one coroutine. -/
theorem coroNew_told {body : Body} :
    (coroNew body).Yields s fun _ s' =>
      s'.told = Function.update s.told s.coros.next (some (.started s.coros.next body)) := by
  simp only [coroNew, yields_bind, Lens.yields_malloc, yields_read, setThis, yields_update, this, id, yields_require,
    modifyCoro, coroHeap_get, coroHeap_set, yields_pure, Option.some.injEq, forall_eq', Lens.yields_modify,
    Store.alloc_cell, if_true, Store.alloc_put]
  refine fun _ s' added => coroListAdd_told _ _ s' ?_ added
  funext d
  by_cases here : d = s.coros.next
  · simp [State.told, here, Coro.started, Coro.unlinked]
  · simp [State.told, here]

/-- What a step changes in the coroutine `d`: only the one that runs is changed. -/
def State.act (s : State) (d : Nat) (x : Coro) : Coro :=
  match s.control with
  | .body c body => if d = c then body.act d x else x
  | _ => x

/-- Who is there has been there, or is new. -/
def State.Tells (s s' : State) : Prop :=
  ∀ d x', s'.told d = some x' →
    (∃ x, s.told d = some x ∧ x' = s.act d x) ∨ d = s.coros.next ∧ ∃ body, x' = .started d body

theorem State.Tells.quiet (told : s'.told = s.told) (idle : ∀ d x, s.act d x = x) : s.Tells s' :=
  fun d x live => .inl ⟨x, told ▸ live, (idle d x).symm⟩

theorem State.Tells.new {body : Body}
    (told : s'.told = Function.update s.told s.coros.next (some (.started s.coros.next body)))
    (idle : ∀ d x, s.act d x = x) : s.Tells s' := by
  intro d x live
  rw [told] at live
  by_cases here : d = s.coros.next
  · subst here
    rw [Function.update_self, Option.some.injEq] at live
    exact .inr ⟨rfl, body, live.symm⟩
  · rw [Function.update_of_ne here] at live
    exact .inl ⟨x, live, (idle d x).symm⟩

theorem State.Tells.acts {body : Body} (control : s.control = .body c body)
    (told : s'.told = Function.update s.told c ((s.told c).map (body.act c))) : s.Tells s' := by
  intro d x live
  rw [told] at live
  by_cases here : d = c
  · subst here
    rw [Function.update_self] at live
    obtain ⟨y, at_d, rfl⟩ := Option.map_eq_some_iff.mp live
    exact .inl ⟨y, at_d, by simp [State.act, control]⟩
  · rw [Function.update_of_ne here] at live
    exact .inl ⟨x, live, by simp [State.act, control, here]⟩

theorem MainCall.tells {call : MainCall} (control : s.control = .main) (here : s.coroThisPtr = some .sched) :
    call.run.Yields s fun _ s' => s.Tells s' := by
  have idle : ∀ d x, s.act d x = x := fun d x => by simp [State.act, control]
  cases call with
  | new body =>
    refine yields_bind.mpr (coroNew_told.mono fun _ s' told => yields_pure.mpr ?_)
    exact .new told idle
  | wait => exact yields_bind.mpr (yields_update.mpr (yields_pure.mpr (.quiet rfl idle)))
  | yield =>
    -- `main` runs as the scheduler, which is not in the heap.
    simp only [MainCall.run, coroYield, coroYieldTo, this, yields_bind, yields_read, yields_require, yields_pure, id,
      here, Option.some.injEq, forall_eq', loadCoro, modifyCoro, yields_update]
    refine fun _ s' jumped => .quiet (jump_told _ _ s' ?_ jumped) idle
    rfl
  | delete c =>
    refine yields_bind.mpr (Lens.yields_free.mpr fun x live => yields_pure.mpr ?_)
    refine fun d x' told => .inl ⟨x', ?_, (idle d x').symm⟩
    by_cases deleted : d = c
    · simp [State.told, deleted] at told
    · simpa [State.told, deleted] using told

theorem coroSchedWait_tells (control : s.control = .waiting) (here : s.coroThisPtr = some .sched) :
    coroSchedWait.Yields s fun _ s' => s.Tells s' := by
  have idle : ∀ d x, s.act d x = x := fun d x => by simp [State.act, control]
  simp only [coroSchedWait, yields_bind, yields_read]
  cases first : s.coroList with
  | none => exact yields_bind.mpr (yields_update.mpr (yields_pure.mpr (.quiet rfl idle)))
  | some c =>
    refine yields_bind.mpr fun found s₁ searched => ?_
    obtain rfl : s₁ = s := findFinished_maintains (P := fun t => t = s) s found s₁ rfl searched
    cases found with
    | some c =>
      refine yields_bind.mpr fun _ s₂ deleted => ?_
      have same : s₂.told = s₁.told := coroListDelete_told _ _ _ rfl deleted
      exact yields_bind.mpr (yields_update.mpr (yields_bind.mpr (yields_update.mpr (yields_pure.mpr (.quiet same idle)))))
    | none =>
      simp only [yields_bind, yields_update, yields_read, yields_require, yields_pure, coroYieldTo, this, id, here,
        Option.some.injEq, forall_eq', modifyCoro]
      refine fun _ _ _ s' jumped => .quiet (jump_told _ _ s' ?_ jumped) idle
      rfl

theorem runBody_tells {body : Body} (control : s.control = .body c body) (here : s.coroThisPtr = some (.coro c)) :
    (runBody c body).Yields s fun _ s' => s.Tells s' := by
  cases body with
  | ret value =>
    simp only [runBody, finish, yields_bind, Lens.yields_modify, coroHeap_get, coroHeap_set, Option.some.injEq,
      forall_eq', Store.put_cell, if_true, Store.put_put, yields_read, id]
    intro x live y returned
    rw [live, Option.map_some, Option.some.injEq] at returned
    subst returned
    have told : ∀ {t : State}, t.coros = s.coros.put c { x with ret := value, isFinished := true } →
        t.told = Function.update s.told c ((s.told c).map (Body.act c (.ret value))) := by
      refine fun coros => (told_put live coros).trans ?_
      rw [State.told, live]
      rfl
    -- Whether there is a place to return to does not matter here.
    refine yields_ite.mpr ⟨fun _ => ?_, fun _ => ?_⟩
    · exact yields_bind.mpr (yields_update.mpr (yields_pure.mpr (.acts control (told rfl))))
    · refine yields_bind.mpr fun _ s' jumped => yields_pure.mpr (.acts control (jump_told _ _ s' ?_ jumped))
      exact told rfl
  | yield rest => exact yields_bind.mpr ((coroYield_told here).mono fun _ s' told => yields_pure.mpr (.acts control told))
  | new body rest =>
    have idle : ∀ d x, s.act d x = x := fun d x => by simp [State.act, control, Body.act]
    refine yields_bind.mpr (coroNew_told.mono fun _ s' told => yields_bind.mpr (yields_update.mpr (yields_pure.mpr ?_)))
    exact .new told idle

theorem Step.tells (step : Step s label s') (abstracts : Abstracts s v) : s.Tells s' := by
  have here := abstracts.here
  cases place : v.place with
  | main =>
    simp only [State.At, place] at here
    rw [Step, here.1] at step
    obtain ⟨call, -, returned⟩ := step
    exact MainCall.tells here.1 here.2.1 _ _ returned
  | waiting =>
    simp only [State.At, place] at here
    rw [Step, here.1] at step
    exact coroSchedWait_tells here.1 here.2.1 _ _ step
  | inside c =>
    simp only [State.At, place] at here
    obtain ⟨this, -, -, body, -, control⟩ := here
    rw [Step, control] at step
    exact runBody_tells control this _ _ step

/-! ## What remains of a body -/

/-- What remains of the body of a coroutine that has been created. -/
def View.Has (v : View) (c : Nat) (rest : Option Body) : Prop := (c, rest) ∈ v.tasks ∨ c ∈ v.returned ∧ rest = none

theorem View.Has.created {rest : Option Body} (has : v.Has c rest) (inv : v.Inv) : c < v.created :=
  (inv.known c).mpr (has.imp (fun mem => List.mem_map_of_mem (f := Prod.fst) mem) And.left)

/-- The running task has gone on, and the others are as they were. -/
theorem View.goneOn {body : Body} {rest rest' : Option Body} {t₁ t₂ : List (Nat × Option Body)} (inv : v.Inv)
    (place : v.place = .inside c) (tasks : v.tasks = t₁ ++ (c, some body) :: t₂)
    (has : (d, rest') ∈ t₁ ++ (c, rest) :: t₂ ∨ d ∈ v.returned ∧ rest' = none) :
    v.Has d rest' ∧ v.place ≠ .inside d ∨ v.place = .inside d ∧ v.Has d (some body) ∧ rest' = rest := by
  -- The running task is in the list once and has not been returned.
  have nodup := inv.apart
  rw [tasks, List.map_append, List.map_cons, List.append_assoc, List.cons_append, List.nodup_middle, List.nodup_cons]
    at nodup
  have once := nodup.1
  simp only [List.mem_append, not_or] at once
  by_cases same : d = c
  · subst same
    have absent : ∀ {t : List (Nat × Option Body)}, d ∉ t.map Prod.fst → (d, rest') ∉ t := fun out mem =>
      out (List.mem_map_of_mem (f := Prod.fst) mem)
    simp only [List.mem_append, List.mem_cons, absent once.1, absent once.2.1, once.2.2, Prod.mk.injEq, true_and,
      false_or, or_false, false_and] at has
    exact .inr ⟨place, .inl (by simp [tasks]), has⟩
  · simp only [List.mem_append, List.mem_cons, Prod.mk.injEq, same, false_and, false_or] at has
    refine .inl ⟨?_, fun other => same (Place.inside.inj (other.symm.trans place))⟩
    simpa only [View.Has, tasks, List.mem_append, List.mem_cons, Prod.mk.injEq, same, false_and, false_or] using has

/-- What a step leaves of the body of each coroutine. -/
theorem View.Step.has_cases {rest' : Option Body} (step : v.Step label v') (inv : v.Inv) (has : v'.Has d rest') :
    (d = v.created ∧ ∃ body, rest' = some body ∧ (d, some body) ∈ v'.tasks ∧ v'.place ≠ .inside d) ∨
      (v.Has d rest' ∧ v.place ≠ .inside d) ∨ ∃ body, v.place = .inside d ∧ v.Has d (some body) ∧ rest' = body.next := by
  cases step with
  | newMain place =>
    obtain mem | done := has
    · obtain ⟨⟩ | ⟨_, mem⟩ := mem
      · exact .inl ⟨rfl, _, rfl, List.mem_cons_self, by simp [place]⟩
      · exact .inr (.inl ⟨.inl mem, by simp [place]⟩)
    · exact .inr (.inl ⟨.inr done, by simp [place]⟩)
  | yieldMain place | delete place | wait place | returnedNone place | first place =>
    exact .inr (.inl ⟨has, by simp [place]⟩)
  | returned place tasks =>
    -- It has no body any more, in the list as behind its return.
    refine .inr (.inl ⟨?_, by simp [place]⟩)
    simp only [View.Has, tasks, List.mem_append, List.mem_cons, Prod.mk.injEq] at has ⊢
    tauto
  | @new c body rest t₁ t₂ place tasks =>
    obtain mem | done := has
    · obtain ⟨⟩ | ⟨_, mem⟩ := mem
      · refine .inl ⟨rfl, _, rfl, List.mem_cons_self, fun same => ?_⟩
        exact inv.fresh.1 (inv.busy _ same).1
      · exact .inr ((goneOn inv place tasks (.inl mem)).imp_right fun gone => ⟨_, gone⟩)
    · exact .inr ((goneOn inv place tasks (.inr done)).imp_right fun gone => ⟨_, gone⟩)
  | yieldNext place tasks | yieldLast place tasks | finish place tasks =>
    exact .inr ((goneOn inv place tasks has).imp_right fun gone => ⟨_, gone⟩)

/-- Who has finished stays finished. -/
theorem View.Step.stays_finished (step : v.Step label v') (finished : v.Has c none) : v'.Has c none := by
  cases step with
  | newMain place => exact finished.imp_left (List.mem_cons_of_mem _)
  | yieldMain | delete | wait | returnedNone | first => exact finished
  | returned place tasks | new place tasks | yieldNext place tasks | yieldLast place tasks | finish place tasks =>
    simp only [View.Has, tasks, List.mem_append, List.mem_cons, Prod.mk.injEq, reduceCtorEq, and_false, and_true,
      false_or] at finished ⊢
    tauto

theorem View.run_finished_iff (run : Run View.Step .init labels v) : v.Has c none ↔ .finish c ∈ labels := by
  constructor
  · rintro (mem | ⟨mem, -⟩)
    · exact (run_finished run mem).resolve_left (by simp [View.init])
    · obtain ⟨l₁, l₂, rfl⟩ := List.append_of_mem ((View.returned_iff run).mp mem)
      exact List.mem_append_left _ ((View.returnsFinished run).1 l₁ c l₂ rfl).2
  · intro mem
    obtain ⟨l₁, l₂, rfl⟩ := List.append_of_mem mem
    obtain ⟨v₁, -, rest⟩ := run.split
    cases rest with
    | cons one rest =>
      refine rest.invariant ?_ fun _ _ _ finished step => View.Step.stays_finished step finished
      cases one with
      | finish place tasks => exact .inl (by simp)

/-- Every coroutine that is still there has done what its body says, up to what remains. -/
def Owed (s : State) (v : View) : Prop := ∀ c rest, v.Has c rest → ∀ x, s.told c = some x → x.Owes rest

theorem Abstracts.act_outside (abstracts : Abstracts s v) (outside : v.place ≠ .inside d) : s.act d x = x := by
  have here := abstracts.here
  cases place : v.place with
  | main | waiting =>
    simp only [State.At, place] at here
    simp [State.act, here.1]
  | inside c =>
    simp only [State.At, place] at here
    obtain ⟨-, -, -, body, -, control⟩ := here
    have other : d ≠ c := fun same => outside (place.trans (same ▸ rfl))
    simp [State.act, control, other]

theorem Abstracts.act_inside (abstracts : Abstracts s v) {body : Body} (place : v.place = .inside d)
    (has : v.Has d (some body)) :
    s.act d x = body.act d x := by
  have here := abstracts.here
  simp only [State.At, place] at here
  obtain ⟨-, -, -, body', mem', control⟩ := here
  have mem : (d, some body) ∈ v.tasks := has.resolve_right fun done => by cases done.2
  have nodup := (List.nodup_append.mp abstracts.inv.apart).1
  obtain rfl : body = body' := by simpa using List.inj_on_of_nodup_map nodup mem mem' rfl
  simp [State.act, control]

/-- The new coroutine is the one of its task. -/
theorem Abstracts.started_eq (abstracts : Abstracts s v) {body body' : Body} (mem : (d, some body) ∈ v.tasks)
    (outside : v.place ≠ .inside d) (told : s.told d = some (.started d body')) : body' = body := by
  obtain ⟨y, live, -, continues⟩ := abstracts.holds _ mem
  rw [State.told, live, Option.map_some, Option.some.injEq] at told
  obtain ⟨-, ctx, func⟩ := Coro.unlinked_fields (x := .started d body') told
  obtain ⟨-, same⟩ | yielded := continues outside
  · exact func.symm.trans same
  · cases ctx.symm.trans yielded

theorem Step.owed (step : Step s label s') (abstracts : Abstracts s v) (on : v.Step label v') (abstracts' : Abstracts s' v')
    (owed : Owed s v) : Owed s' v' := by
  intro d rest' has x' live
  have fresh : s.told v.created = none := by
    rw [State.told, ← abstracts.created, Store.next_dead, Option.map_none]
  have old : ∀ {rest}, v.Has d rest → ∃ x, s.told d = some x ∧ x' = s.act d x := by
    intro rest before
    refine (step.tells abstracts d x' live).resolve_right fun new => ?_
    exact absurd (before.created abstracts.inv) (by rw [← abstracts.created, new.1]; exact Nat.lt_irrefl _)
  obtain ⟨rfl, body, rfl, mem, outside⟩ | ⟨before, outside⟩ | ⟨body, place, before, rfl⟩ := on.has_cases abstracts.inv has
  -- A new coroutine, one that does not run, and the one that runs.
  · obtain ⟨x, told, -⟩ | ⟨-, body', rfl⟩ := step.tells abstracts _ x' live
    · cases fresh.symm.trans told
    · rw [abstracts'.started_eq mem outside live]
      exact Coro.started_owes v.created body
  · obtain ⟨x, told, rfl⟩ := old before
    rw [abstracts.act_outside outside]
    exact owed d rest' before x told
  · obtain ⟨x, told, rfl⟩ := old before
    rw [abstracts.act_inside place before]
    exact Body.act_owes (owed d (some body) before x told)

theorem run_owed (run : Run Step .init labels s) : ∃ v, Run View.Step .init labels v ∧ Abstracts s v ∧ Owed s v := by
  obtain ⟨v, views, abstracts, owed⟩ := run.simulate (R := fun s v => Abstracts s v ∧ Owed s v)
    (t := .init) ⟨init_abstracts, fun c rest has x live => by simp [State.told, State.init] at live⟩
    fun s label s' v related step => by
      obtain ⟨v', on, abstracts'⟩ := step.onView related.1
      exact ⟨v', on, abstracts', step.owed related.1 on abstracts' related.2⟩
  exact ⟨v, views, abstracts, owed⟩

/-- What the fields of a coroutine say behind a run. -/
theorem run_tells (run : Run Step .init labels s) (live : s.coros.cell c = some x) :
    (x.isFinished = true ↔ .finish c ∈ labels) ∧
      (x.isFinished = true → x.ret = x.func.value ∧ x.switchCount = x.func.yields) ∧
      (x.isFinished = false → x.ret = 0 ∧ x.switchCount ≤ x.func.yields) := by
  obtain ⟨v, views, abstracts, owed⟩ := run_owed run
  have told : s.told c = some x.unlinked := by rw [State.told, live, Option.map_some]
  have known := (abstracts.inv.known c).mp (abstracts.created ▸ Store.lt_next live)
  rw [← View.run_finished_iff views]
  obtain ⟨rest, has⟩ : ∃ rest, v.Has c rest := by
    obtain mem | done := known
    · obtain ⟨⟨_, rest⟩, task, rfl⟩ := List.mem_map.mp mem
      exact ⟨rest, .inl task⟩
    · exact ⟨none, .inr ⟨done, rfl⟩⟩
  cases rest with
  | none =>
    obtain ⟨finished, ret, count⟩ : x.Owes none := owed c none has x.unlinked told
    exact ⟨by simp [finished, has], fun _ => ⟨ret, count⟩, by simp [finished]⟩
  | some rest =>
    obtain ⟨running, ret, -, count⟩ : x.Owes (some rest) := owed c (some rest) has x.unlinked told
    refine ⟨⟨by simp [running], fun finished => ?_⟩, by simp [running], fun _ => ⟨ret, by omega⟩⟩
    exact (owed c none finished x.unlinked told).1

/-- Behind every run, a coroutine has not finished and tells no result yet, or it has finished: then it
    has returned what its body says and has yielded as often as its body says.  As soon as `main`
    only waits, every coroutine gets there. -/
theorem completes_as_written (run : Run Step .init labels s) :
    (∀ c x, s.coros.cell c = some x → (coroIsFinished x = true ↔ .finish c ∈ labels) ∧
      (coroIsFinished x = true → coroStatus x = x.func.value ∧ coroSwitchCount x = x.func.yields) ∧
      (coroIsFinished x = false → coroStatus x = 0 ∧ coroSwitchCount x ≤ x.func.yields)) ∧
    ∃ later s', Run Waits s (later ++ [.returned none]) s' ∧ ∀ c x, s'.coros.cell c = some x →
      coroIsFinished x = true ∧ coroStatus x = x.func.value ∧ coroSwitchCount x = x.func.yields := by
  refine ⟨fun c x live => run_tells run live, ?_⟩
  obtain ⟨v, views, abstracts⟩ := run_abstracts run
  obtain ⟨later, s', rest, once⟩ := abstracts.all_once views
  refine ⟨later, s', rest, fun c x live => ?_⟩
  have whole := run.append (rest.mono fun _ _ _ step => step.1)
  obtain ⟨v', views', abstracts'⟩ := run_abstracts whole
  have new : .new c ∈ labels ++ (later ++ [.returned none]) :=
    (View.created_iff views').mp (abstracts'.created ▸ Store.lt_next live)
  have handed : .returned (some c) ∈ labels ++ later :=
    List.count_pos_iff.mp (by rw [once c (by simpa using new)]; exact Nat.one_pos)
  have returned : c ∈ v'.returned := by
    rw [View.returned_iff views', ← List.append_assoc]
    exact List.mem_append_left _ handed
  obtain ⟨finished, done, -⟩ := run_tells whole live
  have ends := finished.mpr ((View.run_finished_iff views').mp (.inr ⟨returned, rfl⟩))
  exact ⟨ends, done ends⟩

/-- The one that yields once and returns `7` is resumed behind the end of the other one. -/
theorem completes_as_written_two :
    ∃ s x, Run Step .init [.new 0, .new 1, .wait, .switch (.coro 1), .finish 1, .returned (some 1), .wait, .switch (.coro 0),
        .switch .sched, .switch (.coro 0), .finish 0] s ∧ s.coros.cell 0 = some x ∧ coroStatus x = 7 ∧
        coroSwitchCount x = 1 := by
  have shown : (replay 9 ([.new (.yield (.ret 7)), .new (.ret 2)] ++ List.replicate 9 .wait) .init).map
      (fun result => (result.1, (result.2.coros.cell 0).map fun x => (x.func.value, x.func.yields))) =
      some ([.new 0, .new 1, .wait, .switch (.coro 1), .finish 1, .returned (some 1), .wait, .switch (.coro 0),
        .switch .sched, .switch (.coro 0), .finish 0], some (7, 1)) := by decide +kernel
  obtain ⟨⟨labels, s⟩, replayed, shown⟩ := Option.map_eq_some_iff.mp shown
  rw [Prod.mk.injEq] at shown
  obtain ⟨rfl, shown⟩ := shown
  obtain ⟨x, live, fields⟩ := Option.map_eq_some_iff.mp shown
  rw [Prod.mk.injEq] at fields
  have run := replay_run replayed
  obtain ⟨finished, done, -⟩ := (completes_as_written run).1 0 x live
  obtain ⟨ret, count⟩ := done (finished.mpr (by simp))
  exact ⟨s, x, run, live, ret.trans fields.1, by simp [count, fields.2]⟩

end SysprogLabs.Libcoro
