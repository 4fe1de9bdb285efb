import SysprogLabs.Tpool.Links

/-! # Lists in the links

`Line k P l`: the links of the pool `P` make up the list `l`, from `task` to `last_task`.
Each relinking function acts on the list of its own pool and leaves alone the lists of
other pools that share no instance with it.
-/

namespace SysprogLabs.Tpool

/-- An update at the object behind a link. -/
theorem update_link (f : Nat → Ptr) (x y : Nat) (v : Ptr) :
    Function.update f y v x = if some y = some x then v else f x := by
  rw [Function.update_apply]
  by_cases here : x = y
  · rw [if_pos here, if_pos (congrArg some here.symm)]
  · rw [if_neg here, if_neg (by simpa using Ne.symm here)]

structure Line (k : Links) (P : Nat) (l : List Nat) : Prop where
  list : DList k.next k.prev (k.task P) l
  last : k.lastTask P = l.getLast?

namespace Line

variable {k k' : Links} {P Q p : Nat} {l l₁ l₂ rest : List Nat}

theorem congr (line : Line k Q l) (next : ∀ p ∈ l, k'.next p = k.next p) (prev : ∀ p ∈ l, k'.prev p = k.prev p)
    (task : k'.task Q = k.task Q) (last : k'.lastTask Q = k.lastTask Q) : Line k' Q l where
  list := by
    rw [task]
    exact line.list.congr next prev
  last := last.trans line.last

theorem task_eq (line : Line k P l) : k.task P = l.head? := line.list.chain.head_eq

/-! ## Pushing -/

theorem push_next : (k.push P).next = Function.update k.next k.fresh (k.task P) := by
  unfold Links.push
  cases k.task P <;> (dsimp only; split <;> rfl)

theorem push_prev : (k.push P).prev = match k.task P with
    | some first => Function.update k.prev first (some k.fresh)
    | none => k.prev := by
  unfold Links.push
  cases k.task P <;> (dsimp only; split <;> rfl)

theorem push_task : (k.push P).task = Function.update k.task P (some k.fresh) := by
  unfold Links.push
  cases k.task P <;> (dsimp only; split <;> rfl)

theorem push_lastTask : (k.push P).lastTask =
    if k.lastTask P = none then Function.update k.lastTask P (some k.fresh) else k.lastTask := by
  unfold Links.push
  cases k.task P <;> (dsimp only; split <;> rfl)

theorem push (line : Line k P l) (fresh : k.fresh ∉ l) (free : k.prev k.fresh = none) :
    Line (k.push P) P (k.fresh :: l) := by
  have head := line.task_eq
  constructor
  · rw [push_task, Function.update_self]
    apply line.list.push_front
    · rw [push_next, Function.update_self]
    · rw [push_prev]
      cases first : k.task P with
      | none => exact free
      | some first' =>
        have apart : k.fresh ≠ first' := by
          intro same
          exact fresh (List.mem_of_head? (head.symm.trans (first.trans (same ▸ rfl))))
        exact (Function.update_of_ne apart _ _).trans free
    · intro p mem
      have apart : p ≠ k.fresh := fun same => fresh (same ▸ mem)
      rw [push_next, Function.update_of_ne apart]
    · intro p mem
      rw [push_prev, ← head]
      cases k.task P with
      | none => rfl
      | some first =>
        exact update_link _ _ _ _
  · rw [push_lastTask, line.last]
    cases l with
    | nil =>
      rw [List.getLast?_nil, if_pos rfl]
      exact Function.update_self P _ _
    | cons q l =>
      rw [if_neg (by simp), line.last]
      rfl

theorem push_other (line : Line k Q l) (apart : Q ≠ P) (fresh : k.fresh ∉ l)
    (foreign : ∀ p, k.task P = some p → p ∉ l) : Line (k.push P) Q l := by
  apply line.congr
  · intro p mem
    have old : p ≠ k.fresh := fun same => fresh (same ▸ mem)
    rw [push_next, Function.update_of_ne old]
  · intro p mem
    rw [push_prev]
    cases first : k.task P with
    | none => rfl
    | some q =>
      have other : p ≠ q := fun same => foreign q first (same ▸ mem)
      exact Function.update_of_ne other _ _
  · rw [push_task, Function.update_of_ne apart]
  · rw [push_lastTask]
    split
    · exact Function.update_of_ne apart _ _
    · rfl

/-! ## Picking up -/

theorem moveToEnd (line : Line k P (p :: rest)) : Line (k.moveToEnd P p) P (rest ++ [p]) := by
  have nodup := line.list.nodup
  by_cases last : k.lastTask P = some p
  · -- The only instance stays where it is.
    have alone : rest = [] := by
      cases rest with
      | nil => rfl
      | cons q rest =>
        have mem : p ∈ q :: rest := List.mem_of_getLast? (by rw [← line.last.symm.trans last]; rfl)
        exact absurd mem (List.nodup_cons.mp nodup).1
    subst alone
    rw [Links.moveToEnd, if_pos last]
    exact line
  · cases rest with
    | nil => exact absurd line.last last
    | cons second more =>
      have at_next : k.next p = some second := line.list.chain.2.1
      obtain ⟨tail, at_tail⟩ : ∃ tail, (second :: more).getLast? = some tail :=
        ⟨_, List.getLast?_eq_some_getLast (by simp)⟩
      have at_last : k.lastTask P = some tail := line.last.trans at_tail
      have tail_mem : tail ∈ second :: more := List.mem_of_getLast? at_tail
      have outside : p ∉ second :: more := (List.nodup_cons.mp nodup).1
      have p_tail : p ≠ tail := fun same => outside (same ▸ tail_mem)
      have p_second : p ≠ second := fun same => outside (same ▸ List.mem_cons_self)
      have whole : DList k.next k.prev (k.task P) ([] ++ p :: second :: more) := line.list
      have removed : DList k.next (Function.update k.prev second none) (some second) (second :: more) := by
        apply whole.remove
        · intro x _
          rw [whole.prev_eq]
          simp
        · intro x _
          rw [at_next, whole.prev_eq]
          exact update_link _ _ _ _
        · rw [whole.prev_eq]
          exact at_next.symm
      rw [Links.moveToEnd, if_neg last]
      simp only [at_next, at_last]
      constructor
      · apply removed.push_back
        · exact Function.update_self p _ _
        · rw [at_tail]
          exact Function.update_self p _ _
        · intro x mem
          have x_p : x ≠ p := fun same => outside (same ▸ mem)
          rw [at_tail]
          exact (Function.update_of_ne x_p _ _).trans (update_link _ _ _ _)
        · intro x mem
          have x_p : x ≠ p := fun same => outside (same ▸ mem)
          exact Function.update_of_ne x_p _ _
        · rw [if_neg (by simp)]
          exact Function.update_self P _ _
      · rw [List.getLast?_concat]
        exact Function.update_self P _ _

theorem moveToEnd_other (line : Line k Q l) (own : Line k P (p :: rest)) (apart : Q ≠ P)
    (foreign : ∀ x ∈ p :: rest, x ∉ l) : Line (k.moveToEnd P p) Q l := by
  unfold Links.moveToEnd
  split
  · exact line
  · split
    · next second tail at_second at_tail =>
      have mem_second : second ∈ p :: rest := by
        have head := own.list.chain.2
        rw [at_second] at head
        exact List.mem_cons_of_mem p (List.mem_of_head? (Chain.head_eq head).symm)
      have mem_tail : tail ∈ p :: rest := List.mem_of_getLast? (own.last.symm.trans at_tail)
      have other : ∀ x ∈ l, ∀ y ∈ p :: rest, x ≠ y := fun x mem y mem' same => foreign y mem' (same ▸ mem)
      apply line.congr
      · intro x mem
        simp only [Links.setNext, Links.setPrev, Links.setTask, Links.setLastTask]
        rw [Function.update_of_ne (other x mem p List.mem_cons_self),
          Function.update_of_ne (other x mem tail mem_tail)]
      · intro x mem
        simp only [Links.setNext, Links.setPrev, Links.setTask, Links.setLastTask]
        rw [Function.update_of_ne (other x mem p List.mem_cons_self),
          Function.update_of_ne (other x mem second mem_second)]
      · exact Function.update_of_ne apart _ _
      · exact Function.update_of_ne apart _ _
    · exact line

/-! ## Releasing -/

theorem unlink_next : (k.unlink P p).next = Function.update (match k.prev p with
    | some before => Function.update k.next before (k.next p)
    | none => k.next) p none := by
  unfold Links.unlink
  cases k.prev p <;> cases k.next p <;> (dsimp only; split <;> rfl)

theorem unlink_prev : (k.unlink P p).prev = Function.update (match k.next p with
    | some second => Function.update k.prev second (k.prev p)
    | none => k.prev) p none := by
  unfold Links.unlink
  cases k.prev p <;> cases k.next p <;> (dsimp only; split <;> rfl)

theorem unlink_task : (k.unlink P p).task = match k.prev p with
    | some _ => k.task
    | none => Function.update k.task P (k.next p) := by
  unfold Links.unlink
  cases k.prev p <;> cases k.next p <;> (dsimp only; split <;> rfl)

theorem unlink_lastTask : (k.unlink P p).lastTask =
    if k.lastTask P = some p then Function.update k.lastTask P (k.prev p) else k.lastTask := by
  unfold Links.unlink
  cases k.prev p <;> cases k.next p <;> (dsimp only; split <;> rfl)

theorem unlink (line : Line k P (l₁ ++ p :: l₂)) : Line (k.unlink P p) P (l₁ ++ l₂) := by
  have nodup := line.list.nodup
  have outside : p ∉ l₁ ++ l₂ := by
    have both := (List.nodup_append.mp nodup)
    simp only [List.mem_append, not_or]
    constructor
    · intro mem
      exact both.2.2 p mem p List.mem_cons_self rfl
    · exact (List.nodup_cons.mp both.2.1).1
  constructor
  · apply line.list.remove
    · intro x mem
      have apart : x ≠ p := fun same => outside (same ▸ mem)
      rw [unlink_next, Function.update_of_ne apart]
      cases k.prev p with
      | none => rfl
      | some before => exact update_link _ _ _ _
    · intro x mem
      have apart : x ≠ p := fun same => outside (same ▸ mem)
      rw [unlink_prev, Function.update_of_ne apart]
      cases k.next p with
      | none => rfl
      | some second => exact update_link _ _ _ _
    · rw [unlink_task]
      cases k.prev p with
      | none => exact (Function.update_self P _ _).trans (if_pos rfl).symm
      | some before => exact (if_neg (by simp)).symm
  · rw [unlink_lastTask, line.last, line.list.prev_eq]
    cases l₂ with
    | nil =>
      rw [List.getLast?_concat, if_pos rfl, List.append_nil]
      exact Function.update_self P _ _
    | cons q l₂ =>
      have inside : (l₁ ++ p :: q :: l₂).getLast? = (q :: l₂).getLast? := by
        rw [List.getLast?_append, List.getLast?_cons_cons]
        simp [List.getLast?_cons]
      have apart : (q :: l₂).getLast? ≠ some p :=
        fun last => outside (List.mem_append_right l₁ (List.mem_of_getLast? last))
      rw [inside, if_neg apart, line.last, inside, List.getLast?_append]
      simp [List.getLast?_cons]

theorem unlink_other (line : Line k Q l) (own : Line k P (l₁ ++ p :: l₂)) (apart : Q ≠ P)
    (foreign : ∀ x ∈ l₁ ++ p :: l₂, x ∉ l) : Line (k.unlink P p) Q l := by
  have other : ∀ x ∈ l, ∀ y ∈ l₁ ++ p :: l₂, x ≠ y := fun x mem y mem' same => foreign y mem' (same ▸ mem)
  apply line.congr
  · intro x mem
    rw [unlink_next, Function.update_of_ne (other x mem p (by simp))]
    cases before : k.prev p with
    | none => rfl
    | some y =>
      have mem_y : y ∈ l₁ := List.mem_of_getLast? (own.list.prev_eq.symm.trans before)
      exact Function.update_of_ne (other x mem y (List.mem_append_left _ mem_y)) _ _
  · intro x mem
    rw [unlink_prev, Function.update_of_ne (other x mem p (by simp))]
    cases second : k.next p with
    | none => rfl
    | some y =>
      have mem_y : y ∈ l₂ := List.mem_of_head? (own.list.next_eq.symm.trans second)
      exact Function.update_of_ne (other x mem y (by simp [mem_y])) _ _
  · rw [unlink_task]
    cases k.prev p with
    | none => exact Function.update_of_ne apart _ _
    | some before => rfl
  · rw [unlink_lastTask]
    split
    · exact Function.update_of_ne apart _ _
    · rfl

end Line

end SysprogLabs.Tpool
