import SysprogLabs.FileSort.Model

/-! # Merging

`merge_sorted_arrays` against `List.merge`: what is written so far, followed by the merge of what
is left of both arrays, is the merge of the whole arrays.

The code is followed with any `put` in the place of its stores, so that a `put` can count or record
the cells that are written.  It ends if and only if the two lengths add up to an `int`.
-/

namespace SysprogLabs.FileSort

open Prog

variable {σ : Type} {s : σ} {a b : List Int} {m : Merge}

/-! ## Lengths -/

theorem addInt_returns {m n : Nat} (fits : m + n < 2 ^ 31) :
    (addInt m n).Ensures s fun sum s' => s' = s ∧ sum = (m + n : Nat) := by
  have range : -2 ^ 31 ≤ (m : Int) + n ∧ (m : Int) + n < 2 ^ 31 := by omega
  simp only [addInt, if_pos range, ensures_pure]
  exact ⟨trivial, (Int.natCast_add m n).symm⟩

theorem addInt_fits {m n : Nat} :
    (addInt m n).Yields s fun sum s' => s' = s ∧ sum = (m + n : Nat) ∧ m + n < 2 ^ 31 := by
  by_cases fits : m + n < 2 ^ 31
  · exact (addInt_returns fits).yields.mono fun sum s' added => ⟨added.1, added.2, fits⟩
  · have overflow : ¬ (-2 ^ 31 ≤ (m : Int) + n ∧ (m : Int) + n < 2 ^ 31) := by omega
    rw [addInt, if_neg overflow]
    exact yields_fault

/-! ## The result -/

/-- The cells hold `numbers` in front and nothing else. -/
def Filled (cells : List (Option Int)) (numbers : List Int) : Prop :=
  cells = numbers.map some ++ List.replicate (cells.length - numbers.length) none

theorem Filled.empty (n : Nat) : Filled (List.replicate n none) [] := by simp [Filled]

theorem Filled.le {cells : List (Option Int)} {numbers : List Int} (filled : Filled cells numbers) :
    numbers.length ≤ cells.length := by
  rw [filled]
  simp

theorem Filled.store {cells : List (Option Int)} {numbers : List Int} (filled : Filled cells numbers)
    (room : numbers.length < cells.length) (v : Int) :
    (store cells numbers.length v).Ensures s fun cells' s' =>
      s' = s ∧ Filled cells' (numbers ++ [v]) ∧ cells'.length = cells.length := by
  obtain ⟨k, left⟩ : ∃ k, cells.length - numbers.length = k + 1 := ⟨cells.length - numbers.length - 1, by omega⟩
  have rest : cells.length - (numbers.length + 1) = k := by omega
  simp only [FileSort.store, room, if_true, ensures_pure, List.length_set, true_and, and_true]
  rw [Filled, left] at filled
  rw [Filled, List.length_set, List.length_append, List.length_singleton, rest]
  conv_lhs => rw [filled]
  rw [List.set_append_right _ _ (by simp)]
  simp [List.replicate_succ]

theorem Filled.loadAll {cells : List (Option Int)} {numbers : List Int} (filled : Filled cells numbers)
    (full : cells.length = numbers.length) : (loadAll cells).Ensures s fun numbers' s' => s' = s ∧ numbers' = numbers := by
  have written : cells = numbers.map some := by
    rw [Filled, full, Nat.sub_self, List.replicate_zero, List.append_nil] at filled
    exact filled
  have read : cells.mapM id = some numbers := by
    rw [written, List.mapM_map]
    exact (List.mapM_pure (m := Option) (l := numbers) (f := id)).trans (by simp)
  simp [FileSort.loadAll, read]

/-- What is written and what is left make up the merge. -/
structure Merge.Inv (a b : List Int) (m : Merge) (written : List Int) : Prop where
  l_le : m.lIdx ≤ a.length
  r_le : m.rIdx ≤ b.length
  idx_eq : m.idx = m.lIdx + m.rIdx
  length_eq : m.result.length = a.length + b.length
  written_eq : written.length = m.idx
  filled : Filled m.result written
  merges : written ++ (a.drop m.lIdx).merge (b.drop m.rIdx) = a.merge b

theorem Merge.Inv.init (a b : List Int) :
    Merge.Inv a b { lIdx := 0, rIdx := 0, idx := 0, result := List.replicate (a.length + b.length) none } [] where
  l_le := Nat.zero_le _
  r_le := Nat.zero_le _
  idx_eq := rfl
  length_eq := List.length_replicate
  written_eq := rfl
  filled := .empty _
  merges := rfl

/-- `put` stores like `store`, and takes `P n`, where `n` cells are written, to `P (n + 1)`. -/
def Puts (put : List (Option Int) → Nat → Int → Prog σ (List (Option Int))) (P : Nat → σ → Prop) : Prop :=
  ∀ cells numbers v s, Filled cells numbers → numbers.length < cells.length → P numbers.length s →
    (put cells numbers.length v).Ensures s fun cells' s' =>
      P (numbers.length + 1) s' ∧ Filled cells' (numbers ++ [v]) ∧ cells'.length = cells.length

theorem store_puts (s : σ) : Puts store fun _ s' => s' = s := by
  rintro cells numbers v s₁ filled room rfl
  exact filled.store room v

variable {put : List (Option Int) → Nat → Int → Prog σ (List (Option Int))} {P : Nat → σ → Prop}

/-- The merge goes on with the next element of the left array. -/
theorem takeLeft_returns (puts : Puts put P) {written : List Int} (inv : m.Inv a b written) (count : P m.idx s)
    (more : m.lIdx < a.length)
    (front : (a.drop m.lIdx).merge (b.drop m.rIdx) = a[m.lIdx] :: (a.drop (m.lIdx + 1)).merge (b.drop m.rIdx)) :
    (takeLeft put a m).Ensures s fun m' s' => P m'.idx s' ∧ m'.lIdx = m.lIdx + 1 ∧ m'.rIdx = m.rIdx ∧
      ∃ written, m'.Inv a b written := by
  have room : written.length < m.result.length := by
    have := inv.r_le
    rw [inv.written_eq, inv.idx_eq, inv.length_eq]
    omega
  simp only [takeLeft, ensures_bind, ensures_require, ensures_pure]
  refine ⟨a[m.lIdx], List.getElem?_eq_getElem more, ?_⟩
  rw [← inv.written_eq] at count ⊢
  refine (puts _ _ a[m.lIdx] s inv.filled room count).mono fun cells s' stored => ?_
  obtain ⟨counted, filled, same⟩ := stored
  refine ⟨counted, trivial, trivial, _, more, inv.r_le, ?_, same.trans inv.length_eq, ?_, filled, ?_⟩
  · have := inv.idx_eq
    have := inv.written_eq
    simp only
    omega
  · simp
  · rw [← inv.merges, front, List.append_assoc, List.singleton_append]

/-- The merge goes on with the next element of the right array. -/
theorem takeRight_returns (puts : Puts put P) {written : List Int} (inv : m.Inv a b written) (count : P m.idx s)
    (more : m.rIdx < b.length)
    (front : (a.drop m.lIdx).merge (b.drop m.rIdx) = b[m.rIdx] :: (a.drop m.lIdx).merge (b.drop (m.rIdx + 1))) :
    (takeRight put b m).Ensures s fun m' s' => P m'.idx s' ∧ m'.lIdx = m.lIdx ∧ m'.rIdx = m.rIdx + 1 ∧
      ∃ written, m'.Inv a b written := by
  have room : written.length < m.result.length := by
    have := inv.l_le
    rw [inv.written_eq, inv.idx_eq, inv.length_eq]
    omega
  simp only [takeRight, ensures_bind, ensures_require, ensures_pure]
  refine ⟨b[m.rIdx], List.getElem?_eq_getElem more, ?_⟩
  rw [← inv.written_eq] at count ⊢
  refine (puts _ _ b[m.rIdx] s inv.filled room count).mono fun cells s' stored => ?_
  obtain ⟨counted, filled, same⟩ := stored
  refine ⟨counted, trivial, trivial, _, inv.l_le, more, ?_, same.trans inv.length_eq, ?_, filled, ?_⟩
  · have := inv.idx_eq
    have := inv.written_eq
    simp only
    omega
  · simp
  · rw [← inv.merges, front, List.append_assoc, List.singleton_append]

/-- The elements that are left in both arrays. -/
def Merge.left (a b : List Int) (m : Merge) : Nat := (a.length - m.lIdx) + (b.length - m.rIdx)

/-- One of the inner loops, which is left in a state in which it would not have been entered. -/
theorem innerLoop_returns {body : Merge → Prog σ (Flow Merge Merge)} (keeps exits : Merge → Prop) {written : List Int}
    (iteration : ∀ m s written, m.Inv a b written → P m.idx s → keeps m → (body m).Ensures s fun flow s' =>
      match flow with
      | .again m' => P m'.idx s' ∧ (∃ written, m'.Inv a b written) ∧ keeps m' ∧ m'.left a b < m.left a b
      | .done m' => P m'.idx s' ∧ m' = m ∧ exits m)
    (inv : m.Inv a b written) (count : P m.idx s) (kept : keeps m) (enters : ¬ exits m) :
    (loop body m).Ensures s fun m' s' => P m'.idx s' ∧ (∃ written, m'.Inv a b written) ∧ m'.left a b < m.left a b := by
  refine ensures_loop_of_measure
    (fun m' s' => P m'.idx s' ∧ (∃ written, m'.Inv a b written) ∧ keeps m' ∧ (m' = m ∨ m'.left a b < m.left a b))
    (fun m' _ => m'.left a b) ?_ ⟨count, ⟨written, inv⟩, kept, .inl rfl⟩
  rintro m₁ s₁ ⟨count₁, ⟨written₁, inv₁⟩, kept₁, nearer⟩
  refine (iteration m₁ s₁ written₁ inv₁ count₁ kept₁).mono fun flow s' after => ?_
  cases flow with
  | again m₂ =>
    obtain ⟨count₂, inv₂, kept₂, less⟩ := after
    refine ⟨⟨count₂, inv₂, kept₂, .inr ?_⟩, less⟩
    obtain rfl | nearer := nearer
    · exact less
    · exact Nat.lt_trans less nearer
  | done m₂ =>
    obtain ⟨count₂, rfl, exited⟩ := after
    obtain rfl | nearer := nearer
    · exact absurd exited enters
    · exact ⟨count₂, ⟨written₁, inv₁⟩, nearer⟩

theorem merge_left_front {l r : Nat} (more : l < a.length) (r_end : b.length ≤ r) :
    (a.drop l).merge (b.drop r) = a[l] :: (a.drop (l + 1)).merge (b.drop r) := by
  rw [List.drop_eq_nil_of_le r_end, List.merge_right, List.merge_right, List.drop_eq_getElem_cons more]

theorem merge_right_front {l r : Nat} (l_end : a.length ≤ l) (more : r < b.length) :
    (a.drop l).merge (b.drop r) = b[r] :: (a.drop l).merge (b.drop (r + 1)) := by
  rw [List.drop_eq_nil_of_le l_end, List.nil_merge, List.nil_merge, List.drop_eq_getElem_cons more]

theorem merge_le_front {l r : Nat} (l_more : l < a.length) (r_more : r < b.length) (le : a[l] ≤ b[r]) :
    (a.drop l).merge (b.drop r) = a[l] :: (a.drop (l + 1)).merge (b.drop r) := by
  rw [List.drop_eq_getElem_cons l_more, List.drop_eq_getElem_cons r_more,
    List.cons_merge_cons_pos _ _ _ (decide_eq_true le)]

theorem merge_lt_front {l r : Nat} (l_more : l < a.length) (r_more : r < b.length) (lt : b[r] < a[l]) :
    (a.drop l).merge (b.drop r) = b[r] :: (a.drop l).merge (b.drop (r + 1)) := by
  rw [List.drop_eq_getElem_cons l_more, List.drop_eq_getElem_cons r_more,
    List.cons_merge_cons_neg _ _ _ (by simpa using lt)]

/-- What a round of the outer loop does. -/
def RoundEnds (P : Nat → σ → Prop) (a b : List Int) (m : Merge) : Flow Merge (List (Option Int)) → σ → Prop
  | .again m', s => P m'.idx s ∧ (∃ written, m'.Inv a b written) ∧ m'.left a b < m.left a b
  | .done cells, s => P (a.merge b).length s ∧ Filled cells (a.merge b) ∧ cells.length = (a.merge b).length

theorem ensures_again {p : Prog σ Merge}
    (ensured : p.Ensures s fun m' s' => P m'.idx s' ∧ (∃ written, m'.Inv a b written) ∧ m'.left a b < m.left a b) :
    (p >>= fun m' => return Flow.again m').Ensures s (RoundEnds P a b m) :=
  ensures_bind.mpr (ensured.mono fun _ _ after => ensures_pure.mpr after)

/-- Each round of the outer loop goes on in the merge. -/
theorem mergeRound_returns (puts : Puts put P) {written : List Int} (inv : m.Inv a b written) (count : P m.idx s) :
    (mergeRound put a b m).Ensures s (RoundEnds P a b m) := by
  rw [mergeRound]
  by_cases more : m.lIdx < a.length ∨ m.rIdx < b.length
  · rw [if_pos more]
    by_cases l_end : a.length ≤ m.lIdx
    · rw [if_pos l_end]
      have r_more : m.rIdx < b.length := by omega
      -- Only the right array is left.
      refine ensures_again (innerLoop_returns (fun m => a.length ≤ m.lIdx) (fun m => b.length ≤ m.rIdx) ?_ inv count
        l_end (Nat.not_le.mpr r_more))
      intro m₁ s₁ written₁ inv₁ count₁ l_end₁
      split
      · next more =>
        refine ensures_bind.mpr ((takeRight_returns puts inv₁ count₁ more (merge_right_front l_end₁ more)).mono
          fun m₂ s₂ taken => ?_)
        obtain ⟨count₂, l_eq, r_eq, inv₂⟩ := taken
        refine ensures_pure.mpr ⟨count₂, inv₂, by omega, ?_⟩
        simp only [Merge.left]
        omega
      · next done => exact ensures_pure.mpr ⟨count₁, rfl, Nat.not_lt.mp done⟩
    · rw [if_neg l_end]
      by_cases r_end : b.length ≤ m.rIdx
      · rw [if_pos r_end]
        -- Only the left array is left.
        refine ensures_again (innerLoop_returns (fun m => b.length ≤ m.rIdx) (fun m => a.length ≤ m.lIdx) ?_ inv count
          r_end l_end)
        intro m₁ s₁ written₁ inv₁ count₁ r_end₁
        split
        · next more =>
          refine ensures_bind.mpr ((takeLeft_returns puts inv₁ count₁ more (merge_left_front more r_end₁)).mono
            fun m₂ s₂ taken => ?_)
          obtain ⟨count₂, l_eq, r_eq, inv₂⟩ := taken
          refine ensures_pure.mpr ⟨count₂, inv₂, by omega, ?_⟩
          simp only [Merge.left]
          omega
        · next done => exact ensures_pure.mpr ⟨count₁, rfl, Nat.not_lt.mp done⟩
      · rw [if_neg r_end]
        have l_more : m.lIdx < a.length := Nat.not_le.mp l_end
        have r_more : m.rIdx < b.length := Nat.not_le.mp r_end
        simp only [ensures_bind, ensures_require]
        refine ⟨a[m.lIdx], List.getElem?_eq_getElem l_more, b[m.rIdx], List.getElem?_eq_getElem r_more, ?_⟩
        split
        · next le =>
          refine ensures_again ((takeLeft_returns puts inv count l_more (merge_le_front l_more r_more le)).mono
            fun m₂ s₂ taken => ?_)
          obtain ⟨count₂, l_eq, r_eq, inv₂⟩ := taken
          refine ⟨count₂, inv₂, ?_⟩
          simp only [Merge.left]
          omega
        · next lt =>
          -- The right array is taken from as long as its elements are smaller.
          refine ensures_again (innerLoop_returns (fun m₁ => m₁.lIdx = m.lIdx)
            (fun m₁ => ∀ more : m₁.rIdx < b.length, a[m.lIdx] ≤ b[m₁.rIdx]) ?_ inv count rfl
            fun exits => lt (exits r_more))
          intro m₁ s₁ written₁ inv₁ count₁ same
          split
          · next more =>
            simp only [ensures_bind, ensures_require]
            refine ⟨b[m₁.rIdx], List.getElem?_eq_getElem more, ?_⟩
            split
            · next less =>
              have front : (a.drop m₁.lIdx).merge (b.drop m₁.rIdx) = _ :=
                merge_lt_front (by omega) more (by simpa [same] using less)
              refine ensures_bind.mpr ((takeRight_returns puts inv₁ count₁ more front).mono fun m₂ s₂ taken => ?_)
              obtain ⟨count₂, l_eq, r_eq, inv₂⟩ := taken
              refine ensures_pure.mpr ⟨count₂, inv₂, by omega, ?_⟩
              simp only [Merge.left]
              omega
            · next least => exact ensures_pure.mpr ⟨count₁, rfl, fun _ => Int.not_lt.mp least⟩
          · next done => exact ensures_pure.mpr ⟨count₁, rfl, fun more => absurd more done⟩
  · rw [if_neg more, ensures_pure]
    obtain ⟨l_end, r_end⟩ := not_or.mp more
    have merged : written = a.merge b := by
      have merges := inv.merges
      rw [List.drop_eq_nil_of_le (by omega), List.drop_eq_nil_of_le (by omega)] at merges
      simpa using merges
    refine ⟨?_, merged ▸ inv.filled, ?_⟩
    · rwa [← merged, inv.written_eq]
    · have := inv.l_le
      have := inv.r_le
      rw [← merged, inv.length_eq, inv.written_eq, inv.idx_eq]
      omega

/-- Whatever `P` counts. -/
theorem mergeSortedArraysWith_returns (puts : Puts put P) (fits : a.length + b.length < 2 ^ 31) (start : P 0 s) :
    (mergeSortedArraysWith put a b).Ensures s fun merged s' => P (a.merge b).length s' ∧ merged = a.merge b := by
  have merged : (loop (mergeRound put a b) { lIdx := 0, rIdx := 0, idx := 0,
                                             result := List.replicate (a.length + b.length) none }).Ensures s
      fun cells s' => P (a.merge b).length s' ∧ Filled cells (a.merge b) ∧ cells.length = (a.merge b).length := by
    refine ensures_loop_of_measure (fun m s' => P m.idx s' ∧ ∃ written, m.Inv a b written) (fun m _ => m.left a b) ?_
      ⟨start, [], .init a b⟩
    rintro m s₁ ⟨count, written, inv⟩
    refine (mergeRound_returns puts inv count).mono fun flow s' after => ?_
    cases flow with
    | again m' => exact ⟨⟨after.1, after.2.1⟩, after.2.2⟩
    | done cells => exact after
  rw [mergeSortedArraysWith]
  refine ensures_bind.mpr ((addInt_returns fits).mono fun room s₁ added => ?_)
  obtain ⟨rfl, rfl⟩ := added
  refine ensures_bind.mpr (merged.mono fun cells s₂ result => ?_)
  obtain ⟨count, filled, full⟩ := result
  refine ensures_bind.mpr ((addInt_returns fits).mono fun len s₃ added => ?_)
  obtain ⟨rfl, rfl⟩ := added
  -- The result has `len` cells, and all of them are filled.
  have all : cells.length ≤ a.length + b.length := by
    rw [full, (List.merge_perm_append _).length_eq, List.length_append]
  rw [Int.toNat_natCast, List.take_of_length_le all]
  refine (filled.loadAll full).mono fun numbers s₄ loaded => ?_
  obtain ⟨rfl, same⟩ := loaded
  exact ⟨count, same⟩

/-- The lengths are added before anything is merged. -/
theorem mergeSortedArraysWith_fits : (mergeSortedArraysWith put a b).Yields s fun _ _ => a.length + b.length < 2 ^ 31 := by
  refine yields_bind.mpr (addInt_fits.mono fun room s₁ added => ?_)
  exact fun _ _ _ => added.2.2

theorem mergeSortedArrays_returns (fits : a.length + b.length < 2 ^ 31) :
    (mergeSortedArrays a b).Ensures s fun merged s' => s' = s ∧ merged = a.merge b :=
  mergeSortedArraysWith_returns (store_puts s) fits rfl

/-- Nothing but the result is written. -/
theorem mergeSortedArrays_silent : (mergeSortedArrays a b).Yields s fun _ s' => s' = s := by
  intro merged s' returned
  have fits := mergeSortedArraysWith_fits merged s' returned
  exact ((mergeSortedArrays_returns fits).of_returns returned).1

end SysprogLabs.FileSort
