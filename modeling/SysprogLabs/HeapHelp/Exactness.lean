import SysprogLabs.HeapHelp.Calls
import Mathlib.Data.Option.Basic

/-! # When the tracker knows exactly the live blocks

`alloc_free` and `alloc_trace_new` keep the list right, but not every answer of the allocator
reaches them: a `realloc` in place leaves the old size in the record, one that fails throws the
record of a block away that is still there, and `alloc_is_static` also holds of the address right
behind the static buffer.  Without these three the tracker is exact in every run.
-/

namespace SysprogLabs.HeapHelp

open Prog

variable {s s' : State} {tracked : Traced} {event : Call × System}

/-- `allocs` has one record for each block given out, with its address and its size, and no other;
    `alloc_count` is its length; the records of `allocs`, those of `alloc_pool` and the unused ones of
    the current batch are different. -/
def State.Exact (s : State) : Prop :=
  ∃ live pool, Chain s.records.link s.records.allocs live ∧ Chain s.records.link s.records.allocPool pool ∧
    (live.map s.records.entry).Perm (s.blocks.map some) ∧ s.records.allocCount = live.length ∧
    (live ++ pool ++ s.records.unused).Nodup

/-- No new block starts right behind the static buffer; a `realloc` in place keeps the size, and one
    that fails has released the block. -/
def KeepsTrack (s : State) (event : Call × System) : Prop :=
  match event.1 with
  | .free _ => True
  | call => ¬ s.allocIsStatic event.2.result ∧ (s.replaced call ≠ 0 →
      (event.2.result = s.replaced call → (s.replaced call, call.size) ∈ s.blocks) ∧
      (event.2.result = 0 → event.2.released = true))

/-- The list is exact when the blocks it tracks are those given out. -/
theorem State.Becomes.exact_iff {blocks : Blocks} (becomes : s.Becomes tracked blocks s') :
    s'.Exact ↔ tracked.blocks.Perm blocks := by
  obtain ⟨r, rfl, ⟨live, pool, holds, entries⟩, -⟩ := becomes
  have entries : live.map r.entry = tracked.blocks.map some := Records.entries_eq entries
  constructor
  · rintro ⟨live', pool', listed, -, exact, -⟩
    obtain rfl := Chain.unique listed holds.listed
    have exact : (live'.map r.entry).Perm (blocks.map some) := exact
    rw [entries] at exact
    exact (List.map_perm_map_iff (Option.some_injective _)).mp exact
  · intro exact
    refine ⟨live, pool, holds.listed, holds.pooled, ?_, holds.count, holds.apart⟩
    have exact : (live.map r.entry).Perm (blocks.map some) := entries ▸ exact.map some
    exact exact

theorem Apart.ne {a b : Address × Nat} (apart : Apart a b) : a.1 ≠ b.1 := by
  intro same
  rw [Apart, same] at apart
  have positive : ∀ n, 0 < max n 1 := fun n => by omega
  obtain beyond | beyond := apart
  · exact Nat.not_le_of_lt (Nat.lt_add_of_pos_right (positive a.2)) beyond
  · exact Nat.not_le_of_lt (Nat.lt_add_of_pos_right (positive b.2)) beyond

namespace State.Tracks

theorem without_exact (tracks : s.Tracks tracked) (ptr : Address) :
    (Traced.blocks (tracked.without ptr)).Perm (s.blocks.without ptr) := by
  rw [Traced.blocks_without]
  exact tracks.exact.filter _

/-- A block that stays although its record goes is a live one. -/
theorem kept_iff (tracks : s.Tracks tracked) {ptr : Address} :
    (Traced.blocks (tracked.without ptr)).Perm s.blocks ↔ ptr ∉ s.blocks.map Prod.fst := by
  constructor
  · intro exact mem
    rw [Traced.blocks_without] at exact
    exact BlocksWith.not_mem_without ((exact.map Prod.fst).mem_iff.mpr mem)
  · intro absent
    rw [(tracks.without_absent absent).1]
    exact tracks.exact

theorem inPlace_iff (tracks : s.Tracks tracked) {ptr size : Nat} :
    tracked.blocks.Perm ((ptr, size) :: s.blocks.without ptr) ↔ (ptr, size) ∈ s.blocks := by
  constructor
  · intro exact
    exact tracks.exact.mem_iff.mp (exact.mem_iff.mpr List.mem_cons_self)
  · intro mem
    exact tracks.exact.trans (BlocksWith.perm_cons_without tracks.distinct mem).symm

theorem moved_iff (tracks : s.Tracks tracked) {ptr new size : Nat} {trace : List Address} :
    (s.track (new, size, trace) (tracked.without ptr)).blocks.Perm ((new, size) :: s.blocks.without ptr) ↔
      ¬ s.allocIsStatic new := by
  have exact := tracks.without_exact ptr
  rw [State.track]
  split
  · next static =>
    refine iff_of_false (fun longer => ?_) (not_not_intro static)
    have lengths := longer.length_eq
    rw [List.length_cons, exact.length_eq] at lengths
    omega
  · next heap => exact iff_of_true (exact.cons (new, size)) heap

/-- A call that replaces the block at `ptr`, or none if it is `NULL`. -/
theorem replaces_iff (tracks : s.Tracks tracked) {sys : System} {ptr size : Nat}
    (valid : ptr = 0 ∨ ptr ∈ s.blocks.map Prod.fst) :
    (Traced.blocks (if sys.result = 0 then tracked.without ptr
      else if sys.result = ptr then tracked
      else s.track (sys.result, size, sys.trace) (tracked.without ptr))).Perm (s.reallocated sys ptr size) ↔
    ¬ s.allocIsStatic sys.result ∧ (ptr ≠ 0 →
      (sys.result = ptr → (ptr, size) ∈ s.blocks) ∧ (sys.result = 0 → sys.released = true)) := by
  have null : ¬ s.allocIsStatic 0 := fun static => static.1 rfl
  simp only [State.reallocated]
  by_cases failed : sys.result = 0
  · simp only [failed, if_true, null, not_false_eq_true, true_and, forall_const]
    cases released : sys.released with
    | true =>
      refine iff_of_true ?_ fun nonnull => ⟨fun same => absurd same.symm nonnull, rfl⟩
      simpa using tracks.without_exact ptr
    | false =>
      simp only [Bool.false_eq_true, if_false, and_false, imp_false, not_not, tracks.kept_iff]
      constructor
      · exact fun absent => valid.resolve_right absent
      · rintro rfl
        exact tracks.null_absent
  · simp only [failed, if_false, false_implies, and_true]
    by_cases same : sys.result = ptr
    · subst same
      simp only [if_true, forall_const, tracks.inPlace_iff]
      have live := valid.resolve_left failed
      simp [(tracks.live live).2, failed]
    · simp [same, tracks.moved_iff]

/-- A call keeps the list exact when it keeps track. -/
theorem after_iff (tracks : s.Tracks tracked) (valid : s.Valid event.1) :
    (s.trackedAfter event tracked).blocks.Perm (s.blocksAfter event) ↔ KeepsTrack s event := by
  obtain ⟨call, sys⟩ := event
  cases call with
  | free ptr => exact iff_of_true (tracks.without_exact ptr) trivial
  | malloc | calloc => exact tracks.replaces_iff (.inl rfl)
  | realloc => exact tracks.replaces_iff valid

/-- Taking a block out keeps the rest apart and off the static buffer. -/
theorem sound_without (tracks : s.Tracks tracked) (ptr : Address) :
    ((s.blocks.without ptr).map Prod.fst).Nodup ∧ ∀ b ∈ s.blocks.without ptr, b.1 ≠ 0 ∧ ¬ s.allocIsStatic b.1 :=
  ⟨BlocksWith.nodup_without tracks.distinct, fun b mem => tracks.heap b (BlocksWith.mem_without.mp mem).1⟩

theorem sound_reallocated (tracks : s.Tracks tracked) {sys : System} {ptr size : Nat}
    (fits : sys.result ≠ 0 → s.Fits (s.blocks.without ptr) (sys.result, size)) (heap : ¬ s.allocIsStatic sys.result) :
    ((s.reallocated sys ptr size).map Prod.fst).Nodup ∧
      ∀ b ∈ s.reallocated sys ptr size, b.1 ≠ 0 ∧ ¬ s.allocIsStatic b.1 := by
  obtain ⟨distinct, off⟩ := tracks.sound_without ptr
  simp only [State.reallocated]
  split
  · split
    · exact ⟨distinct, off⟩
    · exact ⟨tracks.distinct, tracks.heap⟩
  · next given =>
    have new : sys.result ∉ (s.blocks.without ptr).map Prod.fst := by
      intro mem
      obtain ⟨b, mem, same⟩ := List.mem_map.mp mem
      exact ((fits given).2.1 b mem).ne same.symm
    refine ⟨List.nodup_cons.mpr ⟨new, distinct⟩, fun b mem => ?_⟩
    obtain rfl | mem := List.mem_cons.mp mem
    · exact ⟨given, heap⟩
    · exact off b mem

/-- When a call keeps track, the blocks given out stay apart and off the static buffer. -/
theorem after (tracks : s.Tracks tracked) (step : Step s event s') (keeps : KeepsTrack s event) :
    s'.Tracks (s.trackedAfter event tracked) := by
  have effect := step.effect tracks
  have exact := (tracks.after_iff (step.valid tracks)).mpr keeps
  have sound : ((s.blocksAfter event).map Prod.fst).Nodup ∧
      ∀ b ∈ s.blocksAfter event, b.1 ≠ 0 ∧ ¬ s.allocIsStatic b.1 := by
    obtain ⟨call, sys⟩ := event
    cases call with
    | free ptr => exact tracks.sound_without ptr
    | malloc | calloc | realloc => exact tracks.sound_reallocated step.1.fits keeps.1
  have quiet := effect.quiet tracks.quiet
  obtain ⟨r, rfl, records, -⟩ := effect
  exact ⟨quiet, records, exact, sound.1, sound.2⟩

end State.Tracks

/-! ## Runs -/

theorem start_tracks (staticBuf : Address) : (State.start staticBuf).Tracks [] where
  quiet := ⟨rfl, rfl, rfl, rfl⟩
  records := ⟨[], [], ⟨rfl, rfl, .nil, by simp, by simp [State.start], rfl⟩, rfl⟩
  exact := .nil
  distinct := .nil
  heap := by simp [State.start]

theorem Step.exact_iff (step : Step s event s') (tracks : s.Tracks tracked) : s'.Exact ↔ KeepsTrack s event :=
  (step.effect tracks).exact_iff.trans (tracks.after_iff (step.valid tracks))

/-- The tracker has exactly the live blocks in every state of a run, if and only if every step of
    the run keeps track. -/
theorem tracker_exact {staticBuf : Address} {events : List (Call × System)} :
    Run (fun s event s' => Step s event s' ∧ s'.Exact) (.start staticBuf) events s ↔
      Run (fun s event s' => Step s event s' ∧ KeepsTrack s event) (.start staticBuf) events s := by
  have start : ∃ tracked, (State.start staticBuf).Tracks tracked := ⟨[], start_tracks staticBuf⟩
  constructor
  · intro run
    refine run.strengthen (I := fun s => ∃ tracked, s.Tracks tracked) start
      fun s event s' ⟨tracked, tracks⟩ ⟨step, exact⟩ => ?_
    have keeps := (step.exact_iff tracks).mp exact
    exact ⟨⟨step, keeps⟩, _, tracks.after step keeps⟩
  · intro run
    refine run.strengthen (I := fun s => ∃ tracked, s.Tracks tracked) start
      fun s event s' ⟨tracked, tracks⟩ ⟨step, keeps⟩ => ?_
    exact ⟨⟨step, (step.exact_iff tracks).mpr keeps⟩, _, tracks.after step keeps⟩

-- Ten bytes are allocated and the block is then enlarged in place: its record still says ten.
theorem enlarged_keeps_size : ∃ events s, Run Step (.start 0) events s ∧ ¬ s.Exact := by
  let sys : System := { result := 4096, released := false, mapped := true, trace := [] }
  have tracks := start_tracks 0
  have possible : sys.Possible (.start 0) (.malloc 10) := ⟨fun _ => by decide, by decide⟩
  obtain ⟨⟨⟩, s₁, returned, becomes⟩ := Call.run_returns tracks possible trivial rfl
  have first : Step (.start 0) (.malloc 10, sys) s₁ := ⟨possible, returned⟩
  have tracks₁ := tracks.after first ⟨by decide, fun other => absurd rfl other⟩
  obtain ⟨r, rfl, -, -⟩ := becomes
  generalize into : State.mk r _ _ _ _ _ _ = s₁ at first tracks₁
  have replaced : s₁.replaced (.realloc 4096 20) = 4096 := by subst into; rfl
  have blocks : s₁.blocks = [(4096, 10)] := by subst into; rfl
  have possible₁ : sys.Possible s₁ (.realloc 4096 20) := by
    constructor
    · intro _
      rw [replaced, blocks]
      subst into
      exact show (State.start 0).Fits [] (4096, 20) by decide
    · decide
  have valid : s₁.Valid (.realloc 4096 20) := .inr (by rw [replaced, blocks]; decide)
  obtain ⟨⟨⟩, s₂, returned₁, -⟩ := Call.run_returns tracks₁ possible₁ valid rfl
  have second : Step s₁ (.realloc 4096 20, sys) s₂ := ⟨possible₁, returned₁⟩
  refine ⟨[(.malloc 10, sys), (.realloc 4096 20, sys)], s₂, .cons first (.single second), fun exact => ?_⟩
  have keeps := ((second.exact_iff tracks₁).mp exact).2
  rw [replaced, blocks] at keeps
  exact absurd ((keeps (by decide)).1 rfl) (by decide)

end SysprogLabs.HeapHelp
