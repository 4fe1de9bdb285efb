import SysprogLabs.HeapHelp.Tracking
import SysprogLabs.Lib.Machine

/-! # The calls of the user

What a whole call does to the tracked blocks and to the blocks the system allocator has given out
(`Step.effect`), and from it when the two stay the same.
-/

namespace SysprogLabs.HeapHelp

open Prog

variable {s s' : State} {tracked : Traced} {sys : System} {event : Call × System}

/-! ## Mapping a batch -/

/-- The answers in which `mmap` succeeds. -/
def System.mapping (sys : System) : System := { sys with mapped := true }

theorem takeRecord_below (mapped : Bool) : (takeRecord mapped).Below (takeRecord true) := by
  cases mapped with
  | true => exact .refl _
  | false =>
    have map : (mapBatch false).Below (mapBatch true) := by
      refine .bind ?_ fun _ => .refl _
      exact Below.fault
    have current : (currentBatch false).Below (currentBatch true) :=
      .bind (.refl _) fun _ => .ite map (.bind (.refl _) fun _ => .ite map (.refl _))
    refine .bind (.refl _) fun _ => .bind (.refl _) fun pool => ?_
    cases pool with
    | some a => exact .refl _
    | none => exact .bind current fun _ => .refl _

theorem allocTraceNew_below (ptr : Address) (size : Nat) :
    (alone.allocTraceNew sys ptr size).Below (alone.allocTraceNew sys.mapping ptr size) :=
  .bind (.refl _) fun _ => .ite (.refl _) (.ite (.refl _) (.bind (.refl _) fun _ => .bind (.refl _) fun _ =>
    .bind (.refl _) fun _ => .ite (.refl _) (.bind (.zoom (takeRecord_below _)) fun _ => .refl _)))

/-- A call that returns does not need `mmap` to fail. -/
theorem Call.run_below (call : Call) : (call.run sys).Below (call.run sys.mapping) := by
  cases call with
  | malloc size | calloc num size =>
    exact .bind (.bind (.refl _) fun _ => .bind (.refl _) fun _ => .bind (.refl _) fun res =>
      .ite (.bind (allocTraceNew_below res _) fun _ => .refl _) (.refl _)) fun _ => .refl _
  | realloc ptr size =>
    refine .bind (.bind (.refl _) fun _ => .bind (.refl _) fun _ => .bind (.refl _) fun s =>
      .bind (.refl _) fun res => ?_) fun _ => .refl _
    refine .ite (.bind (allocTraceNew_below res size) fun _ => .refl _) (.ite (.refl _) ?_)
    exact .ite (.bind (.refl _) fun _ => .bind (allocTraceNew_below res size) fun _ => .refl _) (.refl _)
  | free ptr => exact .refl _

/-! ## One call -/

/-- Between the initialisation and the exit handler, in the middle of no call. -/
structure State.Quiet (s : State) : Prop where
  isInitDone : s.isInitDone = true
  isExitDone : s.isExitDone = false
  depth : s.depth = 0
  unlocked : s.records.allocsLock = false

/-- In the middle of a call of the user. -/
structure State.Busy (s : State) : Prop where
  isInitDone : s.isInitDone = true
  isExitDone : s.isExitDone = false
  depth : s.depth = 1
  unlocked : s.records.allocsLock = false

/-- What a new block adds to the tracked ones. -/
def State.track (s : State) (block : Address × Nat × List Address) (tracked : Traced) : Traced :=
  if s.allocIsStatic block.1 then tracked else block :: tracked

/-- Only the records and the blocks given out have changed. -/
def State.Becomes (s : State) (tracked : Traced) (blocks : Blocks) (s' : State) : Prop :=
  ∃ r, s' = { s with records := r, blocks := blocks } ∧ r.Tracks [] tracked ∧ r.allocsLock = false

theorem State.Becomes.quiet {blocks : Blocks} (becomes : s.Becomes tracked blocks s') (quiet : s.Quiet) :
    s'.Quiet := by
  obtain ⟨r, rfl, -, unlocked⟩ := becomes
  exact ⟨quiet.isInitDone, quiet.isExitDone, quiet.depth, unlocked⟩

theorem allocTraceNew_returns (busy : s.Busy) (tracks : s.records.Tracks [] tracked) (mapped : sys.mapped = true)
    (ptr : Address) (size : Nat) :
    (alone.allocTraceNew sys ptr size).Ensures s fun _ s' =>
      s.Becomes (s.track (ptr, size, sys.trace) tracked) s.blocks s' := by
  simp only [Site.allocTraceNew, alone, ensures_bind, ensures_read, id, ensures_ite, ensures_pure, ensures_heaphAssert,
    ensures_zoom, recordsPart_get, recordsPart_set, busy.isInitDone, busy.isExitDone, busy.depth, State.track]
  split
  · exact ⟨s.records, rfl, tracks, busy.unlocked⟩
  · rw [if_neg (by decide), if_neg (by decide), if_pos trivial, mapped]
    have traced := newRecord_returns tracks busy.unlocked ptr size sys.trace
    simp only [ensures_bind] at traced
    refine ⟨by decide, trivial, traced.mono fun a r₁ written => written.mono fun _ r₂ written => ?_⟩
    refine written.mono fun _ r₃ written => written.mono fun _ r₄ linked => linked.mono fun _ r result => ?_
    exact ⟨r, by rw [busy.isInitDone, busy.isExitDone, busy.depth], result⟩

theorem allocFree_returns {ptr size : Nat} {trace : List Address} {before after : Traced} (busy : s.Busy)
    (tracks : s.records.Tracks [] (before ++ (ptr, size, trace) :: after)) (first : ptr ∉ before.map Prod.fst)
    (heap : ¬ s.allocIsStatic ptr) :
    (alone.allocFree ptr).Ensures s fun _ s' => s.Becomes (before ++ after) s.blocks s' := by
  simp only [Site.allocFree, alone, ensures_bind, ensures_read, id, ensures_ite, ensures_pure, ensures_heaphAssert,
    ensures_zoom, recordsPart_get, recordsPart_set, busy.isInitDone, busy.isExitDone, busy.depth]
  rw [if_neg heap, if_neg (by decide), if_neg (by decide)]
  refine ⟨trivial, (freeRecord_returns tracks first busy.unlocked).mono fun _ r result => ?_⟩
  exact ⟨r, by rw [busy.isInitDone, busy.isExitDone, busy.depth], result⟩

theorem ensures_heaphTouch {Q : Unit → State → Prop} (initialised : s.isInitDone = true) :
    heaphTouch.Ensures s Q ↔ Q () s := by
  simp [heaphTouch, initialised]

theorem State.Quiet.enter (quiet : s.Quiet) : { s with depth := s.depth + 1 }.Busy :=
  ⟨quiet.isInitDone, quiet.isExitDone, by simp [quiet.depth], quiet.unlocked⟩

/-- Behind a call the depth is what it was before. -/
theorem State.Becomes.leave {depth : Int} {blocks : Blocks}
    (becomes : { s with depth := depth + 1 }.Becomes tracked blocks s') (same : s.depth = depth) :
    s.Becomes tracked blocks { s' with depth := s'.depth - 1 } := by
  obtain ⟨r, rfl, result⟩ := becomes
  refine ⟨r, ?_, result⟩
  simp [← same]

/-- `malloc` and `calloc`: the call gives out a block of one size and records another one. -/
theorem allocate_returns (quiet : s.Quiet) (tracks : s.records.Tracks [] tracked) (mapped : sys.mapped = true)
    (size recorded : Nat) :
    Prog.Ensures (do
      heaphTouch
      HeapHelp.enter
      let res ← defaultMalloc sys size
      if res ≠ 0 then alone.allocTraceNew sys res recorded
      leave
      return res) s fun _ s' =>
        if sys.result = 0 then s.Becomes tracked s.blocks s'
        else s.Becomes (s.track (sys.result, recorded, sys.trace) tracked) ((sys.result, size) :: s.blocks) s' := by
  simp only [ensures_bind, ensures_heaphTouch quiet.isInitDone, HeapHelp.enter, ensures_update, defaultMalloc,
    ensures_when, ensures_ite, ensures_pure, leave]
  by_cases failed : sys.result = 0
  · simp only [failed, ne_eq, not_true_eq_false, if_false, if_true]
    exact State.Becomes.leave ⟨s.records, rfl, tracks, quiet.unlocked⟩ rfl
  · simp only [failed, ne_eq, not_false_eq_true, if_false, if_true]
    have busy : ({ s with depth := s.depth + 1 }.addBlock (sys.result, size)).Busy :=
      ⟨quiet.enter.isInitDone, quiet.enter.isExitDone, quiet.enter.depth, quiet.unlocked⟩
    refine (allocTraceNew_returns busy tracks mapped sys.result recorded).mono fun _ s' becomes => ?_
    obtain ⟨r, rfl, result⟩ := becomes
    exact State.Becomes.leave ⟨r, rfl, result⟩ rfl

/-! ## Blocks by address -/

namespace BlocksWith

variable {β : Type} {blocks : BlocksWith β} {ptr : Address} {x : β}

theorem without_absent (absent : ptr ∉ blocks.map Prod.fst) : blocks.without ptr = blocks := by
  apply List.filter_eq_self.mpr
  intro b mem
  have other : b.1 ≠ ptr := fun same => absent (List.mem_map.mpr ⟨b, mem, same⟩)
  simpa using other

theorem mem_without {b : Address × β} : b ∈ blocks.without ptr ↔ b ∈ blocks ∧ b.1 ≠ ptr := by
  simp [without]

theorem not_mem_without : ptr ∉ (blocks.without ptr).map Prod.fst := by
  intro mem
  obtain ⟨b, mem, same⟩ := List.mem_map.mp mem
  exact (mem_without.mp mem).2 same

theorem nodup_without (distinct : (blocks.map Prod.fst).Nodup) : ((blocks.without ptr).map Prod.fst).Nodup :=
  distinct.sublist (List.filter_sublist.map Prod.fst)

/-- The first block with an address is the only one. -/
theorem split (distinct : (blocks.map Prod.fst).Nodup) (mem : ptr ∈ blocks.map Prod.fst) :
    ∃ before x after, blocks = before ++ (ptr, x) :: after ∧ ptr ∉ before.map Prod.fst ∧
      blocks.without ptr = before ++ after := by
  obtain ⟨⟨address, x⟩, present, same⟩ := List.mem_map.mp mem
  have same : ptr = address := same.symm
  subst same
  obtain ⟨before, after, rfl⟩ := List.append_of_mem present
  simp only [List.map_append, List.map_cons, List.nodup_append, List.nodup_cons, List.mem_cons] at distinct
  have front : ptr ∉ before.map Prod.fst := fun mem => distinct.2.2 ptr mem ptr (.inl rfl) rfl
  refine ⟨before, x, after, rfl, front, ?_⟩
  rw [without, List.filter_append, List.filter_cons_of_neg (by simp)]
  exact congrArg₂ _ (without_absent front) (without_absent distinct.2.1.1)

/-- Taking a block out and putting it back is a permutation. -/
theorem perm_cons_without (distinct : (blocks.map Prod.fst).Nodup) (mem : (ptr, x) ∈ blocks) :
    ((ptr, x) :: blocks.without ptr).Perm blocks := by
  obtain ⟨before, x', after, rfl, -, without⟩ := split distinct (List.mem_map.mpr ⟨_, mem, rfl⟩)
  rw [without]
  have same : x = x' := by
    by_contra other
    have behind : (ptr, x) ∈ before ++ after := by simpa [other] using mem
    rw [← without] at behind
    exact (mem_without.mp behind).2 rfl
  subst same
  exact List.perm_middle.symm

end BlocksWith

/-! ## `realloc` and `free` -/

/-- Between calls: the tracked blocks are those given out, which are off the static buffer. -/
structure State.Tracks (s : State) (tracked : Traced) : Prop where
  quiet : s.Quiet
  records : s.records.Tracks [] tracked
  exact : tracked.blocks.Perm s.blocks
  distinct : (s.blocks.map Prod.fst).Nodup
  heap : ∀ b ∈ s.blocks, b.1 ≠ 0 ∧ ¬ s.allocIsStatic b.1

namespace State.Tracks

theorem mem_iff (tracks : s.Tracks tracked) {ptr : Address} :
    ptr ∈ tracked.map Prod.fst ↔ ptr ∈ s.blocks.map Prod.fst := by
  rw [← Traced.map_blocks]
  exact (tracks.exact.map Prod.fst).mem_iff

theorem tracked_distinct (tracks : s.Tracks tracked) : (tracked.map Prod.fst).Nodup := by
  rw [← Traced.map_blocks]
  exact (tracks.exact.map Prod.fst).nodup_iff.mpr tracks.distinct

theorem live (tracks : s.Tracks tracked) {ptr : Address} (mem : ptr ∈ s.blocks.map Prod.fst) :
    ptr ≠ 0 ∧ ¬ s.allocIsStatic ptr := by
  obtain ⟨b, present, rfl⟩ := List.mem_map.mp mem
  exact tracks.heap b present

end State.Tracks

theorem defaultFree_returns {ptr : Address} {Q : Unit → State → Prop} (live : ptr ∈ s.blocks.map Prod.fst)
    (holds : Q () (s.dropBlock ptr)) : (defaultFree ptr).Ensures s Q := by
  simp only [defaultFree, ensures_bind, ensures_read, id, ensures_ite, ensures_update]
  rw [if_pos live]
  exact holds

theorem free_returns {ptr : Address} (tracks : s.Tracks tracked) (live : ptr ∈ s.blocks.map Prod.fst) :
    (alone.free ptr).Ensures s fun _ s' => s.Becomes (tracked.without ptr) (s.blocks.without ptr) s' := by
  obtain ⟨nonnull, heap⟩ := tracks.live live
  obtain ⟨before, ⟨size, trace⟩, after, rfl, first, without⟩ :=
    BlocksWith.split tracks.tracked_distinct (tracks.mem_iff.mpr live)
  simp only [Site.free, alone, ensures_bind, ensures_read, id, ensures_ite, if_neg nonnull, if_neg heap,
    ensures_heaphTouch tracks.quiet.isInitDone, HeapHelp.enter, leave, ensures_update]
  refine (allocFree_returns tracks.quiet.enter tracks.records first heap).mono fun _ s' becomes => ?_
  obtain ⟨r, rfl, result⟩ := becomes
  refine defaultFree_returns live (State.Becomes.leave ⟨r, rfl, ?_⟩ rfl)
  rw [without]
  exact result

/-- The blocks given out when `realloc` of a live block has been answered. -/
def State.reallocated (s : State) (sys : System) (ptr size : Nat) : Blocks :=
  if sys.result = 0 then if sys.released then s.blocks.without ptr else s.blocks
  else (sys.result, size) :: s.blocks.without ptr

theorem defaultRealloc_returns {ptr size : Nat} {Q : Address → State → Prop} (nonnull : ptr ≠ 0)
    (live : ptr ∈ s.blocks.map Prod.fst)
    (holds : Q sys.result { s with blocks := s.reallocated sys ptr size }) :
    (defaultRealloc sys ptr size).Ensures s Q := by
  have dropped : (defaultFree ptr).Ensures s fun _ s' => s' = s.dropBlock ptr := defaultFree_returns live rfl
  simp only [defaultRealloc, ensures_ite, if_neg nonnull, ensures_bind, ensures_read, id, ensures_pure, if_pos live]
  simp only [State.reallocated] at holds
  by_cases failed : sys.result = 0
  · cases released : sys.released with
    | false =>
      rw [if_pos ⟨failed, rfl⟩]
      simpa [failed, released] using holds
    | true =>
      rw [if_neg (by simp)]
      refine dropped.mono fun _ s' same => ?_
      subst same
      simpa [defaultMalloc, State.dropBlock, failed, released] using holds
  · rw [if_neg fun both => failed both.1]
    refine dropped.mono fun _ s' same => ?_
    subst same
    simpa [defaultMalloc, State.dropBlock, State.addBlock, failed] using holds

/-- `realloc` of a live block: without a result its record goes, in place the record stays as it is,
    and otherwise the block gets a new record. -/
theorem realloc_returns {ptr size : Nat} (tracks : s.Tracks tracked) (live : ptr ∈ s.blocks.map Prod.fst)
    (mapped : sys.mapped = true) :
    (alone.realloc sys ptr size).Ensures s fun _ s' => s.Becomes
      (if sys.result = 0 then tracked.without ptr
        else if sys.result = ptr then tracked
        else s.track (sys.result, size, sys.trace) (tracked.without ptr))
      (s.reallocated sys ptr size) s' := by
  obtain ⟨nonnull, heap⟩ := tracks.live live
  obtain ⟨before, ⟨old, trace⟩, after, rfl, first, without⟩ :=
    BlocksWith.split tracks.tracked_distinct (tracks.mem_iff.mpr live)
  have busy := tracks.quiet.enter
  have heap' : ¬ { s with depth := s.depth + 1 }.allocIsStatic ptr := heap
  simp only [Site.realloc, alone, ensures_bind, ensures_heaphTouch tracks.quiet.isInitDone, HeapHelp.enter,
    ensures_update, ensures_read, id, if_neg heap']
  apply defaultRealloc_returns (s := { s with depth := s.depth + 1 }) nonnull live
  have busy' : { s with depth := s.depth + 1, blocks := s.reallocated sys ptr size }.Busy :=
    ⟨busy.isInitDone, busy.isExitDone, busy.depth, busy.unlocked⟩
  have freed := allocFree_returns busy' tracks.records first heap
  rw [without]
  simp only [leave]
  by_cases failed : sys.result = 0
  · simp only [failed, nonnull, false_and, if_false, ne_eq, not_false_eq_true, true_and, if_true, ensures_bind,
      ensures_update, ensures_pure]
    refine freed.mono fun _ s' becomes => ?_
    obtain ⟨r, rfl, result⟩ := becomes
    exact State.Becomes.leave ⟨r, rfl, result⟩ rfl
  · by_cases same : sys.result = ptr
    · simp only [nonnull, same, false_and, if_false, ne_eq, not_true_eq_false, and_false, if_true, ensures_bind,
        ensures_update, ensures_pure]
      exact State.Becomes.leave ⟨s.records, rfl, tracks.records, tracks.quiet.unlocked⟩ rfl
    · simp only [failed, nonnull, same, false_and, if_false, ne_eq, not_false_eq_true, true_and, if_true, ensures_bind,
        ensures_update, ensures_pure]
      refine freed.mono fun _ s' becomes => ?_
      obtain ⟨r, rfl, tracks', unlocked⟩ := becomes
      have busy'' : { s with records := r, depth := s.depth + 1, blocks := s.reallocated sys ptr size }.Busy :=
        ⟨busy.isInitDone, busy.isExitDone, busy.depth, unlocked⟩
      refine (allocTraceNew_returns busy'' tracks' mapped sys.result size).mono fun _ s' becomes => ?_
      obtain ⟨r', rfl, result⟩ := becomes
      exact State.Becomes.leave ⟨r', rfl, result⟩ rfl

/-! ## Every call -/

/-- The call is not given a dangling pointer. -/
def State.Valid (s : State) (call : Call) : Prop :=
  match call with
  | .realloc .. => s.replaced call = 0 ∨ s.replaced call ∈ s.blocks.map Prod.fst
  | .free ptr => ptr = 0 ∨ s.allocIsStatic ptr ∨ ptr ∈ s.blocks.map Prod.fst
  | _ => True

/-- The blocks given out behind a call. -/
def State.blocksAfter (s : State) (event : Call × System) : Blocks :=
  match event.1 with
  | .free ptr => s.blocks.without ptr
  | call => s.reallocated event.2 (s.replaced call) call.size

/-- The blocks tracked behind a call. -/
def State.trackedAfter (s : State) (event : Call × System) (tracked : Traced) : Traced :=
  match event.1 with
  | .free ptr => tracked.without ptr
  | call =>
    if event.2.result = 0 then tracked.without (s.replaced call)
    else if event.2.result = s.replaced call then tracked
    else s.track (event.2.result, call.size, event.2.trace) (tracked.without (s.replaced call))

namespace State.Tracks

theorem without_absent (tracks : s.Tracks tracked) {ptr : Address} (absent : ptr ∉ s.blocks.map Prod.fst) :
    tracked.without ptr = tracked ∧ s.blocks.without ptr = s.blocks :=
  ⟨BlocksWith.without_absent (mt tracks.mem_iff.mp absent), BlocksWith.without_absent absent⟩

theorem null_absent (tracks : s.Tracks tracked) : 0 ∉ s.blocks.map Prod.fst :=
  fun mem => (tracks.live mem).1 rfl

theorem static_absent (tracks : s.Tracks tracked) {ptr : Address} (static : s.allocIsStatic ptr) :
    ptr ∉ s.blocks.map Prod.fst :=
  fun mem => (tracks.live mem).2 static

/-- A call that replaces no block. -/
theorem allocates (tracks : s.Tracks tracked) {call : Call} (nothing : s.replaced call = 0)
    (allocating : ∀ ptr, call ≠ .free ptr) {size : Nat} (same : sys.result ≠ 0 → size = call.size)
    (becomes : if sys.result = 0 then s.Becomes tracked s.blocks s'
      else s.Becomes (s.track (sys.result, size, sys.trace) tracked) ((sys.result, call.size) :: s.blocks) s') :
    s.Becomes (s.trackedAfter (call, sys) tracked) (s.blocksAfter (call, sys)) s' := by
  obtain ⟨kept, kept'⟩ := tracks.without_absent tracks.null_absent
  have after : s.trackedAfter (call, sys) tracked = if sys.result = 0 then tracked
      else s.track (sys.result, call.size, sys.trace) tracked := by
    cases call with
    | free ptr => exact absurd rfl (allocating ptr)
    | malloc | calloc | realloc => simp +contextual [trackedAfter, nothing, kept]
  have after' : s.blocksAfter (call, sys) = if sys.result = 0 then s.blocks
      else (sys.result, call.size) :: s.blocks := by
    cases call with
    | free ptr => exact absurd rfl (allocating ptr)
    | malloc | calloc | realloc => simp [blocksAfter, reallocated, nothing, kept']
  rw [after, after']
  by_cases failed : sys.result = 0
  · simpa only [failed, if_true] using becomes
  · rw [if_neg failed, same failed] at becomes
    rw [if_neg failed, if_neg failed]
    exact becomes

end State.Tracks

/-- `realloc` of no block. -/
theorem realloc_null_returns {ptr size : Nat} (tracks : s.Tracks tracked) (nothing : s.replaced (.realloc ptr size) = 0)
    (mapped : sys.mapped = true) :
    (alone.realloc sys ptr size).Ensures s fun _ s' =>
      if sys.result = 0 then s.Becomes tracked s.blocks s'
      else s.Becomes (s.track (sys.result, size, sys.trace) tracked) ((sys.result, size) :: s.blocks) s' := by
  have nothing' : (if { s with depth := s.depth + 1 }.allocIsStatic ptr then 0 else ptr) = 0 := nothing
  have allocated := allocate_returns tracks.quiet tracks.records mapped size size
  simp only [ensures_bind, ensures_heaphTouch tracks.quiet.isInitDone, HeapHelp.enter, ensures_update, ensures_ite,
    ensures_pure] at allocated
  simp only [Site.realloc, alone, ensures_bind, ensures_heaphTouch tracks.quiet.isInitDone, HeapHelp.enter,
    ensures_update, ensures_read, id, nothing', defaultRealloc, if_true, ne_eq, not_true_eq_false, false_and, if_false,
    true_and, ensures_ite, ensures_pure]
  exact allocated

/-- Every call that is not given a dangling pointer returns, unless `mmap` fails. -/
theorem Call.run_returns (tracks : s.Tracks tracked) {call : Call} (possible : sys.Possible s call)
    (valid : s.Valid call)
    (mapped : sys.mapped = true) :
    (call.run sys).Ensures s fun _ s' =>
      s.Becomes (s.trackedAfter (call, sys) tracked) (s.blocksAfter (call, sys)) s' := by
  cases call with
  | malloc size =>
    have allocated := allocate_returns tracks.quiet tracks.records mapped size size
    refine ensures_bind.mpr (Ensures.mono allocated fun _ s' becomes => ?_)
    exact ensures_pure.mpr (tracks.allocates rfl (by simp) (fun _ => rfl) becomes)
  | calloc num size =>
    have allocated := allocate_returns tracks.quiet tracks.records mapped (num * size) (num * size % 2 ^ 64)
    refine ensures_bind.mpr (Ensures.mono allocated fun _ s' becomes => ?_)
    refine ensures_pure.mpr (tracks.allocates rfl (by simp) (fun given => ?_) becomes)
    -- The block lies in the address space, so the product did not overflow.
    have fits : sys.result + num * size ≤ 2 ^ 64 := (possible.fits given).1
    have nonnull : 0 < sys.result := Nat.pos_of_ne_zero given
    exact Nat.mod_eq_of_lt (Nat.lt_of_lt_of_le (Nat.lt_add_of_pos_left nonnull) fits)
  | realloc ptr size =>
    refine ensures_bind.mpr ?_
    obtain nothing | live := valid
    · refine (realloc_null_returns tracks nothing mapped).mono fun _ s' becomes => ?_
      exact ensures_pure.mpr (tracks.allocates nothing (by simp) (fun _ => rfl) becomes)
    · have heap : s.replaced (.realloc ptr size) = ptr := by
        by_contra other
        have null : s.replaced (.realloc ptr size) = 0 := by
          simp only [State.replaced] at other ⊢
          split
          · rfl
          · next heap => exact absurd (if_neg heap) other
        exact (tracks.live live).1 null
      rw [heap] at live
      refine (realloc_returns tracks live mapped).mono fun _ s' becomes => ?_
      simp only [ensures_pure, State.trackedAfter, State.blocksAfter, heap]
      exact becomes
  | free ptr =>
    have nothing : ptr ∉ s.blocks.map Prod.fst → s.Becomes (s.trackedAfter (.free ptr, sys) tracked)
        (s.blocksAfter (.free ptr, sys)) s := by
      intro absent
      obtain ⟨kept, kept'⟩ := tracks.without_absent absent
      refine ⟨s.records, ?_, ?_⟩
      · simp only [State.blocksAfter, kept']
      · simp only [State.trackedAfter, kept]
        exact ⟨tracks.records, tracks.quiet.unlocked⟩
    obtain rfl | static | live := valid
    · simpa [Call.run, Site.call, Site.free, alone] using nothing tracks.null_absent
    · have ignored := nothing (tracks.static_absent static)
      simpa [Call.run, Site.call, Site.free, alone, static] using ignored
    · simp only [Call.run, Site.call, ensures_bind, ensures_pure]
      exact free_returns tracks live

/-- The system allocator does not know what to do with a dangling pointer. -/
theorem defaultRealloc_dangling {ptr size : Nat} {Q : Address → State → Prop} (nonnull : ptr ≠ 0)
    (absent : ptr ∉ s.blocks.map Prod.fst) : ¬ (defaultRealloc sys ptr size).Ensures s Q := by
  intro returns
  simp only [defaultRealloc, defaultFree, ensures_ite, ensures_bind, ensures_read, id, ensures_fault, if_neg nonnull,
    if_neg absent, ite_self] at returns

theorem allocFree_dangling {ptr : Address} {Q : Unit → State → Prop} (busy : s.Busy)
    (tracks : s.records.Tracks [] tracked) (heap : ¬ s.allocIsStatic ptr) (absent : ptr ∉ tracked.map Prod.fst) :
    ¬ (alone.allocFree ptr).Ensures s Q := by
  intro returns
  simp only [Site.allocFree, alone, ensures_bind, ensures_read, id, ensures_ite, ensures_heaphAssert, ensures_zoom,
    recordsPart_get, busy.isInitDone, busy.isExitDone, busy.depth, if_neg heap] at returns
  rw [if_neg (by decide), if_neg (by decide)] at returns
  obtain ⟨-, _, r, returned, -⟩ := returns
  exact freeRecord_aborts tracks absent busy.unlocked _ r returned

/-- A dangling pointer is undefined behaviour or an assertion failure. -/
theorem Call.run_valid (tracks : s.Tracks tracked) {call : Call} {Q : Unit → State → Prop}
    (returns : (call.run sys).Ensures s Q) : s.Valid call := by
  cases call with
  | malloc | calloc => trivial
  | realloc ptr size =>
    by_contra dangling
    simp only [State.Valid, State.replaced, not_or] at dangling
    simp only [Call.run, Site.call, Site.realloc, alone, ensures_bind, ensures_heaphTouch tracks.quiet.isInitDone,
      HeapHelp.enter, ensures_update, ensures_read, id] at returns
    exact defaultRealloc_dangling (s := { s with depth := s.depth + 1 }) dangling.1 dangling.2 returns
  | free ptr =>
    by_contra dangling
    simp only [State.Valid, not_or] at dangling
    obtain ⟨nonnull, heap, absent⟩ := dangling
    simp only [Call.run, Site.call, Site.free, alone, ensures_bind, ensures_read, id, ensures_ite, if_neg nonnull,
      if_neg heap, ensures_heaphTouch tracks.quiet.isInitDone, HeapHelp.enter, ensures_update] at returns
    exact allocFree_dangling tracks.quiet.enter tracks.records heap (mt tracks.mem_iff.mp absent) returns

theorem Step.valid (step : Step s event s') (tracks : s.Tracks tracked) : s.Valid event.1 :=
  Call.run_valid tracks (step.2.ensures (Q := fun _ _ => True) trivial)

/-- What a call that returns has done. -/
theorem Step.effect (step : Step s event s') (tracks : s.Tracks tracked) :
    s.Becomes (s.trackedAfter event tracked) (s.blocksAfter event) s' := by
  obtain ⟨call, sys⟩ := event
  -- Had `mmap` succeeded, the call would have returned the same.
  have mapping : sys.mapping.Possible s call := ⟨step.1.fits, step.1.released⟩
  have effect := Call.run_returns tracks mapping (step.valid tracks) rfl
  exact effect.of_returns (Call.run_below call s () s' step.2)

end SysprogLabs.HeapHelp
