import SysprogLabs.HeapHelp.Records

/-! # What the critical sections do to the tracked blocks

`Records.Tracks` abstracts the records to the list of blocks they are about, each with its trace: `alloc_trace_new`
puts a block in front of it, and `alloc_free` takes the first one with the given address out.
-/

namespace SysprogLabs.HeapHelp

open Prog

/-- Blocks by address, size and trace. -/
abbrev Traced := BlocksWith (Nat × List Address)

namespace Traced

variable {tracked : Traced}

def blocks (tracked : Traced) : Blocks := tracked.map fun t => (t.1, t.2.1)

@[simp] theorem map_blocks : tracked.blocks.map Prod.fst = tracked.map Prod.fst := by
  simp [blocks, Function.comp_def]

theorem blocks_without (ptr : Address) : blocks (tracked.without ptr) = tracked.blocks.without ptr := by
  simp [blocks, BlocksWith.without, List.filter_map, Function.comp_def]

end Traced

/-- The records of `allocs` are about `blocks`, in this order. -/
def Records.Tracks (r : Records) (loose : List AllocationPtr) (blocks : Traced) : Prop :=
  ∃ live pool, r.Holds loose live pool ∧ live.map r.traced = blocks.map some

theorem Records.entries_eq {r : Records} {live : List AllocationPtr} {tracked : Traced}
    (traced : live.map r.traced = tracked.map some) : live.map r.entry = tracked.blocks.map some := by
  have entry : r.entry = Option.map (fun t => (t.1, t.2.1)) ∘ r.traced := by
    funext a
    simp [Records.entry, Records.traced, Function.comp_def]
  rw [entry, ← List.map_map, traced]
  simp [Traced.blocks]

namespace Records.Tracks

variable {r : Records} {a : AllocationPtr} {loose : List AllocationPtr} {blocks : Traced}

theorem lock (tracks : r.Tracks loose blocks) (locked : Bool) :
    { r with allocsLock := locked }.Tracks loose blocks := by
  obtain ⟨live, pool, holds, entries⟩ := tracks
  exact ⟨live, pool, holds.lock locked, entries⟩

theorem loose_exists (tracks : r.Tracks (a :: loose) blocks) : ∃ record, r.record a = some record := by
  obtain ⟨live, pool, holds, -⟩ := tracks
  exact holds.mapped a (by simp)

theorem write (tracks : r.Tracks (a :: loose) blocks) (v : Allocation) :
    (r.setRecord a v).Tracks (a :: loose) blocks := by
  obtain ⟨record, exists_a⟩ := tracks.loose_exists
  obtain ⟨live, pool, holds, entries⟩ := tracks
  refine ⟨live, pool, holds.write v, ?_⟩
  rw [← entries]
  apply List.map_congr_left
  intro b mem
  rw [traced_setRecord exists_a, if_neg (ne_of_mem_of_not_mem mem holds.live_off_loose.1)]

end Records.Tracks

/-! ## `alloc_trace_new` -/

variable {r : Records} {loose : List AllocationPtr} {blocks : Traced}

theorem mapBatch_returns {Q : Ptr → Records → Prop}
    (holds : Q (some r.batches.next) { r with batches := r.batches.alloc .zero, allocBatch := some r.batches.next }) :
    (mapBatch true).Ensures r Q := by
  simp only [mapBatch, ensures_bind, ensures_heaphAssert, Lens.ensures_malloc, ensures_update, Lens.ensures_modify,
    ensures_pure, batchHeap_get, batchHeap_set]
  refine ⟨trivial, _, rfl, .zero, by simp, ?_⟩
  rw [Store.alloc_put]
  exact holds

/-- Behind the tests, the current batch has an unused record. -/
theorem currentBatch_returns {live : List AllocationPtr} (holds : r.Holds loose live [])
    (entries : live.map r.traced = blocks.map some) :
    (currentBatch true).Ensures r fun current r' => r'.allocsLock = r.allocsLock ∧ ∃ n batch, current = some n ∧
      r'.allocBatch = some n ∧ r'.batches.cell n = some batch ∧ batch.used < allocationBatchSize ∧
      r'.Holds loose live [] ∧ live.map r'.traced = blocks.map some := by
  have fresh : (mapBatch true).Ensures r fun current r' => r'.allocsLock = r.allocsLock ∧ ∃ n batch, current = some n ∧
      r'.allocBatch = some n ∧ r'.batches.cell n = some batch ∧ batch.used < allocationBatchSize ∧
      r'.Holds loose live [] ∧ live.map r'.traced = blocks.map some := by
    refine mapBatch_returns ⟨rfl, r.batches.next, .zero, rfl, rfl, by simp, ?_, holds.mapBatch, ?_⟩
    · unfold allocationBatchSize
      decide
    · rw [← entries]
      apply List.map_congr_left
      intro a mem
      obtain ⟨record, exists_a⟩ := holds.mapped a (by simp [mem])
      rw [Records.traced, Records.traced, Records.record_mapped exists_a, exists_a]
  simp only [currentBatch, ensures_bind, ensures_read, ensures_ite, Lens.ensures_load, ensures_heaphAssert,
    ensures_pure, batchHeap_get]
  cases current : r.allocBatch with
  | none =>
    rw [if_pos rfl]
    exact fresh
  | some n =>
    obtain ⟨batch, at_batch, small⟩ := holds.batch n current
    rw [if_neg (by simp)]
    refine ⟨n, rfl, batch, at_batch, ?_⟩
    split
    · exact fresh
    · next more => exact ⟨by omega, trivial, n, batch, rfl, rfl, at_batch, by omega, holds, entries⟩

theorem takeRecord_returns (tracks : r.Tracks loose blocks) (unlocked : r.allocsLock = false) :
    (takeRecord true).Ensures r fun a r' => r'.Tracks (a :: loose) blocks ∧ r'.allocsLock = false := by
  rw [takeRecord, ensures_bind]
  apply spinlockAcq_returns unlocked
  have locked : { r with allocsLock := true }.allocsLock = true := rfl
  have tracks := tracks.lock true
  generalize { r with allocsLock := true } = r at tracks locked
  obtain ⟨live, pool, holds, entries⟩ := tracks
  simp only [ensures_bind, ensures_read]
  cases pool with
  | cons a pool =>
    obtain ⟨record, exists_a⟩ := holds.mapped a (by simp)
    have next : r.link a = record.next := by rw [Records.link, exists_a, Option.bind_some]
    rw [holds.pooled.1]
    simp only [ensures_bind, ensures_loadRecord, ensures_update, ensures_pure, ensures_spinlockRel]
    have taken : { r with allocPool := record.next }.Tracks (a :: loose) blocks :=
      ⟨live, pool, next ▸ holds.takePooled, entries⟩
    exact ⟨record, exists_a, locked, taken.lock false, trivial⟩
  | nil =>
    have empty : r.allocPool = none := holds.pooled
    rw [empty]
    simp only [ensures_bind, Lens.ensures_load, Lens.ensures_modify, ensures_require, ensures_pure, ensures_spinlockRel,
      batchHeap_get, batchHeap_set]
    refine (currentBatch_returns holds entries).mono fun current r' result => ?_
    obtain ⟨lock, n, batch, rfl, current, at_batch, left, holds', entries'⟩ := result
    have taken : { r' with batches := r'.batches.put n { batch with used := batch.used + 1 } }.Tracks
        (⟨n, batch.used⟩ :: loose) blocks := by
      refine ⟨live, [], holds'.takeUnused current at_batch left, ?_⟩
      rw [← entries']
      apply List.map_congr_left
      intro a _
      rw [Records.traced, Records.record_used at_batch, Records.traced]
    exact ⟨n, rfl, batch, at_batch, n, rfl, batch, at_batch, n, rfl, lock.trans locked, taken.lock false, trivial⟩

/-- The second critical section links the record in hand. -/
theorem linkRecord_returns {a : AllocationPtr} {ptr size : Nat} {trace : List Address}
    (tracks : r.Tracks (a :: loose) blocks)
    (entry : r.traced a = some (ptr, size, trace)) (unlocked : r.allocsLock = false) :
    (linkRecord a).Ensures r fun _ r' => r'.Tracks loose ((ptr, size, trace) :: blocks) ∧ r'.allocsLock = false := by
  rw [linkRecord, ensures_bind]
  apply spinlockAcq_returns unlocked
  have locked : { r with allocsLock := true }.allocsLock = true := rfl
  have entry : { r with allocsLock := true }.traced a = some (ptr, size, trace) := entry
  have tracks := tracks.lock true
  generalize { r with allocsLock := true } = r at tracks locked entry
  obtain ⟨live, pool, holds, entries⟩ := tracks
  obtain ⟨record, exists_a⟩ := holds.mapped a (by simp)
  simp only [ensures_bind, ensures_read, ensures_modifyRecord, ensures_update, ensures_spinlockRel]
  refine ⟨record, exists_a, locked, ?_, trivial⟩
  apply Records.Tracks.lock (r := { r.setRecord a _ with
    allocs := some a, allocCount := r.allocCount + 1, allocCountTotal := _ })
  refine ⟨a :: live, pool, holds.linkFront exists_a, ?_⟩
  rw [Records.traced, exists_a] at entry
  cases entry
  have fields : ∀ b, (r.setRecord a { record with next := r.allocs }).traced b = r.traced b := by
    intro b
    rw [Records.traced_setRecord exists_a]
    split
    · next same => rw [same, Records.traced, exists_a]; rfl
    · rfl
  rw [List.map_cons, List.map_cons, ← entries]
  congr 1
  · refine (fields a).trans ?_
    rw [Records.traced, exists_a]
    rfl
  · exact List.map_congr_left fun b _ => fields b

/-- What `alloc_trace_new` does to the records. -/
theorem newRecord_returns (tracks : r.Tracks [] blocks) (unlocked : r.allocsLock = false) (ptr size : Nat)
    (trace : List Address) :
    Prog.Ensures (do
      let a ← takeRecord true
      modifyRecord a fun record => { record with mem := ptr }
      modifyRecord a fun record => { record with size := size }
      modifyRecord a fun record => { record with trace := trace }
      linkRecord a) r fun _ r' =>
        r'.Tracks [] ((ptr, size, trace) :: blocks) ∧ r'.allocsLock = false := by
  simp only [ensures_bind, ensures_modifyRecord]
  refine (takeRecord_returns tracks unlocked).mono fun a r₁ result => ?_
  obtain ⟨tracks₁, unlocked₁⟩ := result
  have self : ∀ {r : Records} {v record : Allocation}, r.record a = some record → (r.setRecord a v).record a = some v :=
    fun exists_a => by rw [Records.record_setRecord exists_a, if_pos rfl]
  obtain ⟨record, exists_a⟩ := tracks₁.loose_exists
  refine ⟨record, exists_a, _, self exists_a, _, self (self exists_a), ?_⟩
  apply linkRecord_returns (((tracks₁.write _).write _).write _)
  · rw [Records.traced, self (self (self exists_a))]
    rfl
  · exact unlocked₁

/-! ## `alloc_free` -/

theorem unlinkRecord_returns {front back pool : List AllocationPtr} {a : AllocationPtr}
    (holds : r.Holds loose (front ++ a :: back) pool) (locked : r.allocsLock = true) :
    (unlinkRecord a front.getLast? (r.link a)).Ensures r fun _ r' => r'.allocsLock = false ∧
      r'.Holds loose (front ++ back) (a :: pool) ∧ ∀ b, r'.traced b = r.traced b := by
  have positive : 0 ≤ r.allocCount - 1 := by
    have count := holds.count
    simp only [List.length_append, List.length_cons] at count
    omega
  obtain ⟨record, exists_a⟩ := holds.mapped a (by simp)
  rcases List.eq_nil_or_concat' front with rfl | ⟨front, last, rfl⟩
  · simp only [List.getLast?_nil, unlinkRecord, ensures_bind, ensures_update, ensures_read, ensures_modifyRecord,
      ensures_spinlockRel, ensures_heaphAssert]
    have relinks := Records.relinks_setRecord (r := { r with allocs := r.link a }) exists_a r.allocPool
    refine ⟨record, exists_a, locked, positive, trivial, holds.unlink (fun b => ?_) rfl rfl rfl ?_, relinks.traced⟩
    · exact Records.link_setRecord (r := { r with allocs := r.link a }) exists_a
    · exact ⟨relinks.traced, relinks.unused, relinks.batch, rfl⟩
  · obtain ⟨before, exists_last⟩ := holds.mapped last (by simp)
    have apart : a ≠ last := by
      have nodup := holds.listed.nodup
      rw [List.nodup_append] at nodup
      exact (nodup.2.2 last (by simp) a (by simp)).symm
    have relinks := Records.relinks_setRecord exists_last (r.link a)
    have exists_a' : (r.setRecord last { before with next := r.link a }).record a = some record := by
      rw [Records.record_setRecord exists_last, if_neg apart, exists_a]
    have relinks := relinks.trans (Records.relinks_setRecord exists_a' r.allocPool)
    simp only [List.getLast?_concat, unlinkRecord, ensures_bind, ensures_update, ensures_read, ensures_modifyRecord,
      ensures_spinlockRel, ensures_heaphAssert]
    refine ⟨before, exists_last, record, exists_a', locked, positive, trivial,
      holds.unlink (fun b => ?_) ?_ rfl rfl ?_, relinks.traced⟩
    · refine (Records.link_setRecord (r := r.setRecord last _) exists_a').trans ?_
      rw [Records.link_setRecord exists_last, List.getLast?_concat]
      simp only [Option.some.injEq, eq_comm]
      rfl
    · rw [if_neg (by simp)]
      rfl
    · exact ⟨relinks.traced, relinks.unused, relinks.batch, relinks.current⟩

/-- The loop finds the first record with the address and takes it out. -/
theorem removeRecord_finds {ptr size : Nat} {trace : List Address} {passed before after : Traced}
    {front back pool : List AllocationPtr}
    (holds : r.Holds loose (front ++ back) pool) (seen : front.map r.traced = passed.map some)
    (entries : back.map r.traced = (before ++ (ptr, size, trace) :: after).map some)
    (first : ptr ∉ before.map Prod.fst) (locked : r.allocsLock = true) :
    (removeRecord ptr (back.head?, front.getLast?)).Ensures r fun found r' => found = true ∧ r'.allocsLock = false ∧
      r'.Tracks loose (passed ++ before ++ after) := by
  induction back generalizing front passed before with
  | nil => simp at entries
  | cons a back ih =>
    obtain ⟨record, exists_a⟩ := holds.mapped a (by simp)
    have entry : r.traced a = some (record.mem, record.size, record.trace) := by rw [Records.traced, exists_a]; rfl
    have next : record.next = r.link a := by rw [Records.link, exists_a, Option.bind_some]
    rw [removeRecord, ensures_loop]
    simp only [List.head?_cons, ensures_bind, ensures_loadRecord, ensures_ite, ensures_pure]
    refine ⟨record, exists_a, ?_⟩
    cases before with
    | nil =>
      simp only [List.nil_append, List.map_cons, List.cons.injEq, entry, Option.some.injEq, Prod.mk.injEq] at entries
      obtain ⟨⟨here, -⟩, rest⟩ := entries
      rw [if_pos here, next]
      refine (unlinkRecord_returns holds locked).mono fun _ r' result => ?_
      obtain ⟨unlocked, holds', same⟩ := result
      refine ⟨trivial, unlocked, front ++ back, a :: pool, holds', ?_⟩
      rw [show r'.traced = r.traced from funext same]
      simp [seen, rest]
    | cons block before =>
      simp only [List.cons_append, List.map_cons, List.cons.injEq, entry, Option.some.injEq] at entries
      obtain ⟨rfl, rest⟩ := entries
      simp only [List.map_cons, List.mem_cons, not_or] at first
      rw [if_neg (Ne.symm first.1), next, holds.listed.next_eq]
      have seen' : (front ++ [a]).map r.traced = (passed ++ [(record.mem, record.size, record.trace)]).map some := by
        simp [seen, entry]
      have moved := ih (by simpa using holds) seen' rest first.2
      rw [List.getLast?_concat] at moved
      rw [List.append_cons]
      exact moved

theorem freeRecord_returns {ptr size : Nat} {trace : List Address} {before after : Traced}
    (tracks : r.Tracks loose (before ++ (ptr, size, trace) :: after)) (first : ptr ∉ before.map Prod.fst)
    (unlocked : r.allocsLock = false) :
    (freeRecord ptr).Ensures r fun _ r' => r'.Tracks loose (before ++ after) ∧ r'.allocsLock = false := by
  rw [freeRecord, ensures_bind]
  apply spinlockAcq_returns unlocked
  have locked : { r with allocsLock := true }.allocsLock = true := rfl
  obtain ⟨live, pool, holds, entries⟩ := tracks.lock true
  generalize { r with allocsLock := true } = r at holds entries locked
  simp only [ensures_bind, ensures_read, ensures_heaphAssert]
  rw [holds.listed.head_eq]
  have none_seen : ([] : List AllocationPtr).map r.traced = ([] : Traced).map some := rfl
  refine (removeRecord_finds holds none_seen entries first locked).mono fun found r' result => ?_
  obtain ⟨rfl, unlocked, tracks⟩ := result
  exact ⟨rfl, tracks, unlocked⟩

/-- The loop runs off the list when no record has the address. -/
theorem removeRecord_misses {ptr : Address} {blocks : Traced} {front back pool : List AllocationPtr}
    (holds : r.Holds [] (front ++ back) pool) (entries : back.map r.traced = blocks.map some)
    (missing : ptr ∉ blocks.map Prod.fst) (locked : r.allocsLock = true) :
    (removeRecord ptr (back.head?, front.getLast?)).Ensures r fun found _ => found = false := by
  induction back generalizing front blocks with
  | nil =>
    rw [removeRecord, ensures_loop]
    simp [ensures_spinlockRel, locked]
  | cons a back ih =>
    obtain ⟨record, exists_a⟩ := holds.mapped a (by simp)
    have entry : r.traced a = some (record.mem, record.size, record.trace) := by rw [Records.traced, exists_a]; rfl
    have next : record.next = r.link a := by rw [Records.link, exists_a, Option.bind_some]
    rw [removeRecord, ensures_loop]
    simp only [List.head?_cons, ensures_bind, ensures_loadRecord, ensures_ite, ensures_pure]
    refine ⟨record, exists_a, ?_⟩
    cases blocks with
    | nil => simp at entries
    | cons block blocks =>
      simp only [List.map_cons, List.cons.injEq, entry, Option.some.injEq] at entries
      obtain ⟨rfl, rest⟩ := entries
      simp only [List.map_cons, List.mem_cons, not_or] at missing
      rw [if_neg (Ne.symm missing.1), next, holds.listed.next_eq]
      have holds' : r.Holds [] ((front ++ [a]) ++ back) pool := by simpa using holds
      have moved := ih holds' rest missing.2
      rw [List.getLast?_concat] at moved
      exact moved

/-- Releasing an address without a record is an assertion failure. -/
theorem freeRecord_aborts {ptr : Address} (tracks : r.Tracks [] blocks) (missing : ptr ∉ blocks.map Prod.fst)
    (unlocked : r.allocsLock = false) : (freeRecord ptr).NoReturn r := by
  rw [noReturn_iff, freeRecord, ensures_bind]
  intro ensured
  have acquired : spinlockAcq.Ensures r fun _ r' => r' = { r with allocsLock := true } :=
    spinlockAcq_returns unlocked rfl
  obtain ⟨_, r', -, inner, rfl⟩ := ensured.and acquired
  simp only [ensures_bind, ensures_read, ensures_heaphAssert] at inner
  obtain ⟨live, pool, holds, entries⟩ := tracks.lock true
  have holds' : Records.Holds { r with allocsLock := true } [] ([] ++ live) pool := holds
  have misses := removeRecord_misses holds' entries missing rfl
  rw [show live.head? = r.allocs from holds.listed.head_eq.symm] at misses
  obtain ⟨found, r'', -, ⟨yes, -⟩, no⟩ := inner.and misses
  rw [yes] at no
  cases no

end SysprogLabs.HeapHelp
