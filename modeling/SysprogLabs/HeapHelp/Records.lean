import SysprogLabs.HeapHelp.Model
import SysprogLabs.Lib.Links
import Mathlib.Data.List.Range
import Mathlib.Data.List.Perm.Basic

/-! # The records of the tracker

A record is always in exactly one place: in `allocs`, in `alloc_pool`, in the part of the current
batch that was never used, or in the hands of the call that is about to link it (`loose`).
`Records.Holds` says so, and each critical section gets one lemma about it.
-/

namespace SysprogLabs.HeapHelp

open Prog

namespace Records

def record (r : Records) (a : AllocationPtr) : Option Allocation :=
  (r.batches.cell a.batch).bind fun batch =>
    if a.index < allocationBatchSize then some (batch.allocs a.index) else none

def link (r : Records) (a : AllocationPtr) : Option AllocationPtr := (r.record a).bind Allocation.next

/-- The block a record is about. -/
def entry (r : Records) (a : AllocationPtr) : Option (Address × Nat) :=
  (r.record a).map fun record => (record.mem, record.size)

/-- The block a record is about, with its trace. -/
def traced (r : Records) (a : AllocationPtr) : Option (Address × Nat × List Address) :=
  (r.record a).map fun record => (record.mem, record.size, record.trace)

/-- The part of the current batch that was never used. -/
def unused (r : Records) : List AllocationPtr :=
  match r.allocBatch with
  | none => []
  | some b => match r.batches.cell b with
    | none => []
    | some batch => (List.range' batch.used (allocationBatchSize - batch.used)).map (AllocationPtr.mk b)

def setRecord (r : Records) (a : AllocationPtr) (v : Allocation) : Records :=
  { r with batches := match r.batches.cell a.batch with
      | none => r.batches
      | some batch => r.batches.put a.batch { batch with allocs := Function.update batch.allocs a.index v } }

variable {r : Records} {a b : AllocationPtr} {v record : Allocation}

@[simp] theorem setRecord_allocs : (r.setRecord a v).allocs = r.allocs := rfl
@[simp] theorem setRecord_allocPool : (r.setRecord a v).allocPool = r.allocPool := rfl
@[simp] theorem setRecord_allocBatch : (r.setRecord a v).allocBatch = r.allocBatch := rfl
@[simp] theorem setRecord_allocCount : (r.setRecord a v).allocCount = r.allocCount := rfl
@[simp] theorem setRecord_allocsLock : (r.setRecord a v).allocsLock = r.allocsLock := rfl

theorem record_setRecord (live : r.record a = some record) :
    (r.setRecord a v).record b = if b = a then some v else r.record b := by
  obtain ⟨batch, at_batch, inside⟩ := Option.bind_eq_some_iff.mp live
  split at inside
  · next small =>
    simp only [Records.record, setRecord, at_batch, Store.put_cell]
    by_cases same : b.batch = a.batch
    · rw [if_pos same, same, at_batch, Option.map_some, Option.bind_some, Option.bind_some]
      by_cases here : b = a
      · rw [if_pos here, here, if_pos small]
        exact congrArg some (Function.update_self ..)
      · have apart : b.index ≠ a.index := by
          intro index
          cases a
          cases b
          exact here (by simp_all)
        rw [if_neg here]
        exact congrArg (ite _ · none) (congrArg some (Function.update_of_ne apart ..))
    · rw [if_neg same, if_neg]
      rintro rfl
      exact same rfl
  · cases inside

/-- Records do not move when one is overwritten. -/
theorem unused_setRecord : (r.setRecord a v).unused = r.unused := by
  simp only [unused, setRecord]
  cases r.allocBatch with
  | none => rfl
  | some b =>
    cases at_batch : r.batches.cell a.batch with
    | none => rfl
    | some batch =>
      by_cases same : b = a.batch
      · subst same
        simp [at_batch]
      · simp [same]

theorem link_setRecord (live : r.record a = some record) :
    (r.setRecord a v).link b = if b = a then v.next else r.link b := by
  rw [link, record_setRecord live]
  split <;> rfl

theorem traced_setRecord (live : r.record a = some record) :
    (r.setRecord a v).traced b = if b = a then some (v.mem, v.size, v.trace) else r.traced b := by
  rw [traced, record_setRecord live]
  split <;> rfl

theorem cell_setRecord (live : r.record a = some record) {n : Nat} {batch : AllocationBatch}
    (mapped : r.batches.cell n = some batch) :
    ∃ batch', (r.setRecord a v).batches.cell n = some batch' ∧ batch'.used = batch.used := by
  obtain ⟨owner, at_owner, -⟩ := Option.bind_eq_some_iff.mp live
  simp only [setRecord, at_owner, Store.put_cell, mapped, Option.map_some]
  split
  · next same =>
    rw [same, at_owner] at mapped
    cases mapped
    exact ⟨_, rfl, rfl⟩
  · exact ⟨batch, rfl, rfl⟩

/-- From `r` to `r'` only links between records have changed. -/
structure Relinks (r r' : Records) : Prop where
  traced : ∀ b, r'.traced b = r.traced b
  unused : r'.unused = r.unused
  batch : ∀ n batch, r.batches.cell n = some batch →
    ∃ batch', r'.batches.cell n = some batch' ∧ batch'.used = batch.used
  current : r'.allocBatch = r.allocBatch

theorem Relinks.trans {r' r'' : Records} (first : r.Relinks r') (second : r'.Relinks r'') : r.Relinks r'' where
  traced b := (second.traced b).trans (first.traced b)
  unused := second.unused.trans first.unused
  batch n batch at_batch := by
    obtain ⟨batch', at_batch', used⟩ := first.batch n batch at_batch
    obtain ⟨batch'', at_batch'', used'⟩ := second.batch n batch' at_batch'
    exact ⟨batch'', at_batch'', used'.trans used⟩
  current := second.current.trans first.current

theorem relinks_setRecord (exists_a : r.record a = some record) (next : Option AllocationPtr) :
    r.Relinks (r.setRecord a { record with next := next }) where
  traced b := by
    rw [traced_setRecord exists_a]
    split
    · next same => rw [same, traced, exists_a]; rfl
    · rfl
  unused := unused_setRecord
  batch _ _ := cell_setRecord exists_a
  current := rfl

theorem Relinks.mapped {r' : Records} (relinks : r.Relinks r') (exists_b : r.record b = some record) :
    ∃ record', r'.record b = some record' := by
  have known := relinks.traced b
  rw [Records.traced, Records.traced, exists_b, Option.map_some] at known
  obtain ⟨record', exists_b', -⟩ := Option.map_eq_some_iff.mp known
  exact ⟨record', exists_b'⟩

/-- Using a record up does not change it. -/
theorem record_used {n : Nat} {batch : AllocationBatch} (at_batch : r.batches.cell n = some batch) {used : Nat} :
    { r with batches := r.batches.put n { batch with used := used } }.record b = r.record b := by
  simp only [Records.record, Store.put_cell]
  split
  · next here => rw [here, at_batch]; rfl
  · rfl

/-- A new batch does not change the records of the others. -/
theorem record_mapped {current : Ptr} (exists_b : r.record b = some record) :
    { r with batches := r.batches.alloc .zero, allocBatch := current }.record b = some record := by
  obtain ⟨batch, at_batch, -⟩ := Option.bind_eq_some_iff.mp exists_b
  rw [← exists_b]
  simp only [Records.record, Store.alloc_cell]
  rw [if_neg (Nat.ne_of_lt (Store.lt_next at_batch))]

end Records

/-! ## Loads and stores -/

variable {r : Records} {a : AllocationPtr}

theorem ensures_heaphAssert {σ : Type} {flag : Prop} [Decidable flag] {s : σ} {Q : Unit → σ → Prop} :
    (heaphAssert flag).Ensures s Q ↔ flag ∧ Q () s := by
  rw [heaphAssert, ensures_ite]
  split
  · next holds => simp [holds]
  · next fails => simp [fails]

theorem ensures_loadRecord {Q : Allocation → Records → Prop} :
    (loadRecord a).Ensures r Q ↔ ∃ record, r.record a = some record ∧ Q record r := by
  simp only [loadRecord, ensures_bind, Lens.ensures_load, batchHeap_get, ensures_ite, ensures_pure, ensures_fault]
  constructor
  · rintro ⟨_, ⟨⟩, batch, at_batch, found⟩
    split at found
    · next small =>
      refine ⟨batch.allocs a.index, ?_, found⟩
      rw [Records.record, at_batch, Option.bind_some, if_pos small]
    · exact found.elim
  · rintro ⟨record, live, holds⟩
    obtain ⟨batch, at_batch, inside⟩ := Option.bind_eq_some_iff.mp live
    refine ⟨a.batch, rfl, batch, at_batch, ?_⟩
    split at inside
    · next small =>
      cases inside
      rw [if_pos small]
      exact holds
    · cases inside

theorem ensures_modifyRecord {f : Allocation → Allocation} {Q : Unit → Records → Prop} :
    (modifyRecord a f).Ensures r Q ↔ ∃ record, r.record a = some record ∧ Q () (r.setRecord a (f record)) := by
  simp only [modifyRecord, ensures_ite, Lens.ensures_modify, batchHeap_get, batchHeap_set, ensures_fault,
    Records.record, Records.setRecord]
  constructor
  · intro stored
    split at stored
    · next small =>
      obtain ⟨_, ⟨⟩, batch, at_batch, holds⟩ := stored
      refine ⟨batch.allocs a.index, ?_, ?_⟩
      · rw [at_batch, Option.bind_some, if_pos small]
      · rw [at_batch]
        exact holds
    · exact stored.elim
  · rintro ⟨record, live, holds⟩
    obtain ⟨batch, at_batch, inside⟩ := Option.bind_eq_some_iff.mp live
    split at inside
    · next small =>
      cases inside
      rw [at_batch] at holds
      rw [if_pos small]
      exact ⟨a.batch, rfl, batch, at_batch, holds⟩
    · cases inside

theorem spinlockAcq_returns {Q : Unit → Records → Prop} (unlocked : r.allocsLock = false)
    (holds : Q () { r with allocsLock := true }) : spinlockAcq.Ensures r Q := by
  rw [spinlockAcq, ensures_loop]
  simp [unlocked, holds]

theorem ensures_spinlockRel {Q : Unit → Records → Prop} :
    spinlockRel.Ensures r Q ↔ r.allocsLock = true ∧ Q () { r with allocsLock := false } := by
  simp [spinlockRel, ensures_heaphAssert]

/-! ## Where the records are -/

/-- The records in `allocs`, those in `alloc_pool`, the one a call has in hand and the unused part
    of the current batch are apart. -/
structure Records.Holds (r : Records) (loose live pool : List AllocationPtr) : Prop where
  listed : Chain r.link r.allocs live
  pooled : Chain r.link r.allocPool pool
  apart : (loose ++ live ++ pool ++ r.unused).Nodup
  mapped : ∀ a ∈ loose ++ live ++ pool, ∃ record, r.record a = some record
  batch : ∀ b, r.allocBatch = some b → ∃ batch, r.batches.cell b = some batch ∧ batch.used ≤ allocationBatchSize
  count : r.allocCount = live.length

namespace Records.Holds

variable {loose live pool : List AllocationPtr}

theorem live_off_loose (holds : r.Holds (a :: loose) live pool) : a ∉ live ∧ a ∉ pool := by
  have apart := holds.apart
  simp only [List.cons_append, List.nodup_cons, List.mem_append, not_or] at apart
  exact ⟨apart.1.1.1.2, apart.1.1.2⟩

/-- The record in hand may be written. -/
theorem write (holds : r.Holds (a :: loose) live pool) (v : Allocation) :
    (r.setRecord a v).Holds (a :: loose) live pool := by
  obtain ⟨record, exists_a⟩ := holds.mapped a (by simp)
  obtain ⟨off_live, off_pool⟩ := holds.live_off_loose
  constructor
  · refine Path.congr holds.listed fun b mem => ?_
    rw [link_setRecord exists_a, if_neg (ne_of_mem_of_not_mem mem off_live)]
  · refine Path.congr holds.pooled fun b mem => ?_
    rw [link_setRecord exists_a, if_neg (ne_of_mem_of_not_mem mem off_pool)]
  · rw [unused_setRecord]
    exact holds.apart
  · intro b mem
    rw [record_setRecord exists_a]
    split
    · exact ⟨v, rfl⟩
    · exact holds.mapped b mem
  · intro n current
    obtain ⟨batch, at_batch, small⟩ := holds.batch n current
    obtain ⟨batch', at_batch', used⟩ := cell_setRecord exists_a at_batch
    exact ⟨batch', at_batch', used ▸ small⟩
  · exact holds.count

theorem lock (holds : r.Holds loose live pool) (locked : Bool) :
    { r with allocsLock := locked }.Holds loose live pool :=
  ⟨holds.listed, holds.pooled, holds.apart, holds.mapped, holds.batch, holds.count⟩

/-- The first record of the pool is taken in hand. -/
theorem takePooled (holds : r.Holds loose live (a :: pool)) :
    { r with allocPool := r.link a }.Holds (a :: loose) live pool := by
  have apart := holds.apart
  constructor
  · exact holds.listed
  · exact holds.pooled.2
  · rw [List.append_assoc, List.cons_append] at apart
    have moved := List.perm_middle.nodup_iff.mp apart
    change (a :: loose ++ live ++ pool ++ r.unused).Nodup
    simpa only [List.cons_append, List.append_assoc] using moved
  · intro b mem
    apply holds.mapped
    simp only [List.cons_append, List.mem_cons, List.mem_append] at mem ⊢
    tauto
  · exact holds.batch
  · exact holds.count

/-- The first unused record of the current batch is taken in hand. -/
theorem takeUnused (holds : r.Holds loose live []) {n : Nat} {batch : AllocationBatch}
    (current : r.allocBatch = some n) (at_batch : r.batches.cell n = some batch)
    (left : batch.used < allocationBatchSize) :
    { r with batches := r.batches.put n { batch with used := batch.used + 1 } }.Holds (⟨n, batch.used⟩ :: loose)
      live [] := by
  have link : { r with batches := r.batches.put n { batch with used := batch.used + 1 } }.link = r.link :=
    funext fun a => congrArg (Option.bind · _) (record_used at_batch)
  have unused : r.unused = ⟨n, batch.used⟩ ::
      { r with batches := r.batches.put n { batch with used := batch.used + 1 } }.unused := by
    have more : allocationBatchSize - batch.used = allocationBatchSize - (batch.used + 1) + 1 := by omega
    simp only [Records.unused, current, at_batch, Store.put_cell, if_true, Option.map_some, more, List.range'_succ,
      List.map_cons]
  have apart := holds.apart
  constructor
  · rw [link]
    exact holds.listed
  · rw [link]
    exact holds.pooled
  · rw [unused, List.append_nil] at apart
    rw [List.append_nil, List.cons_append, List.cons_append]
    exact List.perm_middle.nodup_iff.mp apart
  · intro b mem
    rw [record_used at_batch]
    simp only [List.append_nil, List.cons_append, List.mem_cons] at mem
    rcases mem with rfl | mem
    · exact ⟨batch.allocs batch.used, by simp [Records.record, at_batch, left]⟩
    · exact holds.mapped b (by simpa using mem)
  · intro m at_m
    have at_m : r.allocBatch = some m := at_m
    rw [current] at at_m
    cases at_m
    refine ⟨{ batch with used := batch.used + 1 }, by simp [at_batch], ?_⟩
    exact left
  · exact holds.count

/-- A new batch is mapped when the current one is used up. -/
theorem mapBatch (holds : r.Holds loose live pool) :
    { r with batches := r.batches.alloc .zero, allocBatch := some r.batches.next }.Holds loose live pool := by
  have link : ∀ a ∈ loose ++ live ++ pool,
      { r with batches := r.batches.alloc .zero, allocBatch := some r.batches.next }.link a = r.link a := by
    intro a mem
    obtain ⟨record, exists_a⟩ := holds.mapped a mem
    rw [Records.link, Records.link, record_mapped exists_a, exists_a]
  constructor
  · exact Path.congr holds.listed fun a mem => link a (by simp [mem])
  · exact Path.congr holds.pooled fun a mem => link a (by simp [mem])
  · have apart := holds.apart
    rw [List.nodup_append] at apart ⊢
    refine ⟨apart.1, ?_, ?_⟩
    · simp only [Records.unused, Store.alloc_cell, if_true]
      refine List.Nodup.map ?_ (List.nodup_range' ..)
      intro i j same
      cases same
      rfl
    · rintro a mem b new rfl
      obtain ⟨record, exists_a⟩ := holds.mapped a mem
      simp only [Records.unused, Store.alloc_cell, if_true, List.mem_map] at new
      obtain ⟨i, -, rfl⟩ := new
      rw [Records.record, r.batches.next_dead] at exists_a
      cases exists_a
  · intro a mem
    obtain ⟨record, exists_a⟩ := holds.mapped a mem
    exact ⟨record, record_mapped exists_a⟩
  · intro b current
    cases current
    exact ⟨.zero, by simp, Nat.zero_le _⟩
  · exact holds.count

/-- The record in hand is linked in front of `allocs`. -/
theorem linkFront (holds : r.Holds (a :: loose) live pool) {record : Allocation} (exists_a : r.record a = some record)
    {total : Nat} :
    { r.setRecord a { record with next := r.allocs } with
      allocs := some a, allocCount := r.allocCount + 1, allocCountTotal := total }.Holds loose (a :: live) pool := by
  have moved : ∀ rest, (a :: loose ++ live ++ pool ++ rest).Perm (loose ++ a :: live ++ pool ++ rest) := fun rest => by
    simpa only [List.cons_append, List.append_assoc] using List.perm_middle.symm
  have written := holds.write { record with next := r.allocs }
  constructor
  · refine ⟨rfl, ?_⟩
    have next : (r.setRecord a { record with next := r.allocs }).link a = r.allocs := by
      rw [link_setRecord exists_a, if_pos rfl]
    change Path (r.setRecord a { record with next := r.allocs }).link
      ((r.setRecord a { record with next := r.allocs }).link a) live none
    rw [next]
    exact written.listed
  · exact written.pooled
  · exact (moved _).nodup_iff.mp written.apart
  · intro b mem
    apply written.mapped
    simpa using (moved []).mem_iff.mpr (by simpa using mem)
  · exact written.batch
  · have count := holds.count
    simp only [List.length_cons]
    omega

/-- A record of `allocs` is put in front of the pool. -/
theorem unlink {front back : List AllocationPtr} (holds : r.Holds loose (front ++ a :: back) pool)
    {r' : Records} (link : ∀ b, r'.link b = if b = a then r.allocPool else
      if front.getLast? = some b then r.link a else r.link b)
    (first : r'.allocs = if front = [] then r.link a else r.allocs) (pooled : r'.allocPool = some a)
    (count : r'.allocCount = r.allocCount - 1) (relinks : r.Relinks r') :
    r'.Holds loose (front ++ back) (a :: pool) := by
  have apart := holds.apart
  rw [List.append_assoc, List.append_assoc] at apart
  replace apart := (List.nodup_append.mp apart).2.1
  simp only [List.append_assoc, List.cons_append, List.nodup_append, List.nodup_cons, List.mem_append, List.mem_cons,
    not_or] at apart
  obtain ⟨nodup, ⟨off, rest⟩, differ⟩ := apart
  have front_a : ∀ b ∈ front, b ≠ a := fun b mem => differ b mem a (.inl rfl)
  have last_front : ∀ b, front.getLast? = some b → b ∈ front := fun b last => List.mem_of_getLast? last
  have behind : ∀ b ∈ back, r'.link b = r.link b := by
    intro b mem
    rw [link, if_neg (ne_of_mem_of_not_mem mem off.1), if_neg]
    exact fun last => differ b (last_front b last) b (.inr (.inl mem)) rfl
  have inPool : ∀ b ∈ pool, r'.link b = r.link b := by
    intro b mem
    rw [link, if_neg (ne_of_mem_of_not_mem mem off.2.1), if_neg]
    exact fun last => differ b (last_front b last) b (.inr (.inr (.inl mem))) rfl
  obtain ⟨mid, before, rfl, after⟩ := Path.append_iff.mp holds.listed
  constructor
  · refine Path.append_iff.mpr ⟨r.link a, ?_, after.congr behind⟩
    -- What was in front of `a` now links to what was behind it.
    rcases List.eq_nil_or_concat' front with rfl | ⟨front, last, rfl⟩
    · rw [first]
      rfl
    · rw [first, if_neg (by simp)]
      refine before.redirect (fun b mem => ?_) ?_
      · rw [link, if_neg (front_a b (by simp [mem])), if_neg]
        rw [List.getLast?_concat]
        rintro ⟨⟩
        rw [List.nodup_append] at nodup
        exact nodup.2.2 last mem last (by simp) rfl
      · rw [link, if_neg (front_a last (by simp)), List.getLast?_concat, if_pos rfl]
  · rw [pooled]
    refine ⟨rfl, ?_⟩
    rw [link, if_pos rfl]
    exact Path.congr holds.pooled inPool
  · rw [relinks.unused]
    refine (List.Perm.nodup_iff ?_).mp holds.apart
    simp only [List.append_assoc, List.cons_append]
    exact List.Perm.append_left loose (List.Perm.append_left front List.perm_middle.symm)
  · intro b mem
    obtain ⟨record, exists_b⟩ := holds.mapped b (by
      simp only [List.mem_append, List.mem_cons] at mem ⊢
      tauto)
    exact relinks.mapped exists_b
  · intro n current
    obtain ⟨batch, at_batch, small⟩ := holds.batch n (relinks.current ▸ current)
    obtain ⟨batch', at_batch', used⟩ := relinks.batch n batch at_batch
    exact ⟨batch', at_batch', used ▸ small⟩
  · have length := holds.count
    simp only [List.length_append, List.length_cons] at length ⊢
    omega

end Records.Holds

end SysprogLabs.HeapHelp
