import SysprogLabs.HeapHelp.Hooks
import Mathlib.Algebra.Order.Group.Multiset

/-! # Every interleaving keeps the tracker right

Between two actions of a thread the blocks given out and the tracked blocks need not be the same.
`Token` says what a thread that is in the middle of a call has in its hands: a block that is given out, an
entry of the list, and a record that it has taken and not linked yet.  A user has for each of his
blocks the block and its entry.  `Accounts` relates all tokens to the state; each action of the hooks
gets one lemma about it.
-/

namespace SysprogLabs.HeapHelp

open Prog

inductive Token where
  /-- A block that the system has given out. -/
  | block (ptr : Address)
  /-- A record in `allocs` about `ptr`. -/
  | entry (ptr : Address)
  /-- A record outside of the lists, and what it is about. -/
  | record (a : AllocationPtr) (about : Address × Nat × List Address)
  deriving DecidableEq

namespace Token

def block? : Token → Option Address
  | block ptr => some ptr
  | _ => none

def entry? : Token → Option Address
  | entry ptr => some ptr
  | _ => none

def record? : Token → Option (AllocationPtr × (Address × Nat × List Address))
  | record a about => some (a, about)
  | _ => none

end Token

abbrev Tokens := Multiset Token

namespace Tokens

variable {all : Tokens} {ptr : Address} {a : AllocationPtr} {about : Address × Nat × List Address}

def blocks (all : Tokens) : Multiset Address := all.filterMap Token.block?
def entries (all : Tokens) : Multiset Address := all.filterMap Token.entry?
def records (all : Tokens) : Multiset (AllocationPtr × (Address × Nat × List Address)) := all.filterMap Token.record?

@[simp] theorem blocks_zero : blocks 0 = 0 := rfl
@[simp] theorem entries_zero : entries 0 = 0 := rfl
@[simp] theorem records_zero : records 0 = 0 := rfl

@[simp] theorem blocks_block : blocks (.block ptr ::ₘ all) = ptr ::ₘ blocks all :=
  Multiset.filterMap_cons_some _ _ _ rfl
@[simp] theorem blocks_entry : blocks (.entry ptr ::ₘ all) = blocks all := Multiset.filterMap_cons_none _ _ rfl
@[simp] theorem blocks_record : blocks (.record a about ::ₘ all) = blocks all := Multiset.filterMap_cons_none _ _ rfl
@[simp] theorem entries_block : entries (.block ptr ::ₘ all) = entries all := Multiset.filterMap_cons_none _ _ rfl
@[simp] theorem entries_entry : entries (.entry ptr ::ₘ all) = ptr ::ₘ entries all :=
  Multiset.filterMap_cons_some _ _ _ rfl
@[simp] theorem entries_record : entries (.record a about ::ₘ all) = entries all := Multiset.filterMap_cons_none _ _ rfl
@[simp] theorem records_block : records (.block ptr ::ₘ all) = records all := Multiset.filterMap_cons_none _ _ rfl
@[simp] theorem records_entry : records (.entry ptr ::ₘ all) = records all := Multiset.filterMap_cons_none _ _ rfl
@[simp] theorem records_record : records (.record a about ::ₘ all) = (a, about) ::ₘ records all :=
  Multiset.filterMap_cons_some _ _ _ rfl

end Tokens

/-- What the system vouches for: the blocks it has given out have different addresses, none of which
    is `NULL` or one that `alloc_is_static` holds of. -/
structure State.Granted (s : State) : Prop where
  distinct : (s.blocks.map Prod.fst).Nodup
  heap : ∀ b ∈ s.blocks, b.1 ≠ 0 ∧ ¬ s.allocIsStatic b.1

/-- The tokens in all hands and the state of the tracker. -/
structure Accounts (staticBuf : Address) (all : Tokens) (s : State) : Prop where
  isInitDone : s.isInitDone = true
  isExitDone : s.isExitDone = false
  unlocked : s.records.allocsLock = false
  static : s.staticBuf = staticBuf ∧ s.staticSize = (State.start staticBuf).staticSize
  granted : s.Granted
  blocks : all.blocks = ↑(s.blocks.map Prod.fst)
  tracked : ∃ (inHand : List (AllocationPtr × (Address × Nat × List Address))) (tracked : Traced),
    s.records.Tracks (inHand.map Prod.fst) tracked ∧ all.entries = ↑(tracked.map Prod.fst) ∧
    all.records = ↑inHand ∧ ∀ p ∈ inHand, s.records.traced p.1 = some p.2

variable {staticBuf : Address} {all : Tokens} {s : State} {ptr : Address} {a : AllocationPtr}
    {about : Address × Nat × List Address}

namespace Accounts

theorem depth (accounts : Accounts staticBuf all s) (d : Int) : Accounts staticBuf all { s with depth := d } :=
  ⟨accounts.isInitDone, accounts.isExitDone, accounts.unlocked, accounts.static,
    ⟨accounts.granted.distinct, accounts.granted.heap⟩, accounts.blocks, accounts.tracked⟩

/-- The tokens of a live block's entry and of a block are those of the state. -/
theorem mem_blocks (accounts : Accounts staticBuf (.block ptr ::ₘ all) s) : ptr ∈ s.blocks.map Prod.fst := by
  have mem : ptr ∈ Tokens.blocks (.block ptr ::ₘ all) := by simp
  rw [accounts.blocks] at mem
  exact Multiset.mem_coe.mp mem

theorem live (accounts : Accounts staticBuf (.block ptr ::ₘ all) s) : ptr ≠ 0 ∧ ¬ s.allocIsStatic ptr := by
  obtain ⟨b, mem, rfl⟩ := List.mem_map.mp accounts.mem_blocks
  exact accounts.granted.heap b mem

theorem static_iff (accounts : Accounts staticBuf all s) :
    s.allocIsStatic ptr ↔ (State.start staticBuf).allocIsStatic ptr := by
  rw [State.allocIsStatic, State.allocIsStatic, accounts.static.1, accounts.static.2]
  rfl

/-- An action on the records. -/
theorem withRecords {all' : Tokens} {r : Records} {inHand : List (AllocationPtr × (Address × Nat × List Address))}
    {tracked : Traced}
    (accounts : Accounts staticBuf all s) (blocks : all'.blocks = all.blocks) (unlocked : r.allocsLock = false)
    (tracks : r.Tracks (inHand.map Prod.fst) tracked) (entries : all'.entries = ↑(tracked.map Prod.fst))
    (records : all'.records = ↑inHand) (about : ∀ p ∈ inHand, r.traced p.1 = some p.2) :
    Accounts staticBuf all' { s with records := r } :=
  ⟨accounts.isInitDone, accounts.isExitDone, unlocked, accounts.static,
    ⟨accounts.granted.distinct, accounts.granted.heap⟩, blocks.trans accounts.blocks,
    inHand, tracked, tracks, entries, records, about⟩

end Accounts

/-! ## What the critical sections leave alone -/

section Kept

variable {r : Records}

theorem keeps_spinlockAcq {P : Records → Prop} (kept : ∀ r locked, P r → P { r with allocsLock := locked }) :
    spinlockAcq.Maintains P :=
  .loop (fun _ => .bind .read fun _ => .bind (.update fun r => kept r true) fun _ => .ite .pure .pure) ()

theorem keeps_heaphAssert {σ : Type} {P : σ → Prop} {flag : Prop} [Decidable flag] :
    (heaphAssert flag : Prog σ Unit).Maintains P :=
  .ite .pure (.step fun _ _ _ _ e => by cases e)

theorem keeps_spinlockRel {P : Records → Prop} (kept : ∀ r locked, P r → P { r with allocsLock := locked }) :
    spinlockRel.Maintains P :=
  .bind .read fun _ => .bind keeps_heaphAssert fun _ => .update fun r => kept r false

theorem keeps_loadRecord {P : Records → Prop} : (loadRecord a).Maintains P :=
  .bind Lens.maintains_load fun _ => .ite .pure (.step fun _ _ _ _ e => by cases e)

/-- Links may change, and what a record is about stays. -/
theorem traced_modifyRecord {b : AllocationPtr} {f : Allocation → Allocation}
    (same : ∀ record, (f record).mem = record.mem ∧ (f record).size = record.size ∧ (f record).trace = record.trace) :
    (modifyRecord b f).Maintains fun r => r.traced a = some about := by
  intro r u r' holds returned
  have result := returned.ensures (Q := fun _ t => t = r') rfl
  obtain ⟨record, exists_b, rfl⟩ := ensures_modifyRecord.mp result
  rw [Records.traced_setRecord exists_b]
  split
  · next here =>
    rw [here, Records.traced, exists_b] at holds
    rw [(same record).1, (same record).2.1, (same record).2.2]
    exact holds
  · exact holds

/-- Using records up changes none of them. -/
theorem traced_modifyBatch {p : Ptr} {n : Nat → Nat} :
    (batchHeap.modify p fun batch => { batch with used := n batch.used }).Maintains
      fun r => r.traced a = some about := by
  intro r u r' holds returned
  have result := returned.ensures (Q := fun _ t => t = r') rfl
  obtain ⟨q, -, batch, at_batch, rfl⟩ := Lens.ensures_modify.mp result
  rw [batchHeap_set, batchHeap_get, Records.traced, Records.record_used at_batch]
  exact holds

theorem traced_mapBatch (mapped : Bool) : (mapBatch mapped).Maintains fun r => r.traced a = some about := by
  refine .bind keeps_heaphAssert fun _ => .bind (Lens.maintains_malloc fun r batch holds => ?_) fun _ =>
    .bind (.update fun _ holds => holds) fun _ => .bind (traced_modifyBatch (n := fun _ => 0)) fun _ => .pure
  obtain ⟨record, exists_a, -⟩ := Option.map_eq_some_iff.mp holds
  obtain ⟨owner, at_owner, -⟩ := Option.bind_eq_some_iff.mp exists_a
  have other : a.batch ≠ r.batches.next := Nat.ne_of_lt (Store.lt_next at_owner)
  simpa [Records.traced, Records.record, other] using holds

theorem traced_takeRecord (mapped : Bool) : (takeRecord mapped).Maintains fun r => r.traced a = some about := by
  have current : (currentBatch mapped).Maintains fun r => r.traced a = some about :=
    .bind .read fun _ => .ite (traced_mapBatch mapped) (.bind Lens.maintains_load fun _ =>
      .ite (traced_mapBatch mapped) (.bind keeps_heaphAssert fun _ => .pure))
  have finish : ∀ b : AllocationPtr, Prog.Maintains (do
      spinlockRel
      return b) fun r => r.traced a = some about := fun _ =>
    .bind (keeps_spinlockRel fun _ _ holds => holds) fun _ => .pure
  refine .bind (keeps_spinlockAcq fun _ _ holds => holds) fun _ => .bind .read fun pool => ?_
  cases pool with
  | some b => exact .bind keeps_loadRecord fun _ => .bind (.update fun _ holds => holds) fun _ => .bind .pure finish
  | none =>
    exact .bind current fun _ => .bind Lens.maintains_load fun _ =>
      .bind (traced_modifyBatch (n := (· + 1))) fun _ => .bind .require fun _ => .bind .pure finish

theorem traced_linkRecord {b : AllocationPtr} : (linkRecord b).Maintains fun r => r.traced a = some about :=
  .bind (keeps_spinlockAcq fun _ _ holds => holds) fun _ => .bind .read fun _ =>
    .bind (traced_modifyRecord fun _ => ⟨rfl, rfl, rfl⟩) fun _ => .bind (.update fun _ holds => holds) fun _ =>
    .bind (.update fun _ holds => holds) fun _ => .bind (.update fun _ holds => holds) fun _ =>
    keeps_spinlockRel fun _ _ holds => holds

theorem traced_unlinkRecord {b : AllocationPtr} {prev next : Option AllocationPtr} :
    (unlinkRecord b prev next).Maintains fun r => r.traced a = some about := by
  have rest : Prog.Maintains (do
      let pool ← .read Records.allocPool
      modifyRecord b fun record => { record with next := pool }
      .update fun r => { r with allocPool := some b }
      .update fun r => { r with allocCount := r.allocCount - 1 }
      let newCount ← .read Records.allocCount
      spinlockRel
      heaphAssert (0 ≤ newCount)) fun r => r.traced a = some about :=
    .bind .read fun _ => .bind (traced_modifyRecord fun _ => ⟨rfl, rfl, rfl⟩) fun _ =>
    .bind (.update fun _ holds => holds) fun _ =>
      .bind (.update fun _ holds => holds) fun _ => .bind .read fun _ =>
      .bind (keeps_spinlockRel fun _ _ holds => holds) fun _ => keeps_heaphAssert
  cases prev with
  | none => exact .bind (.update fun _ holds => holds) fun _ => rest
  | some prev => exact .bind (traced_modifyRecord fun _ => ⟨rfl, rfl, rfl⟩) fun _ => rest

theorem traced_freeRecord : (freeRecord ptr).Maintains fun r => r.traced a = some about := by
  refine .bind (keeps_spinlockAcq fun _ _ holds => holds) fun _ => .bind .read fun _ => .bind ?_ fun _ =>
    keeps_heaphAssert
  refine .loop (fun position => ?_) _
  obtain ⟨current, prev⟩ := position
  cases current with
  | none => exact .bind (keeps_spinlockRel fun _ _ holds => holds) fun _ => .pure
  | some b => exact .bind keeps_loadRecord fun _ => .ite (.bind traced_unlinkRecord fun _ => .pure) .pure

end Kept

theorem Records.Tracks.perm {r : Records} {loose loose' : List AllocationPtr} {blocks : Traced}
    (tracks : r.Tracks loose blocks) (perm : loose.Perm loose') : r.Tracks loose' blocks := by
  obtain ⟨live, pool, holds, entries⟩ := tracks
  have all : ∀ rest, (loose ++ rest).Perm (loose' ++ rest) := fun rest => perm.append_right rest
  refine ⟨live, pool, ⟨holds.listed, holds.pooled, ?_, fun b mem => holds.mapped b ?_, holds.batch, holds.count⟩,
    entries⟩
  · simpa using (all _).nodup_iff.mp (by simpa using holds.apart)
  · simpa using (all (live ++ pool)).mem_iff.mpr (by simpa using mem)

namespace Accounts

/-! ## The actions on records -/

/-- The record in hand is one of those outside of the lists. -/
theorem inHand (accounts : Accounts staticBuf (.record a about ::ₘ all) s) :
    ∃ (rest : List (AllocationPtr × (Address × Nat × List Address))) (tracked : Traced),
      s.records.Tracks (a :: rest.map Prod.fst) tracked ∧ all.entries = ↑(tracked.map Prod.fst) ∧
      all.records = ↑rest ∧ s.records.traced a = some about ∧ ∀ p ∈ rest, s.records.traced p.1 = some p.2 := by
  obtain ⟨inHand, tracked, tracks, entries, records, known⟩ := accounts.tracked
  rw [Tokens.records_record] at records
  have mem : (a, about) ∈ inHand := by
    rw [← Multiset.mem_coe, ← records]
    exact Multiset.mem_cons_self ..
  obtain ⟨front, back, rfl⟩ := List.append_of_mem mem
  refine ⟨front ++ back, tracked, tracks.perm ?_, by simpa using entries, ?_, known _ mem, fun p inside => known p ?_⟩
  · simp
  · rw [← Multiset.coe_eq_coe.mpr List.perm_middle.symm, ← Multiset.cons_coe] at records
    exact (Multiset.cons_inj_right _).mp records
  · simp only [List.mem_append, List.mem_cons] at inside ⊢
    tauto

theorem takes (accounts : Accounts staticBuf all s) :
    (takeRecord true).Ensures s.records fun a r' =>
      ∃ about, Accounts staticBuf (.record a about ::ₘ all) { s with records := r' } := by
  obtain ⟨inHand, tracked, tracks, entries, records, known⟩ := accounts.tracked
  obtain ⟨a, r', returned, tracks', unlocked⟩ := takeRecord_returns tracks accounts.unlocked
  obtain ⟨record, exists_a⟩ := tracks'.loose_exists
  have tracks' : r'.Tracks (((a, record.mem, record.size, record.trace) :: inHand).map Prod.fst) tracked := tracks'
  refine ⟨a, r', returned, (record.mem, record.size, record.trace), ?_⟩
  apply accounts.withRecords (by simp) unlocked tracks'
  · simpa using entries
  · simp [records]
  · intro p mem
    obtain rfl | mem := List.mem_cons.mp mem
    · rw [Records.traced, exists_a, Option.map_some]
    · exact traced_takeRecord true _ _ _ (known p mem) returned

theorem writes {f : Allocation → Allocation} {about' : Address × Nat × List Address}
    (accounts : Accounts staticBuf (.record a about ::ₘ all) s)
    (becomes : ∀ record : Allocation, (record.mem, record.size, record.trace) = about →
      ((f record).mem, (f record).size, (f record).trace) = about') :
    (modifyRecord a f).Ensures s.records fun _ r' =>
      Accounts staticBuf (.record a about' ::ₘ all) { s with records := r' } := by
  obtain ⟨rest, tracked, tracks, entries, records, here, known⟩ := accounts.inHand
  obtain ⟨record, exists_a, about_a⟩ := Option.map_eq_some_iff.mp here
  refine ensures_modifyRecord.mpr ⟨record, exists_a, ?_⟩
  have tracks' : (s.records.setRecord a (f record)).Tracks (((a, about') :: rest).map Prod.fst) tracked :=
    tracks.write (f record)
  have unlocked : (s.records.setRecord a (f record)).allocsLock = false := accounts.unlocked
  have apart : a ∉ rest.map Prod.fst := by
    obtain ⟨live, pool, holds, -⟩ := tracks
    have nodup := holds.apart
    simp only [List.cons_append, List.nodup_cons, List.mem_append, not_or] at nodup
    exact nodup.1.1.1.1
  apply accounts.withRecords (by simp) unlocked tracks'
  · simpa using entries
  · simp [records]
  · intro p mem
    rw [Records.traced_setRecord exists_a]
    obtain rfl | mem := List.mem_cons.mp mem
    · rw [if_pos rfl, becomes record about_a]
    · rw [if_neg fun same => apart (List.mem_map.mpr ⟨p, mem, same⟩)]
      exact known p mem

theorem links {rest : Nat × List Address} (accounts : Accounts staticBuf (.record a (ptr, rest) ::ₘ all) s) :
    (linkRecord a).Ensures s.records fun _ r' => Accounts staticBuf (.entry ptr ::ₘ all) { s with records := r' } := by
  obtain ⟨others, tracked, tracks, entries, records, here, known⟩ := accounts.inHand
  obtain ⟨u, r', returned, tracks', unlocked⟩ := linkRecord_returns tracks here accounts.unlocked
  refine ⟨u, r', returned, accounts.withRecords (by simp) unlocked tracks' ?_ (by simpa using records) ?_⟩
  · simp [entries]
  · exact fun p mem => traced_linkRecord _ _ _ (known p mem) returned

theorem frees (accounts : Accounts staticBuf (.entry ptr ::ₘ all) s) :
    (freeRecord ptr).Ensures s.records fun _ r' => Accounts staticBuf all { s with records := r' } := by
  obtain ⟨inHand, tracked, tracks, entries, records, known⟩ := accounts.tracked
  rw [Tokens.entries_entry] at entries
  have mem : ptr ∈ tracked.map Prod.fst := by
    rw [← Multiset.mem_coe, ← entries]
    exact Multiset.mem_cons_self ..
  -- The first record about the address is the one that goes.
  obtain ⟨front, back, split, first⟩ := List.eq_append_cons_of_mem mem
  obtain ⟨before, behind, rfl, rfl, at_back⟩ := List.map_eq_append_iff.mp split
  obtain ⟨block, after, rfl, rfl, rfl⟩ := List.map_eq_cons_iff.mp at_back
  obtain ⟨u, r', returned, tracks', unlocked⟩ := freeRecord_returns tracks first accounts.unlocked
  refine ⟨u, r', returned, accounts.withRecords (by simp) unlocked tracks' ?_ (by simpa using records) ?_⟩
  · rw [← Multiset.cons_inj_right block.1, entries, Multiset.cons_coe, Multiset.coe_eq_coe]
    simp
  · exact fun p mem => traced_freeRecord _ _ _ (known p mem) returned

/-! ## The actions of the system -/

/-- The tokens when the system has given out a block at `res`, if it has. -/
def gain (res : Address) (all : Tokens) : Tokens := if res = 0 then all else .block res ::ₘ all

theorem gives {sys : System} (accounts : Accounts staticBuf all s) (size : Nat) :
    (defaultMalloc sys size).Ensures s fun res s' => res = sys.result ∧ s'.depth = s.depth ∧
      (s'.Granted → Accounts staticBuf (gain sys.result all) s') := by
  rw [defaultMalloc, ensures_bind, ensures_when, gain]
  by_cases failed : sys.result = 0
  · rw [if_neg (not_not.mpr failed), if_pos failed]
    exact ensures_pure.mpr ⟨rfl, rfl, fun _ => accounts⟩
  · rw [if_pos failed, if_neg failed, ensures_update, ensures_pure]
    refine ⟨rfl, rfl, fun granted => ?_⟩
    exact ⟨accounts.isInitDone, accounts.isExitDone, accounts.unlocked, accounts.static, granted,
      by simp [accounts.blocks, State.addBlock], by simpa [State.addBlock] using accounts.tracked⟩

theorem releases (accounts : Accounts staticBuf (.block ptr ::ₘ all) s) :
    (defaultFree ptr).Ensures s fun _ s' => s'.depth = s.depth ∧ Accounts staticBuf all s' := by
  obtain ⟨before, size, after, split, first, without⟩ := BlocksWith.split accounts.granted.distinct accounts.mem_blocks
  apply defaultFree_returns accounts.mem_blocks
  refine ⟨rfl, accounts.isInitDone, accounts.isExitDone, accounts.unlocked, accounts.static, ⟨?_, ?_⟩, ?_, ?_⟩
  · exact BlocksWith.nodup_without accounts.granted.distinct
  · exact fun b mem => accounts.granted.heap b (BlocksWith.mem_without.mp mem).1
  · have blocks := accounts.blocks
    rw [split, Tokens.blocks_block] at blocks
    rw [State.dropBlock, without, ← Multiset.cons_inj_right ptr, blocks, Multiset.cons_coe, Multiset.coe_eq_coe]
    simp
  · simpa [State.dropBlock] using accounts.tracked

theorem reallocs {sys : System} (accounts : Accounts staticBuf (.block ptr ::ₘ all) s)
    (gone : sys.result = 0 → sys.released = true) (size : Nat) :
    (defaultRealloc sys ptr size).Ensures s fun res s' => res = sys.result ∧ s'.depth = s.depth ∧
      (s'.Granted → Accounts staticBuf (gain sys.result all) s') := by
  rw [defaultRealloc, if_neg accounts.live.1, if_neg, ensures_bind]
  · refine accounts.releases.mono fun _ s' result => ?_
    rw [← result.1]
    exact result.2.gives size
  · rintro ⟨failed, kept⟩
    rw [gone failed] at kept
    cases kept

end Accounts

/-! ## The hooks keep to the protocol -/

def protocol (staticBuf : Address) : Protocol State Int Tokens where
  storage := depthPart
  Inv := Accounts staticBuf
  Granted := State.Granted
  inv_storage d accounts := accounts.depth d

section Upholds

variable {hands : Tokens} {l : Int} {sys : Answer} {α : Type} {Q : α → Int → Tokens → Prop}

theorem upholds_read {f : State → α}
    (holds : ∀ others s, Accounts staticBuf (hands + others) s → s.depth = l → Q (f s) l hands) :
    (Code.lift (.read f)).Upholds (protocol staticBuf) Q hands l :=
  .lift fun others s accounts depth => ensures_read.mpr fun _ =>
    ⟨hands, accounts, by subst depth; exact holds others s accounts rfl⟩

theorem upholds_records {p : Prog Records α} (kept : ∀ others s, Accounts staticBuf (hands + others) s →
      p.Ensures s.records fun a r' =>
        ∃ hands', Accounts staticBuf (hands' + others) { s with records := r' } ∧ Q a l hands') :
    (Code.lift (.zoom recordsPart p)).Upholds (protocol staticBuf) Q hands l := by
  refine .lift fun others s accounts depth => ensures_zoom.mpr ((kept others s accounts).mono fun a r' after _ => ?_)
  obtain ⟨hands', accounts', holds⟩ := after
  refine ⟨hands', accounts', ?_⟩
  subst depth
  exact holds

theorem upholds_take {Q : AllocationPtr → Int → Tokens → Prop} (holds : ∀ a about, Q a l (.record a about ::ₘ hands)) :
    (Code.lift (.zoom recordsPart (takeRecord true))).Upholds (protocol staticBuf) Q hands l :=
  upholds_records fun others s accounts => accounts.takes.mono fun a r' taken => by
    obtain ⟨about, accounts'⟩ := taken
    exact ⟨.record a about ::ₘ hands, by simpa using accounts', holds a about⟩

section

variable {Q : Unit → Int → Tokens → Prop}

theorem upholds_write {f : Allocation → Allocation} (about' : Address × Nat × List Address)
    (becomes : ∀ record : Allocation, (record.mem, record.size, record.trace) = about →
      ((f record).mem, (f record).size, (f record).trace) = about')
    (holds : Q () l (.record a about' ::ₘ hands)) :
    (Code.lift (.zoom recordsPart (modifyRecord a f))).Upholds (protocol staticBuf) Q (.record a about ::ₘ hands) l :=
  upholds_records fun others s accounts => by
    rw [Multiset.cons_add] at accounts
    refine (accounts.writes becomes).mono fun _ r' accounts' => ?_
    exact ⟨.record a about' ::ₘ hands, by simpa using accounts', holds⟩

theorem upholds_link {rest : Nat × List Address} (holds : Q () l (.entry ptr ::ₘ hands)) :
    (Code.lift (.zoom recordsPart (linkRecord a))).Upholds (protocol staticBuf) Q (.record a (ptr, rest) ::ₘ hands) l :=
  upholds_records fun others s accounts => by
    rw [Multiset.cons_add] at accounts
    refine accounts.links.mono fun _ r' accounts' => ?_
    exact ⟨.entry ptr ::ₘ hands, by simpa using accounts', holds⟩

theorem upholds_free (holds : Q () l hands) :
    (Code.lift (.zoom recordsPart (freeRecord ptr))).Upholds (protocol staticBuf) Q (.entry ptr ::ₘ hands) l :=
  upholds_records fun others s accounts => by
    rw [Multiset.cons_add] at accounts
    exact accounts.frees.mono fun _ r' accounts' => ⟨hands, accounts', holds⟩

theorem upholds_release (holds : Q () l hands) :
    (Code.lift (defaultFree ptr)).Upholds (protocol staticBuf) Q (.block ptr ::ₘ hands) l :=
  .lift fun others s accounts depth => by
    rw [Multiset.cons_add] at accounts
    refine Ensures.mono (Accounts.releases accounts) fun _ s' result _ => ⟨hands, result.2, ?_⟩
    subst depth
    change Q () s'.depth hands
    rw [result.1]
    exact holds

theorem upholds_assert {flag : Prop} [Decidable flag] (flagged : flag) (holds : Q () l hands) :
    (Code.lift (heaphAssert flag)).Upholds (protocol staticBuf) Q hands l := by
  refine .lift fun others s accounts depth => ensures_heaphAssert.mpr ⟨flagged, fun _ => ⟨hands, accounts, ?_⟩⟩
  subst depth
  exact holds

theorem upholds_touch (holds : Q () l hands) : (Code.lift heaphTouch).Upholds (protocol staticBuf) Q hands l := by
  refine .lift fun others s accounts depth => (ensures_heaphTouch accounts.isInitDone).mpr fun _ =>
    ⟨hands, accounts, ?_⟩
  subst depth
  exact holds

theorem upholds_enter (holds : Q () (l + 1) hands) : (Code.lift enter).Upholds (protocol staticBuf) Q hands l := by
  refine .lift fun others s accounts depth => ensures_update.mpr fun _ => ⟨hands, accounts.depth _, ?_⟩
  subst depth
  exact holds

theorem upholds_leave (holds : Q () (l - 1) hands) : (Code.lift leave).Upholds (protocol staticBuf) Q hands l := by
  refine .lift fun others s accounts depth => ensures_update.mpr fun _ => ⟨hands, accounts.depth _, ?_⟩
  subst depth
  exact holds

end

theorem gain_add {res : Address} {others : Tokens} :
    Accounts.gain res (hands + others) = Accounts.gain res hands + others := by
  unfold Accounts.gain
  split
  · rfl
  · rw [Multiset.cons_add]

theorem upholds_system (sys : System) (hands' : Tokens) {p : Prog State Address} {Q : Address → Int → Tokens → Prop}
    (effect : ∀ others s, Accounts staticBuf (hands + others) s → p.Ensures s fun res s' => res = sys.result ∧
      s'.depth = s.depth ∧ (s'.Granted → Accounts staticBuf (Accounts.gain sys.result (hands' + others)) s'))
    (holds : Q sys.result l (Accounts.gain sys.result hands')) :
    (Code.lift p).Upholds (protocol staticBuf) Q hands l :=
  .lift fun others s accounts depth => (effect others s accounts).mono fun res s' result granted => by
    obtain ⟨rfl, same, accounts'⟩ := result
    refine ⟨_, gain_add ▸ accounts' granted, ?_⟩
    subst depth
    change Q _ s'.depth _
    rw [same]
    exact holds

/-- A block that is given out gets its entry. -/
theorem allocTraceNew_upholds {sys : System} (mapped : sys.mapped = true) (ptr : Address) (size : Nat) :
    (threaded.allocTraceNew sys ptr size).Upholds (protocol staticBuf)
      (fun _ l all => l = 1 ∧ all = .entry ptr ::ₘ .block ptr ::ₘ hands) (.block ptr ::ₘ hands) 1 := by
  refine .bind (upholds_read fun others s accounts depth => ?_)
  rw [Multiset.cons_add] at accounts
  dsimp only [id]
  rw [if_neg accounts.live.2, if_neg (by omega)]
  refine .bind (upholds_assert (by omega) (.bind (upholds_assert accounts.isInitDone ?_)))
  refine .bind (upholds_read fun others s' accounts' _ => ?_)
  rw [accounts'.isExitDone, if_neg (by simp), mapped]
  refine .bind (upholds_take fun a about => ?_)
  obtain ⟨old, oldSize, oldTrace⟩ := about
  refine .bind (upholds_write (ptr, oldSize, oldTrace) (by simp +contextual) ?_)
  refine .bind (upholds_write (ptr, size, oldTrace) (by simp +contextual) ?_)
  refine .bind (upholds_write (ptr, size, sys.trace) (by simp +contextual [depth]) ?_)
  exact upholds_link ⟨rfl, rfl⟩

/-- The entry of a block goes. -/
theorem allocFree_upholds (hands : Tokens) (live : ¬ (State.start staticBuf).allocIsStatic ptr) :
    (threaded.allocFree ptr).Upholds (protocol staticBuf) (fun _ l all => l = 1 ∧ all = hands)
      (.entry ptr ::ₘ hands) 1 := by
  refine .bind (upholds_read fun others s accounts depth => ?_)
  dsimp only [id]
  rw [if_neg (accounts.static_iff.not.mpr live), if_neg (by omega)]
  refine .bind (upholds_assert accounts.isInitDone ?_)
  refine .bind (upholds_read fun others s accounts _ => ?_)
  rw [accounts.isExitDone, if_neg (by simp)]
  exact upholds_free ⟨rfl, rfl⟩

/-- What a user has for a block. -/
def given (res : Address) : Tokens := if res = 0 then 0 else .entry res ::ₘ .block res ::ₘ 0

/-- The end of a call. -/
theorem leave_upholds (res : Address) :
    Code.Upholds (protocol staticBuf) (fun res l all => l = 0 ∧ all = given res) (given res) 1 (do
      .lift leave
      return res) :=
  .bind (upholds_leave (.pure ⟨rfl, rfl⟩))

theorem given_of_ne {res : Address} (given_out : res ≠ 0) : given res = .entry res ::ₘ .block res ::ₘ 0 :=
  if_neg given_out

theorem gain_of_ne {res : Address} (given_out : res ≠ 0) : Accounts.gain res hands = .block res ::ₘ hands :=
  if_neg given_out

/-- A new block is traced. -/
theorem traceResult_upholds {sys : System} (mapped : sys.mapped = true) {res : Address} (given_out : res ≠ 0)
    (size : Nat) :
    Code.Upholds (protocol staticBuf) (fun res l all => l = 0 ∧ all = given res) (Accounts.gain res 0) 1 (do
      threaded.allocTraceNew sys res size
      .lift leave
      return res) := by
  rw [gain_of_ne given_out]
  refine .bind ((allocTraceNew_upholds mapped res size).mono fun _ l all result => ?_)
  obtain ⟨rfl, rfl⟩ := result
  rw [← given_of_ne given_out]
  exact leave_upholds _

/-- A call that has got no block. -/
theorem noResult_upholds {res : Address} (failed : res = 0) :
    Code.Upholds (protocol staticBuf) (fun res l all => l = 0 ∧ all = given res) (Accounts.gain res 0) 1 (do
      .lift leave
      return res) := by
  have same : Accounts.gain res 0 = given res := by simp [Accounts.gain, given, failed]
  rw [same]
  exact leave_upholds _

theorem malloc_upholds (mapped : sys.mapped = true) (size : Nat) :
    (threaded.malloc sys.toSystem size).Upholds (protocol staticBuf)
      (fun res l all => l = 0 ∧ all = given res) 0 0 := by
  refine .bind (upholds_touch (.bind (upholds_enter (.bind ?_))))
  exact upholds_system _ _ (fun others s accounts => accounts.gives size)
    (.ite (traceResult_upholds mapped · _) fun failed => noResult_upholds (not_not.mp failed))

theorem calloc_upholds (mapped : sys.mapped = true) (num size : Nat) :
    (threaded.calloc sys.toSystem num size).Upholds (protocol staticBuf)
      (fun res l all => l = 0 ∧ all = given res) 0 0 := by
  refine .bind (upholds_touch (.bind (upholds_enter (.bind ?_))))
  exact upholds_system _ _ (fun others s accounts => accounts.gives (num * size))
    (.ite (traceResult_upholds mapped · _) fun failed => noResult_upholds (not_not.mp failed))

theorem getaddrinfo_upholds (mapped : sys.mapped = true) :
    (threaded.getaddrinfo sys).Upholds (protocol staticBuf) (fun res l all => l = 0 ∧ all = given res) 0 0 := by
  refine .bind (upholds_touch (.bind (upholds_enter (.bind ?_))))
  by_cases success : sys.rc = 0
  · rw [threaded_defaultGetaddrinfo, defaultGetaddrinfo, if_pos success]
    simp only [success, true_and]
    exact upholds_system _ _ (fun others s accounts => accounts.gives sys.capacity)
      (.ite (traceResult_upholds mapped · _) fun failed => noResult_upholds (not_not.mp failed))
  · rw [threaded_defaultGetaddrinfo, defaultGetaddrinfo, if_neg success]
    simp only [success, false_and, if_false]
    refine .lift fun others s accounts depth => ensures_pure.mpr fun _ => ⟨0, accounts, ?_⟩
    rw [depth]
    exact leave_upholds 0

theorem strdup_upholds (mapped : sys.mapped = true) (heap : ¬ (State.start staticBuf).allocIsStatic ptr) :
    (threaded.strdup sys ptr).Upholds (protocol staticBuf) (fun res l all => l = 0 ∧ all = given res) 0 0 := by
  refine .bind (upholds_touch (.bind (upholds_read fun others s accounts _ => .bind ?_)))
  refine upholds_assert accounts.isExitDone (.bind (upholds_read fun others s accounts _ => .bind ?_))
  refine upholds_assert (accounts.static_iff.not.mpr heap) (.bind (upholds_enter (.bind ?_)))
  exact upholds_system _ _ (fun others s accounts => accounts.gives (sys.length + 1))
    (.ite (traceResult_upholds mapped · _) fun failed => noResult_upholds (not_not.mp failed))

/-- What the caller has for a pointer that he passes. -/
def passed (staticBuf ptr : Address) : Tokens := given (if (State.start staticBuf).allocIsStatic ptr then 0 else ptr)

theorem passed_heap (heap : ¬ (State.start staticBuf).allocIsStatic ptr) : passed staticBuf ptr = given ptr := by
  rw [passed, if_neg heap]

/-- A block goes, the entry first. -/
theorem release_upholds (heap : ¬ (State.start staticBuf).allocIsStatic ptr) (nonnull : ptr ≠ 0) :
    Code.Upholds (protocol staticBuf) (fun _ l all => l = 0 ∧ all = 0) (given ptr) 1 (do
      threaded.allocFree ptr
      .lift (defaultFree ptr)
      .lift leave) := by
  rw [given_of_ne nonnull]
  refine .bind ((allocFree_upholds _ heap).mono fun _ l all result => ?_)
  obtain ⟨rfl, rfl⟩ := result
  exact .bind (upholds_release (upholds_leave ⟨rfl, rfl⟩))

theorem free_upholds : (threaded.free ptr).Upholds (protocol staticBuf) (fun _ l all => l = 0 ∧ all = 0)
    (passed staticBuf ptr) 0 := by
  refine .bind (upholds_read fun others s accounts _ => ?_)
  simp only [id, accounts.static_iff]
  refine .ite (fun null => .pure ?_) fun nonnull => .ite (fun static => .pure ?_) fun heap => ?_
  · simp [passed, given, null]
  · simp [passed, given, static]
  · rw [passed_heap heap]
    exact .bind (upholds_touch (.bind (upholds_enter (release_upholds heap nonnull))))

theorem freeaddrinfo_upholds (heap : ¬ (State.start staticBuf).allocIsStatic ptr) :
    (threaded.freeaddrinfo ptr).Upholds (protocol staticBuf) (fun _ l all => l = 0 ∧ all = 0)
      (passed staticBuf ptr) 0 := by
  rw [passed_heap heap]
  refine .ite (fun null => .pure ?_) fun nonnull => .bind (upholds_read fun others s accounts _ => .bind ?_)
  · simp [given, null]
  · refine upholds_assert (accounts.static_iff.not.mpr heap) ?_
    exact .bind (upholds_touch (.bind (upholds_enter (release_upholds heap nonnull))))

/-- A block that has moved gets a new entry. -/
theorem replace_upholds {sys : System} (mapped : sys.mapped = true) {res : Address}
    (heap : ¬ (State.start staticBuf).allocIsStatic ptr) (given_out : res ≠ 0) (size : Nat) :
    Code.Upholds (protocol staticBuf) (fun res l all => l = 0 ∧ all = given res)
      (Accounts.gain res (.entry ptr ::ₘ 0)) 1 (do
      threaded.allocFree ptr
      threaded.allocTraceNew sys res size
      .lift leave
      return res) := by
  rw [gain_of_ne given_out, Multiset.cons_swap, ← gain_of_ne given_out]
  refine .bind ((allocFree_upholds _ heap).mono fun _ l all result => ?_)
  obtain ⟨rfl, rfl⟩ := result
  exact traceResult_upholds mapped given_out size

theorem realloc_upholds (mapped : sys.mapped = true)
    (gone : (if (State.start staticBuf).allocIsStatic ptr then 0 else ptr) ≠ 0 → sys.result = 0 → sys.released = true)
    (size : Nat) :
    (threaded.realloc sys.toSystem ptr size).Upholds (protocol staticBuf) (fun res l all => l = 0 ∧ all = given res)
      (passed staticBuf ptr) 0 := by
  refine .bind (upholds_touch (.bind (upholds_enter (.bind (upholds_read fun others s accounts _ => ?_)))))
  simp only [id, accounts.static_iff, passed]
  have heap : ¬ (State.start staticBuf).allocIsStatic
      (if (State.start staticBuf).allocIsStatic ptr then 0 else ptr) := by
    split
    · exact fun static => static.1 rfl
    · next heap => exact heap
  generalize (if (State.start staticBuf).allocIsStatic ptr then 0 else ptr) = ptr at heap gone
  by_cases null : ptr = 0
  · subst null
    refine .bind (upholds_system sys.toSystem 0 (fun others s accounts => ?_) ?_)
    · exact accounts.gives size
    · simp only [true_and, ne_eq, not_true_eq_false, false_and, if_false]
      exact .ite (traceResult_upholds mapped · _) fun failed => noResult_upholds (not_not.mp failed)
  · rw [given_of_ne null]
    refine .bind (upholds_system sys.toSystem (.entry ptr ::ₘ 0) (fun others s accounts => ?_) ?_)
    · rw [Multiset.cons_swap, Multiset.cons_add] at accounts
      exact accounts.reallocs (gone null) size
    · simp only [null, false_and, if_false, ne_eq, not_false_eq_true, true_and]
      refine .ite (fun failed => ?_) fun given_out => .ite (fun moved => ?_) fun same => ?_
      · rw [failed]
        refine .bind ((allocFree_upholds 0 heap).mono fun _ l all result => ?_)
        obtain ⟨rfl, rfl⟩ := result
        exact leave_upholds 0
      · exact replace_upholds mapped heap given_out size
      · rw [gain_of_ne given_out, Multiset.cons_swap, not_not.mp same, ← given_of_ne null]
        exact leave_upholds _

theorem getline_upholds (mapped : sys.mapped = true) (heap : ¬ (State.start staticBuf).allocIsStatic ptr)
    (kept : ptr ≠ 0 → sys.result ≠ 0) :
    (threaded.getline sys ptr).Upholds (protocol staticBuf) (fun res l all => l = 0 ∧ all = given res)
      (passed staticBuf ptr) 0 := by
  rw [passed_heap heap]
  refine .bind (upholds_touch (.bind (upholds_enter (.bind (upholds_read fun others s accounts _ => .bind ?_)))))
  refine upholds_assert (accounts.static_iff.not.mpr heap) ?_
  by_cases null : ptr = 0
  · subst null
    refine .bind (upholds_system sys.toSystem 0 (fun others s accounts => accounts.gives sys.capacity) ?_)
    simp only [true_and, ne_eq, not_true_eq_false, false_and, if_false]
    refine .ite (traceResult_upholds mapped · _) fun failed => ?_
    rw [if_neg fun other => failed (Ne.symm other)]
    exact noResult_upholds (not_not.mp failed)
  · rw [given_of_ne null]
    have given_out := kept null
    refine .bind (upholds_system sys.toSystem (.entry ptr ::ₘ 0) (fun others s accounts => ?_) ?_)
    · rw [Multiset.cons_swap, Multiset.cons_add] at accounts
      exact accounts.reallocs (fun failed => absurd failed given_out) sys.capacity
    · simp only [null, given_out, false_and, and_false, if_false, ne_eq, not_false_eq_true, true_and]
      refine .ite (fun moved => replace_upholds mapped heap given_out _) fun same => ?_
      rw [if_neg same, gain_of_ne given_out, Multiset.cons_swap, ← not_not.mp same, ← given_of_ne null]
      exact leave_upholds _

end Upholds

end SysprogLabs.HeapHelp
