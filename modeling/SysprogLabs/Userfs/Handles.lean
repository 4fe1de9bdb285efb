import SysprogLabs.Lib.Slots
import SysprogLabs.Userfs.Table

/-! # The descriptor table on zeroed memory

When `malloc` leaves `NULL` in the slots it returns, a slot of `file_descriptors`
is either free or holds the record of its own that `ufs_open` has put there
(`Table.Exact`).  The table is then nothing but the list of what its slots stand
for, and opening, closing and moving a descriptor are plain list operations.
-/

namespace SysprogLabs.Userfs

variable {junk : Junk} {t t' : Table} {fd : Int} {p : Nat} {r : Filedesc}

/-- Every slot of a fresh array reads as `NULL`. -/
def Junk.ZeroSlots (junk : Junk) : Prop := ∀ array i, junk.slot array i = none

namespace Table

/-- What each slot stands for. -/
def handles (t : Table) : List (Option Filedesc) := t.slots.map fun ptr => ptr.bind t.filedescs.cell

/-- What the descriptor `fd` stands for. -/
def handle (t : Table) (fd : Int) : Option Filedesc := if fd < 0 then none else slotAt t.handles fd.toNat

/-- The number of descriptors opened on `f`. -/
def references (t : Table) (f : Nat) : Nat :=
  t.handles.countP fun handle => handle.any fun r => r.file = some f

/-- The occupied slots and the live records are in bijection, and `file_descriptor_count`
    is their number. -/
structure Exact (t : Table) : Prop where
  live : ∀ p, some p ∈ t.slots → ∃ r, t.filedescs.cell p = some r
  distinct : ∀ (i j p : Nat), t.slots[i]? = some (some p) → t.slots[j]? = some (some p) → i = j
  owned : ∀ p r, t.filedescs.cell p = some r → some p ∈ t.slots
  count : t.fileDescriptorCount = t.slots.countP Option.isSome

end Table

namespace Table

/-! ## Exact tables -/

theorem handles_length (t : Table) : t.handles.length = t.slots.length := List.length_map _

theorem handles_get {i : Nat} (at_i : t.slots[i]? = some (some p)) (live : t.filedescs.cell p = some r) :
    t.handles[i]? = some (some r) := by
  rw [handles, List.getElem?_map, at_i, Option.map_some, Option.bind_some, live]

theorem lookup_handle (found : t.lookup fd = some (some (p, r))) :
    0 ≤ fd ∧ t.handles[fd.toNat]? = some (some r) := by
  obtain ⟨nonneg, at_fd, live⟩ := lookup_some found
  exact ⟨nonneg, handles_get at_fd live⟩

namespace Exact

theorem init : Exact State.init.table where
  live _ mem := by cases mem
  distinct _ _ _ at_i := by cases at_i
  owned _ _ live := by cases live
  count := rfl

/-- Looking a descriptor up never follows a wild pointer. -/
theorem lookup (exact : t.Exact) (fd : Int) :
    ∃ entry, t.lookup fd = some entry ∧ entry.map Prod.snd = t.handle fd := by
  by_cases negative : fd < 0
  · exact ⟨none, by rw [Table.lookup, if_pos negative], by rw [handle, if_pos negative]; rfl⟩
  rw [Table.lookup, handle, if_neg negative, if_neg negative]
  cases at_fd : t.slots[fd.toNat]? with
  | none => exact ⟨none, rfl, by rw [slotAt, handles, List.getElem?_map, at_fd]; rfl⟩
  | some ptr =>
    cases ptr with
    | none => exact ⟨none, rfl, by rw [slotAt, handles, List.getElem?_map, at_fd]; rfl⟩
    | some p =>
      obtain ⟨r, live⟩ := exact.live p (List.mem_of_getElem? at_fd)
      exact ⟨some (p, r), by simp [live], by rw [slotAt, handles_get at_fd live]; rfl⟩

theorem handles_isSome (exact : t.Exact) :
    t.handles.map Option.isSome = t.slots.map Option.isSome := by
  rw [handles, List.map_map]
  apply List.map_congr_left
  intro ptr mem
  cases ptr with
  | none => rfl
  | some p =>
    obtain ⟨r, live⟩ := exact.live p mem
    show (t.filedescs.cell p).isSome = true
    rw [live]
    rfl

/-- An open descriptor is opened on a file that is counted. -/
theorem references_pos {i f : Nat} (at_i : t.handles[i]? = some (some r)) (file : r.file = some f) :
    0 < t.references f := by
  rw [references, List.countP_pos_iff]
  exact ⟨some r, List.mem_of_getElem? at_i, by simp [file]⟩

/-! ### Moving a position -/

theorem advance_handles (exact : t.Exact) {i : Nat} (at_i : t.slots[i]? = some (some p))
    (live : t.filedescs.cell p = some r) (n : Int) :
    (t.advance p n).handles = t.handles.set i (some { r with offset := r.offset + n }) := by
  rw [advance_facts live]
  apply List.ext_getElem?
  intro j
  rw [List.getElem?_set, handles_length]
  have inside := (List.getElem?_eq_some_iff.mp at_i).1
  show (t.slots.map _)[j]? = _
  rw [List.getElem?_map]
  by_cases here : i = j
  · subst here
    rw [at_i, if_pos rfl, if_pos inside]
    simp [live]
  · rw [if_neg here, handles, List.getElem?_map]
    cases at_j : t.slots[j]? with
    | none => rfl
    | some ptr =>
      cases ptr with
      | none => rfl
      | some q =>
        have other : q ≠ p := by
          intro same
          exact here (exact.distinct i j p at_i (same ▸ at_j))
        simp [other]

theorem advance (exact : t.Exact) (live : t.filedescs.cell p = some r) (n : Int) :
    (t.advance p n).Exact := by
  rw [advance_facts live]
  constructor
  · intro q mem
    obtain ⟨r', live'⟩ := exact.live q mem
    by_cases here : q = p
    · exact ⟨{ r with offset := r.offset + n }, by simp [here, live]⟩
    · exact ⟨r', by simp [here, live']⟩
  · exact exact.distinct
  · intro q r' live'
    simp only [Store.put_cell] at live'
    split at live'
    · next here => exact here ▸ exact.owned p r live
    · exact exact.owned q r' live'
  · exact exact.count

/-! ### Closing -/

theorem close_handles (exact : t.Exact) (inv : TableInv t) (found : t.lookup fd = some (some (p, r))) :
    (t.close fd.toNat p).handles = t.handles.set fd.toNat none := by
  obtain ⟨nonneg, at_fd, live⟩ := lookup_some found
  obtain ⟨-, slots, filedescs, -⟩ := close_facts inv found
  have inside := (List.getElem?_eq_some_iff.mp at_fd).1
  apply List.ext_getElem?
  intro j
  rw [List.getElem?_set, handles_length, handles, List.getElem?_map, slots, filedescs, List.getElem?_set]
  by_cases here : fd.toNat = j
  · rw [if_pos here, if_pos here, if_pos inside]
    split <;> rfl
  · rw [if_neg here, if_neg here, handles, List.getElem?_map]
    cases at_j : t.slots[j]? with
    | none => rfl
    | some ptr =>
      cases ptr with
      | none => rfl
      | some q =>
        have other : q ≠ p := by
          intro same
          exact here (exact.distinct _ j p at_fd (same ▸ at_j))
        simp [other]

theorem close (exact : t.Exact) (inv : TableInv t) (found : t.lookup fd = some (some (p, r))) :
    (t.close fd.toNat p).Exact := by
  obtain ⟨nonneg, at_fd, live⟩ := lookup_some found
  obtain ⟨-, slots, filedescs, -, count⟩ := close_facts inv found
  have inside := (List.getElem?_eq_some_iff.mp at_fd).1
  have old : ∀ j q, (t.slots.set fd.toNat none)[j]? = some (some q) → j ≠ fd.toNat ∧ t.slots[j]? = some (some q) := by
    intro j q at_j
    rw [List.getElem?_set] at at_j
    split at at_j
    · simp at at_j
    · next other => exact ⟨fun same => other same.symm, at_j⟩
  constructor
  · intro q mem
    rw [slots] at mem
    obtain ⟨j, at_j⟩ := List.mem_iff_getElem?.mp mem
    obtain ⟨other, at_j⟩ := old j q at_j
    obtain ⟨r', live'⟩ := exact.live q (List.mem_of_getElem? at_j)
    have apart : q ≠ p := by
      intro same
      exact other (exact.distinct j _ p (same ▸ at_j) at_fd)
    exact ⟨r', by rw [filedescs]; simp [apart, live']⟩
  · intro i j q at_i at_j
    rw [slots] at at_i at_j
    exact exact.distinct i j q (old i q at_i).2 (old j q at_j).2
  · intro q r' live'
    rw [filedescs, Store.free_cell] at live'
    split at live'
    · cases live'
    next apart =>
      obtain ⟨j, at_j⟩ := List.mem_iff_getElem?.mp (exact.owned q r' live')
      have other : ¬ fd.toNat = j := by
        intro same
        subst same
        rw [at_fd] at at_j
        exact apart (by simpa using at_j.symm)
      rw [slots]
      exact List.mem_of_getElem? (by rw [List.getElem?_set, if_neg other]; exact at_j)
  · have counted := countP_set_add at_fd (a := none) Option.isSome
    simp only [Option.isSome_some, if_true, Option.isSome_none, Bool.false_eq_true, if_false] at counted
    rw [count, slots, exact.count]
    omega

/-! ### Opening -/

/-- `get_fd` always finds the first free number. -/
theorem reserved (exact : t.Exact) (inv : TableInv t) (zero : junk.ZeroSlots) {n : Nat} {slots : List Ptr}
    (how : Reserved junk t n slots) (inside : n < slots.length) :
    n = lowestFree t.handles ∧ slots[n]? = some none ∧
      ∃ k, slots = t.slots ++ List.replicate k none := by
  have same : t.handles.findIdx? Option.isNone = t.slots.findIdx? Option.isNone := by
    have negated : ∀ {α : Type} (l : List (Option α)),
        l.findIdx? Option.isNone = (l.map Option.isSome).findIdx? not := by
      intro α l
      rw [List.findIdx?_map]
      congr 1
      funext o
      cases o <;> rfl
    rw [negated, negated t.slots, exact.handles_isSome]
  rw [lowestFree, same, handles_length]
  cases how with
  | grown fresh full unassigned size =>
    -- The array is full: as many slots are occupied as there are slots.
    have occupied : ∀ ptr ∈ t.slots, ptr.isNone = false := by
      intro ptr mem
      obtain none | full := full
      · rw [Table.slots, none] at mem
        cases mem
      · rw [exact.count, inv.capacity, Int.natCast_inj, List.countP_eq_length] at full
        have some := full ptr mem
        cases ptr with
        | none => cases some
        | some q => rfl
    rw [List.findIdx?_eq_none_iff.mpr occupied]
    have unused : fresh = List.replicate fresh.length none := by
      apply List.eq_replicate_of_mem
      intro ptr mem
      obtain ⟨array, i, rfl⟩ := unassigned ptr mem
      exact zero array i
    rw [List.length_append] at inside
    refine ⟨rfl, ?_, fresh.length, by rw [← unused]⟩
    rw [unused, List.getElem?_append_right (Nat.le_refl _), List.getElem?_replicate, if_pos (by omega)]
  | scanned n present room found =>
    obtain ⟨_, free, -⟩ := List.findIdx?_eq_some_iff_getElem.mp found
    refine ⟨by rw [found]; rfl, ?_, 0, by simp⟩
    rw [List.getElem?_eq_getElem inside]
    simpa using free

theorem install (exact : t.Exact) (inv : TableInv t) (zero : junk.ZeroSlots) {f n : Nat} {flags : Flags}
    (installed : t.install junk f flags = some (n, t')) :
    t'.Exact ∧ n = lowestFree t.handles ∧ ∃ k, n < t.handles.length + k ∧
      t'.handles = (t.handles ++ List.replicate k none).set n
        (some { file := some f, isOccupied := true, offset := 0,
                canRead := canReadWith flags, canWrite := canWriteWith flags }) := by
  obtain ⟨slots, how, inside, -, -, slots_eq, count, filedescs⟩ := install_some junk inv installed
  obtain ⟨lowest, free, k, rfl⟩ := exact.reserved inv zero how inside
  have unassigned : ∀ (i q : Nat), (t.slots ++ List.replicate k none)[i]? = some (some q) →
      t.slots[i]? = some (some q) := by
    intro i q at_i
    rw [List.getElem?_append] at at_i
    split at at_i
    · exact at_i
    · rw [List.getElem?_replicate] at at_i
      split at at_i <;> cases at_i
  have fresh : ∀ q, some q ∈ t.slots → q ≠ t.filedescs.next := by
    intro q mem
    obtain ⟨r', live⟩ := exact.live q mem
    exact Nat.ne_of_lt (Store.lt_next live)
  -- Every other slot is an old one.
  have old : ∀ (i q : Nat), t'.slots[i]? = some (some q) →
      (i = n ∧ q = t.filedescs.next) ∨ (i ≠ n ∧ t.slots[i]? = some (some q)) := by
    intro i q at_i
    rw [slots_eq, List.getElem?_set] at at_i
    split at at_i
    · next here =>
      simp only [Option.some.injEq] at at_i
      exact .inl ⟨here.symm, at_i.symm⟩
    · next other => exact .inr ⟨fun same => other same.symm, unassigned i q at_i⟩
  refine ⟨⟨?live, ?distinct, ?owned, ?count⟩, lowest, k, ?inside, ?handles⟩
  case live =>
    intro q mem
    obtain ⟨i, at_i⟩ := List.mem_iff_getElem?.mp mem
    obtain ⟨-, rfl⟩ | ⟨-, at_i⟩ := old i q at_i
    · exact ⟨_, by rw [filedescs, Store.alloc_cell, if_pos rfl]⟩
    · obtain ⟨r', live⟩ := exact.live q (List.mem_of_getElem? at_i)
      exact ⟨r', by rw [filedescs, Store.alloc_cell, if_neg (fresh q (List.mem_of_getElem? at_i)), live]⟩
  case distinct =>
    intro i j q at_i at_j
    obtain ⟨rfl, new⟩ | ⟨-, at_i⟩ := old i q at_i
    · obtain ⟨rfl, -⟩ | ⟨-, at_j⟩ := old j q at_j
      · rfl
      · exact absurd new (fresh q (List.mem_of_getElem? at_j))
    · obtain ⟨-, new⟩ | ⟨-, at_j⟩ := old j q at_j
      · exact absurd new (fresh q (List.mem_of_getElem? at_i))
      · exact exact.distinct i j q at_i at_j
  case owned =>
    intro q r' live
    rw [filedescs, Store.alloc_cell] at live
    rw [slots_eq]
    split at live
    · next here => exact List.mem_iff_getElem?.mpr ⟨n, by rw [here, List.getElem?_set_self inside]⟩
    · obtain ⟨i, at_i⟩ := List.mem_iff_getElem?.mp (exact.owned q r' live)
      have before := (List.getElem?_eq_some_iff.mp at_i).1
      have other : n ≠ i := by
        intro same
        subst same
        rw [List.getElem?_append_left before, at_i] at free
        cases free
      refine List.mem_iff_getElem?.mpr ⟨i, ?_⟩
      rw [List.getElem?_set_ne other, List.getElem?_append_left before, at_i]
  case count =>
    have counted := countP_set_add free (a := some t.filedescs.next) Option.isSome
    simp only [Option.isSome_some, if_true, Option.isSome_none, Bool.false_eq_true, if_false,
      List.countP_append, List.countP_replicate] at counted
    rw [count, slots_eq, exact.count]
    omega
  case inside =>
    rw [handles_length]
    simpa using inside
  case handles =>
    rw [handles, slots_eq, List.map_set, List.map_append, List.map_replicate, filedescs]
    congr 2
    · apply List.map_congr_left
      intro ptr mem
      cases ptr with
      | none => rfl
      | some q => exact if_neg (fresh q mem)
    · exact if_pos rfl

/-- Opening a descriptor always succeeds. -/
theorem install_total (exact : t.Exact) (inv : TableInv t) (f : Nat) (flags : Flags) :
    ∃ n t', t.install junk f flags = some (n, t') := by
  cases reserved : t.reserve junk with
  | some r => exact ⟨r.1, _, by rw [Table.install, reserved]; rfl⟩
  | none =>
    obtain ⟨-, room, occupied⟩ := reserve_none junk reserved
    rw [exact.count, inv.capacity, Ne, Int.natCast_inj, List.countP_eq_length] at room
    refine absurd (fun ptr mem => ?_) room
    exact Option.isSome_iff_ne_none.mpr (occupied ptr mem)

/-! ### References -/

theorem advance_references (exact : t.Exact) (found : t.lookup fd = some (some (p, r))) (n : Int) (f : Nat) :
    (t.advance p n).references f = t.references f := by
  obtain ⟨-, at_fd, live⟩ := lookup_some found
  have counted := countP_set_add (a := some { r with offset := r.offset + n }) (handles_get at_fd live)
    fun handle => handle.any fun r => r.file = some f
  rw [references, references, exact.advance_handles at_fd live]
  simp only [Option.any_some] at counted
  omega

theorem close_references (exact : t.Exact) (inv : TableInv t) (found : t.lookup fd = some (some (p, r)))
    (f : Nat) :
    (t.close fd.toNat p).references f + (if r.file = some f then 1 else 0) = t.references f := by
  have counted := countP_set_add (a := none) (lookup_handle found).2
    fun handle => handle.any fun r => r.file = some f
  rw [references, references, exact.close_handles inv found]
  simpa using counted

theorem install_references (exact : t.Exact) (inv : TableInv t) (zero : junk.ZeroSlots) {f n : Nat}
    {flags : Flags} (installed : t.install junk f flags = some (n, t')) (g : Nat) :
    t'.references g = t.references g + if f = g then 1 else 0 := by
  obtain ⟨-, rfl, k, inside, handles⟩ := exact.install inv zero installed
  have counted := countP_set_add (lowestFree_get inside)
    (a := some { file := some f, isOccupied := true, offset := 0,
                 canRead := canReadWith flags, canWrite := canWriteWith flags })
    fun handle => handle.any fun r => r.file = some g
  rw [references, references, handles]
  simpa [List.countP_append, List.countP_replicate] using counted

end Exact

end Table

end SysprogLabs.Userfs
