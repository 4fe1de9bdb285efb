import SysprogLabs.Userfs.Model
import Mathlib.Data.List.Basic

/-! # The descriptor table

What `get_fd`, `is_valid_fd` and the accesses to `file_descriptors` compute, as
functions on the table.  A slot that was never assigned holds whatever `malloc`
left there, so looking a descriptor up can follow a wild pointer.
-/

namespace SysprogLabs.Userfs

open Prog

variable (junk : Junk) {t : Table} {fd : Int} {p : Nat} {r : Filedesc}

namespace Table

/-- The contents of `file_descriptors`. -/
def slots (t : Table) : List Ptr := (t.fileDescriptors.bind t.arrays.cell).getD []

def setSlots (t : Table) (slots : List Ptr) : Table :=
  match t.fileDescriptors with
  | some array => { t with arrays := t.arrays.put array slots }
  | none => t

/-- The record `fd` stands for, if it is open; `none` when its slot holds a pointer to no
    live record. -/
def lookup (t : Table) (fd : Int) : Option (Option (Nat × Filedesc)) :=
  if fd < 0 then some none
  else match t.slots[fd.toNat]? with
    | some (some p) => (t.filedescs.cell p).map fun r => some (p, r)
    | _ => some none

/-- The file an open descriptor is opened on. -/
def fileOf (t : Table) (fd : Int) : Ptr := (t.lookup fd).join.bind fun (_, r) => r.file

/-- `get_fd`: the number it returns and the table it leaves, up to the count; `none` when it
    finds no free slot. -/
def reserve (t : Table) : Option (Nat × Table) :=
  match t.fileDescriptors with
  | none => some (0, { t with
      fileDescriptorCapacity := 10
      arrays := t.arrays.alloc ((List.range 10).map (junk.slot t.arrays.next))
      fileDescriptors := some t.arrays.next })
  | some array =>
    if t.fileDescriptorCount = t.fileDescriptorCapacity then some (t.slots.length, { t with
      fileDescriptorCapacity := t.fileDescriptorCapacity * 2
      arrays := (t.arrays.alloc (t.slots ++ ((List.range (t.slots.length * 2)).map
        (junk.slot t.arrays.next)).drop t.slots.length)).free array
      fileDescriptors := some t.arrays.next })
    else (t.slots.findIdx? Option.isNone).map (·, t)

/-- Opens a descriptor on `f`. -/
def install (t : Table) (f : Nat) (flags : Flags) : Option (Nat × Table) :=
  (t.reserve junk).map fun (fd, t') =>
    (fd, { t' with
      filedescs := t.filedescs.alloc { file := some f, isOccupied := true, offset := 0,
                                       canRead := canReadWith flags, canWrite := canWriteWith flags }
      fileDescriptorCount := t.fileDescriptorCount + 1 }.setSlots
        (t'.slots.set fd (some t.filedescs.next)))

/-- Moves the position of the record `p`. -/
def advance (t : Table) (p : Nat) (n : Int) : Table :=
  match t.filedescs.cell p with
  | some r => { t with filedescs := t.filedescs.put p { r with offset := r.offset + n } }
  | none => t

/-- Closes the descriptor `fd` with the record `p`. -/
def close (t : Table) (fd p : Nat) : Table :=
  { t with filedescs := t.filedescs.free p
           fileDescriptorCount := t.fileDescriptorCount - 1 }.setSlots (t.slots.set fd none)

end Table

/-- The array is live and as long as `file_descriptor_capacity` says, and every live record
    is one `ufs_open` has filled in. -/
structure TableInv (t : Table) : Prop where
  array : t.fileDescriptors = none ∧ t.fileDescriptorCapacity = 0 ∨
    ∃ array slots, t.fileDescriptors = some array ∧ t.arrays.cell array = some slots ∧
      t.fileDescriptorCapacity = slots.length ∧ 0 < slots.length
  record : ∀ p r, t.filedescs.cell p = some r → ∃ f, r.file = some f ∧ r.isOccupied = true ∧ 0 ≤ r.offset

namespace TableInv

theorem slots_eq {array : Nat} {slots : List Ptr} (at_array : t.fileDescriptors = some array)
    (live : t.arrays.cell array = some slots) : t.slots = slots := by
  rw [Table.slots, at_array, Option.bind_some, live, Option.getD_some]

theorem capacity (inv : TableInv t) : t.fileDescriptorCapacity = t.slots.length := by
  obtain ⟨none, zero⟩ | ⟨array, slots, at_array, live, size, -⟩ := inv.array
  · rw [zero, Table.slots, none]
    rfl
  · rw [size, slots_eq at_array live]

end TableInv

namespace Table

theorem setSlots_slots {array : Nat} {old slots : List Ptr} (at_array : t.fileDescriptors = some array)
    (live : t.arrays.cell array = some old) : (t.setSlots slots).slots = slots := by
  simp [Table.slots, setSlots, at_array, live]

@[simp] theorem setSlots_filedescs (slots : List Ptr) : (t.setSlots slots).filedescs = t.filedescs := by
  unfold setSlots
  split <;> rfl

@[simp] theorem setSlots_fileDescriptors (slots : List Ptr) :
    (t.setSlots slots).fileDescriptors = t.fileDescriptors := by
  unfold setSlots
  split <;> rfl

@[simp] theorem setSlots_count (slots : List Ptr) :
    (t.setSlots slots).fileDescriptorCount = t.fileDescriptorCount := by
  unfold setSlots
  split <;> rfl

end Table

/-- Assigning slots and replacing records keeps the invariant. -/
theorem TableInv.setSlots {array : Nat} {old slots : List Ptr} (at_array : t.fileDescriptors = some array)
    (live : t.arrays.cell array = some old) (capacity : t.fileDescriptorCapacity = old.length)
    (pos : 0 < old.length) (same : slots.length = old.length)
    (record : ∀ p r, t.filedescs.cell p = some r →
      ∃ f, r.file = some f ∧ r.isOccupied = true ∧ 0 ≤ r.offset) : TableInv (t.setSlots slots) := by
  refine ⟨.inr ⟨array, slots, ?_, ?_, ?_, by omega⟩, ?_⟩
  · simpa using at_array
  · simp [Table.setSlots, at_array, live]
  · simp [Table.setSlots, at_array, capacity, same]
  · simpa using record

/-! ## Looking a descriptor up -/

namespace Table

theorem fileOf_eq (found : t.lookup fd = some (some (p, r))) : t.fileOf fd = r.file := by
  rw [fileOf, found]
  rfl

theorem fileOf_closed (closed : t.lookup fd = some none) : t.fileOf fd = none := by
  rw [fileOf, closed]
  rfl

theorem lookup_some (found : t.lookup fd = some (some (p, r))) :
    0 ≤ fd ∧ t.slots[fd.toNat]? = some (some p) ∧ t.filedescs.cell p = some r := by
  simp only [lookup] at found
  split at found
  · cases found
  next nonneg =>
    split at found
    next q at_fd =>
      obtain ⟨r', live, same⟩ := Option.map_eq_some_iff.mp found
      cases same
      exact ⟨by omega, at_fd, live⟩
    · cases found

end Table

theorem ensures_slot (inv : TableInv t) {Q : Ptr → Table → Prop} {ptr : Ptr} (nonneg : 0 ≤ fd)
    (at_fd : t.slots[fd.toNat]? = some ptr) : (slot fd).Ensures t Q ↔ Q ptr t := by
  obtain ⟨none, -⟩ | ⟨array, slots, at_array, live, -⟩ := inv.array
  · simp [Table.slots, none] at at_fd
  · rw [TableInv.slots_eq at_array live] at at_fd
    have not_neg : ¬ fd < 0 := by omega
    simp [slot, at_array, live, not_neg, at_fd]

theorem ensures_isValidFd (inv : TableInv t) {Q : Bool → Table → Prop} :
    (isValidFd fd).Ensures t Q ↔ match t.lookup fd with
      | some entry => Q entry.isSome t
      | none => False := by
  have capacity := inv.capacity
  simp only [isValidFd, ensures_bind, ensures_read, ensures_ite, ensures_pure, capacity]
  by_cases negative : fd < 0
  · rw [if_pos (.inl negative), Table.lookup, if_pos negative]
    rfl
  rw [Table.lookup, if_neg negative]
  cases at_fd : t.slots[fd.toNat]? with
  | none =>
    rw [List.getElem?_eq_none_iff] at at_fd
    rw [if_pos (.inr (by omega))]
    rfl
  | some ptr =>
    have inside := (List.getElem?_eq_some_iff.mp at_fd).1
    rw [if_neg (by omega), ensures_slot inv (by omega) at_fd]
    cases ptr with
    | none => simp
    | some p =>
      cases live : t.filedescs.cell p with
      | none => simp [live]
      | some r =>
        obtain ⟨f, file, occupied, -⟩ := inv.record p r live
        simp [live, file, occupied]

/-! ## Opening a descriptor -/

/-- The scan of `get_fd` finds the first slot that reads as `NULL`. -/
theorem scan_spec {array : Nat} {slots : List Ptr} (at_array : t.fileDescriptors = some array)
    (live : t.arrays.cell array = some slots) {front back : List Ptr} (split : slots = front ++ back) :
    (Prog.loop (fun i => do
      if i < (slots.length : Int) then
        let filedesc ← slot i
        if filedesc = none then return .done i else return .again (i + 1)
      else return .done (-1)) (front.length : Int)).Ensures t fun fd t' => t' = t ∧
        fd = match back.findIdx? Option.isNone with
          | some k => (front.length + k : Int)
          | none => -1 := by
  induction back generalizing front with
  | nil =>
    apply ensures_loop.mpr
    simp [split]
  | cons ptr back ih =>
    have inside : (front.length : Int) < slots.length := by
      rw [split, List.length_append, List.length_cons]
      omega
    have at_ptr : slots[front.length]? = some ptr := by simp [split]
    have later := @ih (front ++ [ptr]) (by simp [split])
    apply ensures_loop.mpr
    have not_neg : ¬ (front.length : Int) < 0 := by omega
    simp only [ensures_ite, ensures_bind, ensures_pure, slot, ensures_read, Lens.ensures_load, at_array,
      arrayHeap_get, Option.some.injEq, exists_eq_left', live, ensures_require, Int.toNat_natCast, at_ptr]
    rw [if_pos inside, if_neg not_neg]
    cases ptr with
    | none =>
      rw [if_pos rfl, List.findIdx?_cons]
      simp
    | some p =>
      rw [if_neg (by simp), List.findIdx?_cons]
      rw [List.length_append, List.length_singleton] at later
      refine later.mono fun fd t' result => ⟨result.1, ?_⟩
      rw [result.2]
      cases back.findIdx? Option.isNone with
      | none => rfl
      | some k =>
        show ((front.length + 1 : Nat) : Int) + k = front.length + (k + 1 : Nat)
        omega

/-- How `get_fd` comes by a number: the first of the slots `malloc` has just added behind the
    old ones, or the first old one that reads as `NULL`. -/
inductive Reserved (t : Table) : Nat → List Ptr → Prop where
  | grown (fresh : List Ptr)
      (full : t.fileDescriptors = none ∨ t.fileDescriptorCount = t.fileDescriptorCapacity)
      (unassigned : ∀ ptr ∈ fresh, ∃ array i, ptr = junk.slot array i)
      (size : fresh.length = if t.fileDescriptors = none then 10 else t.slots.length) :
      Reserved t t.slots.length (t.slots ++ fresh)
  | scanned (n : Nat) (present : t.fileDescriptors ≠ none)
      (room : t.fileDescriptorCount ≠ t.fileDescriptorCapacity)
      (found : t.slots.findIdx? Option.isNone = some n) :
      Reserved t n t.slots

theorem Table.reserve_some (inv : TableInv t) {n : Nat} {t₁ : Table}
    (reserved : t.reserve junk = some (n, t₁)) :
    ∃ array slots, Reserved junk t n slots ∧ t₁.fileDescriptors = some array ∧
      t₁.arrays.cell array = some slots ∧ t₁.fileDescriptorCapacity = slots.length ∧
      n < slots.length ∧ t₁.filedescs = t.filedescs ∧
      t₁.fileDescriptorCount = t.fileDescriptorCount := by
  obtain ⟨none, -⟩ | ⟨array, slots, at_array, live, size, pos⟩ := inv.array
  · simp only [Table.reserve, none, Option.some.injEq, Prod.mk.injEq] at reserved
    obtain ⟨rfl, rfl⟩ := reserved
    have no_slots : t.slots = [] := by rw [Table.slots, none]; rfl
    have grown : Reserved junk t t.slots.length
        (t.slots ++ (List.range 10).map (junk.slot t.arrays.next)) :=
      .grown _ (.inl none)
        (fun ptr mem => by obtain ⟨i, -, rfl⟩ := List.mem_map.mp mem; exact ⟨_, i, rfl⟩) (by simp [none])
    rw [no_slots] at grown
    exact ⟨t.arrays.next, _, grown, rfl, if_pos rfl, by simp, by simp, rfl, rfl⟩
  have slots_eq := TableInv.slots_eq at_array live
  have present : t.fileDescriptors ≠ none := by simp [at_array]
  simp only [Table.reserve, at_array] at reserved
  split at reserved
  · next full =>
    cases reserved
    have fresh : array ≠ t.arrays.next := Nat.ne_of_lt (Store.lt_next live)
    have added : (((List.range (t.slots.length * 2)).map (junk.slot t.arrays.next)).drop
        t.slots.length).length = t.slots.length := by
      simp
      omega
    refine ⟨t.arrays.next, _, .grown _ (.inr full) (fun ptr mem => ?_) ?_, rfl,
      (if_neg fresh.symm).trans (if_pos rfl), ?_, ?_, rfl, rfl⟩
    · obtain ⟨i, -, rfl⟩ := List.mem_map.mp (List.mem_of_mem_drop mem)
      exact ⟨_, i, rfl⟩
    · rw [if_neg present, added]
    · show t.fileDescriptorCapacity * 2 = _
      rw [List.length_append, added, slots_eq, size]
      omega
    · rw [List.length_append, added, slots_eq]
      omega
  · next room =>
    obtain ⟨k, found, same⟩ := Option.map_eq_some_iff.mp reserved
    cases same
    have inside := (List.findIdx?_eq_some_iff_findIdx_eq.mp found).1
    rw [slots_eq] at inside
    refine ⟨array, slots, ?_, at_array, live, size, inside, rfl, rfl⟩
    rw [← slots_eq]
    exact .scanned _ present room found

theorem Table.reserve_none (reserved : t.reserve junk = none) :
    t.fileDescriptors ≠ none ∧ t.fileDescriptorCount ≠ t.fileDescriptorCapacity ∧
      ∀ ptr ∈ t.slots, ptr ≠ none := by
  simp only [Table.reserve] at reserved
  split at reserved
  · cases reserved
  next array at_array =>
    split at reserved
    · cases reserved
    next room =>
      refine ⟨by simp [at_array], room, fun ptr mem => ?_⟩
      rw [Option.map_eq_none_iff, List.findIdx?_eq_none_iff] at reserved
      intro free
      simpa [free] using reserved ptr mem

/-- What opening a descriptor changes. -/
theorem Table.install_some (inv : TableInv t) {f n : Nat} {flags : Flags} {t' : Table}
    (installed : t.install junk f flags = some (n, t')) :
    ∃ slots, Reserved junk t n slots ∧ n < slots.length ∧ TableInv t' ∧
      t'.fileDescriptors ≠ none ∧ t'.slots = slots.set n (some t.filedescs.next) ∧
      t'.fileDescriptorCount = t.fileDescriptorCount + 1 ∧
      t'.filedescs = t.filedescs.alloc { file := some f, isOccupied := true, offset := 0,
                                         canRead := canReadWith flags, canWrite := canWriteWith flags } := by
  obtain ⟨r, reserved, same⟩ := Option.map_eq_some_iff.mp installed
  obtain ⟨k, t₁⟩ := r
  obtain ⟨array, slots, how, at_array, live, size, inside, filedescs, count⟩ :=
    Table.reserve_some junk inv reserved
  simp only [Prod.mk.injEq] at same
  obtain ⟨rfl, rfl⟩ := same
  have slots_eq := TableInv.slots_eq at_array live
  refine ⟨slots, how, inside, TableInv.setSlots at_array live size (by omega) (by simp [slots_eq]) ?_, ?_, ?_,
    by simp, by simp⟩
  · intro p r at_p
    simp only [Store.alloc_cell] at at_p
    split at at_p
    · cases at_p
      exact ⟨f, rfl, rfl, Int.le_refl 0⟩
    · exact inv.record p r at_p
  · simp [at_array]
  · rw [slots_eq]
    exact Table.setSlots_slots at_array live

/-- `get_fd` returns the number `reserve` says, or `-1`. -/
theorem getFd_spec (inv : TableInv t) :
    (getFd junk).Ensures t fun fd t' => match t.reserve junk with
      | some (n, t₁) => fd = n ∧ t' = { t₁ with fileDescriptorCount := t.fileDescriptorCount + 1 }
      | none => fd = -1 := by
  simp only [getFd, ensures_bind, ensures_read, id]
  obtain ⟨none, zero⟩ | ⟨array, slots, at_array, live, size, pos⟩ := inv.array
  · simp [none, mallocSlots, Table.reserve]
  have slots_eq := TableInv.slots_eq at_array live
  rw [if_neg (by simp [at_array])]
  by_cases full : t.fileDescriptorCount = t.fileDescriptorCapacity
  · have double : ((slots.length : Int) * 2).toNat = slots.length * 2 := by omega
    have fresh : array ≠ t.arrays.next := Nat.ne_of_lt (Store.lt_next live)
    rw [if_pos full]
    simp [mallocSlots, at_array, live, double, fresh, Table.reserve, full, slots_eq, size]
  · rw [if_neg full]
    have scanned := scan_spec at_array live (List.nil_append slots).symm
    rw [← size] at scanned
    simp only [ensures_bind]
    refine scanned.mono fun fd t' result => ?_
    obtain ⟨rfl, rfl⟩ := result
    simp only [ensures_update, ensures_pure, Table.reserve, at_array, full, if_false, slots_eq]
    cases slots.findIdx? Option.isNone with
    | none => rfl
    | some k => simp [at_array]

theorem newFd_spec (inv : TableInv t) (f : Nat) (flags : Flags) :
    (newFd junk f flags).Realizes t (t.install junk f flags) fun fd t' r => fd = r.1 ∧ t' = r.2 := by
  unfold newFd
  apply Realizes.after
  refine (getFd_spec junk inv).mono fun fd t' reserved => ?_
  cases at_reserve : t.reserve junk with
  | none =>
    have none : t.install junk f flags = none := by rw [Table.install, at_reserve]; rfl
    rw [at_reserve] at reserved
    rw [none, Realizes, noReturn_iff, reserved]
    simp [setSlot]
  | some r =>
    obtain ⟨n, t₁⟩ := r
    rw [at_reserve] at reserved
    obtain ⟨rfl, rfl⟩ := reserved
    obtain ⟨array, slots, -, at_array, live, size, inside, filedescs, count⟩ :=
      Table.reserve_some junk inv at_reserve
    have slots_eq := TableInv.slots_eq at_array live
    rw [Table.install, at_reserve, Option.map_some]
    simp [Realizes, setSlot, at_array, live, inside, filedescs, slots_eq, Table.setSlots]

/-! ## Closing a descriptor and moving its position -/

theorem closeFd_spec (inv : TableInv t) (found : t.lookup fd = some (some (p, r))) :
    (do
      filedescHeap.free (some p)
      setSlot fd none
      .update fun t => { t with fileDescriptorCount := t.fileDescriptorCount - 1 } :
      Prog Table Unit).Ensures t fun _ t' => t' = t.close fd.toNat p := by
  obtain ⟨nonneg, at_fd, live⟩ := Table.lookup_some found
  obtain ⟨none, -⟩ | ⟨array, slots, at_array, live_array, size, -⟩ := inv.array
  · simp [Table.slots, none] at at_fd
  have slots_eq := TableInv.slots_eq at_array live_array
  have inside := (List.getElem?_eq_some_iff.mp at_fd).1
  rw [slots_eq] at inside
  have in_array : 0 ≤ fd ∧ fd < slots.length := by omega
  simp [setSlot, live, at_array, live_array, in_array, Table.close, Table.setSlots, slots_eq]

theorem Table.close_facts (inv : TableInv t) (found : t.lookup fd = some (some (p, r))) :
    TableInv (t.close fd.toNat p) ∧ (t.close fd.toNat p).slots = t.slots.set fd.toNat none ∧
      (t.close fd.toNat p).filedescs = t.filedescs.free p ∧
      (t.close fd.toNat p).fileDescriptors = t.fileDescriptors ∧
      (t.close fd.toNat p).fileDescriptorCount = t.fileDescriptorCount - 1 := by
  obtain ⟨nonneg, at_fd, live⟩ := Table.lookup_some found
  obtain ⟨none, -⟩ | ⟨array, slots, at_array, live_array, size, pos⟩ := inv.array
  · simp [Table.slots, none] at at_fd
  have slots_eq := TableInv.slots_eq at_array live_array
  refine ⟨TableInv.setSlots at_array live_array size pos (by simp [slots_eq]) ?_,
    Table.setSlots_slots at_array live_array, by simp [close], by simp [close], by simp [close]⟩
  intro q r' at_q
  simp only [Store.free_cell] at at_q
  split at at_q
  · cases at_q
  · exact inv.record q r' at_q

theorem advance_spec (live : t.filedescs.cell p = some r) (n : Int) :
    (filedescHeap.modify (some p) fun d => { d with offset := d.offset + n }).Ensures t
      fun _ t' => t' = t.advance p n := by
  simp [live, Table.advance]

theorem Table.advance_facts (live : t.filedescs.cell p = some r) (n : Int) :
    t.advance p n = { t with filedescs := t.filedescs.put p { r with offset := r.offset + n } } := by
  simp [advance, live]

theorem TableInv.advance (inv : TableInv t) (live : t.filedescs.cell p = some r) {n : Int}
    (nonneg : 0 ≤ n) : TableInv (t.advance p n) := by
  rw [Table.advance_facts live]
  refine ⟨inv.array, fun q r' at_q => ?_⟩
  simp only [Store.put_cell] at at_q
  split at at_q
  · next here =>
    rw [here, live] at at_q
    cases at_q
    obtain ⟨f, file, occupied, offset⟩ := inv.record p r live
    exact ⟨f, file, occupied, Int.add_nonneg offset nonneg⟩
  · exact inv.record q r' at_q

end SysprogLabs.Userfs
