import SysprogLabs.Userfs.Sharing

/-! # Results and uninitialised memory

`get_fd` leaves the slots it allocates as `malloc` returns them, and both its scan and
`is_valid_fd` read them.  A run that never looks at a slot behind the first one does not see
the difference: on any other memory the same calls get the same answers.
-/

namespace SysprogLabs.Userfs

variable {junk junk' : Junk} {s s' : State} {v v' w : View} {call : Call} {out : Out} {t t' : Table}

/-! ## Which slots a call reads -/

/-- Some listed file is called `filename`. -/
def Disk.Lists (d : Disk) (filename : Name) : Prop :=
  ∃ f file, d.files.cell f = some file ∧ file.inList = true ∧ d.nameOf f = some filename

/-- The call reads no slot but the first one, which is assigned as soon as there is an array:
    an `ufs_open` that gets to `get_fd` needs a new array or finds the first slot free, and the
    other calls only go through numbers that `is_valid_fd` rejects by their range, or through 0. -/
def Seen (s : State) : Call → Prop
  | .ufsOpen filename flags => s.disk.Lists filename ∨ isPermitted flags ufsCreate = true →
      s.table.fileDescriptors = none ∨ s.table.slots[0]? = some none
  | .ufsDelete _ => True
  | .ufsWrite fd _ | .ufsRead fd _ | .ufsClose fd | .ufsResize fd _ =>
      fd ≤ 0 ∨ s.table.fileDescriptorCapacity ≤ fd

/-- A step of the API whose call reads no uninitialised slot. -/
def SeenStep (junk : Junk) (s : State) (event : Call × Out) (s' : State) : Prop :=
  Step junk s event s' ∧ Seen s event.1

/-! ## Which descriptors are open -/

/-- The open descriptors once the call has got its answer. -/
def openAfter (fds : List Int) : Call × Out → List Int
  | (.ufsOpen _ _, out) => if out.ret < 0 then fds else out.ret :: fds
  | (.ufsClose fd, out) => if out.ret < 0 then fds else fds.erase fd
  | _ => fds

/-- `ufs_open` returns a number that is not open, and fails only for want of a file; the other
    calls reject every number that is not open. -/
def Obeys (fds : List Int) : Call × Out → Prop
  | (.ufsOpen _ flags, out) => 0 ≤ out.ret ∧ out.ret ∉ fds ∨
      out = { ret := -1, bytes := [], errno := .noFile } ∧ isPermitted flags ufsCreate = false
  | (call, out) => ∀ fd, call.fd = some fd → fd ∉ fds → out = { ret := -1, bytes := [], errno := .noFile }

/-! ## Tables that differ in unassigned slots -/

/-- What the first slot says; no other one was assigned so far. -/
structure Table.Shows (t : Table) (entry : Option Ptr) : Prop where
  inv : TableInv t
  first : t.slots[0]? = entry
  size : t.slots.length = if entry = none then 0 else 10
  count : t.fileDescriptorCount = if entry.join.isSome then 1 else 0
  live : ∀ p, entry = some (some p) → ∃ r, t.filedescs.cell p = some r

/-- The descriptors that are open when the first slot says `entry`. -/
def heldFds (entry : Option Ptr) : List Int := if entry.join.isSome then [0] else []

/-- Two tables that only differ in slots no call has assigned. -/
structure Table.Twins (t t' : Table) (entry : Option Ptr) : Prop where
  filedescs : t'.filedescs = t.filedescs
  left : t.Shows entry
  right : t'.Shows entry

namespace Table.Shows

variable {entry : Option Ptr} {fd : Int} {p : Nat} {r : Filedesc}

theorem allocated (shows : t.Shows entry) (present : t.fileDescriptors ≠ none) : t.slots.length = 10 := by
  obtain ⟨none, -⟩ | ⟨array, slots, at_array, live, -, pos⟩ := shows.inv.array
  · exact absurd none present
  · have size := shows.size
    rw [TableInv.slots_eq at_array live] at size ⊢
    split at size
    · omega
    · exact size

theorem unallocated (shows : t.Shows entry) (none : t.fileDescriptors = none) : entry = .none := by
  rw [← shows.first, Table.slots, none]
  rfl

theorem capacity (shows : t.Shows entry) : t.fileDescriptorCapacity = if entry = none then 0 else 10 := by
  rw [shows.inv.capacity, shows.size]
  split <;> rfl

/-- What a call finds in the slots it may look at. -/
theorem lookup (shows : t.Shows entry) (seen : fd ≤ 0 ∨ t.fileDescriptorCapacity ≤ fd) :
    t.lookup fd = match (if fd = 0 then entry.join else none) with
      | some p => (t.filedescs.cell p).map fun r => some (p, r)
      | none => some none := by
  rw [shows.inv.capacity] at seen
  rw [Table.lookup]
  by_cases zero : fd = 0
  · subst zero
    rw [if_neg (by omega), if_pos rfl, Int.toNat_zero, shows.first]
    cases entry with
    | none => rfl
    | some ptr => cases ptr <;> rfl
  · rw [if_neg zero]
    by_cases negative : fd < 0
    · rw [if_pos negative]
    · rw [if_neg negative, List.getElem?_eq_none (by omega)]

/-- Only the number 0 can be open. -/
theorem found (shows : t.Shows entry) (seen : fd ≤ 0 ∨ t.fileDescriptorCapacity ≤ fd)
    (found : t.lookup fd = some (some (p, r))) : fd = 0 ∧ entry = some (some p) ∧ t.filedescs.cell p = some r := by
  rw [shows.lookup seen] at found
  by_cases zero : fd = 0
  · rw [if_pos zero] at found
    cases entry with
    | none => cases found
    | some ptr =>
      cases ptr with
      | none => cases found
      | some q =>
        obtain ⟨r', live, same⟩ := Option.map_eq_some_iff.mp found
        cases same
        exact ⟨zero, rfl, live⟩
  · rw [if_neg zero] at found
    cases found

theorem closed (shows : t.Shows entry) (seen : fd ≤ 0 ∨ t.fileDescriptorCapacity ≤ fd)
    (unheld : fd ∉ heldFds entry) : t.lookup fd = some none := by
  rw [shows.lookup seen]
  by_cases zero : fd = 0
  · rw [if_pos zero]
    cases held : entry.join with
    | none => rfl
    | some p => simp [heldFds, held, zero] at unheld
  · rw [if_neg zero]

/-- `is_valid_fd` accepts what is open and rejects what is not. -/
theorem isValidFd (shows : t.Shows entry) (seen : fd ≤ 0 ∨ t.fileDescriptorCapacity ≤ fd) :
    (isValidFd fd).Ensures t fun valid _ => valid = true ↔ fd ∈ heldFds entry := by
  rw [ensures_isValidFd shows.inv]
  by_cases unheld : fd ∉ heldFds entry
  · rw [shows.closed seen unheld]
    simp [unheld]
  rw [not_not] at unheld
  cases held : entry.join with
  | none => simp [heldFds, held] at unheld
  | some p =>
    have here : entry = some (some p) := Option.join_eq_some_iff.mp held
    obtain ⟨r, live⟩ := shows.live p here
    have zero : fd = 0 := by simpa [heldFds, held] using unheld
    rw [shows.lookup seen, if_pos zero, held]
    simp [live, unheld]

/-- Opening a descriptor assigns the first slot, whatever the others hold. -/
theorem install (shows : t.Shows entry) (free : entry.join = none) (junk : Junk) (f : Nat) (flags : Flags) :
    ∃ t', t.install junk f flags = some (0, t') ∧ t'.Shows (some (some t.filedescs.next)) ∧
      t'.filedescs = t.filedescs.alloc { file := some f, isOccupied := true, offset := 0,
                                         canRead := canReadWith flags, canWrite := canWriteWith flags } := by
  have count : t.fileDescriptorCount = 0 := by simp [shows.count, free]
  have reserved : ∃ t₁, t.reserve junk = some (0, t₁) := by
    cases at_array : t.fileDescriptors with
    | none => exact ⟨_, by simp only [Table.reserve, at_array]; rfl⟩
    | some array =>
      have size := shows.allocated (by simp [at_array])
      have room : t.fileDescriptorCount ≠ t.fileDescriptorCapacity := by
        rw [count, shows.inv.capacity, size]
        decide
      have at_first := shows.first
      cases slots : t.slots with
      | nil => simp [slots] at size
      | cons ptr rest =>
        have ptr_free : ptr = none := by
          rw [slots] at at_first
          subst at_first
          simpa using free
        exact ⟨t, by simp [Table.reserve, at_array, room, slots, ptr_free, List.findIdx?_cons]⟩
  obtain ⟨t₁, reserved⟩ := reserved
  obtain ⟨n, t', installed⟩ : ∃ n t', t.install junk f flags = some (n, t') := by
    simp [Table.install, reserved]
  have at_zero : n = 0 := by
    simp only [Table.install, reserved, Option.map_some, Option.some.injEq, Prod.mk.injEq] at installed
    exact installed.1.symm
  subst at_zero
  obtain ⟨slots, how, inside, inv', -, slots', count', filedescs'⟩ := Table.install_some junk shows.inv installed
  refine ⟨t', installed, ?_, filedescs'⟩
  constructor
  · exact inv'
  · simp [slots', inside]
  · rw [slots', List.length_set, if_neg (by simp)]
    generalize (0 : Nat) = n at how
    cases how with
    | grown fresh full unassigned size =>
      rw [List.length_append, size]
      by_cases none : t.fileDescriptors = none
      · rw [if_pos none, Table.slots, none]
        rfl
      · -- An array that is full from the start has no slots.
        have ten := shows.allocated none
        have zero := full.resolve_left none
        rw [count, shows.inv.capacity, ten] at zero
        cases zero
    | scanned _ present room found => exact shows.allocated present
  · simp [count', count]
  · intro p same
    cases same
    simp [filedescs']

theorem advance (shows : t.Shows entry) (live : t.filedescs.cell p = some r) {n : Int} (nonneg : 0 ≤ n) :
    (t.advance p n).Shows entry := by
  have facts := Table.advance_facts live n
  have slots : (t.advance p n).slots = t.slots := by
    rw [facts]
    rfl
  constructor
  · exact shows.inv.advance live nonneg
  · rw [slots]
    exact shows.first
  · rw [slots]
    exact shows.size
  · rw [facts]
    exact shows.count
  · intro q same
    obtain ⟨r', live'⟩ := shows.live q same
    rw [facts]
    exact Store.put_live live'

theorem close (shows : t.Shows entry) (held : entry = some (some p)) (live : t.filedescs.cell p = some r) :
    (t.close 0 p).Shows (some none) := by
  have found : t.lookup 0 = some (some (p, r)) := by
    rw [shows.lookup (.inl (Int.le_refl 0)), if_pos rfl, held]
    simp [live]
  obtain ⟨inv, slots, -, -, count⟩ := Table.close_facts shows.inv found
  have inside := (List.getElem?_eq_some_iff.mp (shows.first.trans held)).1
  constructor
  · exact inv
  · rw [← Int.toNat_zero, slots]
    simp [inside]
  · rw [← Int.toNat_zero, slots, List.length_set, shows.size, held]
    rfl
  · rw [← Int.toNat_zero, count, shows.count, held]
    simp
  · intro q same
    cases same

end Table.Shows

/-! ## One step -/

theorem mem_heldFds {entry : Option Ptr} {p : Nat} (held : entry = some (some p)) : (0 : Int) ∈ heldFds entry := by
  subst held
  exact List.mem_singleton_self _

theorem openAfter_failed {fds : List Int} {code : ErrorCode} :
    openAfter fds (call, { ret := -1, bytes := [], errno := code }) = fds := by
  cases call with
  | _ => rfl

/-- A call through an open descriptor obeys whatever it answers. -/
theorem obeys_held {entry : Option Ptr} {fd : Int} (through : call.fd = some fd) (held : fd ∈ heldFds entry) :
    Obeys (heldFds entry) (call, out) := by
  cases call with
  | ufsOpen | ufsDelete => cases through
  | _ =>
    intro fd' same unheld
    rw [through, Option.some.injEq] at same
    exact absurd (same ▸ held) unheld

namespace Table.Twins

variable {entry : Option Ptr} {fd : Int}

theorem lookup (twins : t.Twins t' entry) (seen : fd ≤ 0 ∨ t.fileDescriptorCapacity ≤ fd) :
    t'.lookup fd = t.lookup fd := by
  rw [twins.left.lookup seen]
  rw [twins.left.capacity, ← twins.right.capacity] at seen
  rw [twins.right.lookup seen, twins.filedescs]

/-- Both tables open the descriptor 0. -/
theorem install (twins : t.Twins t' entry) (free : entry.join = none) (junk' : Junk) {f n : Nat} {flags : Flags} {t₁ : Table}
    (installed : t.install junk f flags = some (n, t₁)) :
    n = 0 ∧ ∃ t₁', t'.install junk' f flags = some (0, t₁') ∧ t₁.Twins t₁' (some (some t.filedescs.next)) := by
  obtain ⟨t₂, installed₂, left, filedescs⟩ := twins.left.install free junk f flags
  obtain ⟨t₁', installed', right, filedescs'⟩ := twins.right.install free junk' f flags
  rw [installed, Option.some.injEq, Prod.mk.injEq] at installed₂
  obtain ⟨zero, rfl⟩ := installed₂
  rw [twins.filedescs] at right filedescs'
  exact ⟨zero, t₁', installed', filedescs'.trans filedescs.symm, left, right⟩

theorem advance (twins : t.Twins t' entry) {p : Nat} {r : Filedesc} (live : t.filedescs.cell p = some r) {n : Int}
    (nonneg : 0 ≤ n) : (t.advance p n).Twins (t'.advance p n) entry := by
  have live' : t'.filedescs.cell p = some r := by rw [twins.filedescs, live]
  refine ⟨?_, twins.left.advance live nonneg, twins.right.advance live' nonneg⟩
  rw [Table.advance_facts live, Table.advance_facts live', twins.filedescs]

theorem close (twins : t.Twins t' entry) {p : Nat} {r : Filedesc} (held : entry = some (some p))
    (live : t.filedescs.cell p = some r) : (t.close 0 p).Twins (t'.close 0 p) (some none) := by
  have live' : t'.filedescs.cell p = some r := by rw [twins.filedescs, live]
  refine ⟨?_, twins.left.close held live, twins.right.close held live'⟩
  simp [Table.close, twins.filedescs]

/-- A call that fails fails on both tables. -/
theorem refused (twins : v.table.Twins t' entry) {code : ErrorCode} (why : Refused v call code)
    (range : ∀ fd, call.fd = some fd → fd ≤ 0 ∨ v.table.fileDescriptorCapacity ≤ fd) :
    Refused { v with table := t' } call code ∧
      Obeys (heldFds entry) (call, { ret := -1, bytes := [], errno := code }) := by
  cases why with
  | openMissing missing keep => exact ⟨.openMissing missing keep, .inr ⟨rfl, keep⟩⟩
  | deleteMissing missing => exact ⟨.deleteMissing missing, nofun⟩
  | @notOpen _ fd through closed =>
    refine ⟨.notOpen through ((twins.lookup (range fd through)).trans closed), ?_⟩
    cases call with
    | ufsOpen | ufsDelete => cases through
    | _ => exact fun _ _ _ => rfl
  | @forbidden _ fd _ _ through found off =>
    obtain ⟨zero, held, -⟩ := twins.left.found (range fd through) found
    exact ⟨.forbidden through ((twins.lookup (range fd through)).trans found) off,
      obeys_held through (zero ▸ mem_heldFds held)⟩
  | @writeTooMuch fd _ _ _ _ _ found allowed file stored tooMuch =>
    obtain ⟨zero, held, -⟩ := twins.left.found (range fd rfl) found
    exact ⟨.writeTooMuch ((twins.lookup (range fd rfl)).trans found) allowed file stored tooMuch,
      obeys_held rfl (zero ▸ mem_heldFds held)⟩
  | @resizeTooMuch fd _ _ _ found allowed tooMuch =>
    obtain ⟨zero, held, -⟩ := twins.left.found (range fd rfl) found
    exact ⟨.resizeTooMuch ((twins.lookup (range fd rfl)).trans found) allowed tooMuch,
      obeys_held rfl (zero ▸ mem_heldFds held)⟩

/-- A call that looks at the first slot only has one effect on both tables. -/
theorem step (twins : v.table.Twins t' entry) (junk' : Junk) (effect : Effect junk v call out w)
    (opens : ∀ filename flags, call = .ufsOpen filename flags →
      v.disk.search filename ≠ none ∨ isPermitted flags ufsCreate = true → entry.join = none)
    (range : ∀ fd, call.fd = some fd → fd ≤ 0 ∨ v.table.fileDescriptorCapacity ≤ fd) :
    Obeys (heldFds entry) (call, out) ∧ ∃ t₁' entry', Effect junk' { v with table := t' } call out { w with table := t₁' } ∧
      w.table.Twins t₁' entry' ∧ heldFds entry' = openAfter (heldFds entry) (call, out) := by
  cases effect with
  | refused why =>
    obtain ⟨refused', obeys⟩ := twins.refused why range
    exact ⟨obeys, t', entry, .refused refused', twins, openAfter_failed.symm⟩
  | @opened filename flags _ _ _ _ found stored installed =>
    have free := opens filename flags rfl (.inl (by simp [found]))
    obtain ⟨rfl, t₁', installed', twins'⟩ := twins.install free junk' installed
    have closed : heldFds entry = [] := by simp [heldFds, free]
    refine ⟨.inl ⟨Int.le_refl 0, by simp [closed]⟩, t₁', _, .opened found stored installed', twins', ?_⟩
    rw [closed]
    rfl
  | @created filename flags _ _ missing create installed =>
    have free := opens filename flags rfl (.inr create)
    obtain ⟨rfl, t₁', installed', twins'⟩ := twins.install free junk' installed
    have closed : heldFds entry = [] := by simp [heldFds, free]
    refine ⟨.inl ⟨Int.le_refl 0, by simp [closed]⟩, t₁', _, .created missing create installed', twins', ?_⟩
    rw [closed]
    rfl
  | wrote found allowed file stored fits written =>
    have seen := range _ rfl
    obtain ⟨zero, held, live⟩ := twins.left.found seen found
    exact ⟨obeys_held rfl (zero ▸ mem_heldFds held), _, entry,
      .wrote ((twins.lookup seen).trans found) allowed file stored fits written,
      twins.advance live (Int.natCast_nonneg _), rfl⟩
  | read found allowed file stored result =>
    have seen := range _ rfl
    obtain ⟨zero, held, live⟩ := twins.left.found seen found
    exact ⟨obeys_held rfl (zero ▸ mem_heldFds held), _, entry,
      .read ((twins.lookup seen).trans found) allowed file stored result,
      twins.advance live (Int.natCast_nonneg _), rfl⟩
  | closed found file stored =>
    have seen := range _ rfl
    obtain ⟨rfl, held, live⟩ := twins.left.found seen found
    refine ⟨obeys_held rfl (mem_heldFds held), _, some none,
      .closed ((twins.lookup seen).trans found) file stored, twins.close held live, ?_⟩
    subst held
    rfl
  | deleted found stored => exact ⟨nofun, t', entry, .deleted found stored, twins, rfl⟩
  | resized found allowed file stored small resized =>
    have seen := range _ rfl
    obtain ⟨zero, held, live⟩ := twins.left.found seen found
    exact ⟨obeys_held rfl (zero ▸ mem_heldFds held), t', entry,
      .resized ((twins.lookup seen).trans found) allowed file stored small resized, twins, rfl⟩

end Table.Twins

/-! ## Runs -/

/-- Every event of the run obeys the descriptors that are open by then. -/
def AllObey (fds : List Int) : List (Call × Out) → Prop
  | [] => True
  | event :: events => Obeys fds event ∧ AllObey (openAfter fds event) events

/-- What the two states show, on the one hand without their unassigned slots. -/
structure Matching (s s' : State) (v : View) (fds : List Int) : Prop where
  left : Abstracts s v
  right : ∃ table', Abstracts s' { v with table := table' } ∧
    ∃ entry, v.table.Twins table' entry ∧ heldFds entry = fds

theorem Matching.init : Matching State.init State.init View.init [] := by
  have shows : View.init.table.Shows none := ⟨View.init_inv.table, rfl, rfl, rfl, nofun⟩
  exact ⟨init_abstracts, View.init.table, init_abstracts, none, ⟨rfl, shows, shows⟩, rfl⟩

/-- A file that `search_file` finds is listed. -/
theorem Abstracts.lists (abstracts : Abstracts s v) {filename : Name} (found : v.disk.search filename ≠ none) :
    s.disk.Lists filename := by
  obtain ⟨⟨⟨chain, rep⟩, -, -⟩, inv⟩ := abstracts
  obtain ⟨f, found⟩ := Option.ne_none_iff_exists'.mp found
  obtain ⟨listed, V, stored, named⟩ := (DiskView.search_iff inv.disk).mp found
  obtain ⟨file, live, fileRep⟩ := rep.live f V stored
  obtain ⟨n, name, at_n⟩ := fileRep.name
  refine ⟨f, file, live, ?_, ?_⟩
  · rw [fileRep.inList]
    exact (inv.disk.listed f V stored).mpr listed
  · simp [Disk.nameOf, live, name, at_n, named]

theorem Matching.step {fds : List Int} {event : Call × Out} {s₁ : State} (matching : Matching s s' v fds)
    (junk' : Junk) (step : SeenStep junk s event s₁) :
    Obeys fds event ∧ ∃ s₁' v₁, Step junk' s' event s₁' ∧ Matching s₁ s₁' v₁ (openAfter fds event) := by
  obtain ⟨left, t', right, entry, twins, rfl⟩ := matching
  obtain ⟨step, seen⟩ := step
  obtain ⟨call, out⟩ := event
  obtain ⟨w, stepped, left₁⟩ := step.onView left
  have opens : ∀ filename flags, call = .ufsOpen filename flags →
      v.disk.search filename ≠ none ∨ isPermitted flags ufsCreate = true → entry.join = none := by
    intro filename flags same reaches
    subst same
    have free := seen (reaches.imp_left fun listed => left.lists listed)
    rw [left.1.table] at free
    obtain unallocated | free := free
    · rw [twins.left.unallocated unallocated]
      rfl
    · rw [twins.left.first] at free
      simp [free]
  have range : ∀ fd, call.fd = some fd → fd ≤ 0 ∨ v.table.fileDescriptorCapacity ≤ fd := by
    intro fd through
    rw [← left.1.table]
    cases call with
    | ufsOpen | ufsDelete => cases through
    | _ =>
      cases through
      exact seen
  obtain ⟨obeys, t₁', entry', effect', twins', fds'⟩ := twins.step junk' (View.step_effect stepped) opens range
  have stepped' : View.Step junk' { v with table := t' } (call, out) { w with table := t₁' } := effect'.stepped
  obtain ⟨s₁', step', right₁⟩ := stepped'.onHeap right
  exact ⟨obeys, s₁', w, step', left₁, t₁', right₁, entry', twins', fds'⟩

theorem Matching.run {fds : List Int} {events : List (Call × Out)} {s₁ : State} (matching : Matching s s' v fds)
    (junk' : Junk) (run : Run (SeenStep junk) s events s₁) :
    AllObey fds events ∧
      ∃ s₁' v₁, Run (Step junk') s' events s₁' ∧ Matching s₁ s₁' v₁ (events.foldl openAfter fds) := by
  induction run generalizing s' v fds with
  | nil => exact ⟨trivial, s', v, .nil _, matching⟩
  | cons first _ ih =>
    obtain ⟨obeys, s₁', v₁, first', matching₁⟩ := matching.step junk' first
    obtain ⟨obey, s₂', v₂, later, matching₂⟩ := ih matching₁
    exact ⟨⟨obeys, obey⟩, s₂', v₂, .cons first' later, matching₂⟩

/-- Zeroed memory, but for the second slot of an array. -/
def Junk.wild : Junk := { Junk.zero with slot := fun _ i => if i = 1 then some 0 else none }

end SysprogLabs.Userfs
