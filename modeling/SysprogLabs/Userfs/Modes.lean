import SysprogLabs.Userfs.Transfers

/-! # Open modes

`ufs_open` decides once what a descriptor may do, and nothing changes the two flags of its record
afterwards.  `UFS_CREATE` alone permits everything, so it also does beside a restricting flag.
-/

namespace SysprogLabs.Userfs

open Prog

variable {junk : Junk} {s s' : State} {v v' : View} {fd : Int} {flags : Flags} {call : Call} {out : Out}

/-- `UFS_READ_ONLY` and nothing that permits writing. -/
def ReadsOnly (flags : Flags) : Prop :=
  isPermitted flags ufsReadOnly = true ∧ isPermitted flags ufsWriteOnly = false ∧ isPermitted flags ufsReadWrite = false

/-- `UFS_WRITE_ONLY` and nothing that permits reading. -/
def WritesOnly (flags : Flags) : Prop :=
  isPermitted flags ufsWriteOnly = true ∧ isPermitted flags ufsReadOnly = false ∧ isPermitted flags ufsReadWrite = false

/-- A call has opened `fd` with these flags, and `fd` has not been closed since. -/
def OpenWith (junk : Junk) (flags : Flags) (fd : Int) (s : State) : Prop :=
  ∃ filename out s₀ s₁ events, Reachable (Step junk) State.init s₀ ∧ Step junk s₀ (.ufsOpen filename flags, out) s₁ ∧
    out.ret = fd ∧ fd ≠ -1 ∧ Run (Step junk) s₁ events s ∧ ∀ event ∈ events, event.1 ≠ .ufsClose fd

/-- The call fails for lack of permission and leaves the files as they are.  Only a wild pointer
    in a slot nobody has assigned, which can get the record released early, keeps it from returning. -/
structure Forbids (junk : Junk) (s : State) (call : Call) : Prop where
  fails : ∀ out s', Step junk s (call, out) s' → out = { ret := -1, bytes := [], errno := .noPermission } ∧ s'.disk = s.disk
  returns : junk.ZeroSlots → ∃ out s', Step junk s (call, out) s'

/-- The modes that `flags` asks for, in every run. -/
structure EnforcesModes (flags : Flags) : Prop where
  reads : ReadsOnly flags → ∀ junk fd s, OpenWith junk flags fd s →
    (∀ buf, Forbids junk s (.ufsWrite fd buf)) ∧ ∀ newSize, Forbids junk s (.ufsResize fd newSize)
  writes : WritesOnly flags → ∀ junk fd s, OpenWith junk flags fd s → ∀ size, Forbids junk s (.ufsRead fd size)

/-! ## The record of an open descriptor -/

/-- The slot of `fd` holds the record `p`, which permits what `flags` do as long as it is live. -/
structure Table.Grants (t : Table) (flags : Flags) (fd : Int) (p : Nat) : Prop where
  nonneg : 0 ≤ fd
  slot : t.slots[fd.toNat]? = some (some p)
  old : p < t.filedescs.next
  flags : ∀ r, t.filedescs.cell p = some r → r.canRead = canReadWith flags ∧ r.canWrite = canWriteWith flags

namespace Table.Grants

variable {t t' : Table} {p q n : Nat} {r : Filedesc}

theorem advance (grants : t.Grants flags fd p) (n : Int) : (t.advance q n).Grants flags fd p := by
  unfold Table.advance
  split
  · next r live =>
    refine ⟨grants.nonneg, grants.slot, grants.old, fun r' live' => ?_⟩
    simp only [Store.put_cell] at live'
    split at live'
    · next here =>
      rw [← here] at live
      rw [live] at live'
      cases live'
      exact grants.flags r live
    · exact grants.flags r' live'
  · exact grants

theorem close {other : Int} (grants : t.Grants flags fd p) (inv : TableInv t)
    (found : t.lookup other = some (some (q, r))) (apart : other ≠ fd) :
    (t.close other.toNat q).Grants flags fd p := by
  obtain ⟨nonneg, -, -⟩ := Table.lookup_some found
  obtain ⟨-, slots, filedescs, -⟩ := Table.close_facts inv found
  have fd_nonneg := grants.nonneg
  refine ⟨fd_nonneg, ?_, ?_, fun r' live => ?_⟩
  · rw [slots, List.getElem?_set_ne (by omega)]
    exact grants.slot
  · rw [filedescs]
    exact grants.old
  · rw [filedescs, Store.free_cell] at live
    split at live
    · cases live
    · exact grants.flags r' live

/-- Opening another descriptor takes another slot. -/
theorem install {f : Nat} {flags' : Flags} (grants : t.Grants flags fd p) (inv : TableInv t)
    (installed : t.install junk f flags' = some (n, t')) : t'.Grants flags fd p := by
  obtain ⟨slots, how, -, -, -, slots_eq, -, filedescs⟩ := Table.install_some junk inv installed
  have kept : slots[fd.toNat]? = some (some p) ∧ n ≠ fd.toNat := by
    have slot := grants.slot
    have inside := (List.getElem?_eq_some_iff.mp slot).1
    cases how with
    | grown fresh full unassigned size =>
      rw [List.getElem?_append_left inside]
      exact ⟨slot, by omega⟩
    | scanned n present room found =>
      refine ⟨slot, fun same => ?_⟩
      obtain ⟨_, free, -⟩ := List.findIdx?_eq_some_iff_getElem.mp found
      subst same
      rw [List.getElem?_eq_getElem inside, Option.some.injEq] at slot
      rw [slot] at free
      cases free
  refine ⟨grants.nonneg, ?_, ?_, fun r live => ?_⟩
  · rw [slots_eq, List.getElem?_set_ne kept.2]
    exact kept.1
  · rw [filedescs, Store.alloc_next]
    exact Nat.lt_succ_of_lt grants.old
  · rw [filedescs, Store.alloc_cell, if_neg (Nat.ne_of_lt grants.old)] at live
    exact grants.flags r live

end Table.Grants

/-- What `ufs_open` returns is granted what its flags permit. -/
theorem Table.install_grants {t t' : Table} {f n : Nat} (inv : TableInv t)
    (installed : t.install junk f flags = some (n, t')) :
    t'.Grants flags n t.filedescs.next := by
  obtain ⟨slots, -, inside, -, -, slots_eq, -, filedescs⟩ := Table.install_some junk inv installed
  refine ⟨Int.natCast_nonneg n, ?_, ?_, fun r live => ?_⟩
  · rw [slots_eq, Int.toNat_natCast, List.getElem?_set_self inside]
  · rw [filedescs, Store.alloc_next]
    exact Nat.lt_succ_self _
  · rw [filedescs, Store.alloc_cell, if_pos rfl] at live
    cases live
    exact ⟨rfl, rfl⟩

/-- Only closing `fd` takes the grant away. -/
theorem Effect.grants {p : Nat} (effect : Effect junk v call out v') (inv : v.Inv)
    (grants : v.table.Grants flags fd p) (kept : call ≠ .ufsClose fd) : v'.table.Grants flags fd p := by
  cases effect with
  | refused | deleted | resized => exact grants
  | opened found stored installed => exact grants.install inv.table installed
  | created missing create installed => exact grants.install inv.table installed
  | wrote | read => exact grants.advance _
  | @closed other _ _ _ _ found =>
    have apart : other ≠ fd := by
      rintro rfl
      exact kept rfl
    exact grants.close inv.table found apart

theorem OpenWith.grants (opened : OpenWith junk flags fd s) : ∃ v p, Abstracts s v ∧ v.table.Grants flags fd p := by
  obtain ⟨filename, out, s₀, s₁, events, reachable, open', rfl, success, run, kept⟩ := opened
  obtain ⟨v₀, abstracts₀⟩ := reachable_onView reachable
  obtain ⟨v₁, stepped, abstracts₁⟩ := open'.onView abstracts₀
  have granted : ∃ p, v₁.table.Grants flags out.ret p := by
    cases View.step_effect stepped with
    | refused why => exact absurd rfl success
    | opened found stored installed => exact ⟨_, Table.install_grants abstracts₀.2.table installed⟩
    | created missing create installed => exact ⟨_, Table.install_grants abstracts₀.2.table installed⟩
  obtain ⟨p, granted⟩ := granted
  clear open' stepped
  induction run generalizing v₁ with
  | nil => exact ⟨v₁, p, abstracts₁, granted⟩
  | @cons s₁ s₂ s event events one _ ih =>
    obtain ⟨v₂, stepped, abstracts₂⟩ := one.onView abstracts₁
    have grants := (View.step_effect stepped).grants abstracts₁.2 granted (kept event List.mem_cons_self)
    exact ih (fun event mem => kept event (List.mem_cons_of_mem _ mem)) v₂ abstracts₂ grants

/-! ## What the record does not permit -/

/-- A descriptor is looked up before anything is done through it. -/
theorem access_ensures {α : Type} (abstracts : Abstracts s v) {p : Nat} {r : Filedesc}
    (found : v.table.lookup fd = some (some (p, r))) {e : Prog State α} {k : Ptr → Filedesc → Prog State α}
    {Q : α → State → Prop} (ensured : (k (some p) r).Ensures s Q) :
    (do
      if (← .zoom tablePart (isValidFd fd)) = false then e
      else
        let p ← .zoom tablePart (slot fd)
        let filedesc ← .zoom tablePart (filedescHeap.load p)
        k p filedesc : Prog State α).Ensures s Q := by
  -- Any view will do as the result: only the post-condition is of interest.
  let opened : Nat → Filedesc → Option (Out × View) := fun _ _ => some (⟨0, [], .noErr⟩, v)
  have closed : v.table.lookup fd = some none → e.Realizes s (v.fail .noFile) fun a s' _ => Q a s' := by
    intro closed
    rw [found] at closed
    cases closed
  have is_open : ∀ q r', v.table.lookup fd = some (some (q, r')) →
      (k (some q) r').Realizes s (opened q r') fun a s' _ => Q a s' := by
    intro q r' found'
    rw [found] at found'
    cases found'
    exact ensured
  have realized := access_realizes abstracts.1 abstracts.2.table closed is_open
  rwa [View.access_eq found] at realized

/-- What a record does not permit fails at once. -/
theorem Abstracts.forbidden (junk : Junk) (abstracts : Abstracts s v) {p : Nat} {r : Filedesc}
    (found : v.table.lookup fd = some (some (p, r))) (through : call.fd = some fd) (off : call.allowedBy r = false) :
    Step junk s (call, { ret := -1, bytes := [], errno := .noPermission }) { s with ufsErrorCode := .noPermission } := by
  have refused : (call.run junk).Ensures s fun out s' =>
      out = { ret := -1, bytes := [], errno := .noPermission } ∧ s' = { s with ufsErrorCode := .noPermission } := by
    cases call with
    | ufsOpen | ufsDelete => cases through
    | ufsClose => cases off
    | ufsWrite fd' buf | ufsResize fd' newSize =>
      cases through
      apply ensures_bind.mpr
      refine access_ensures abstracts found ?_
      have off : r.canWrite = false := off
      simp [off, Userfs.fail, ufsErrno]
    | ufsRead fd' size =>
      cases through
      apply ensures_bind.mpr
      refine access_ensures abstracts found ?_
      have off : r.canRead = false := off
      simp [off, Userfs.fail, ufsErrno]
  obtain ⟨out, s', returned, rfl, rfl⟩ := refused
  exact returned

theorem Table.Grants.lookup {t : Table} {p : Nat} (grants : t.Grants flags fd p) :
    t.lookup fd = none ∨ ∃ r, t.lookup fd = some (some (p, r)) ∧
      r.canRead = canReadWith flags ∧ r.canWrite = canWriteWith flags := by
  rw [Table.lookup, if_neg (Int.not_lt.mpr grants.nonneg), grants.slot]
  cases live : t.filedescs.cell p with
  | none => exact .inl (by simp [live])
  | some r => exact .inr ⟨r, by simp [live], grants.flags r live⟩

/-- A wild pointer is followed. -/
theorem View.step_wild (wild : v.table.lookup fd = none) (through : call.fd = some fd) : v.step junk call = none := by
  cases call with
  | ufsOpen | ufsDelete => cases through
  | ufsWrite | ufsRead | ufsClose | ufsResize =>
    cases through
    simp [step, ufsWrite, ufsRead, ufsClose, ufsResize, access, wild]

theorem OpenWith.reachable (opened : OpenWith junk flags fd s) : Reachable (Step junk) State.init s := by
  obtain ⟨filename, out, s₀, s₁, events, ⟨before, run₀⟩, open', -, -, run, -⟩ := opened
  exact ⟨_, run₀.append (.cons open' run)⟩

/-- A call that the flags do not permit is forbidden from the opening to the closing. -/
theorem OpenWith.forbids (opened : OpenWith junk flags fd s) (through : call.fd = some fd)
    (off : ∀ r : Filedesc, r.canRead = canReadWith flags → r.canWrite = canWriteWith flags → call.allowedBy r = false) :
    Forbids junk s call := by
  obtain ⟨v, p, abstracts, grants⟩ := opened.grants
  obtain wild | ⟨r, found, read, write⟩ := grants.lookup
  · refine ⟨fun out s' step => ?_, fun zero => ?_⟩
    · obtain ⟨v', stepped, -⟩ := step.onView abstracts
      rw [View.Step, View.step_wild wild through] at stepped
      cases stepped
    · -- On zeroed memory there are no wild pointers.
      obtain ⟨v', abstracts', counted⟩ := reachable_counted zero opened.reachable
      have same : v.table = v'.table := abstracts.1.table.symm.trans abstracts'.1.table
      obtain ⟨entry, found, -⟩ := counted.exact.lookup fd
      rw [← same, wild] at found
      cases found
  · have refused := abstracts.forbidden junk found through (off r read write)
    refine ⟨fun out s' step => ?_, fun _ => ⟨_, _, refused⟩⟩
    obtain ⟨rfl, rfl⟩ := step.unique refused
    exact ⟨rfl, rfl⟩

/-! ## The flags -/

theorem ReadsOnly.denies (only : ReadsOnly flags) (keep : isPermitted flags ufsCreate = false) :
    canWriteWith flags = false := by
  obtain ⟨only, noWrite, noReadWrite⟩ := only
  have some : (flags == 0) = false := by
    rw [beq_eq_false_iff_ne]
    rintro rfl
    exact absurd only (by decide)
  simp only [canWriteWith, some, keep, noWrite, noReadWrite, Bool.or_self]

theorem WritesOnly.denies (only : WritesOnly flags) (keep : isPermitted flags ufsCreate = false) :
    canReadWith flags = false := by
  obtain ⟨only, noRead, noReadWrite⟩ := only
  have some : (flags == 0) = false := by
    rw [beq_eq_false_iff_ne]
    rintro rfl
    exact absurd only (by decide)
  simp only [canReadWith, some, keep, noRead, noReadWrite, Bool.or_self]

/-- `UFS_CREATE` makes every other flag void. -/
theorem run_open_create (junk : Junk) (filename : Name) (create : isPermitted flags ufsCreate = true) :
    (Call.ufsOpen filename flags).run junk = (Call.ufsOpen filename ufsCreate).run junk := by
  have itself : isPermitted ufsCreate ufsCreate = true := by decide
  simp [Call.run, Userfs.ufsOpen, openFile, newFd, canReadWith, canWriteWith, create, itself]

theorem step_open_create {filename : Name} (create : isPermitted flags ufsCreate = true)
    (step : Step junk s (.ufsOpen filename ufsCreate, out) s') : Step junk s (.ufsOpen filename flags, out) s' := by
  rw [Step, run_open_create junk filename create]
  exact step

/-- The first descriptor of a new file can be written through. -/
theorem creating_writes (create : isPermitted flags ufsCreate = true) :
    ∃ s s', OpenWith Junk.zero flags 0 s ∧
    Step Junk.zero s (.ufsWrite 0 [7], { ret := 1, bytes := [], errno := .noErr }) s' := by
  obtain ⟨s', run⟩ := execute_answers Junk.zero
    (show (execute Junk.zero 9 [.ufsOpen [97] ufsCreate, .ufsWrite 0 [7]] State.init).map Prod.fst =
      some [⟨0, [], .noErr⟩, ⟨1, [], .noErr⟩] by decide +kernel)
  obtain - | ⟨opens, run⟩ := run
  obtain - | ⟨writes, -⟩ := run
  refine ⟨_, _, ⟨[97], _, _, _, [], ⟨[], .nil _⟩, step_open_create create opens, rfl, by decide, .nil _, ?_⟩, writes⟩
  intro event mem
  cases mem

/-- The second descriptor of a file can be read through. -/
theorem creating_reads (create : isPermitted flags ufsCreate = true) :
    ∃ s s', OpenWith Junk.zero flags 1 s ∧
    Step Junk.zero s (.ufsRead 1 1, { ret := 1, bytes := [7], errno := .noErr }) s' := by
  obtain ⟨s', run⟩ := execute_answers Junk.zero
    (show (execute Junk.zero 9 [.ufsOpen [97] ufsCreate, .ufsOpen [97] ufsCreate, .ufsWrite 0 [7], .ufsRead 1 1]
      State.init).map Prod.fst = some [⟨0, [], .noErr⟩, ⟨1, [], .noErr⟩, ⟨1, [], .noErr⟩, ⟨1, [7], .noErr⟩]
      by decide +kernel)
  obtain - | ⟨opens, run⟩ := run
  obtain - | ⟨opens', run⟩ := run
  obtain - | ⟨writes, run⟩ := run
  obtain - | ⟨reads, -⟩ := run
  refine ⟨_, _, ⟨[97], _, _, _, _, ⟨_, .cons opens (.nil _)⟩, step_open_create create opens', rfl, by decide,
    .cons writes (.nil _), ?_⟩, reads⟩
  intro event mem closes
  cases List.mem_singleton.mp mem
  cases closes

/-- The restricting modes are enforced, in every run, unless the flags also contain `UFS_CREATE`. -/
theorem modes_enforced (flags : Flags) :
    EnforcesModes flags ↔ ¬ (isPermitted flags ufsCreate = true ∧ (ReadsOnly flags ∨ WritesOnly flags)) := by
  constructor
  · rintro enforces ⟨create, reads | writes⟩
    · obtain ⟨s, s', opened, written⟩ := creating_writes create
      obtain ⟨refused, -⟩ := ((enforces.reads reads _ _ s opened).1 [7]).fails _ _ written
      cases refused
    · obtain ⟨s, s', opened, read⟩ := creating_reads create
      obtain ⟨refused, -⟩ := (enforces.writes writes _ _ s opened 1).fails _ _ read
      cases refused
  · intro plain
    refine ⟨fun reads junk fd s opened => ?_, fun writes junk fd s opened size => ?_⟩
    · have keep : isPermitted flags ufsCreate = false := by
        rw [← Bool.not_eq_true]
        exact fun create => plain ⟨create, .inl reads⟩
      have off : ∀ r : Filedesc, r.canRead = canReadWith flags → r.canWrite = canWriteWith flags → r.canWrite = false :=
        fun r _ write => write.trans (reads.denies keep)
      exact ⟨fun buf => opened.forbids rfl off, fun newSize => opened.forbids rfl off⟩
    · have keep : isPermitted flags ufsCreate = false := by
        rw [← Bool.not_eq_true]
        exact fun create => plain ⟨create, .inr writes⟩
      exact opened.forbids rfl fun r read _ => read.trans (writes.denies keep)

/-- `UFS_CREATE | UFS_READ_ONLY` opens a descriptor that writes. -/
theorem created_read_only_writes : ¬ EnforcesModes (ufsCreate ||| ufsReadOnly) := by
  intro enforces
  have create : isPermitted (ufsCreate ||| ufsReadOnly) ufsCreate = true := by decide
  have only : ReadsOnly (ufsCreate ||| ufsReadOnly) := by
    refine ⟨?_, ?_, ?_⟩ <;> decide
  obtain ⟨s, s', opened, written⟩ := creating_writes create
  obtain ⟨refused, -⟩ := ((enforces.reads only _ _ s opened).1 [7]).fails _ _ written
  cases refused

end SysprogLabs.Userfs
