import SysprogLabs.Userfs.Sharing

/-! # What `ufs_destroy` releases

The first loop of `ufs_destroy` releases the listed files, the second one the deleted files it
finds behind descriptors, both without a look at `refs`, and `free(file_list)` follows.  So
everything is released, and nothing twice, exactly when no file is listed and no two
descriptors share a file.
-/

namespace SysprogLabs.Userfs

open Prog

variable {junk : Junk} {s s' : State} {v v' : View} {call : Call} {out : Out}

/-- Each object that was live is released, once, and nothing else is. -/
def Released {α : Type} (st st' : Store α) : Prop :=
  ∀ p, st'.cell p = none ∧ st'.freed.count p = st.freed.count p + if (st.cell p).isSome then 1 else 0

/-- Files, names, blocks with their memory, descriptor records and the descriptor array. -/
structure AllReleased (s s' : State) : Prop where
  files : Released s.disk.files s'.disk.files
  names : Released s.disk.names s'.disk.names
  blocks : Released s.disk.blocks s'.disk.blocks
  memories : Released s.disk.memories s'.disk.memories
  filedescs : Released s.table.filedescs s'.table.filedescs
  arrays : Released s.table.arrays s'.table.arrays

/-- `ufs_destroy` returns, so it touches no object it has released, and it leaves none. -/
def DestroysOnce (s : State) : Prop := ufsDestroy.Ensures s fun _ s' => AllReleased s s'

/-- The files behind some slots, in their order. -/
def Table.filesOf (t : Table) (slots : List Ptr) : List Nat :=
  slots.filterMap fun ptr => (ptr.bind t.filedescs.cell).bind Filedesc.file

/-- The files the open descriptors are opened on. -/
def Table.openFiles (t : Table) : List Nat := t.filesOf t.slots

theorem Released.of_dead {α : Type} {st st' : Store α} (next : st'.next = st.next) (dead : ∀ p, st'.cell p = none) :
    Released st st' := by
  refine fun p => ⟨dead p, ?_⟩
  rw [Store.count_freed, Store.count_freed, next]
  cases live : st.cell p with
  | none => simp [dead]
  | some a => simp [dead, Store.lt_next live]

/-! ## What releasing keeps -/

/-- A property of disks that releasing objects and assigning to files keep. -/
structure Disk.Lasting (P : Disk → Prop) : Prop where
  memories : ∀ d p, P d → P { d with memories := d.memories.free p }
  blocks : ∀ d p, P d → P { d with blocks := d.blocks.free p }
  names : ∀ d p, P d → P { d with names := d.names.free p }
  files : ∀ d p, P d → P { d with files := d.files.free p }
  file : ∀ d p V, P d → P { d with files := d.files.put p V }

structure Table.Lasting (P : Table → Prop) : Prop where
  filedescs : ∀ t p, P t → P { t with filedescs := t.filedescs.free p }
  slots : ∀ t p slots, P t → P { t with arrays := t.arrays.put p slots }
  arrays : ∀ t p, P t → P { t with arrays := t.arrays.free p }

namespace Disk.Lasting

variable {P : Disk → Prop} (lasting : Disk.Lasting P)
include lasting

theorem freeBlocks (block : Ptr) : (freeBlocks block).Maintains P :=
  .loop (fun _ => .ite (.bind Lens.maintains_load fun _ => .bind (Lens.maintains_free lasting.memories) fun _ =>
    .bind (Lens.maintains_free lasting.blocks) fun _ => .pure) .pure) block

theorem freeFileMemory (file : Ptr) : (freeFileMemory file).Maintains P :=
  .bind Lens.maintains_load fun _ =>
  .bind (lasting.freeBlocks _) fun _ =>
  .bind Lens.maintains_load fun _ =>
  .bind (Lens.maintains_free lasting.names) fun _ =>
  .bind (Lens.maintains_modify lasting.file) fun _ => Lens.maintains_modify lasting.file

theorem destroyFiles (file : Ptr) : (destroyFiles file).Maintains P :=
  .loop (fun _ => .ite (.bind Lens.maintains_load fun _ => .bind (lasting.freeFileMemory _) fun _ =>
    .bind (Lens.maintains_free lasting.files) fun _ => .pure) .pure) file

end Disk.Lasting

/-- One iteration of the second loop of `ufs_destroy`. -/
def destroyIteration (i : Int) : Prog State (Flow Int Unit) := do
  let capacity ← .read fun s => s.table.fileDescriptorCapacity
  if i < capacity then do
    destroyFd i
    return .again (i + 1)
  else return .done ()

/-- The end of `ufs_destroy`, behind its loops. -/
def destroyGlobals : Prog State Unit := do
  let fileList ← .read fun s => s.disk.fileList
  .zoom diskPart (fileHeap.free fileList)
  let fileDescriptors ← .read fun s => s.table.fileDescriptors
  .zoom tablePart (arrayHeap.free fileDescriptors)

theorem ufsDestroy_eq : ufsDestroy = (do
    let file ← .read fun s => s.disk.fileList
    .zoom diskPart (destroyFiles file)
    .loop destroyIteration (0 : Int)
    destroyGlobals) := rfl

theorem onDisk_maintains {α : Type} {P : Disk → Prop} {p : Prog Disk α} (kept : p.Maintains P) :
    (Prog.zoom diskPart p).Maintains fun s => P s.disk :=
  .zoom kept (fun _ holds => holds) fun _ _ _ holds => holds

theorem onTable_maintains {α : Type} {P : Table → Prop} {p : Prog Table α} (kept : p.Maintains P) :
    (Prog.zoom tablePart p).Maintains fun s => P s.table :=
  .zoom kept (fun _ holds => holds) fun _ _ _ holds => holds

/-- What happens to one part leaves the other one alone. -/
theorem onTable_maintains_disk {α : Type} {P : Disk → Prop} (p : Prog Table α) :
    (Prog.zoom tablePart p).Maintains fun s => P s.disk :=
  .zoom (Q := fun _ => True) (fun _ _ _ _ _ => trivial) (fun _ _ => trivial) fun _ _ holds _ => holds

theorem onDisk_maintains_table {α : Type} {P : Table → Prop} (p : Prog Disk α) :
    (Prog.zoom diskPart p).Maintains fun s => P s.table :=
  .zoom (Q := fun _ => True) (fun _ _ _ _ _ => trivial) (fun _ _ => trivial) fun _ _ holds _ => holds

namespace Disk.Lasting

variable {P : Disk → Prop} (lasting : Disk.Lasting P)
include lasting

theorem destroyFd (i : Int) : (destroyFd i).Maintains fun s => P s.disk :=
  .bind (onTable_maintains_disk _) fun _ => .ite .pure <|
  .bind (onTable_maintains_disk _) fun _ =>
  .bind (onDisk_maintains (.ite (.bind Lens.maintains_load fun _ => .ite
    (.bind (lasting.freeFileMemory _) fun _ => Lens.maintains_free lasting.files) .pure) .pure)) fun _ =>
  onTable_maintains_disk _

theorem destroyLoop (i : Int) : (Prog.loop destroyIteration i).Maintains fun s => P s.disk :=
  .loop (fun i => .bind .read fun _ => .ite (.bind (lasting.destroyFd i) fun _ => .pure) .pure) i

theorem ufsDestroy : ufsDestroy.Maintains fun s => P s.disk := by
  rw [ufsDestroy_eq]
  exact .bind .read fun _ =>
    .bind (onDisk_maintains (lasting.destroyFiles _)) fun _ =>
    .bind (lasting.destroyLoop _) fun _ =>
    .bind .read fun _ =>
    .bind (onDisk_maintains (Lens.maintains_free lasting.files)) fun _ =>
    .bind .read fun _ => onTable_maintains_disk _

end Disk.Lasting

namespace Table.Lasting

variable {P : Table → Prop} (lasting : Table.Lasting P)
include lasting

theorem setSlot (fd : Int) (filedesc : Ptr) : (setSlot fd filedesc).Maintains P :=
  .bind .read fun _ => .bind Lens.maintains_load fun _ =>
    .ite (Lens.maintains_modify lasting.slots) (.step fun _ _ _ _ faulted => nomatch faulted)

theorem destroyFd (i : Int) : (destroyFd i).Maintains fun s => P s.table :=
  .bind (onTable_maintains (.bind .read fun _ => .bind Lens.maintains_load fun _ =>
    .ite (.step fun _ _ _ _ faulted => nomatch faulted) .require)) fun _ => .ite .pure <|
  .bind (onTable_maintains Lens.maintains_load) fun _ =>
  .bind (onDisk_maintains_table _) fun _ =>
  onTable_maintains (.bind (Lens.maintains_free lasting.filedescs) fun _ => lasting.setSlot _ _)

theorem ufsDestroy : ufsDestroy.Maintains fun s => P s.table := by
  rw [ufsDestroy_eq]
  exact .bind .read fun _ =>
    .bind (onDisk_maintains_table _) fun _ =>
    .bind (.loop (fun i => .bind .read fun _ =>
      .ite (.bind (lasting.destroyFd i) fun _ => .pure) .pure) 0) fun _ =>
    .bind .read fun _ =>
    .bind (onDisk_maintains_table _) fun _ =>
    .bind .read fun _ => onTable_maintains (Lens.maintains_free lasting.arrays)

end Table.Lasting

/-! ## What was released -/

def Disk.nexts (d : Disk) : List Nat := [d.files.next, d.names.next, d.blocks.next, d.memories.next]

def Table.nexts (t : Table) : List Nat := [t.filedescs.next, t.arrays.next]

theorem Disk.nexts_lasting (nexts : List Nat) : Disk.Lasting fun d => d.nexts = nexts :=
  ⟨fun _ _ => id, fun _ _ => id, fun _ _ => id, fun _ _ => id, fun _ _ _ => id⟩

theorem Table.nexts_lasting (nexts : List Nat) : Table.Lasting fun t => t.nexts = nexts :=
  ⟨fun _ _ => id, fun _ _ _ => id, fun _ _ => id⟩

/-- No object is live. -/
structure Barren (s : State) : Prop where
  files : ∀ p, s.disk.files.cell p = none
  names : ∀ p, s.disk.names.cell p = none
  blocks : ∀ p, s.disk.blocks.cell p = none
  memories : ∀ p, s.disk.memories.cell p = none
  filedescs : ∀ p, s.table.filedescs.cell p = none
  arrays : ∀ p, s.table.arrays.cell p = none

/-- Nothing is allocated on the way, so what is not live at the end was released. -/
theorem destroysOnce_of_barren (ensured : ufsDestroy.Ensures s fun _ s' => Barren s') : DestroysOnce s := by
  obtain ⟨_, s', returned, barren⟩ := ensured
  have disk := (Disk.nexts_lasting s.disk.nexts).ufsDestroy s () s' rfl returned
  have table := (Table.nexts_lasting s.table.nexts).ufsDestroy s () s' rfl returned
  simp only [Disk.nexts, List.cons.injEq, and_true] at disk
  simp only [Table.nexts, List.cons.injEq, and_true] at table
  obtain ⟨files, names, blocks, memories⟩ := disk
  exact returned.ensures
    ⟨.of_dead files barren.files, .of_dead names barren.names, .of_dead blocks barren.blocks,
      .of_dead memories barren.memories, .of_dead table.1 barren.filedescs, .of_dead table.2 barren.arrays⟩

/-! ## A listed file is released twice -/

theorem list_lasting (f : Nat) : Disk.Lasting fun d => d.fileList = some f :=
  ⟨fun _ _ => id, fun _ _ => id, fun _ _ => id, fun _ _ => id, fun _ _ _ => id⟩

theorem released_lasting (f : Nat) : Disk.Lasting fun d => d.fileList = some f ∧ d.files.cell f = none := by
  refine ⟨fun _ _ => id, fun _ _ => id, fun _ _ => id, fun d p ⟨head, dead⟩ => ⟨head, ?_⟩,
    fun d p V ⟨head, dead⟩ => ⟨head, ?_⟩⟩
  · simp [dead]
  · simp [dead]

/-- The first loop releases the first file, and leaves `file_list` as it is. -/
theorem destroyFiles_yields {d : Disk} {f : Nat} (head : d.fileList = some f) :
    (destroyFiles (some f)).Yields d fun _ d' => d'.fileList = some f ∧ d'.files.cell f = none := by
  intro a d' returned
  obtain ⟨flow, d₁, first, rest⟩ := returns_loop.mp returned
  have freed : d₁.fileList = some f ∧ d₁.files.cell f = none ∧ ∃ next, flow = .again next := by
    refine (?_ : Prog.Yields _ d fun (flow : Flow Ptr Unit) d' =>
      d'.fileList = some f ∧ d'.files.cell f = none ∧ ∃ next, flow = .again next) flow d₁ first
    simp only [ne_eq, reduceCtorEq, not_false_eq_true, if_true, yields_bind, Lens.yields_load]
    intro q same V live
    have kept : (freeFileMemory (some f)).Yields d fun _ d' => d'.fileList = some f := fun _ d' returned =>
      (list_lasting f).freeFileMemory _ d _ d' head returned
    refine kept.mono fun _ d' head' => ?_
    rw [Lens.yields_free]
    intro W live'
    rw [yields_pure]
    exact ⟨head', by simp, _, rfl⟩
  obtain ⟨head', dead, next, same⟩ := freed
  subst same
  exact (released_lasting f).destroyFiles next d₁ a d' ⟨head', dead⟩ rest

/-- `free(file_list)` releases the first file for the second time. -/
theorem listed_faults {f : Nat} (head : s.disk.fileList = some f) : ¬ DestroysOnce s := by
  intro destroyed
  obtain ⟨_, s', returned, -⟩ := destroyed
  have faults : ufsDestroy.Yields s fun _ _ => False := by
    rw [ufsDestroy_eq, yields_bind, yields_read, yields_bind, yields_zoom, head]
    refine (destroyFiles_yields head).mono fun _ d freed => ?_
    rw [yields_bind]
    intro _ s₁ looped
    obtain ⟨head₁, dead⟩ := (released_lasting f).destroyLoop 0 _ _ s₁ freed looped
    simp only [destroyGlobals, yields_bind, yields_read, head₁, yields_zoom, Lens.yields_free]
    intro V live
    have live : s₁.disk.files.cell f = some V := live
    rw [dead] at live
    cases live
  exact faults _ s' returned

/-! ## The descriptor array -/

/-- No array but `file_descriptors` is live. -/
def Table.OneArray (t : Table) : Prop := ∀ a slots, t.arrays.cell a = some slots → t.fileDescriptors = some a

namespace Table.OneArray

variable {t t' : Table}

theorem setSlots (one : t.OneArray) (slots : List Ptr) : (t.setSlots slots).OneArray := by
  intro a slots' live
  rw [setSlots_fileDescriptors]
  unfold Table.setSlots at live
  split at live
  · cases old : t.arrays.cell a with
    | none => simp [old] at live
    | some slots₀ => exact one a slots₀ old
  · exact one a slots' live

/-- `get_fd` releases the array it replaces. -/
theorem reserve (one : t.OneArray) {n : Nat} (reserved : t.reserve junk = some (n, t')) : t'.OneArray := by
  simp only [Table.reserve] at reserved
  split at reserved
  · next unallocated =>
    cases reserved
    intro a slots live
    simp only [Store.alloc_cell] at live
    split at live
    · next here => rw [here]
    · have none := one a slots live
      rw [unallocated] at none
      cases none
  next array at_array =>
    split at reserved
    · cases reserved
      intro a slots live
      simp only [Store.free_cell, Store.alloc_cell] at live
      split at live
      · cases live
      next other =>
        split at live
        · next here => rw [here]
        · have same := one a slots live
          rw [at_array, Option.some.injEq] at same
          exact absurd same.symm other
    · obtain ⟨_, -, same⟩ := Option.map_eq_some_iff.mp reserved
      cases same
      exact one

theorem install (one : t.OneArray) {f n : Nat} {flags : Flags} (installed : t.install junk f flags = some (n, t')) :
    t'.OneArray := by
  obtain ⟨⟨k, t₁⟩, reserved, same⟩ := Option.map_eq_some_iff.mp installed
  simp only [Prod.mk.injEq] at same
  obtain ⟨-, rfl⟩ := same
  have one₁ : t₁.OneArray := one.reserve reserved
  apply setSlots
  exact one₁

theorem advance (one : t.OneArray) (p : Nat) (n : Int) : (t.advance p n).OneArray := by
  unfold Table.advance
  split <;> exact one

theorem close (one : t.OneArray) (fd p : Nat) : (t.close fd p).OneArray := by
  apply setSlots
  exact one

end Table.OneArray

theorem Effect.oneArray (effect : Effect junk v call out v') (one : v.table.OneArray) : v'.table.OneArray := by
  cases effect with
  | refused => exact one
  | opened _ _ installed => exact one.install installed
  | created _ _ installed => exact one.install installed
  | wrote => exact one.advance _ _
  | read => exact one.advance _ _
  | closed => exact one.close _ _
  | deleted => exact one
  | resized => exact one

theorem reachable_oneArray (reachable : Reachable (Step junk) State.init s) : s.table.OneArray := by
  have related : ∃ v, Abstracts s v ∧ v.table.OneArray := by
    apply reachable.invariant ⟨.init, init_abstracts, nofun⟩
    rintro s event s' ⟨v, abstracts, one⟩ step
    obtain ⟨v', stepped, abstracts'⟩ := step.onView abstracts
    exact ⟨v', abstracts', (View.step_effect stepped).oneArray one⟩
  obtain ⟨v, abstracts, one⟩ := related
  rw [abstracts.1.table]
  exact one

/-! ## The second loop -/

/-- The end of an iteration: the slot `fd` and its record `p` are gone. -/
def Table.forget (t : Table) (fd p : Nat) : Table :=
  { t with filedescs := t.filedescs.free p }.setSlots (t.slots.set fd none)

/-- Releases the files one after the other; `none` when one of them is released already. -/
def DiskView.releaseAll (v : DiskView) : List Nat → Option DiskView
  | [] => some v
  | f :: files => (v.file f).bind fun _ => (v.release f).releaseAll files

theorem DiskView.releaseAll_some {v : DiskView} {files : List Nat} :
    (∃ w, v.releaseAll files = some w) ↔ files.Nodup ∧ ∀ f ∈ files, ∃ V, v.file f = some V := by
  induction files generalizing v with
  | nil => simp [releaseAll]
  | cons f files ih =>
    cases stored : v.file f with
    | none => simp [releaseAll, stored]
    | some V =>
      rw [releaseAll, stored, Option.bind_some, ih, List.nodup_cons]
      constructor
      · rintro ⟨distinct, live⟩
        have other : f ∉ files := by
          intro mem
          obtain ⟨W, at_f⟩ := live f mem
          simp [release] at at_f
        refine ⟨⟨other, distinct⟩, fun g mem => ?_⟩
        obtain rfl | mem := List.mem_cons.mp mem
        · exact ⟨V, stored⟩
        obtain ⟨W, at_g⟩ := live g mem
        simp only [release] at at_g
        split at at_g
        · cases at_g
        · exact ⟨W, at_g⟩
      · rintro ⟨⟨other, distinct⟩, live⟩
        refine ⟨distinct, fun g mem => ?_⟩
        have ne : g ≠ f := by
          intro same
          exact other (same ▸ mem)
        simpa [release, ne] using live g (List.mem_cons_of_mem f mem)

/-- The second loop has dealt with the first `k` slots, `rest` are the others: the live files
    are those of `w`, each of them behind one of these. -/
structure Remaining (s : State) (k : Nat) (rest : List Ptr) (w : DiskView) (chain : Nat → List Nat) : Prop where
  rep : DiskRep s.disk w chain
  order : w.order = []
  ghosts : ∀ f V, w.file f = some V → V.inList = false
  table : TableInv s.table
  one : s.table.OneArray
  slots : s.table.slots = List.replicate k none ++ rest
  live : ∀ p, some p ∈ rest → ∃ r, s.table.filedescs.cell p = some r
  distinct : (rest.filterMap id).Nodup
  owned : ∀ p r, s.table.filedescs.cell p = some r → some p ∈ rest
  behind : ∀ f V, w.file f = some V → f ∈ s.table.filesOf rest

/-- What an iteration does to the table. -/
theorem forget_spec {t : Table} {k p : Nat} {r : Filedesc} (inv : TableInv t) (live : t.filedescs.cell p = some r)
    (at_k : t.slots[k]? = some (some p)) :
    (do
      filedescHeap.free (some p)
      setSlot k none : Prog Table Unit).Ensures t fun _ t' => t' = t.forget k p := by
  obtain ⟨none, -⟩ | ⟨array, slots, at_array, live_array, size, -⟩ := inv.array
  · simp [Table.slots, none] at at_k
  have slots_eq := TableInv.slots_eq at_array live_array
  have inside := (List.getElem?_eq_some_iff.mp at_k).1
  rw [slots_eq] at inside
  simp [setSlot, live, at_array, live_array, inside, Table.forget, Table.setSlots, slots_eq]

theorem Table.forget_facts {t : Table} {k p : Nat} (inv : TableInv t) (at_k : t.slots[k]? = some (some p)) :
    TableInv (t.forget k p) ∧ (t.forget k p).slots = t.slots.set k none ∧
      (t.forget k p).filedescs = t.filedescs.free p := by
  obtain ⟨none, -⟩ | ⟨array, slots, at_array, live_array, size, pos⟩ := inv.array
  · simp [Table.slots, none] at at_k
  have slots_eq := TableInv.slots_eq at_array live_array
  refine ⟨TableInv.setSlots at_array live_array size pos (by simp [slots_eq]) ?_,
    Table.setSlots_slots at_array live_array, by simp [forget]⟩
  intro q r at_q
  simp only [Store.free_cell] at at_q
  split at at_q
  · cases at_q
  · exact inv.record q r at_q

namespace Remaining

variable {k : Nat} {rest : List Ptr} {ptr : Ptr} {w : DiskView} {chain : Nat → List Nat}

theorem front (rem : Remaining s k (ptr :: rest) w chain) : s.table.slots[k]? = some ptr := by
  simp [rem.slots]

theorem capacity (rem : Remaining s k rest w chain) :
    s.table.fileDescriptorCapacity = k + rest.length := by
  simp [rem.table.capacity, rem.slots]

/-- A free slot is passed over. -/
theorem skip (rem : Remaining s k (none :: rest) w chain) : Remaining s (k + 1) rest w chain where
  rep := rem.rep
  order := rem.order
  ghosts := rem.ghosts
  table := rem.table
  one := rem.one
  slots := by simp [rem.slots, List.replicate_succ']
  live p mem := rem.live p (List.mem_cons_of_mem _ mem)
  distinct := rem.distinct
  owned p r live := by simpa using rem.owned p r live
  behind := rem.behind

/-- The next slot leads to a live record, opened on a file. -/
theorem record {p : Nat} (rem : Remaining s k (some p :: rest) w chain) :
    ∃ r f, s.table.filedescs.cell p = some r ∧ r.file = some f ∧
      s.table.filesOf (some p :: rest) = f :: s.table.filesOf rest := by
  obtain ⟨r, live⟩ := rem.live p List.mem_cons_self
  obtain ⟨f, file, -⟩ := rem.table.record p r live
  exact ⟨r, f, live, file, by simp [Table.filesOf, live, file]⟩

/-- The slot, its record and the file behind it are released. -/
theorem forget {p f : Nat} {r : Filedesc} {d' : Disk} (rem : Remaining s k (some p :: rest) w chain)
    (live : s.table.filedescs.cell p = some r) (file : r.file = some f) (rep : DiskRep d' (w.release f) chain) :
    Remaining { s with disk := d', table := s.table.forget k p } (k + 1) rest (w.release f) chain ∧
      (s.table.forget k p).filesOf rest = s.table.filesOf rest := by
  obtain ⟨table, slots, filedescs⟩ := Table.forget_facts rem.table rem.front
  have distinct := rem.distinct
  simp only [List.filterMap_cons, id, List.nodup_cons, List.mem_filterMap, exists_eq_right] at distinct
  obtain ⟨fresh, distinct⟩ := distinct
  have others : ∀ g V, (w.release f).file g = some V → g ≠ f ∧ w.file g = some V := by
    intro g V stored
    simp only [DiskView.release] at stored
    split at stored
    · cases stored
    · next other => exact ⟨other, stored⟩
  have filesOf : (s.table.forget k p).filesOf rest = s.table.filesOf rest := by
    apply List.filterMap_congr
    intro ptr mem
    cases ptr with
    | none => rfl
    | some q =>
      have other : q ≠ p := by
        intro same
        exact fresh (same ▸ mem)
      simp [filedescs, other]
  refine ⟨?_, filesOf⟩
  constructor
  · exact rep
  · exact rem.order
  · exact fun g V stored => rem.ghosts g V (others g V stored).2
  · exact table
  · apply Table.OneArray.setSlots
    exact rem.one
  · rw [slots, rem.slots]
    simp [List.replicate_succ']
  · intro q mem
    obtain ⟨r', live'⟩ := rem.live q (List.mem_cons_of_mem _ mem)
    have other : q ≠ p := by
      intro same
      exact fresh (same ▸ mem)
    exact ⟨r', by simp [filedescs, other, live']⟩
  · exact distinct
  · intro q r' live'
    simp only [filedescs, Store.free_cell] at live'
    split at live'
    · cases live'
    · next other => simpa [other] using rem.owned q r' live'
  · intro g V stored
    obtain ⟨other, stored⟩ := others g V stored
    have mem := rem.behind g V stored
    obtain ⟨r', f', live', file', files⟩ := rem.record
    rw [live] at live'
    cases live'
    rw [file] at file'
    cases file'
    rw [files] at mem
    show g ∈ (s.table.forget k p).filesOf rest
    rw [filesOf]
    simpa [other] using mem

/-- An iteration releases the file behind the slot, and faults when there is none any more. -/
theorem destroyFd_realizes {p f : Nat} {r : Filedesc} (rem : Remaining s k (some p :: rest) w chain)
    (live : s.table.filedescs.cell p = some r) (file : r.file = some f) :
    (destroyFd k).Realizes s (w.file f) fun _ s' _ =>
      Remaining s' (k + 1) rest (w.release f) chain ∧ s'.table.filesOf rest = s.table.filesOf rest := by
  have at_k : s.table.slots[(k : Int).toNat]? = some (some p) := rem.front
  unfold destroyFd
  apply Realizes.after
  rw [ensures_zoom, tablePart_get, ensures_slot rem.table (by omega) at_k, tablePart_set, if_neg (by simp)]
  apply Realizes.after
  refine ensures_zoom.mpr (Lens.ensures_load.mpr ⟨p, rfl, r, live, ?_⟩)
  simp only [file, ne_eq, reduceCtorEq, not_false_eq_true, if_true]
  cases stored : w.file f with
  | none =>
    apply Realizes.stuck
    rw [noReturn_iff]
    simp [rem.rep.dead f stored]
  | some V =>
    obtain ⟨record, live_f, fileRep⟩ := rem.rep.live f V stored
    have ghost : record.inList = false := by rw [fileRep.inList, rem.ghosts f V stored]
    have released := freeFile_spec rem.rep stored (by simp [rem.order])
    apply Realizes.after
    rw [ensures_zoom, ensures_bind, Lens.ensures_load]
    refine ⟨f, rfl, record, live_f, ?_⟩
    rw [if_pos ghost]
    refine released.mono fun _ d' after => ?_
    obtain ⟨rep', -⟩ := after
    refine ensures_zoom.mpr ((forget_spec rem.table live rem.front).mono fun _ t' same => ?_)
    rw [same]
    exact rem.forget live file rep'

/-- The second loop releases the files behind the slots, one slot after the other. -/
theorem destroyLoop_realizes (rem : Remaining s k rest w chain) :
    (Prog.loop destroyIteration (k : Int)).Realizes s (w.releaseAll (s.table.filesOf rest)) fun _ s' w' =>
      ∃ n, Remaining s' n [] w' chain := by
  have capacity := rem.capacity
  induction rest generalizing s k w with
  | nil =>
    refine ensures_loop.mpr ?_
    simp only [destroyIteration, ensures_bind, ensures_read, capacity]
    rw [if_neg (by simp), ensures_pure]
    exact ⟨k, rem⟩
  | cons ptr rest ih =>
    have room : (k : Int) < s.table.fileDescriptorCapacity := by
      rw [capacity, List.length_cons]
      omega
    cases ptr with
    | none =>
      have at_k : s.table.slots[(k : Int).toNat]? = some none := rem.front
      refine Realizes.loop (r := some ()) (g := fun _ => w.releaseAll (s.table.filesOf rest))
        (M := fun i s' _ => i = ((k + 1 : Nat) : Int) ∧ s' = s) ?_ ?_
      · simp only [Realizes, destroyIteration, ensures_bind, ensures_read, room, if_true, destroyFd, ensures_zoom,
          tablePart_get, ensures_slot rem.table (Int.natCast_nonneg k) at_k, ensures_pure]
        exact ⟨_, rfl, rfl, rfl⟩
      · rintro i s' _ _ ⟨at_i, same⟩
        subst at_i same
        exact ih rem.skip rem.skip.capacity
    | some p =>
      obtain ⟨r, f, live, file, files⟩ := rem.record
      rw [files, DiskView.releaseAll]
      refine Realizes.loop (M := fun i s' _ => i = ((k + 1 : Nat) : Int) ∧
        Remaining s' (k + 1) rest (w.release f) chain ∧ s'.table.filesOf rest = s.table.filesOf rest) ?_ ?_
      · unfold destroyIteration
        apply Realizes.after
        rw [ensures_read, if_pos room]
        have realized := rem.destroyFd_realizes live file
        cases stored : w.file f with
        | none =>
          rw [stored] at realized
          exact Realizes.stuck realized
        | some V =>
          rw [stored] at realized
          refine ensures_bind.mpr (Ensures.mono realized fun _ s' after => ?_)
          exact ensures_pure.mpr ⟨_, rfl, rfl, after⟩
      · rintro i s' _ _ ⟨at_i, rem', same⟩
        subst at_i
        rw [← same]
        exact ih rem' rem'.capacity

/-- Behind the loop only the array is left. -/
theorem globals {n : Nat} (rem : Remaining s n [] w chain) : destroyGlobals.Ensures s fun _ s' => Barren s' := by
  have dead : ∀ f, w.file f = none := by
    intro f
    cases stored : w.file f with
    | none => rfl
    | some V => cases rem.behind f V stored
  have head : s.disk.fileList = none := by
    have list := rem.rep.list
    rw [rem.order] at list
    exact list.chain.head_eq
  have files : ∀ p, s.disk.files.cell p = none := fun p => rem.rep.dead p (dead p)
  have blocks : ∀ p, s.disk.blocks.cell p = none := by
    intro p
    cases live : s.disk.blocks.cell p with
    | none => rfl
    | some b =>
      obtain ⟨f, V, stored, -⟩ := rem.rep.covered p b live
      rw [dead] at stored
      cases stored
  have names : ∀ p, s.disk.names.cell p = none := by
    intro p
    cases live : s.disk.names.cell p with
    | none => rfl
    | some name =>
      obtain ⟨f, file, live', -⟩ := rem.rep.names.owner p name live
      rw [files] at live'
      cases live'
  have memories : ∀ p, s.disk.memories.cell p = none := by
    intro p
    cases live : s.disk.memories.cell p with
    | none => rfl
    | some memory =>
      obtain ⟨q, b, live', -⟩ := rem.rep.memories.owner p memory live
      rw [blocks] at live'
      cases live'
  have filedescs : ∀ p, s.table.filedescs.cell p = none := by
    intro p
    cases live : s.table.filedescs.cell p with
    | none => rfl
    | some r => cases rem.owned p r live
  simp only [destroyGlobals, ensures_bind, ensures_read, head, ensures_zoom, Lens.ensures_free_none, tablePart_get,
    diskPart_get, diskPart_set]
  obtain ⟨unallocated, -⟩ | ⟨array, slots, at_array, live, -⟩ := rem.table.array
  · rw [unallocated, Lens.ensures_free_none]
    refine ⟨files, names, blocks, memories, filedescs, fun p => ?_⟩
    show s.table.arrays.cell p = none
    cases live : s.table.arrays.cell p with
    | none => rfl
    | some slots =>
      have here := rem.one p slots live
      rw [unallocated] at here
      cases here
  · rw [at_array, Lens.ensures_free_some]
    refine ⟨slots, live, files, names, blocks, memories, filedescs, fun p => ?_⟩
    show (s.table.arrays.free array).cell p = none
    rw [Store.free_cell]
    split
    · rfl
    next other =>
      cases live : s.table.arrays.cell p with
      | none => rfl
      | some slots =>
        have here := rem.one p slots live
        rw [at_array, Option.some.injEq] at here
        exact absurd here.symm other

end Remaining

/-! ## The whole of it -/

theorem Table.openFiles_iff {t : Table} {f : Nat} : f ∈ t.openFiles ↔ 0 < t.references f := by
  rw [openFiles, filesOf, List.mem_filterMap, references, List.countP_pos_iff, handles]
  simp only [List.mem_map, exists_exists_and_eq_and]
  apply exists_congr
  intro ptr
  apply and_congr_right
  intro _
  cases ptr.bind t.filedescs.cell with
  | none => simp
  | some r => simp

theorem distinct_slots {slots : List Ptr}
    (distinct : ∀ (i j p : Nat), slots[i]? = some (some p) → slots[j]? = some (some p) → i = j) :
    (slots.filterMap id).Nodup := by
  induction slots with
  | nil => exact .nil
  | cons ptr slots ih =>
    have tail := ih fun i j p at_i at_j => by
      have same := distinct (i + 1) (j + 1) p at_i at_j
      omega
    cases ptr with
    | none => simpa using tail
    | some p =>
      simp only [List.filterMap_cons, id, List.nodup_cons]
      refine ⟨fun again => ?_, tail⟩
      obtain ⟨ptr, mem, same⟩ := List.mem_filterMap.mp again
      have same : ptr = some p := same
      subst same
      obtain ⟨j, at_j⟩ := List.mem_iff_getElem?.mp mem
      have same := distinct 0 (j + 1) p rfl at_j
      omega

/-- With no file listed the whole work is left to the second loop. -/
theorem Abstracts.remaining (abstracts : Abstracts s v) (counted : v.Counted) (one : s.table.OneArray)
    (unlisted : s.disk.fileList = none) : ∃ chain, Remaining s 0 s.table.slots v.disk chain := by
  obtain ⟨⟨⟨chain, rep⟩, table, -⟩, inv⟩ := abstracts
  have order : v.disk.order = [] := by
    cases order : v.disk.order with
    | nil => rfl
    | cons f order =>
      have head := rep.list.chain.head_eq
      rw [unlisted, order] at head
      cases head
  have exact : s.table.Exact := table ▸ counted.exact
  have ghosts : ∀ f V, v.disk.file f = some V → V.inList = false := by
    intro f V stored
    have listed := inv.disk.listed f V stored
    rw [order] at listed
    simpa using listed
  refine ⟨chain, rep, order, ghosts, table ▸ inv.table, one, rfl, exact.live,
    distinct_slots exact.distinct, exact.owned, fun f V stored => ?_⟩
  -- A ghost is kept by its descriptors.
  obtain listed | held := counted.kept f V stored
  · rw [ghosts f V stored] at listed
    cases listed
  · have refs := counted.refs f V stored
    apply Table.openFiles_iff.mpr
    rw [table]
    omega

/-- Everything is released once if and only if no file is listed and no two open descriptors
    share a file. -/
theorem Abstracts.destroysOnce (abstracts : Abstracts s v) (counted : v.Counted) (one : s.table.OneArray) :
    DestroysOnce s ↔ s.disk.fileList = none ∧ s.table.openFiles.Nodup := by
  cases head : s.disk.fileList with
  | some f => exact ⟨fun destroyed => absurd destroyed (listed_faults head), fun both => nomatch both.1⟩
  | none =>
    obtain ⟨chain, rem⟩ := abstracts.remaining counted one head
    have looped := rem.destroyLoop_realizes
    have result : (∃ w, v.disk.releaseAll s.table.openFiles = some w) ↔ _ := DiskView.releaseAll_some
    have opened : ∀ f ∈ s.table.openFiles, ∃ V, v.disk.file f = some V := by
      intro f mem
      have referenced := Table.openFiles_iff.mp mem
      rw [abstracts.1.table] at referenced
      cases stored : v.disk.file f with
      | none =>
        rw [counted.held f stored] at referenced
        omega
      | some V => exact ⟨V, rfl⟩
    have unfolded {Q : Unit → State → Prop} : ufsDestroy.Ensures s Q ↔
        (Prog.loop destroyIteration 0).Ensures s fun _ s' => destroyGlobals.Ensures s' Q := by
      rw [ufsDestroy_eq, ensures_bind, ensures_read, head, ensures_bind, ensures_zoom, destroyFiles, ensures_loop]
      simp
    constructor
    · intro destroyed
      obtain ⟨_, s', returned, -⟩ := unfolded.mp destroyed
      obtain ⟨w', released, -⟩ := looped.of_returns returned
      exact ⟨rfl, (result.mp ⟨w', released⟩).1⟩
    · rintro ⟨_, distinct⟩
      obtain ⟨w', released⟩ := result.mpr ⟨distinct, opened⟩
      obtain ⟨_, s', returned, n, rem'⟩ := looped.returns released
      exact destroysOnce_of_barren (unfolded.mpr (returned.ensures rem'.globals))

/-- On zeroed memory, `ufs_destroy` releases everything exactly once in the states without a
    listed file in which no two open descriptors share a file, and only in these. -/
theorem destroys_once_iff (zero : junk.ZeroSlots) (reachable : Reachable (Step junk) State.init s) :
    DestroysOnce s ↔ s.disk.fileList = none ∧ s.table.openFiles.Nodup := by
  obtain ⟨v, abstracts, counted⟩ := reachable_counted zero reachable
  exact abstracts.destroysOnce counted (reachable_oneArray reachable)

/-- A deleted file that is open once. -/
theorem destroys_once_ghost : ∃ s, Reachable (Step Junk.zero) State.init s ∧ DestroysOnce s := by
  obtain ⟨_, s, run, ends⟩ := execute_ends Junk.zero 5 [.ufsOpen [97] 1, .ufsDelete [97]] State.init
    (fun _ s => decide (s.disk.fileList = none ∧ s.table.openFiles.Nodup)) (by decide +kernel)
  exact ⟨s, ⟨_, run⟩, (destroys_once_iff (fun _ _ => rfl) ⟨_, run⟩).mpr (of_decide_eq_true ends)⟩

/-- Two runs behind which `ufs_destroy` releases a file twice: a file that is still listed, and a
    deleted one that is open twice. -/
theorem destroys_twice :
    (∃ s outs, Run (Step Junk.zero) State.init ([.ufsOpen [97] 1].zip outs) s ∧ ¬ DestroysOnce s) ∧
      ∃ s outs, Run (Step Junk.zero) State.init
        ([.ufsOpen [97] 1, .ufsOpen [97] 1, .ufsDelete [97]].zip outs) s ∧ ¬ DestroysOnce s := by
  constructor
  · obtain ⟨outs, s, run, ends⟩ := execute_ends Junk.zero 5 [.ufsOpen [97] 1] State.init
      (fun _ s => s.disk.fileList == some 0) (by decide +kernel)
    exact ⟨s, outs, run, listed_faults (eq_of_beq ends)⟩
  · obtain ⟨outs, s, run, ends⟩ := execute_ends Junk.zero 5 [.ufsOpen [97] 1, .ufsOpen [97] 1, .ufsDelete [97]]
      State.init (fun _ s => decide (¬ s.table.openFiles.Nodup)) (by decide +kernel)
    obtain ⟨v, abstracts, counted⟩ := reachable_counted (fun _ _ => rfl) (⟨_, run⟩ : Reachable (Step Junk.zero) State.init s)
    have shared := abstracts.destroysOnce counted (reachable_oneArray ⟨_, run⟩)
    exact ⟨s, outs, run, fun destroyed => of_decide_eq_true ends (shared.mp destroyed).2⟩

end SysprogLabs.Userfs
