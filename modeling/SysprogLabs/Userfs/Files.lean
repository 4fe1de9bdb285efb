import SysprogLabs.Userfs.Disk

/-! # Searching, creating, unlinking and releasing files

Each function of `userfs.c` that works on `file_list` or on a whole file, as a
function on views.  The `*_spec` theorems run the function on a disk that
represents a view and say what it returns and which view the disk represents
afterwards.
-/

namespace SysprogLabs.Userfs

open Prog

variable (junk : Junk) {d : Disk} {v : DiskView} {chain : Nat → List Nat} {f : Nat} {V : FileView}

/-! ## `search_file` -/

def DiskView.search (v : DiskView) (filename : Name) : Option Nat :=
  v.order.find? fun f => (v.file f).any fun V => V.name = filename

theorem searchFile_spec (rep : DiskRep d v chain) (filename : Name) :
    (searchFile filename).Ensures d fun r d' => r = v.search filename ∧ d' = d := by
  simp only [searchFile, ensures_bind, ensures_read, DiskView.search]
  have path := rep.list.chain
  have onDisk := rep.onDisk
  generalize d.fileList = start at path ⊢
  generalize v.order = l at path onDisk ⊢
  induction l generalizing start with
  | nil =>
    have at_null : start = none := path
    subst at_null
    refine ensures_loop.mpr ?_
    simp
  | cons g l ih =>
    obtain ⟨at_g, rest⟩ := path
    subst at_g
    obtain ⟨W, stored⟩ := onDisk g List.mem_cons_self
    obtain ⟨file, live, fileRep⟩ := rep.live g W stored
    obtain ⟨n, name, at_n⟩ := fileRep.name
    have next : d.nextFile g = file.next := by simp [Disk.nextFile, live]
    refine ensures_loop.mpr ?_
    by_cases found : W.name = filename
    · simp [live, name, at_n, found, stored]
    · rw [next] at rest
      have later := ih file.next rest fun h mem => onDisk h (List.mem_cons_of_mem g mem)
      simpa [live, name, at_n, found, stored] using later

/-! ## The creation of a file -/

theorem appendFile_spec (rep : DiskRep d v chain) (stored : v.file f = some V)
    (unlisted : f ∉ v.order) (next : d.nextFile f = none) (prev : d.prevFile f = none) :
    (appendFile f).Ensures d fun _ d' => DiskRep d' { v with order := v.order ++ [f] } chain := by
  obtain ⟨file, live, -⟩ := rep.live f V stored
  have onDisk : ∀ g ∈ v.order ++ [f], ∃ W, v.file g = some W := by
    intro g mem
    cases List.mem_append.mp mem with
    | inl mem => exact rep.onDisk g mem
    | inr mem => exact ⟨V, by rw [List.mem_singleton.mp mem]; exact stored⟩
  have next_f : file.next = none := by simpa [Disk.nextFile, live] using next
  have prev_f : file.prev = none := by simpa [Disk.prevFile, live] using prev
  simp only [appendFile, ensures_bind, ensures_read]
  cases List.eq_nil_or_concat' v.order with
  | inl empty =>
    have first : d.fileList = none := by
      have path := rep.list.chain
      rw [empty] at path
      exact path
    rw [first]
    simp only [ensures_update]
    refine rep.relink rfl (fun g => ?_) ?_ onDisk
    · cases at_g : d.files.cell g with
      | none => simp
      | some file_g => exact ⟨File.next, File.prev, rfl⟩
    · rw [empty]
      exact ⟨⟨rfl, next⟩, .singleton _, fun g e => by cases e; exact prev⟩
  | inr split =>
    obtain ⟨l, last, at_last⟩ := split
    have path := rep.list.chain
    have first : d.fileList ≠ none := by
      rw [path.head_eq, at_last]
      simp
    -- The loop stops at the last file of the list.
    have walk : ∀ start l, Path d.nextFile start (l ++ [last]) none →
        (∀ g ∈ l ++ [last], ∃ W, v.file g = some W) →
        (Prog.loop (fun f => do
          let file ← fileHeap.load f
          if file.next ≠ none then return Flow.again file.next else return .done f) start).Ensures d
            fun r d' => r = some last ∧ d' = d := by
      intro start l path files
      induction l generalizing start with
      | nil =>
        obtain ⟨rfl, stop⟩ := path
        obtain ⟨W, at_last⟩ := files last (by simp)
        obtain ⟨file, live, -⟩ := rep.live last W at_last
        have next : file.next = none := by simpa [Disk.nextFile, live] using stop
        refine ensures_loop.mpr ?_
        simp [live, next]
      | cons g l ih =>
        obtain ⟨rfl, rest⟩ := path
        obtain ⟨W, at_g⟩ := files g (by simp)
        obtain ⟨file, live, -⟩ := rep.live g W at_g
        have next : d.nextFile g = file.next := by simp [Disk.nextFile, live]
        have more : file.next ≠ none := by
          rw [← next, rest.head_eq (by simp)]
          simp
        rw [next] at rest
        refine ensures_loop.mpr ?_
        have later := ih file.next rest fun h mem => files h (List.mem_cons_of_mem g mem)
        simpa [live, more] using later
    obtain ⟨W, at_last_file⟩ := rep.onDisk last (by simp [at_last])
    obtain ⟨last_file, live_last, -⟩ := rep.live last W at_last_file
    have apart : last ≠ f := by
      intro same
      apply unlisted
      rw [at_last, ← same]
      simp
    obtain ⟨first_file, at_first⟩ := Option.ne_none_iff_exists'.mp first
    rw [at_last] at path
    have walked := walk d.fileList l path (by rw [← at_last]; exact rep.onDisk)
    rw [at_first] at walked ⊢
    simp only [ensures_bind]
    refine walked.mono ?_
    intro r d' result
    rw [result.1, result.2]
    simp only [Lens.ensures_modify, fileHeap_get, fileHeap_set, Option.some.injEq, exists_eq_left',
      live_last, Store.put_cell, apart.symm, if_false, live]
    have cell : ∀ g, ((d.files.put last { last_file with next := some f }).put f
        { file with prev := some last }).cell g =
          (d.files.cell g).map fun file_g => { file_g with
            next := if g = last then some f else file_g.next
            prev := if g = f then some last else file_g.prev } := by
      intro g
      by_cases at_f : g = f
      · subst at_f
        simp [live, apart.symm]
      · by_cases at_l : g = last
        · subst at_l
          simp [live_last, at_f]
        · simp [at_f, at_l]
    refine rep.relink rfl (fun g => ⟨_, _, cell g⟩) ?_ onDisk
    refine rep.list.push_back ?_ ?_ ?_ ?_ ?_
    · simp [Disk.nextFile, live, apart.symm, next_f]
    · simp [Disk.prevFile, live, apart.symm, at_last]
    · intro g mem
      obtain ⟨W, at_g⟩ := rep.onDisk g mem
      obtain ⟨file_g, live_g, -⟩ := rep.live g W at_g
      have sym : (last = g) = (g = last) := propext eq_comm
      simp only [Disk.nextFile, cell, live_g, at_last, List.getLast?_concat, Option.some.injEq, sym]
      rfl
    · intro g mem
      have other : g ≠ f := by
        intro same
        subst same
        exact unlisted mem
      simp only [Disk.prevFile, cell, other, if_false]
      cases d.files.cell g <;> rfl
    · rw [if_neg (by simp [at_last])]

/-- Creates an empty file behind the last one of `file_list`. -/
def DiskView.create (v : DiskView) (filename : Name) : DiskView :=
  { v.alloc (.new filename) with order := v.order ++ [v.next] }

theorem createFile_spec (rep : DiskRep d v chain) (filename : Name) :
    (createFile junk filename).Ensures d fun f d' =>
      f = v.next ∧ ∃ chain', DiskRep d' (v.create filename) chain' := by
  have unlisted : v.next ∉ v.order := by
    intro listed
    obtain ⟨W, stored⟩ := rep.onDisk _ listed
    obtain ⟨file, live, -⟩ := rep.live _ W stored
    rw [← rep.next, d.files.next_dead] at live
    cases live
  have allocated := rep.alloc
    { blockList := none, lastBlock := none, refs := 0, name := some d.names.next, next := none,
      prev := none, bytesLeft := maxFileSize, inList := true } filename ⟨rfl, rfl⟩ rfl ⟨rfl, rfl, rfl⟩
  have at_next : (v.alloc (.new filename)).file v.next = some (.new filename) := by
    simp [DiskView.alloc]
  rw [← rep.next] at unlisted at_next
  have appended := appendFile_spec allocated at_next unlisted (by simp [Disk.nextFile])
    (by simp [Disk.prevFile])
  simp only [createFile]
  simp
  refine appended.mono fun _ d' created => ⟨rep.next, Function.update chain d.files.next [], ?_⟩
  rw [DiskView.create, ← rep.next]
  exact created

/-! ## Releasing -/

/-- The loop releases the blocks of a chain and the memory they own, and nothing else. -/
theorem freeBlocks_spec {start : Ptr} {l : List Nat} (path : Chain d.nextBlock start l)
    (live : ∀ p ∈ l, ∃ b, d.blocks.cell p = some b)
    (owns : Owns d.blocks Block.memory d.memories) :
    (freeBlocks start).Ensures d fun _ d' => ∃ blocks' memories',
      d' = { d with blocks := blocks', memories := memories' } ∧
      Owns blocks' Block.memory memories' ∧
      (∀ q, blocks'.cell q = if q ∈ l then none else d.blocks.cell q) ∧
      (∀ q b m, q ∉ l → d.blocks.cell q = some b → b.memory = some m →
        memories'.cell m = d.memories.cell m) ∧
      blocks'.freed = l.reverse ++ d.blocks.freed ∧
      memories'.freed = (l.filterMap d.memoryOf).reverse ++ d.memories.freed := by
  induction l generalizing d start with
  | nil =>
    have at_null : start = none := path
    subst at_null
    refine ensures_loop.mpr ?_
    simp only [ne_eq, not_true_eq_false, if_false, ensures_pure]
    exact ⟨d.blocks, d.memories, rfl, owns, fun q => by simp, fun _ _ _ _ _ _ => rfl, rfl, rfl⟩
  | cons p l ih =>
    have nodup := List.nodup_cons.mp path.nodup
    obtain ⟨rfl, rest⟩ := path
    obtain ⟨b, at_p⟩ := live p List.mem_cons_self
    obtain ⟨m, mem, field, at_m⟩ := owns.owned p b at_p
    have next : d.nextBlock p = b.next := by simp [Disk.nextBlock, at_p]
    rw [next] at rest
    have other : ∀ q ∈ l, q ≠ p := by
      intro q mem same
      subst same
      exact nodup.1 mem
    refine ensures_loop.mpr ?_
    simp only [ne_eq, reduceCtorEq, not_false_eq_true, if_true, ensures_bind, ensures_pure,
      Lens.ensures_load, Option.some.injEq, exists_eq_left', at_p, field, Lens.ensures_free_some,
      memoryHeap_get, memoryHeap_set, at_m, blockHeap_get, blockHeap_set]
    have released := ih (d := { d with memories := d.memories.free m, blocks := d.blocks.free p })
      (rest.congr fun q mem => by simp [Disk.nextBlock, other q mem])
      (fun q mem => by simpa [other q mem] using live q (List.mem_cons_of_mem p mem))
      (owns.free at_p field)
    refine released.mono fun _ d' result => ?_
    obtain ⟨blocks', memories', rfl, owns', cell, kept, gone, gone_memories⟩ := result
    refine ⟨blocks', memories', rfl, owns', fun q => ?_, fun q c k off at_q field' => ?_, ?_, ?_⟩
    · rw [cell]
      by_cases here : q = p
      · simp [here]
      · simp [here]
    · have off_p : q ≠ p := fun same => off (by simp [same])
      have off_l : q ∉ l := fun mem => off (by simp [mem])
      have apart : k ≠ m := by
        intro same
        subst same
        exact off_p (owns.unique q p c b at_q at_p (field'.trans field.symm))
      rw [kept q c k off_l (by simp [off_p, at_q]) field']
      simp [apart]
    · rw [gone, List.reverse_cons, List.append_assoc, Store.free_freed at_p]
      rfl
    · have same : l.filterMap { d with memories := d.memories.free m, blocks := d.blocks.free p }.memoryOf =
          l.filterMap d.memoryOf := by
        apply List.filterMap_congr
        intro q mem
        simp [Disk.memoryOf, other q mem]
      have at_memory : d.memoryOf p = some m := by simp [Disk.memoryOf, at_p, field]
      rw [gone_memories, same, List.filterMap_cons_some at_memory, List.reverse_cons, List.append_assoc,
        Store.free_freed at_m]
      rfl

/-- `free_file_memory` followed by the release of the file itself. -/
theorem freeFile_spec (rep : DiskRep d v chain) (stored : v.file f = some V)
    (unlisted : f ∉ v.order) :
    (do freeFileMemory (some f); fileHeap.free (some f) : Prog Disk Unit).Ensures d
      fun _ d' => DiskRep d' (v.release f) chain ∧
        ∃ file n, d.files.cell f = some file ∧ file.name = some n ∧ d'.ledger = d.bury f n (chain f) := by
  obtain ⟨file, live, fileRep⟩ := rep.live f V stored
  obtain ⟨n, name, at_n⟩ := fileRep.name
  have freed := freeBlocks_spec fileRep.path (fun p mem => fileRep.live mem) rep.memories
  simp only [freeFileMemory, ensures_bind, Lens.ensures_load, fileHeap_get, Option.some.injEq,
    exists_eq_left', live]
  refine freed.mono fun _ d' result => ?_
  obtain ⟨blocks', memories', rfl, owns, cell, kept, gone, gone_memories⟩ := result
  simp only [live, name, Option.some.injEq, exists_eq_left', Lens.ensures_free_some, nameHeap_get, at_n,
    nameHeap_set, Lens.ensures_modify, fileHeap_get, fileHeap_set, Store.put_cell, if_true,
    Option.map_some, Store.put_free]
  refine ⟨rep.release stored live name unlisted owns cell kept, file, n, rfl, name, ?_⟩
  rw [Disk.ledger, Disk.bury, gone, gone_memories, Store.free_freed live, Store.free_freed at_n]

/-! ## `ufs_delete` -/

/-- Takes the file `f` out of `file_list`. -/
def DiskView.unlink (v : DiskView) (f : Nat) : DiskView := { v with order := v.order.erase f }

theorem unlinkFile_spec (rep : DiskRep d v chain) (listed : f ∈ v.order) :
    (unlinkFile (some f)).Ensures d fun _ d' => DiskRep d' (v.unlink f) chain ∧
      d'.ledger = d.ledger ∧ d'.blocks = d.blocks ∧
      (d'.files.cell f).map File.name = (d.files.cell f).map File.name := by
  obtain ⟨V, stored⟩ := rep.onDisk f listed
  obtain ⟨file, live, -⟩ := rep.live f V stored
  obtain ⟨l₁, l₂, split⟩ := List.append_of_mem listed
  have list := rep.list
  rw [split] at list
  have next : d.nextFile f = file.next := by simp [Disk.nextFile, live]
  have prev : d.prevFile f = file.prev := by simp [Disk.prevFile, live]
  have neighbour : ∀ g ∈ l₁ ++ f :: l₂, ∃ file_g, d.files.cell g = some file_g := by
    intro g mem
    obtain ⟨W, at_g⟩ := rep.onDisk g (by rw [split]; exact mem)
    obtain ⟨file_g, live_g, -⟩ := rep.live g W at_g
    exact ⟨file_g, live_g⟩
  have prev_live : ∀ p, file.prev = some p → ∃ file_p, d.files.cell p = some file_p := by
    intro p at_p
    rw [← prev, list.prev_eq] at at_p
    exact neighbour p (by simp [List.mem_of_getLast? at_p])
  have next_live : ∀ n, file.next = some n → ∃ file_n, d.files.cell n = some file_n := by
    intro n at_n
    rw [← next, list.next_eq] at at_n
    exact neighbour n (by simp [List.mem_of_head? at_n])
  -- The two neighbours, as far as they exist, are linked to each other.
  have relinked : (unlinkFile (some f)).Ensures d fun _ d' => ∃ files',
      files'.next = d.files.next ∧ files'.freed = d.files.freed ∧
      d' = { d with files := files',
                    fileList := if file.prev = none then file.next else d.fileList } ∧
      ∀ g, files'.cell g = (d.files.cell g).map fun file_g => { file_g with
        next := if file.prev = some g then file.next else file_g.next
        prev := if file.next = some g then file.prev else file_g.prev } := by
    simp only [unlinkFile, ensures_bind, Lens.ensures_load, fileHeap_get, Option.some.injEq,
      exists_eq_left', live]
    cases at_prev : file.prev with
    | none =>
      cases at_next : file.next with
      | none =>
        simp only [if_true, ensures_bind, ensures_update, ensures_ite, ensures_pure]
        refine ⟨d.files, rfl, rfl, rfl, fun g => ?_⟩
        cases d.files.cell g <;> simp
      | some n =>
        obtain ⟨file_n, live_n⟩ := next_live n at_next
        simp [live_n]
        intro g
        by_cases here : g = n
        · simp [here, live_n]
        · simp [here, Ne.symm here]
    | some p =>
      obtain ⟨file_p, live_p⟩ := prev_live p at_prev
      cases at_next : file.next with
      | none =>
        simp [live_p]
        intro g
        by_cases here : g = p
        · simp [here, live_p]
        · simp [here, Ne.symm here]
      | some n =>
        obtain ⟨file_n, live_n⟩ := next_live n at_next
        have apart : n ≠ p := by
          intro same
          subst same
          have nodup := list.nodup
          rw [List.nodup_append] at nodup
          rw [← prev, list.prev_eq] at at_prev
          rw [← next, list.next_eq] at at_next
          exact nodup.2.2 n (List.mem_of_getLast? at_prev) n
            (List.mem_cons_of_mem f (List.mem_of_head? at_next)) rfl
        simp [live_p, live_n, apart]
        intro g
        by_cases here : g = p
        · simp [here, live_p, apart, apart.symm]
        · by_cases here' : g = n
          · simp [here', live_n, apart, apart.symm]
          · simp [here, here', Ne.symm here, Ne.symm here']
  refine relinked.mono fun _ d' result => ?_
  obtain ⟨files', same_next, same_freed, rfl, cell⟩ := result
  have order : v.order.erase f = l₁ ++ l₂ := by
    have nodup := rep.list.nodup
    rw [split, List.nodup_append] at nodup
    rw [split, List.erase_append_right _ fun mem => nodup.2.2 f mem f (by simp) rfl, List.erase_cons_head]
  refine ⟨rep.relink same_next (fun g => ⟨_, _, cell g⟩) ?_ ?_, ?_, rfl, ?_⟩
  · rw [order]
    have others : ∀ g ∈ l₁ ++ l₂, ∃ file_g, d.files.cell g = some file_g := by
      intro g mem
      refine neighbour g ?_
      cases List.mem_append.mp mem with
      | inl front => simp [front]
      | inr back => simp [back]
    refine list.remove (fun g mem => ?_) (fun g mem => ?_) (by rw [prev, next])
    · obtain ⟨file_g, at_g⟩ := others g mem
      simp [prev, Disk.nextFile, cell, at_g, live]
    · obtain ⟨file_g, at_g⟩ := others g mem
      simp [next, Disk.prevFile, cell, at_g, live]
  · exact fun g mem => rep.onDisk g (List.mem_of_mem_erase mem)
  · rw [Disk.ledger, same_freed]
    rfl
  · rw [cell, live]
    rfl

end SysprogLabs.Userfs
