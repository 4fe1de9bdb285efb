import SysprogLabs.Userfs.Transfers

/-! # Resizing a file

The first loop of `ufs_resize` walks the chain with the size still to go and takes a block
off it at a time.  It ends when the size is a multiple of `BLOCK_SIZE` or lies inside the
stored bytes; otherwise it leaves the chain with less than a block to go and wraps below
zero.  When it ends, the chain is cut behind the blocks of the new contents, unless there
are none: then the released blocks stay in `block_list`.
-/

namespace SysprogLabs.Userfs

open Prog

variable {junk : Junk} {s s' : State} {v : View} {fd : Int} {p f : Nat} {r : Filedesc} {file : File}

/-! ## The first loop -/

/-- The body of the first loop of `ufs_resize`, at `block` with `newSize` bytes to go. -/
def resizeIteration (junk : Junk) (f : Nat) : Nat × Ptr → Prog Disk (Flow (Nat × Ptr) Ptr) :=
  fun (newSize, block) => do
    if newSize > 0 then return .again (← resizeBlock junk (some f) newSize block)
    else return .done block

theorem resizeLoop_eq (f newSize : Nat) (block : Ptr) :
    resizeLoop junk (some f) newSize block = Prog.loop (resizeIteration junk f) (newSize, block) := rfl

/-- The number of blocks that hold `n` bytes, `n / BLOCK_SIZE` rounded up. -/
def blocksFor (n : Nat) : Nat := (n + blockSize - 1) / blockSize

/-- The first loop of `ufs_resize` terminates, creates no more blocks than the new size needs,
    and never subtracts `BLOCK_SIZE` from less: behind the chain it always does, at a block
    only when that much is left. -/
structure LoopEnds (junk : Junk) (d : Disk) (f : Nat) (file : File) (newSize : Nat) : Prop where
  returns : ∃ block d', (resizeLoop junk (some f) newSize file.blockList).Returns d block d' ∧
    d'.blocks.next ≤ d.blocks.next + blocksFor newSize
  noWrap : ∀ n block d', Visits (resizeIteration junk f) (newSize, file.blockList) d (n, block) d' →
    0 < n → block = none ∨ blockSize ≤ n → blockSize ≤ n

/-- The loop is at `block` of the file `f` with `n` bytes to go, and gets to their end. -/
def Reaching (f n : Nat) (block : Ptr) (d : Disk) : Prop :=
  ∃ v chain V l₁ l₂ front rest kept, DiskRep d v chain ∧ v.file f = some V ∧ chain f = l₁ ++ l₂ ∧
    V.blocks = front ++ rest ∧ front.length = l₁.length ∧ block = l₂.head? ∧
    n ≤ maxFileSize ∧ resizeBlocks blockSize rest n = some kept

theorem blocksFor_sub {n : Nat} (whole : blockSize ≤ n) : blocksFor (n - blockSize) + 1 = blocksFor n := by
  have pos := blockSize_pos
  have same : n + blockSize - 1 = (n - blockSize + blockSize - 1) + blockSize := by omega
  rw [blocksFor, blocksFor, same, Nat.add_div_right _ pos]

/-- Behind the chain only whole blocks are missing. -/
theorem Reaching.whole {n : Nat} {d : Disk} (reaching : Reaching f n none d) (some_left : 0 < n) :
    blockSize ≤ n := by
  obtain ⟨v, chain, V, l₁, l₂, front, rest, kept, rep, stored, at_rest, blocks, len, stop, -, resized⟩ := reaching
  obtain ⟨file, -, fileRep⟩ := rep.live f V stored
  have sizes := fileRep.blocks.length_eq
  rw [at_rest, List.head?_eq_none_iff.mp stop.symm, blocks, List.append_nil, List.length_append, len] at sizes
  obtain rfl : rest = [] := List.eq_nil_of_length_eq_zero (by omega)
  by_contra less
  rw [resizeBlocks_rest some_left (by omega)] at resized
  cases resized

/-- An iteration on the way to the end creates no more blocks than it takes off the size. -/
theorem resizeBlock_reaching {n : Nat} {block : Ptr} {d : Disk} (reaching : Reaching f n block d)
    (some_left : 0 < n) :
    (resizeBlock junk (some f) n block).Ensures d fun state d' => Reaching f state.1 state.2 d' ∧
      d'.blocks.next + blocksFor state.1 ≤ d.blocks.next + blocksFor n := by
  have behind := fun missing : block = none => Reaching.whole (missing ▸ reaching) some_left
  obtain ⟨v, chain, V, l₁, l₂, front, rest, kept, rep, stored, at_rest, blocks, len, rfl, small, resized⟩ := reaching
  have pos := blockSize_pos
  have bound := lt_of_le_maxFileSize small
  obtain ⟨file, -, fileRep⟩ := rep.live f V stored
  have sizes := fileRep.blocks.length_eq
  rw [at_rest, blocks, List.length_append, List.length_append, len] at sizes
  have allocates := resizeBlock_allocates junk (f := f) (d := d) n l₂.head?
  cases l₂ with
  | nil =>
    obtain rfl : rest = [] := List.eq_nil_of_length_eq_zero (by simpa using sizes.symm)
    have whole := behind rfl
    refine ((resizeBlock_null junk n rep stored).and_yields allocates).mono fun state d' result => ?_
    obtain ⟨⟨rfl, rep'⟩, made, -⟩ := result
    rw [resizeBlocks_whole pos whole] at resized
    obtain ⟨later, resized, -⟩ := Option.map_eq_some_iff.mp resized
    have counted := blocksFor_sub whole
    rw [toSizeT_sub bound whole]
    refine ⟨⟨_, _, _, chain f ++ [d.blocks.next], [], V.blocks ++ [[]], [], later, rep', DiskView.setFile_stored,
      by simp, by simp, ?_, rfl, by omega, resized⟩, ?_⟩
    · simpa [at_rest, blocks] using len
    · simp only [List.head?_nil, if_true] at made
      show d'.blocks.next + blocksFor (n - blockSize) ≤ _
      omega
  | cons q l₂ =>
    cases rest with
    | nil => simp at sizes
    | cons old rest =>
    refine ((resizeBlock_at junk n rep stored at_rest blocks len bound).and_yields allocates).mono
      fun state d' result => ?_
    obtain ⟨iteration, made, -⟩ := result
    simp only [List.head?_cons, reduceCtorEq, if_false, Nat.add_zero] at made
    have shifted : chain f = (l₁ ++ [q]) ++ l₂ := by simp [at_rest]
    obtain ⟨whole, rfl, rfl⟩ | ⟨less, inside, rfl, rep'⟩ | ⟨less, beyond, rfl, -⟩ := iteration
    · rw [resizeBlocks_whole pos whole] at resized
      obtain ⟨later, resized, -⟩ := Option.map_eq_some_iff.mp resized
      have counted := blocksFor_sub whole
      refine ⟨⟨v, chain, V, l₁ ++ [q], l₂, front ++ [old], rest, later, rep, stored, shifted, by simp [blocks],
        by simp [len], rfl, by omega, resized⟩, ?_⟩
      show d'.blocks.next + blocksFor (n - blockSize) ≤ _
      omega
    · refine ⟨⟨_, chain, _, l₁ ++ [q], l₂, front ++ [old.take n], rest, [], rep', DiskView.setFile_stored, shifted,
        by simp, by simp [len], rfl, Nat.zero_le _, resizeBlocks_zero⟩, ?_⟩
      have none_left : blocksFor 0 = 0 := Nat.div_eq_of_lt (by omega)
      show d'.blocks.next + blocksFor 0 ≤ _
      omega
    · -- Less than a block is left and the block stores no more: this size is not reached.
      rw [resizeBlocks_rest some_left less] at resized
      simp only at resized
      rw [if_neg (by omega)] at resized
      cases resized

theorem resizeIteration_reaching {state : Nat × Ptr} {d₀ d : Disk} {total : Nat}
    (inv : Reaching f state.1 state.2 d ∧ d.blocks.next + blocksFor state.1 ≤ d₀.blocks.next + total) :
    (resizeIteration junk f state).Yields d fun flow d' => match flow with
      | .again state' => Reaching f state'.1 state'.2 d' ∧
          d'.blocks.next + blocksFor state'.1 ≤ d₀.blocks.next + total
      | .done _ => d'.blocks.next ≤ d₀.blocks.next + total := by
  obtain ⟨n, block⟩ := state
  simp only [resizeIteration, yields_ite, yields_bind, yields_pure]
  constructor
  · intro some_left
    refine (resizeBlock_reaching inv.1 some_left).yields.mono fun state d' result => ?_
    exact ⟨result.1, Nat.le_trans result.2 inv.2⟩
  · intro _
    exact Nat.le_trans (Nat.le_add_right _ _) inv.2

/-- The first loop ends, without wrapping, exactly when the new size is a multiple of
    `BLOCK_SIZE` or lies inside the stored bytes. -/
theorem resize_ends (reachable : Reachable (Step junk) State.init s) (live : s.disk.files.cell f = some file)
    {bytes : List Byte} (contents : s.disk.Contains f bytes) {newSize : Nat} (small : newSize ≤ maxFileSize) :
    LoopEnds junk s.disk f file newSize ↔ newSize % blockSize = 0 ∨ newSize < bytes.length := by
  obtain ⟨v, abstracts⟩ := reachable_onView reachable
  obtain ⟨chain, rep⟩ := abstracts.1.disk
  obtain ⟨V, stored, fileRep⟩ := rep.file_stored live
  have packed := abstracts.2.disk.packed f V stored
  have same : V.blocks.flatten = bytes := (abstracts.contains stored).unique contents
  have start := Chain.head_eq fileRep.path
  have unreached := resizeBlocks_none_iff (n := newSize) blockSize_pos packed
  rw [same] at unreached
  cases resized : resizeBlocks blockSize V.blocks newSize with
  | none =>
    have beyond := unreached.mp resized
    refine iff_of_false (fun ends => ?_) (by omega)
    obtain ⟨block, d', returned, -⟩ := ends.returns
    rw [start] at returned
    exact resizeLoop_noReturn junk ⟨v.disk, chain, V, [], chain f, [], V.blocks, rep, stored, rfl, rfl, rfl, rfl,
      lt_of_le_maxFileSize small, packed, resized⟩ block d' returned
  | some kept =>
    have inside : newSize % blockSize = 0 ∨ newSize < bytes.length := by
      by_contra beyond
      rw [unreached.mpr (by omega)] at resized
      cases resized
    have reaching : Reaching f newSize file.blockList s.disk :=
      ⟨v.disk, chain, V, [], chain f, [], V.blocks, kept, rep, stored, rfl, rfl, rfl, start, small, resized⟩
    let inv : Nat × Ptr → Disk → Prop := fun state d => Reaching f state.1 state.2 d ∧
      d.blocks.next + blocksFor state.1 ≤ s.disk.blocks.next + blocksFor newSize
    have holds : inv (newSize, file.blockList) s.disk := ⟨reaching, Nat.le_refl _⟩
    refine iff_of_true ⟨?_, fun n block d' visits some_left subtracts => ?_⟩ inside
    · have looped := resizeLoop_chain junk newSize [] rep stored (List.nil_append _).symm rfl rfl small resized
      rw [← start] at looped
      have counted : (resizeLoop junk (some f) newSize file.blockList).Yields s.disk fun _ d' =>
          d'.blocks.next ≤ s.disk.blocks.next + blocksFor newSize := by
        rw [resizeLoop_eq]
        refine yields_loop inv (fun state d holds => (resizeIteration_reaching holds).mono fun flow d' after => ?_) holds
        cases flow with
        | again => exact after
        | done => exact after
      obtain ⟨block, d', returned, -, bound⟩ := looped.and_yields counted
      exact ⟨block, d', returned, bound⟩
    · have here := visits.invariant inv holds fun _ _ _ _ holds step => resizeIteration_reaching holds _ _ step
      obtain rfl | whole := subtracts
      · exact here.1.whole some_left
      · exact whole

-- A new file is resized to one byte.
theorem resize_wraps : ∃ s f file, Reachable (Step Junk.zero) State.init s ∧ s.disk.files.cell f = some file ∧
    ¬ LoopEnds Junk.zero s.disk f file 1 ∧ (resizeLoop Junk.zero (some f) 1 file.blockList).NoReturn s.disk := by
  obtain ⟨_, s, run, ends⟩ := execute_ends Junk.zero 9 [.ufsOpen [97] 1] State.init
    (fun _ s => (s.descriptor 0).any fun (_, _, _, file) => file.blockList == none) (by decide +kernel)
  obtain ⟨⟨p, r, f, file⟩, follows, empty⟩ := (Option.any_eq_true _ _).mp ends
  have no_block : file.blockList = none := by simpa using empty
  have opened := State.descriptor_opened follows
  obtain ⟨v, abstracts⟩ := reachable_onView ⟨_, run⟩
  obtain ⟨chain, rep⟩ := abstracts.1.disk
  obtain ⟨V, stored, fileRep⟩ := rep.file_stored opened.live
  have path := fileRep.path
  have sizes := fileRep.blocks.length_eq
  have no_chain : chain f = [] := by
    have start := Chain.head_eq path
    rw [no_block] at start
    exact List.head?_eq_none_iff.mp start.symm
  rw [no_chain] at sizes
  have no_blocks : V.blocks = [] := List.eq_nil_of_length_eq_zero sizes.symm
  have wraps : resizeBlocks blockSize V.blocks 1 = none := by
    rw [no_blocks, resizeBlocks_nil_none, blockSize_eq]
    decide
  refine ⟨s, f, file, ⟨_, run⟩, opened.live, fun ends => ?_, ?_⟩
  · have whole := ends.noWrap 1 none s.disk (by rw [no_block]; exact .here _ _) Nat.one_pos (.inl rfl)
    rw [blockSize_eq] at whole
    omega
  · rw [Chain.head_eq path]
    exact resizeLoop_noReturn Junk.zero ⟨v.disk, chain, V, [], chain f, [], V.blocks, rep, stored, rfl, rfl, rfl, rfl,
      by decide, abstracts.2.disk.packed f V stored, wraps⟩

theorem resize_ends_inside : ∃ s f file bytes, Reachable (Step Junk.zero) State.init s ∧
    s.disk.files.cell f = some file ∧ s.disk.Contains f bytes ∧
    (LoopEnds Junk.zero s.disk f file 2 ↔ 2 % blockSize = 0 ∨ 2 < bytes.length) := by
  obtain ⟨s', run⟩ := execute_answers Junk.zero
    (show (execute Junk.zero 9 [.ufsOpen [97] 1, .ufsWrite 0 [1, 2, 3], .ufsResize 0 2] State.init).map
      Prod.fst = some [⟨0, [], .noErr⟩, ⟨3, [], .noErr⟩, ⟨0, [], .noErr⟩] by decide +kernel)
  obtain ⟨s, p, r, f, file, bytes, reachable, -, opened, -, contents⟩ := run_opened run rfl rfl (by decide)
  have small : 2 ≤ maxFileSize := by rw [maxFileSize_eq]; decide
  exact ⟨s, f, file, bytes, reachable, opened.live, contents, resize_ends reachable opened.live contents small⟩

/-! ## What a resize leaves behind -/

/-- The blocks of a live file on the heap and on the view. -/
theorem Abstracts.blocks (abstracts : Abstracts s v) (live : s.disk.files.cell f = some file) :
    ∃ chain V, DiskRep s.disk v.disk chain ∧ v.disk.file f = some V ∧ FileRep s.disk file V (chain f) ∧
      Packed blockSize V.blocks := by
  obtain ⟨chain, rep⟩ := abstracts.1.disk
  obtain ⟨V, stored, fileRep⟩ := rep.file_stored live
  exact ⟨chain, V, rep, stored, fileRep, abstracts.2.disk.packed f V stored⟩

/-- Through a writable descriptor `ufs_resize` is the resize of its file. -/
theorem ensures_ufsResize (abstracts : Abstracts s v) (opened : Opened s fd p r f file)
    (allowed : r.canWrite = true) {newSize : Nat} (small : newSize ≤ maxFileSize) {Q : Int → State → Prop} :
    (ufsResize junk fd newSize).Ensures s Q ↔
      (resizeFile junk (some f) newSize).Ensures s.disk fun _ d => Q 0 { s with disk := d } := by
  obtain ⟨nonneg, at_fd, live⟩ := Table.lookup_some opened.found
  have inv : TableInv s.table := by rw [abstracts.1.table]; exact abstracts.2.table
  have valid : ∀ {R : Bool → Table → Prop}, (isValidFd fd).Ensures s.table R ↔ R true s.table := by
    intro R
    rw [ensures_isValidFd inv, opened.found]
    rfl
  have slotted : ∀ {R : Ptr → Table → Prop}, (slot fd).Ensures s.table R ↔ R (some p) s.table :=
    ensures_slot inv nonneg at_fd
  simp only [ufsResize, ensures_bind, ensures_zoom, tablePart_get, tablePart_set, diskPart_get, diskPart_set, valid,
    slotted, Lens.ensures_load, filedescHeap_get, Option.some.injEq, exists_eq_left', live, ensures_ite,
    Bool.true_eq_false, if_false, allowed, gt_iff_lt, Nat.not_lt.mpr small, opened.target, ensures_pure]

theorem resize_step (abstracts : Abstracts s v) (opened : Opened s fd p r f file) (allowed : r.canWrite = true)
    {newSize : SizeT} (small : newSize.val ≤ maxFileSize) {out : Out} :
    Step junk s (.ufsResize fd newSize, out) s' ↔ out = { ret := 0, bytes := [], errno := s.ufsErrorCode } ∧
      ∃ d, (resizeFile junk (some f) newSize).Returns s.disk () d ∧ s' = { s with disk := d } := by
  have resizes : ∀ {Q : Int → State → Prop}, (ufsResize junk fd newSize).Ensures s Q ↔
      (resizeFile junk (some f) newSize).Ensures s.disk fun _ d => Q 0 { s with disk := d } :=
    ensures_ufsResize abstracts opened allowed small
  constructor
  · intro step
    have result := Returns.ensures (Q := fun o t => o = out ∧ t = s') step ⟨rfl, rfl⟩
    simp only [Call.run, withErrno, ensures_bind, resizes, ufsErrno, ensures_read, ensures_pure] at result
    obtain ⟨⟨⟩, d, returned, same, rest⟩ := result
    exact ⟨same.symm, d, returned, rest.symm⟩
  · rintro ⟨same, d, returned, rest⟩
    have result : ((Call.ufsResize fd newSize).run junk).Ensures s fun o t => o = out ∧ t = s' := by
      simp only [Call.run, withErrno, ensures_bind, resizes, ufsErrno, ensures_read, ensures_pure]
      exact returned.ensures ⟨same.symm, rest.symm⟩
    obtain ⟨_, _, returned', rfl, rfl⟩ := result
    exact returned'

/-- The disk differs from `d₀` at most in the file `f` and in blocks. -/
def Elsewhere (f : Nat) (d₀ d : Disk) : Prop :=
  d.names = d₀.names ∧ d.fileList = d₀.fileList ∧ ∀ g ≠ f, d.files.cell g = d₀.files.cell g

section

variable {d₀ : Disk}

theorem blocks_elsewhere (block : Ptr) (change : Block → Block) :
    (blockHeap.modify block change).Maintains (Elsewhere f d₀) := Lens.maintains_modify fun _ _ _ kept => kept

theorem file_elsewhere (change : File → File) : (fileHeap.modify (some f) change).Maintains (Elsewhere f d₀) := by
  apply Lens.maintains_modify_at
  intro d _ kept
  refine ⟨kept.1, kept.2.1, fun g other => ?_⟩
  simp [other, kept.2.2 g other]

theorem createBlock_elsewhere : (createBlock junk (some f)).Maintains (Elsewhere f d₀) :=
  .bind (Lens.maintains_malloc fun _ _ kept => kept) fun _ =>
  .bind (Lens.maintains_malloc fun _ _ kept => kept) fun _ =>
  .bind (blocks_elsewhere _ _) fun _ =>
  .bind (blocks_elsewhere _ _) fun _ =>
  .bind (blocks_elsewhere _ _) fun _ =>
  .bind Lens.maintains_load fun _ =>
  .ite (.bind (file_elsewhere _) fun _ => .pure)
    (.bind (blocks_elsewhere _ _) fun _ => .bind (blocks_elsewhere _ _) fun _ =>
     .bind (file_elsewhere _) fun _ => .pure)

theorem cutBlock_elsewhere (block : Ptr) (n : Nat) : (cutBlock junk block n).Maintains (Elsewhere f d₀) :=
  .bind (Lens.maintains_malloc fun _ _ kept => kept) fun _ =>
  .bind Lens.maintains_load fun _ =>
  .bind Lens.maintains_load fun _ =>
  .bind Lens.maintains_load fun _ =>
  .bind .require fun _ =>
  .bind .require fun _ =>
  .bind (Lens.maintains_modify fun _ _ _ kept => kept) fun _ =>
  .bind (Lens.maintains_free fun _ _ kept => kept) fun _ =>
  .bind (blocks_elsewhere _ _) fun _ => blocks_elsewhere _ _

theorem resizeLoop_elsewhere (n : Nat) (block : Ptr) :
    (resizeLoop junk (some f) n block).Maintains (Elsewhere f d₀) :=
  .loop (fun _ => .ite
    (.bind (.ite (.bind createBlock_elsewhere fun _ => .bind Lens.maintains_load fun _ => .pure)
      (.bind Lens.maintains_load fun _ => .ite .pure (.ite (.bind (cutBlock_elsewhere _ _) fun _ => .pure) .pure)))
      fun _ => .pure) .pure) _

/-- Resizing a file touches no other file, no name and not the list of files. -/
theorem resizeFile_elsewhere (n : Nat) : (resizeFile junk (some f) n).Maintains (Elsewhere f d₀) :=
  .bind Lens.maintains_load fun _ =>
  .bind (resizeLoop_elsewhere _ _) fun _ =>
  .bind (.ite .pure (.bind Lens.maintains_load fun _ => .ite .pure
    (.bind (file_elsewhere _) fun _ => blocks_elsewhere _ _))) fun _ =>
  .bind (.loop (fun _ => .ite (.bind Lens.maintains_load fun _ =>
    .bind (Lens.maintains_free fun _ _ kept => kept) fun _ =>
    .bind (Lens.maintains_free fun _ _ kept => kept) fun _ => .pure) .pure) _) fun _ =>
  .bind Lens.maintains_load fun _ =>
  .bind (.loop (fun _ => .ite (.bind Lens.maintains_load fun _ => .bind (file_elsewhere _) fun _ => .pure) .pure) _)
    fun _ => file_elsewhere _

end

end SysprogLabs.Userfs
