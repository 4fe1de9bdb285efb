import SysprogLabs.Userfs.Modes

/-! # The blocks a write follows

`ufs_write` follows `block` in its copy loop, and once more from `block_list` to the end of the chain.
The loop is at a block of the file as long as there is something to write; the walk starts at `NULL`
when the file has no block and nothing has been written.
-/

namespace SysprogLabs.Userfs

open Prog

variable {junk : Junk} {s s' : State} {v : View} {fd : Int} {p f : Nat} {r : Filedesc} {file : File} {buf : List Byte}

/-- `q` is live and on the chain of the file `f`. -/
def Disk.HasBlock (d : Disk) (f q : Nat) : Prop :=
  ∃ file l, d.files.cell f = some file ∧ Chain d.nextBlock file.blockList l ∧ q ∈ l ∧ ∃ b, d.blocks.cell q = some b

theorem DiskRep.hasBlock {d : Disk} {w : DiskView} {chain : Nat → List Nat} {V : FileView} {q : Nat}
    (rep : DiskRep d w chain) (stored : w.file f = some V) (mem : q ∈ chain f) : d.HasBlock f q := by
  obtain ⟨file, live, fileRep⟩ := rep.live f V stored
  exact ⟨file, chain f, live, fileRep.path, mem, fileRep.live mem⟩

/-! ## The copy loop -/

/-- The body of the copy loop of `ufs_write`. -/
def writeIteration (junk : Junk) (f : Nat) (buf : List Byte) (w : WriteVars) : Prog Disk (Flow WriteVars WriteVars) := do
  if w.size > 0 then
    if w.block = none then
      let block ← createBlock junk (some f)
      return .again (← writeToBlock buf { w with block := block, offset := 0 })
    else return .again (← writeToBlock buf w)
  else return .done w

theorem writeLoop_eq : writeLoop junk (some f) buf = Prog.loop (writeIteration junk f buf) := rfl

/-- Where the copy loop of `ufs_write` starts. -/
def writeStart (r : Filedesc) (file : File) (buf : List Byte) : WriteVars :=
  { bufOffset := 0, offset := r.offset, size := buf.length, block := file.blockList }

/-- The loop is at a place of the chain of `f`. -/
def Writing (f : Nat) (buf : List Byte) (w : WriteVars) (d : Disk) : Prop :=
  ∃ v chain V l₁ l₂ front rest, ∃ start offset : Nat, DiskRep d v chain ∧ v.file f = some V ∧ chain f = l₁ ++ l₂ ∧
    V.blocks = front ++ rest ∧ front.length = l₁.length ∧ start ≤ buf.length ∧
    w = { bufOffset := start, offset := offset, size := buf.length - start, block := l₂.head? }

theorem Writing.hasBlock {w : WriteVars} {d : Disk} {q : Nat} (writing : Writing f buf w d) (at_q : w.block = some q) :
    d.HasBlock f q := by
  obtain ⟨v, chain, V, l₁, l₂, front, rest, start, offset, rep, stored, at_rest, -, -, -, rfl⟩ := writing
  obtain ⟨l, rfl⟩ := List.head?_eq_some_iff.mp at_q
  exact rep.hasBlock stored (by simp [at_rest])

/-- The iteration at the block `p` gets behind it. -/
theorem writeToBlock_writing {d : Disk} {v : DiskView} {chain : Nat → List Nat} {V : FileView} {l₁ l₂ : List Nat}
    {front rest : List (List Byte)} {old : List Byte} {start offset : Nat} (rep : DiskRep d v chain)
    (stored : v.file f = some V) (at_p : chain f = l₁ ++ p :: l₂) (blocks : V.blocks = front ++ old :: rest)
    (len : front.length = l₁.length) (inside : start < buf.length) (small : buf.length ≤ maxFileSize) :
    (writeToBlock buf { bufOffset := start, offset := offset, size := buf.length - start,
                        block := some p }).Ensures d (Writing f buf) := by
  have at_rest : chain f = (l₁ ++ [p]) ++ l₂ := by simp [at_p]
  refine (writeToBlock_spec rep stored at_p blocks len inside small).mono fun w d' iteration => ?_
  obtain ⟨-, rfl, rfl⟩ | ⟨-, part, rfl, rep', rfl⟩ := iteration
  · exact ⟨v, chain, V, l₁ ++ [p], l₂, front ++ [old], rest, start, _, rep, stored, at_rest, by simp [blocks],
      by simp [len], inside.le, rfl⟩
  · refine ⟨_, chain, _, l₁ ++ [p], l₂, front ++ [_], rest, _, 0, rep', DiskView.setFile_stored, at_rest, by simp; rfl,
      by simp [len], ?_, rfl⟩
    rw [List.length_take, List.length_drop]
    omega

/-- Behind the chain, the block is the one that `create_block` appends. -/
theorem createBlock_writing {w : WriteVars} {d : Disk} (writing : Writing f buf w d) (behind : w.block = none) :
    (createBlock junk (some f)).Ensures d fun block d' =>
      block ≠ none ∧ Writing f buf { w with block := block, offset := 0 } d' := by
  obtain ⟨v, chain, V, l₁, l₂, front, rest, start, offset, rep, stored, at_rest, blocks, len, inside, rfl⟩ := writing
  obtain rfl : l₂ = [] := List.head?_eq_none_iff.mp behind
  refine (createBlock_spec junk rep stored).mono fun block d' created => ?_
  obtain ⟨rfl, rep'⟩ := created
  refine ⟨by simp, _, _, _, l₁, [d.blocks.next], front, rest ++ [[]], start, 0, rep', DiskView.setFile_stored, ?_, ?_,
    len, inside, rfl⟩
  · rw [Function.update_self, at_rest, List.append_nil]
  · simp [blocks]

theorem writeToBlock_goes_on {w : WriteVars} {d : Disk} (small : buf.length ≤ maxFileSize) (writing : Writing f buf w d)
    (at_block : w.block ≠ none) (more : w.size > 0) : (writeToBlock buf w).Ensures d (Writing f buf) := by
  obtain ⟨v, chain, V, l₁, l₂, front, rest, start, offset, rep, stored, at_rest, blocks, len, inside, rfl⟩ := writing
  obtain ⟨file, -, fileRep⟩ := rep.live f V stored
  have sizes := fileRep.blocks.length_eq
  rw [at_rest, blocks, List.length_append, List.length_append, len] at sizes
  cases l₂ with
  | nil => exact absurd rfl at_block
  | cons p l₂ =>
    cases rest with
    | nil => simp at sizes
    | cons old rest =>
      have inside : start < buf.length := Nat.lt_of_sub_pos more
      exact writeToBlock_writing rep stored at_rest blocks len inside small

theorem writeIteration_writing {w : WriteVars} {d : Disk} (small : buf.length ≤ maxFileSize)
    (writing : Writing f buf w d) :
    (writeIteration junk f buf w).Ensures d fun flow d' => match flow with
      | .again w' => Writing f buf w' d'
      | .done w' => w' = w ∧ d' = d := by
  rw [writeIteration]
  by_cases more : w.size > 0
  · rw [if_pos more]
    by_cases behind : w.block = none
    · rw [if_pos behind]
      refine ensures_bind.mpr ((createBlock_writing writing behind).mono fun block d' created => ?_)
      obtain ⟨at_block, writing'⟩ := created
      exact ensures_bind.mpr ((writeToBlock_goes_on small writing' at_block more).mono fun _ _ writing =>
        ensures_pure.mpr writing)
    · rw [if_neg behind]
      exact ensures_bind.mpr ((writeToBlock_goes_on small writing behind more).mono fun _ _ writing =>
        ensures_pure.mpr writing)
  · rw [if_neg more]
    exact ensures_pure.mpr ⟨rfl, rfl⟩

theorem visits_writing {w w' : WriteVars} {d d' : Disk} (small : buf.length ≤ maxFileSize) (writing : Writing f buf w d)
    (visits : Visits (writeIteration junk f buf) w d w' d') : Writing f buf w' d' :=
  visits.invariant (Writing f buf) writing fun _ _ _ _ writing step => (writeIteration_writing small writing).of_returns step

/-! ## The walk to the last block -/

/-- The body of `while (block->next != NULL) block = block->next;`. -/
def walkIteration (block : Ptr) : Prog Disk (Flow Ptr Ptr) := do
  let b ← blockHeap.load block
  if b.next ≠ none then return .again b.next else return .done block

theorem walkToLast_eq (block : Ptr) : walkToLast block = Prog.loop walkIteration block := rfl

/-- The walk is at a block, and the rest of the chain is behind it. -/
def Walking (f : Nat) (d : Disk) (block : Ptr) (d' : Disk) : Prop :=
  d' = d ∧ ∃ q l, block = some q ∧ Chain d.nextBlock block (q :: l) ∧ ∀ p ∈ q :: l, d.HasBlock f p

theorem walkIteration_walking {d d₁ d₂ : Disk} {block next : Ptr} (walking : Walking f d block d₁)
    (step : (walkIteration block).Returns d₁ (.again next) d₂) : Walking f d next d₂ := by
  obtain ⟨rfl, q, l, rfl, ⟨-, path⟩, live⟩ := walking
  obtain ⟨-, -, -, -, -, b, at_q⟩ := live q List.mem_cons_self
  have goes : (walkIteration (some q)).Ensures d₁ fun flow d' => d' = d₁ ∧
      match flow with
      | .again next => next = b.next ∧ next ≠ none
      | .done _ => True := by
    by_cases more : b.next = none
    · simp [walkIteration, at_q, more]
    · simp [walkIteration, at_q, more]
  obtain ⟨rfl, rfl, more⟩ := goes.of_returns step
  have next : d₂.nextBlock q = b.next := by simp [Disk.nextBlock, at_q]
  rw [next] at path
  cases l with
  | nil => exact absurd path more
  | cons p l =>
    exact ⟨rfl, p, l, path.1, path, fun p mem => live p (List.mem_cons_of_mem q mem)⟩

/-! ## The call -/

/-- The pointers that a write to the file `f` follows are blocks of the file, live at that moment. -/
structure FollowsBlocks (junk : Junk) (s : State) (f : Nat) (r : Filedesc) (file : File) (buf : List Byte) : Prop where
  /-- In the copy loop, the block that is there. -/
  copies : ∀ w d, Visits (writeIteration junk f buf) (writeStart r file buf) s.disk w d → w.size > 0 →
    ∀ q, w.block = some q → d.HasBlock f q
  /-- In the copy loop, the block that is created. -/
  creates : ∀ w d, Visits (writeIteration junk f buf) (writeStart r file buf) s.disk w d → w.size > 0 → w.block = none →
    ∀ block d', (createBlock junk (some f)).Returns d block d' → ∃ q, block = some q ∧ d'.HasBlock f q
  /-- In the walk from `block_list`. -/
  walks : ∀ w d, (writeLoop junk (some f) buf (writeStart r file buf)).Returns s.disk w d →
    ∀ file', d.files.cell f = some file' → ∀ block d', Visits walkIteration file'.blockList d block d' →
      ∃ q, block = some q ∧ d'.HasBlock f q

/-- The call returns the number of bytes, and follows blocks of the file only; with no bytes it does nothing. -/
structure WritesSafely (junk : Junk) (s : State) (fd : Int) (f : Nat) (r : Filedesc) (file : File) (buf : List Byte) :
    Prop extends FollowsBlocks junk s f r file buf where
  returns : ∃ s', Step junk s (.ufsWrite fd buf, { ret := buf.length, bytes := [], errno := s.ufsErrorCode }) s'
  noop : buf = [] → Step junk s (.ufsWrite fd buf, { ret := 0, bytes := [], errno := s.ufsErrorCode }) s

theorem writes_blocks {V : FileView} (packed : Packed blockSize V.blocks) (offset : Nat) (some : buf ≠ [] ∨ V.blocks ≠ []) :
    writeBlocks blockSize V.blocks offset buf ≠ [] := by
  by_cases nothing : buf = []
  · subst nothing
    rw [writeBlocks_nil]
    exact some.resolve_left (absurd rfl)
  · intro empty
    obtain ⟨V', written⟩ := write_total packed offset nothing
    rw [FileView.write, if_pos empty] at written
    cases written

theorem FileRep.blockless {d : Disk} {V : FileView} {l : List Nat} (fileRep : FileRep d file V l) :
    V.blocks = [] ↔ file.blockList = none := by
  have sizes := fileRep.blocks.length_eq
  rw [Chain.head_eq fileRep.path, List.head?_eq_none_iff, ← List.length_eq_zero_iff, ← List.length_eq_zero_iff, sizes]

/-- A write of no bytes to a file with blocks walks to the last block and stores what is there. -/
theorem writeFile_nothing (junk : Junk) {d : Disk} {w : DiskView} {chain : Nat → List Nat} {V : FileView} (offset : Int)
    (rep : DiskRep d w chain) (stored : w.file f = some V) (nonempty : V.blocks ≠ []) (small : V.bytesLeft ≤ maxFileSize) :
    (writeFile junk (some f) offset [] 0).Ensures d fun written d' => written = 0 ∧ d' = d := by
  obtain ⟨file, live, fileRep⟩ := rep.live f V stored
  have path := fileRep.path
  have last := fileRep.last
  obtain empty | ⟨l, q, at_last⟩ := List.eq_nil_or_concat' (chain f)
  · have sizes := fileRep.blocks.length_eq
    rw [empty] at sizes
    exact absurd (List.eq_nil_of_length_eq_zero sizes.symm) nonempty
  · rw [at_last] at path last
    rw [List.getLast?_concat] at last
    have walked := walkToLast_spec path fun p mem => fileRep.live (by rw [at_last]; exact mem)
    have stays : (writeLoop junk (some f) [] { bufOffset := 0, offset := offset, size := 0,
                                               block := file.blockList }).Ensures d
        fun vars d' => d' = d ∧ vars.bufOffset = 0 := ensures_loop.mpr (by simp)
    have left : toSizeT file.bytesLeft = file.bytesLeft := by
      rw [fileRep.bytesLeft]
      simpa using toSizeT_sub (lt_of_le_maxFileSize small) (Nat.zero_le _)
    have same_last : { file with lastBlock := some q } = file := by rw [← last]
    refine ensures_bind.mpr (Lens.ensures_load.mpr ⟨f, rfl, file, live, ensures_bind.mpr ?_⟩)
    refine stays.mono fun vars d' result => ?_
    obtain ⟨rfl, zero⟩ := result
    refine ensures_bind.mpr (Lens.ensures_load.mpr ⟨f, rfl, file, live, ensures_bind.mpr ?_⟩)
    refine walked.mono fun block d' result => ?_
    obtain ⟨rfl, rfl⟩ := result
    simp only [ensures_bind, Lens.ensures_modify, ensures_pure, fileHeap_get, fileHeap_set, Option.some.injEq,
      exists_eq_left', live, Store.put_cell, if_true, Option.map_some, Store.put_put, zero, Int.sub_zero, left, same_last,
      Store.put_self live, true_and]

/-- A write of no bytes through a descriptor of such a file changes nothing. -/
theorem write_nothing (junk : Junk) (abstracts : Abstracts s v) (opened : Opened s fd p r f file)
    (allowed : r.canWrite = true) (blocks : file.blockList ≠ none) :
    Step junk s (.ufsWrite fd [], { ret := 0, bytes := [], errno := s.ufsErrorCode }) s := by
  obtain ⟨found, nonneg, V, stored, left⟩ := abstracts.opened opened
  obtain ⟨-, -, live⟩ := Table.lookup_some opened.found
  obtain ⟨chain, rep⟩ := abstracts.1.disk
  obtain ⟨file', live', fileRep⟩ := rep.live f V stored
  obtain rfl : file = file' := Option.some.inj (opened.live.symm.trans live')
  have small : V.bytesLeft ≤ maxFileSize := Nat.le_trans (Nat.le_add_left _ _) (abstracts.2.disk.quota f V stored)
  have nothing := writeFile_nothing junk r.offset rep stored (fun none => blocks (fileRep.blockless.mp none)) small
  have run : ((Call.ufsWrite fd []).run junk).Ensures s fun out s' =>
      out = { ret := 0, bytes := [], errno := s.ufsErrorCode } ∧ s' = s := by
    apply ensures_bind.mpr
    refine access_ensures abstracts found ?_
    rw [if_neg (by simp [allowed]), opened.target]
    simp only [ensures_bind, ensures_zoom, Lens.ensures_load, diskPart_get, diskPart_set, fileHeap_get, Option.some.injEq,
      exists_eq_left', opened.live, List.length_nil]
    rw [if_neg (Nat.not_lt_zero _)]
    simp only [ensures_bind, ensures_zoom]
    refine nothing.mono fun written d' result => ?_
    obtain ⟨rfl, rfl⟩ := result
    have same : s.table.filedescs.put p { r with offset := r.offset } = s.table.filedescs := Store.put_self live
    simp [live, same, ufsErrno]
  obtain ⟨out, s', returned, rfl, rfl⟩ := run
  exact returned

/-- Nothing is written to a file without blocks: the loop ends at once, and the walk is at `NULL`. -/
theorem nothing_unsafe (live : s.disk.files.cell f = some file) (no_block : file.blockList = none) :
    ¬ WritesSafely junk s fd f r file [] := by
  intro safely
  have ends : (writeLoop junk (some f) [] (writeStart r file [])).Ensures s.disk
      fun w d => w = writeStart r file [] ∧ d = s.disk := ensures_loop.mpr (by simp [writeStart])
  obtain ⟨w, d, returned, rfl, rfl⟩ := ends
  obtain ⟨q, at_q, -⟩ := safely.walks _ _ returned file live _ _ (.here _ _)
  rw [no_block] at at_q
  cases at_q

/-- Every pointer is a block of the file, and the call returns, unless nothing is written to a file without blocks. -/
theorem write_follows (reachable : Reachable (Step junk) State.init s) (opened : Opened s fd p r f file)
    (allowed : r.canWrite = true) (fits : buf.length ≤ file.bytesLeft) :
    WritesSafely junk s fd f r file buf ↔ buf ≠ [] ∨ file.blockList ≠ none := by
  obtain ⟨v, abstracts⟩ := reachable_onView reachable
  obtain ⟨found, nonneg, V, stored, left⟩ := abstracts.opened opened
  obtain ⟨chain, rep⟩ := abstracts.1.disk
  obtain ⟨file', live', fileRep⟩ := rep.live f V stored
  obtain rfl : file = file' := Option.some.inj (opened.live.symm.trans live')
  have packed := abstracts.2.disk.packed f V stored
  have small : V.bytesLeft ≤ maxFileSize := Nat.le_trans (Nat.le_add_left _ _) (abstracts.2.disk.quota f V stored)
  have fits' : buf.length ≤ V.bytesLeft := left ▸ fits
  constructor
  · intro safely
    by_contra neither
    obtain ⟨rfl, no_block⟩ : buf = [] ∧ file.blockList = none := by simpa [not_or] using neither
    exact nothing_unsafe opened.live no_block safely
  · intro some
    have some' : buf ≠ [] ∨ V.blocks ≠ [] := some.imp_right fun blocks none => blocks (fileRep.blockless.mp none)
    have nonempty := writes_blocks packed r.offset.toNat some'
    have short : buf.length ≤ maxFileSize := Nat.le_trans fits' small
    have start : writeStart r file buf =
        { bufOffset := (0 : Nat), offset := r.offset.toNat, size := buf.length - 0, block := (chain f).head? } := by
      rw [writeStart, Int.toNat_of_nonneg nonneg, ← Chain.head_eq fileRep.path]
      rfl
    have writing : Writing f buf (writeStart r file buf) s.disk :=
      ⟨v.disk, chain, V, [], chain f, [], V.blocks, 0, r.offset.toNat, rep, stored, rfl, rfl, rfl, Nat.zero_le _, start⟩
    refine ⟨⟨?_, ?_, ?_⟩, ?_, ?_⟩
    · intro w d visits more q at_q
      exact (visits_writing short writing visits).hasBlock at_q
    · intro w d visits more behind block d' created
      obtain ⟨at_block, writing'⟩ := (createBlock_writing (visits_writing short writing visits) behind).of_returns created
      obtain ⟨q, rfl⟩ := Option.ne_none_iff_exists'.mp at_block
      exact ⟨q, rfl, writing'.hasBlock rfl⟩
    · intro w d returned file' live' block d' visits
      rw [start] at returned
      have wrote := writeLoop_spec junk 0 r.offset.toNat [] rep stored (List.nil_append _).symm rfl rfl (Nat.zero_le _)
        short
      obtain ⟨-, chain', rep'⟩ := wrote.of_returns returned
      obtain ⟨file₂, live₂, fileRep'⟩ := rep'.live f _ DiskView.setFile_stored
      obtain rfl : file' = file₂ := Option.some.inj (live'.symm.trans live₂)
      have sizes := fileRep'.blocks.length_eq
      have path := fileRep'.path
      cases chained : chain' f with
      | nil =>
        rw [chained] at sizes
        exact absurd (List.eq_nil_of_length_eq_zero sizes.symm) nonempty
      | cons q l =>
        rw [chained] at path
        have walking : Walking f d file'.blockList d := ⟨rfl, q, l, path.1, path, fun p mem =>
          rep'.hasBlock DiskView.setFile_stored (by rw [chained]; exact mem)⟩
        obtain ⟨rfl, q', l', at_q, -, inside⟩ := visits.invariant (Walking f d) walking
          fun _ _ _ _ walking step => walkIteration_walking walking step
        exact ⟨q', at_q, inside q' List.mem_cons_self⟩
    · have written : V.write r.offset.toNat buf = .some _ := if_neg nonempty
      obtain ⟨s', step, -⟩ := abstracts.answers (View.write_accepted junk found allowed opened.target stored fits' written)
      rw [← abstracts.1.errno] at step
      exact ⟨s', step⟩
    · rintro rfl
      exact write_nothing junk abstracts opened allowed (some.resolve_left (absurd rfl))

-- The first write to a new file.
theorem write_follows_new : ∃ s p r f file, Reachable (Step Junk.zero) State.init s ∧ Opened s 0 p r f file ∧
    (WritesSafely Junk.zero s 0 f r file [1, 2] ↔ ([1, 2] : List Byte) ≠ [] ∨ file.blockList ≠ none) := by
  obtain ⟨_, s, run, ends⟩ := execute_ends Junk.zero 9 [.ufsOpen [97] 1] State.init
    (fun _ s => (s.descriptor 0).any fun (_, r, _, file) => r.canWrite && decide (2 ≤ file.bytesLeft)) (by decide +kernel)
  obtain ⟨⟨p, r, f, file⟩, follows, known⟩ := (Option.any_eq_true _ _).mp ends
  simp only [Bool.and_eq_true, decide_eq_true_eq] at known
  have opened := State.descriptor_opened follows
  exact ⟨s, p, r, f, file, ⟨_, run⟩, opened, write_follows ⟨_, run⟩ opened known.1 known.2⟩

-- No bytes are written to a new file.
theorem write_nothing_new : ∃ s p r f file, Reachable (Step Junk.zero) State.init s ∧ Opened s 0 p r f file ∧
    r.canWrite = true ∧ ([] : List Byte).length ≤ file.bytesLeft ∧ ¬ WritesSafely Junk.zero s 0 f r file [] ∧
    ((Call.ufsWrite 0 []).run Junk.zero).run 9 s = .error .fault := by
  obtain ⟨_, s, run, ends⟩ := execute_ends Junk.zero 9 [.ufsOpen [97] 1] State.init
    (fun _ s => ((s.descriptor 0).any fun (_, r, _, file) => r.canWrite && file.blockList == none) &&
      match ((Call.ufsWrite 0 []).run Junk.zero).run 9 s with
      | .error .fault => true
      | _ => false) (by decide +kernel)
  simp only [Bool.and_eq_true] at ends
  obtain ⟨before, after⟩ := ends
  obtain ⟨⟨p, r, f, file⟩, follows, known⟩ := (Option.any_eq_true _ _).mp before
  simp only [Bool.and_eq_true, beq_iff_eq] at known
  have opened := State.descriptor_opened follows
  refine ⟨s, p, r, f, file, ⟨_, run⟩, opened, known.1, Nat.zero_le _, nothing_unsafe opened.live known.2, ?_⟩
  split at after
  · next faults => exact faults
  · cases after

end SysprogLabs.Userfs
