import SysprogLabs.Userfs.Resizing

/-! # The chain a resize leaves

A resize that returns leaves the blocks of the new contents in the chain and releases the
ones it cut off.  Shrinking truncates the contents.  Growing only adds empty blocks, so the
contents stay as they are.
-/

namespace SysprogLabs.Userfs

open Prog

variable {junk : Junk} {s s' : State} {v : View} {fd : Int} {p f : Nat} {r : Filedesc} {file : File} {l : List Nat}

/-! ## The step -/

/-- What a resize that returns does to the heap: the chain `l` gets the blocks `created` and
    loses the blocks `cut`. -/
structure Recut (s s' : State) (f : Nat) (l created kept cut : List Nat) (V' : FileView) : Prop where
  split : l ++ created = kept ++ cut
  nodup : (l ++ created).Nodup
  old : ∀ q ∈ cut, q ∈ l
  fresh : ∀ q, s.disk.blocks.next ≤ q → q < s'.disk.blocks.next → q ∈ kept
  size : kept.length = V'.blocks.length
  count : created.length = V'.blocks.length - l.length
  freed : s'.disk.blocks.freed = cut.reverse ++ s.disk.blocks.freed
  elsewhere : Elsewhere f s.disk s'.disk
  table : s'.table = s.table
  file : ∃ file', s'.disk.files.cell f = some file' ∧ FileRep s'.disk file' V' kept

theorem resize_recuts (junk : Junk) (abstracts : Abstracts s v) (opened : Opened s fd p r f file)
    (allowed : r.canWrite = true)
    {newSize : SizeT} (small : newSize.val ≤ maxFileSize) {V V' : FileView} (stored : v.disk.file f = some V)
    (resized : V.resize newSize = some V') (path : Chain s.disk.nextBlock file.blockList l) :
    ∃ s' created kept cut,
      Step junk s (.ufsResize fd newSize, { ret := 0, bytes := [], errno := s.ufsErrorCode }) s' ∧
      Abstracts s' { v with disk := v.disk.setFile f V' } ∧ Recut s s' f l created kept cut V' := by
  obtain ⟨chain, W, rep, stored', fileRep, packed⟩ := abstracts.blocks opened.live
  rw [stored] at stored'
  cases stored'
  have same := fileRep.path.unique path
  subst same
  have cuts := resizeFile_cuts junk rep stored packed small resized
  obtain ⟨⟨⟩, d, returned, created, kept, cut, split, nodup, size, count, rep', freed⟩ := cuts
  have elsewhere : Elsewhere f s.disk d := resizeFile_elsewhere newSize.val s.disk () d ⟨rfl, rfl, fun _ _ => rfl⟩ returned
  let s' : State := { s with disk := d }
  have step : Step junk s (.ufsResize fd newSize, { ret := 0, bytes := [], errno := s.ufsErrorCode }) s' :=
    (resize_step abstracts opened allowed small).mpr ⟨rfl, d, returned, rfl⟩
  obtain ⟨found, -⟩ := abstracts.opened opened
  have effect : Effect junk v (.ufsResize fd newSize) { ret := 0, bytes := [], errno := v.ufsErrorCode }
      { v with disk := v.disk.setFile f V' } := .resized found allowed opened.target stored small resized
  have after : Rep s' { v with disk := v.disk.setFile f V' } :=
    ⟨⟨_, rep'⟩, abstracts.1.table, abstracts.1.errno⟩
  obtain ⟨file', live', fileRep'⟩ := rep'.live f V' DiskView.setFile_stored
  rw [Function.update_self] at fileRep'
  -- A new block is live, as only old ones are released, and it belongs to no other file.
  have old : ∀ g W q, v.disk.file g = some W → q ∈ chain g → q < s.disk.blocks.next := by
    intro g W q at_g mem
    obtain ⟨_, -, fileRep₂⟩ := rep.live g W at_g
    obtain ⟨b, live⟩ := fileRep₂.live mem
    exact Store.lt_next live
  have cut_old : ∀ q ∈ cut, q ∈ chain f := by
    intro q mem
    have lengths := congrArg List.length split
    simp only [List.length_append] at lengths
    have none_made : created = [] := by
      have some_cut := List.length_pos_of_mem mem
      exact List.eq_nil_of_length_eq_zero (by omega)
    rw [none_made, List.append_nil] at split
    rw [split]
    exact List.mem_append_right kept mem
  have fresh : ∀ q, s.disk.blocks.next ≤ q → q < d.blocks.next → q ∈ kept := by
    intro q new made
    cases at_q : d.blocks.cell q with
    | none =>
      have gone := (d.blocks.released q).mpr ⟨made, at_q⟩
      rw [freed, List.mem_append, List.mem_reverse] at gone
      obtain now | before := gone
      · have older := old f V q stored (cut_old q now)
        omega
      · have older := ((s.disk.blocks.released q).mp before).1
        omega
    | some b =>
      obtain ⟨g, W, at_g, mem⟩ := rep'.covered q b at_q
      by_cases here : g = f
      · rwa [here, Function.update_self] at mem
      · rw [DiskView.setFile_file, if_neg here] at at_g
        rw [Function.update_of_ne here] at mem
        have older := old g W q at_g mem
        omega
  exact ⟨s', created, kept, cut, step, ⟨after, effect.inv abstracts.2⟩, split, nodup, cut_old, fresh, size, count,
    freed, elsewhere, rfl, file', live', fileRep'⟩

theorem FileRep.nameOf {d : Disk} {V : FileView} (rep : FileRep d file V l) (live : d.files.cell f = some file) :
    d.nameOf f = some V.name := by
  obtain ⟨n, name, at_n⟩ := rep.name
  rw [Disk.nameOf, live, Option.bind_some, name, Option.bind_some, at_n]

/-- No file changes its name. -/
theorem Recut.names {created kept cut : List Nat} {V V' : FileView} (recut : Recut s s' f l created kept cut V')
    (live : s.disk.files.cell f = some file) (rep : FileRep s.disk file V l) (name : V'.name = V.name) (g : Nat) :
    s'.disk.nameOf g = s.disk.nameOf g := by
  by_cases here : g = f
  · subst here
    obtain ⟨file', live', rep'⟩ := recut.file
    rw [rep.nameOf live, rep'.nameOf live', name]
  · rw [Disk.nameOf, Disk.nameOf, recut.elsewhere.2.2 g here, recut.elsewhere.1]

/-! ## Shrinking -/

/-- Packed blocks never store more than they have room for. -/
theorem stored_le {bs : List (List Byte)} (packed : Packed blockSize bs) :
    bs.flatten.length ≤ bs.length * blockSize := by
  have whole := packed.flatten_take blockSize_pos bs.length
  rw [List.take_length] at whole
  have length := congrArg List.length whole
  rw [List.length_take] at length
  omega

theorem blocksFor_le {n k : Nat} (fits : n ≤ k * blockSize) : blocksFor n ≤ k := by
  have pos := blockSize_pos
  rw [blocksFor, Nat.div_le_iff_le_mul_add_pred pos, Nat.mul_comm]
  omega

/-- A size inside the contents can always be reached. -/
theorem FileView.resize_inside {V : FileView} (packed : Packed blockSize V.blocks) {newSize : Nat}
    (some_left : 0 < newSize) (less : newSize < V.bytes.length) : ∃ V', V.resize newSize = some V' := by
  rw [resize, if_neg (fun both => absurd both.1 (Nat.ne_of_gt some_left))]
  cases resized : resizeBlocks blockSize V.blocks newSize with
  | some kept => exact ⟨_, rfl⟩
  | none =>
    have beyond := ((resizeBlocks_none_iff blockSize_pos packed).mp resized).2
    rw [bytes] at less
    omega

theorem FileView.resize_length {V V' : FileView} {newSize : Nat} (resized : V.resize newSize = some V') :
    V'.blocks.length = blocksFor newSize := by
  rw [resize] at resized
  split at resized
  · cases resized
  · obtain ⟨kept, reached, rfl⟩ := Option.map_eq_some_iff.mp resized
    exact resizeBlocks_length blockSize_pos reached

/-- Shrinking a file to a part of its contents, but not to nothing, returns; it truncates the
    contents, releases exactly the blocks behind them and changes nothing else. -/
theorem resize_truncates (reachable : Reachable (Step junk) State.init s) (opened : Opened s fd p r f file)
    (allowed : r.canWrite = true) {old : List Byte} (contents : s.disk.Contains f old)
    (path : Chain s.disk.nextBlock file.blockList l) {newSize : SizeT} (some_left : 0 < newSize.val)
    (less : newSize.val < old.length) :
    ∃ s' file', Step junk s (.ufsResize fd newSize, { ret := 0, bytes := [], errno := s.ufsErrorCode }) s' ∧
      s'.disk.Contains f (old.take newSize) ∧
      s'.disk.files.cell f = some file' ∧
      Chain s'.disk.nextBlock file'.blockList (l.take (blocksFor newSize)) ∧
      (l.take (blocksFor newSize)).length = blocksFor newSize ∧
      file'.lastBlock = (l.take (blocksFor newSize)).getLast? ∧
      file'.bytesLeft + newSize.val = maxFileSize ∧
      s'.disk.blocks.freed = (l.drop (blocksFor newSize)).reverse ++ s.disk.blocks.freed ∧
      (∀ g ≠ f, s'.disk.files.cell g = s.disk.files.cell g) ∧
      (∀ g ≠ f, ∀ bytes, s.disk.Contains g bytes → s'.disk.Contains g bytes) ∧
      s'.disk.fileList = s.disk.fileList ∧ (∀ g, s'.disk.nameOf g = s.disk.nameOf g) ∧ s'.table = s.table := by
  obtain ⟨v, abstracts⟩ := reachable_onView reachable
  obtain ⟨chain, V, rep, stored, fileRep, packed⟩ := abstracts.blocks opened.live
  have same : V.bytes = old := (abstracts.contains stored).unique contents
  have same_chain := fileRep.path.unique path
  subst same same_chain
  have quota := abstracts.2.disk.quota f V stored
  obtain ⟨V', resized⟩ := FileView.resize_inside packed some_left less
  obtain ⟨s', created, kept, cut, step, abstracts', recut⟩ :=
    resize_recuts junk abstracts opened allowed (by omega) stored resized path
  obtain ⟨file', live', fileRep'⟩ := recut.file
  obtain ⟨name, -, -, left, -⟩ := FileView.resize_fields resized
  have bytes := FileView.resize_bytes packed resized
  have size := recut.size.trans (FileView.resize_length resized)
  -- The old chain was long enough, so no block has been created.
  have enough : blocksFor newSize ≤ (chain f).length := by
    rw [fileRep.blocks.length_eq]
    have room := stored_le packed
    exact blocksFor_le (Nat.le_trans (Nat.le_of_lt less) room)
  have count := recut.count
  rw [← recut.size, size, Nat.sub_eq_zero_of_le enough] at count
  have split := recut.split
  rw [List.eq_nil_of_length_eq_zero count, List.append_nil] at split
  have front : (chain f).take (blocksFor newSize) = kept := by rw [split, ← size, List.take_left]
  have back : (chain f).drop (blocksFor newSize) = cut := by rw [split, ← size, List.drop_left]
  rw [front, back]
  refine ⟨s', file', step, ?_, live', fileRep'.path, size, fileRep'.last, ?_, recut.freed, recut.elsewhere.2.2,
    fun g other bytes => abstracts.kept abstracts' (if_neg other), recut.elsewhere.2.1,
    recut.names opened.live fileRep name, recut.table⟩
  · have there := abstracts'.contains (f := f) DiskView.setFile_stored
    rwa [bytes] at there
  · rw [fileRep'.bytesLeft, left, bytes, List.length_take]
    omega

-- A file with one block of three bytes, and the resizes to two bytes and to none.
theorem three_written : ∃ s p r file, Reachable (Step Junk.zero) State.init s ∧ Opened s 0 p r 0 file ∧
    r.canWrite = true ∧ file.blockList = some 0 ∧ Chain s.disk.nextBlock file.blockList [0] ∧
    s.disk.Contains 0 [1, 2, 3] ∧
    (∃ block d, (resizeLoop Junk.zero (some 0) (2 : SizeT) file.blockList).Returns s.disk block d) ∧
    (∃ block d, (resizeLoop Junk.zero (some 0) (0 : SizeT) file.blockList).Returns s.disk block d) ∧
    ((Call.ufsResize 0 0).run Junk.zero).run 9 s = .error .fault := by
  obtain ⟨_, s, run, ends⟩ := execute_ends Junk.zero 9 [.ufsOpen [97] 1, .ufsWrite 0 [1, 2, 3]] State.init
    (fun _ s => (s.descriptor 0).any fun (_, r, f, file) => r.canWrite && f == 0 && file.blockList == some 0 &&
      s.disk.nextBlock 0 == none && s.disk.bytesOf [0] == [1, 2, 3] &&
      (match (resizeLoop Junk.zero (some 0) (2 : SizeT) file.blockList).run 9 s.disk with
        | .ok _ => true
        | .error _ => false) &&
      (match (resizeLoop Junk.zero (some 0) (0 : SizeT) file.blockList).run 9 s.disk with
        | .ok _ => true
        | .error _ => false) &&
      (match ((Call.ufsResize 0 0).run Junk.zero).run 9 s with
        | .error .fault => true
        | _ => false)) (by decide +kernel)
  obtain ⟨⟨p, r, f, file⟩, follows, known⟩ := (Option.any_eq_true _ _).mp ends
  simp only [Bool.and_eq_true, beq_iff_eq] at known
  obtain ⟨⟨⟨⟨⟨⟨⟨allowed, target⟩, first⟩, last⟩, bytes⟩, two⟩, zero⟩, faults⟩ := known
  subst target
  have opened := State.descriptor_opened follows
  have path : Chain s.disk.nextBlock file.blockList [0] := by
    rw [first]
    exact ⟨rfl, last⟩
  refine ⟨s, p, r, file, ⟨_, run⟩, opened, allowed, first, path, ⟨file, [0], opened.live, path, bytes⟩, ?_, ?_, ?_⟩
  · split at two
    · next result returned => exact ⟨_, _, 9, returned⟩
    · cases two
  · split at zero
    · next result returned => exact ⟨_, _, 9, returned⟩
    · cases zero
  · split at faults
    · next faulted => exact faulted
    · cases faults

theorem resize_truncates_part : ∃ s p r f file l old, Reachable (Step Junk.zero) State.init s ∧
    Opened s 0 p r f file ∧ Chain s.disk.nextBlock file.blockList l ∧ s.disk.Contains f old ∧
    ∃ s' : State, s'.disk.Contains f (old.take 2) := by
  obtain ⟨s, p, r, file, reachable, opened, allowed, -, path, contents, -⟩ := three_written
  have less : (2 : SizeT).val < ([1, 2, 3] : List Byte).length := by decide
  obtain ⟨s', _, -, cut, -⟩ := resize_truncates reachable opened allowed contents path (by decide) less
  exact ⟨s, p, r, 0, file, [0], _, reachable, opened, path, contents, s', cut⟩

/-! ## What the following calls touch -/

/-- The loop of a resize that cannot be reached never faults: it runs forever. -/
theorem resizeFile_safe {d : Disk} {w : DiskView} {chain : Nat → List Nat} {V : FileView} {newSize : Nat}
    (rep : DiskRep d w chain) (stored : w.file f = some V) (packed : Packed blockSize V.blocks)
    (small : newSize ≤ maxFileSize) (unreached : resizeBlocks blockSize V.blocks newSize = none) :
    (resizeFile junk (some f) newSize).Safe d := by
  obtain ⟨file, live, fileRep⟩ := rep.live f V stored
  have start : Unreached f newSize (chain f).head? d := ⟨w, chain, V, [], chain f, [], V.blocks, rep, stored, rfl,
    rfl, rfl, rfl, lt_of_le_maxFileSize small, packed, unreached⟩
  unfold resizeFile
  refine Safe.after (Lens.ensures_load.mpr ⟨f, rfl, file, live, ?_⟩)
  rw [Chain.head_eq fileRep.path]
  apply Safe.bind
  · rw [resizeLoop_eq]
    refine Safe.loop (fun state d => Unreached f state.1 state.2 d) (fun state d unreached => ?_) start
    obtain ⟨some_left, iteration⟩ := resizeBlock_unreached junk unreached
    simp only [resizeIteration, some_left, if_true, ensures_bind, ensures_pure]
    exact iteration
  · intro block d' returned
    exact absurd returned (resizeLoop_noReturn junk start block d')

theorem ufsResize_safe (abstracts : Abstracts s v) (opened : Opened s fd p r f file) {newSize : Nat}
    (inner : newSize ≤ maxFileSize → (resizeFile junk (some f) newSize).Safe s.disk) :
    (ufsResize junk fd newSize).Safe s := by
  obtain ⟨nonneg, at_fd, live⟩ := Table.lookup_some opened.found
  have inv : TableInv s.table := by rw [abstracts.1.table]; exact abstracts.2.table
  have failing : ∀ code, (fail code).Safe s := fun code => by
    have fails : (fail code).Ensures s fun _ _ => True := by simp [fail]
    exact fails.safe
  unfold ufsResize
  apply Safe.after
  rw [ensures_zoom, tablePart_get, ensures_isValidFd inv, opened.found]
  simp only [Option.isSome_some, Bool.true_eq_false, if_false, tablePart_set]
  apply Safe.after
  rw [ensures_zoom, tablePart_get, ensures_slot inv nonneg at_fd]
  apply Safe.after
  simp only [ensures_zoom, tablePart_get, tablePart_set, Lens.ensures_load, filedescHeap_get, Option.some.injEq,
    exists_eq_left', live]
  split
  · exact failing .noPermission
  split
  · exact failing .noMem
  · next small =>
    rw [opened.target]
    refine Safe.bind (Safe.zoom (inner (Nat.le_of_not_lt small))) fun _ s' _ => ?_
    have returns : (pure 0 : Prog State Int).Ensures s' fun _ _ => True := ensures_pure.mpr trivial
    exact returns.safe

/-- Whatever the view has a step for returns on the heap. -/
theorem Abstracts.safe (abstracts : Abstracts s v) {call : Call} {result : Out × View}
    (stepped : v.step junk call = some result) : (call.run junk).Safe s := by
  obtain ⟨s', step, -⟩ := abstracts.answers stepped
  exact Ensures.safe (Returns.ensures (Q := fun _ _ => True) step trivial)

/-- A write through an open descriptor never faults, unless it has nothing to write and there is
    no block to stop at. -/
theorem write_safe (abstracts : Abstracts s v) (opened : Opened s fd p r f file)
    (path : Chain s.disk.nextBlock file.blockList l) {buf : List Byte} (some_block : buf ≠ [] ∨ l ≠ []) :
    ((Call.ufsWrite fd buf).run junk).Safe s := by
  obtain ⟨chain, V, rep, stored, fileRep, packed⟩ := abstracts.blocks opened.live
  obtain ⟨found, -⟩ := abstracts.opened opened
  have same := fileRep.path.unique path
  subst same
  cases allowed : r.canWrite with
  | false =>
    apply abstracts.safe
    rw [View.step, View.ufsWrite, View.access_eq found, allowed]
    rfl
  | true =>
    by_cases fits : buf.length ≤ V.bytesLeft
    · have written : ∃ V', V.write r.offset.toNat buf = some V' := by
        by_cases nonempty : buf = []
        · subst nonempty
          have sizes := fileRep.blocks.length_eq
          have blocks : V.blocks ≠ [] := by
            intro none
            rw [none] at sizes
            exact some_block.resolve_left (fun absurd => absurd rfl) (List.eq_nil_of_length_eq_zero sizes)
          rw [FileView.write, writeBlocks_nil, if_neg blocks]
          exact ⟨_, rfl⟩
        · exact write_total packed r.offset.toNat nonempty
      obtain ⟨V', written⟩ := written
      exact abstracts.safe (View.write_accepted junk found allowed opened.target stored fits written)
    · exact abstracts.safe (View.write_refused junk found allowed opened.target stored (Nat.lt_of_not_le fits))

theorem read_safe (abstracts : Abstracts s v) (opened : Opened s fd p r f file) (size : SizeT) :
    ((Call.ufsRead fd size).run junk).Safe s := by
  obtain ⟨found, -, V, stored, -⟩ := abstracts.opened opened
  cases allowed : r.canRead with
  | false =>
    apply abstracts.safe
    rw [View.step, View.ufsRead, View.access_eq found, allowed]
    rfl
  | true => exact abstracts.safe (View.read_answered junk found allowed opened.target stored size)

/-- A resize through an open descriptor never faults, unless it takes all blocks of the file. -/
theorem resize_safe (abstracts : Abstracts s v) (opened : Opened s fd p r f file)
    (path : Chain s.disk.nextBlock file.blockList l) {newSize : SizeT} (some_left : 0 < newSize.val ∨ l = []) :
    ((Call.ufsResize fd newSize).run junk).Safe s := by
  obtain ⟨chain, V, rep, stored, fileRep, packed⟩ := abstracts.blocks opened.live
  have same := fileRep.path.unique path
  subst same
  have inner : newSize.val ≤ maxFileSize → (resizeFile junk (some f) newSize).Safe s.disk := by
    intro small
    cases resized : V.resize newSize with
    | some V' => exact (resizeFile_cuts junk rep stored packed small resized).safe
    | none =>
      rw [FileView.resize] at resized
      split at resized
      · next zero =>
        have sizes := fileRep.blocks.length_eq
        obtain more | none := some_left
        · omega
        · rw [none] at sizes
          exact absurd (List.eq_nil_of_length_eq_zero sizes.symm) zero.2
      · exact resizeFile_safe rep stored packed small (Option.map_eq_none_iff.mp resized)
  refine Safe.bind (ufsResize_safe abstracts opened inner) fun ret s' _ => ?_
  have returns : (do
      let errno ← ufsErrno
      return { ret, bytes := [], errno } : Prog State Out).Ensures s' fun _ _ => True := by simp [ufsErrno]
  exact returns.safe

/-! ## Dangling blocks -/

/-- The resize returns, and no block it has released is reachable from the file: what follows
    finds live blocks only, and none at all when the file has been emptied. -/
structure CutsCleanly (junk : Junk) (s : State) (fd : Int) (f : Nat) (l : List Nat) (newSize : SizeT)
    (s' : State) (file' : File) (kept gone : List Nat) : Prop where
  step : Step junk s (.ufsResize fd newSize, { ret := 0, bytes := [], errno := s.ufsErrorCode }) s'
  live : s'.disk.files.cell f = some file'
  path : Chain s'.disk.nextBlock file'.blockList kept
  released : s'.disk.blocks.freed = gone ++ s.disk.blocks.freed
  unreachable : ∀ q, q ∈ gone ↔ q ∈ l ∧ q ∉ kept
  created : ∀ q, s.disk.blocks.next ≤ q → q < s'.disk.blocks.next → q ∈ kept
  blocks : ∀ q ∈ kept, ∃ b, s'.disk.blocks.cell q = some b
  last : file'.lastBlock = kept.getLast?
  following : ∀ fd' p r, Opened s' fd' p r f file' →
    (∀ size, ((Call.ufsRead fd' size).run junk).Safe s') ∧
    (∀ buf, buf ≠ [] ∨ kept ≠ [] → ((Call.ufsWrite fd' buf).run junk).Safe s') ∧
    ∀ newSize : SizeT, 0 < newSize.val ∨ kept = [] → ((Call.ufsResize fd' newSize).run junk).Safe s'
  emptied : newSize.val = 0 → file'.blockList = none ∧ file'.lastBlock = none ∧ file'.bytesLeft = maxFileSize

/-- A resize that leaves its first loop leaves no released block behind, unless it takes all
    blocks of a file: then they stay in `block_list`, and the call itself visits them again. -/
theorem resize_cuts_cleanly (reachable : Reachable (Step junk) State.init s) (opened : Opened s fd p r f file)
    (allowed : r.canWrite = true) (path : Chain s.disk.nextBlock file.blockList l) {newSize : SizeT}
    (small : newSize.val ≤ maxFileSize)
    (left : ∃ block d, (resizeLoop junk (some f) newSize file.blockList).Returns s.disk block d) :
    (∃ s' file' kept gone, CutsCleanly junk s fd f l newSize s' file' kept gone) ↔
      ¬ (newSize.val = 0 ∧ file.blockList ≠ none) := by
  obtain ⟨v, abstracts⟩ := reachable_onView reachable
  obtain ⟨chain, V, rep, stored, fileRep, packed⟩ := abstracts.blocks opened.live
  have same := fileRep.path.unique path
  subst same
  constructor
  · rintro ⟨s', file', kept, gone, clean⟩ ⟨zero, some_block⟩
    obtain ⟨-, d, returned, -⟩ := (resize_step abstracts opened allowed small).mp clean.step
    obtain ⟨q, first⟩ := Option.ne_none_iff_exists'.mp some_block
    rw [zero] at returned
    exact resizeFile_zero junk opened.live first () d returned
  · intro some_left
    have sizes := fileRep.blocks.length_eq
    have start := Chain.head_eq fileRep.path
    cases resized : V.resize newSize with
    | none =>
      rw [FileView.resize] at resized
      split at resized
      · next zero =>
        refine absurd ⟨zero.1, fun empty => zero.2 ?_⟩ some_left
        rw [start, List.head?_eq_none_iff] at empty
        rw [empty] at sizes
        exact List.eq_nil_of_length_eq_zero sizes.symm
      · obtain ⟨block, d, returned⟩ := left
        rw [start] at returned
        exact absurd returned (resizeLoop_noReturn junk ⟨v.disk, chain, V, [], chain f, [], V.blocks, rep, stored, rfl,
          rfl, rfl, rfl, lt_of_le_maxFileSize small, packed, Option.map_eq_none_iff.mp resized⟩ block d)
    | some V' =>
      obtain ⟨s', created, kept, cut, step, abstracts', recut⟩ :=
        resize_recuts junk abstracts opened allowed small stored resized path
      obtain ⟨file', live', fileRep'⟩ := recut.file
      obtain ⟨-, -, -, room, -⟩ := FileView.resize_fields resized
      have nodup := recut.nodup
      rw [recut.split] at nodup
      refine ⟨s', file', kept, cut.reverse, step, live', fileRep'.path, recut.freed, fun q => ?_, recut.fresh,
        fun q mem => fileRep'.live mem, fileRep'.last, fun fd' p r opened' => ⟨?_, ?_, ?_⟩, fun zero => ?_⟩
      · rw [List.mem_reverse]
        constructor
        · intro mem
          exact ⟨recut.old q mem, fun again => (List.nodup_append.mp nodup).2.2 q again q mem rfl⟩
        · rintro ⟨mem, off⟩
          have either : q ∈ kept ++ cut := by
            rw [← recut.split]
            exact List.mem_append_left created mem
          exact (List.mem_append.mp either).resolve_left off
      · exact fun size => read_safe abstracts' opened' size
      · exact fun buf some_block => write_safe abstracts' opened' fileRep'.path some_block
      · exact fun newSize some_left => resize_safe abstracts' opened' fileRep'.path some_left
      · have length := FileView.resize_length resized
        have none_needed : blocksFor 0 = 0 := Nat.div_eq_of_lt (by have := blockSize_pos; omega)
        rw [zero, none_needed] at length
        have none_kept : kept = [] := List.eq_nil_of_length_eq_zero (recut.size.trans length)
        have path' := fileRep'.path
        have last' := fileRep'.last
        rw [none_kept] at path' last'
        refine ⟨path', last', ?_⟩
        rw [fileRep'.bytesLeft, room, FileView.bytes, List.eq_nil_of_length_eq_zero length]
        simp

/-- A file of two blocks. -/
theorem two_blocks_written : ∃ s p r file, Reachable (Step Junk.zero) State.init s ∧ Opened s 0 p r 0 file ∧
    r.canWrite = true ∧ Chain s.disk.nextBlock file.blockList [0, 1] ∧
    ∃ block d, (resizeLoop Junk.zero (some 0) (2 : SizeT) file.blockList).Returns s.disk block d := by
  obtain ⟨_, s, run, ends⟩ := execute_ends Junk.zero 9 [.ufsOpen [97] 1, .ufsWrite 0 (List.replicate 600 7)] State.init
    (fun _ s => (s.descriptor 0).any fun (_, r, f, file) => r.canWrite && f == 0 && file.blockList == some 0 &&
      s.disk.nextBlock 0 == some 1 && s.disk.nextBlock 1 == none &&
      (match (resizeLoop Junk.zero (some 0) (2 : SizeT) file.blockList).run 9 s.disk with
        | .ok _ => true
        | .error _ => false)) (by decide +kernel)
  obtain ⟨⟨p, r, f, file⟩, follows, known⟩ := (Option.any_eq_true _ _).mp ends
  simp only [Bool.and_eq_true, beq_iff_eq] at known
  obtain ⟨⟨⟨⟨⟨allowed, target⟩, first⟩, second⟩, last⟩, returns⟩ := known
  subst target
  refine ⟨s, p, r, file, ⟨_, run⟩, State.descriptor_opened follows, allowed, ?_, ?_⟩
  · rw [first]
    exact ⟨rfl, second, last⟩
  · split at returns
    · next result returned => exact ⟨_, _, 9, returned⟩
    · cases returns

-- Two bytes are left in the first block; the second one is released.
theorem resize_cuts_cleanly_part : ∃ s, Reachable (Step Junk.zero) State.init s ∧
    ∃ s' file' kept gone, CutsCleanly Junk.zero s 0 0 [0, 1] 2 s' file' kept gone := by
  obtain ⟨s, p, r, file, reachable, opened, allowed, path, returns⟩ := two_blocks_written
  have small : (2 : SizeT).val ≤ maxFileSize := by
    rw [maxFileSize_eq]
    decide
  exact ⟨s, reachable, (resize_cuts_cleanly reachable opened allowed path small returns).mpr fun empty =>
    absurd empty.1 (by decide)⟩

theorem resize_zero_dangles : ∃ (s : State) (file : File), Reachable (Step Junk.zero) State.init s ∧
    (∃ block d, (resizeLoop Junk.zero (some 0) (0 : SizeT) file.blockList).Returns s.disk block d) ∧
    ((Call.ufsResize 0 0).run Junk.zero).run 9 s = .error .fault ∧
    ¬ ∃ s' file' kept gone, CutsCleanly Junk.zero s 0 0 [0] 0 s' file' kept gone := by
  obtain ⟨s, p, r, file, reachable, opened, allowed, -, path, -, -, returns, faults⟩ := three_written
  refine ⟨s, file, reachable, returns, faults, fun ⟨s', file', kept, gone, clean⟩ => ?_⟩
  exact not_returns_of_fault faults clean.step

/-! ## Growing -/

/-- Reading a descriptor on the file from position 0 until `ufs_read` returns 0 gives `n` bytes. -/
def ReadsInTotal (junk : Junk) (s : State) (f n : Nat) : Prop :=
  ∀ fd p r file events s', Opened s fd p r f file → r.canRead = true → r.offset = 0 →
    Run (Step junk) s events s' →
    (∀ event ∈ events, ∃ size : SizeT, 0 < size.val ∧ size.val < 9223372036854775808 ∧
      event.1 = .ufsRead fd size) →
    events.getLast?.map (fun event => event.2.ret) = some 0 →
    (events.map fun event => event.2.ret).sum = n

theorem Opened.moved {r' : Filedesc} (opened : Opened s fd p r f file) (target : r'.file = r.file) :
    Opened { s with table := { s.table with filedescs := s.table.filedescs.put p r' } } fd p r' f file := by
  obtain ⟨nonneg, at_fd, live⟩ := Table.lookup_some opened.found
  refine ⟨?_, target.trans opened.target, opened.live⟩
  have slots : ({ s.table with filedescs := s.table.filedescs.put p r' } : Table).slots = s.table.slots := rfl
  rw [Table.lookup, if_neg (by omega), slots, at_fd]
  simp [live]

/-- The reads of a run move the position to the end of the file, if the last one finds nothing. -/
theorem reads_total {events : List (Call × Out)} {bytes : List Byte} (run : Run (Step junk) s events s')
    (abstracts : ∃ v, Abstracts s v) (opened : Opened s fd p r f file) (allowed : r.canRead = true)
    (contents : s.disk.Contains f bytes) (inside : r.offset ≤ bytes.length)
    (reads : ∀ event ∈ events, ∃ size : SizeT, 0 < size.val ∧ size.val < 9223372036854775808 ∧
      event.1 = .ufsRead fd size)
    (eof : events.getLast?.map (fun event => event.2.ret) = some 0) :
    r.offset + (events.map fun event => event.2.ret).sum = bytes.length := by
  induction run generalizing r with
  | nil => cases eof
  | @cons s s₁ s₂ event events one rest ih =>
    obtain ⟨v, abstracts⟩ := abstracts
    obtain ⟨-, nonneg, -⟩ := abstracts.opened opened
    obtain ⟨call, out⟩ := event
    obtain ⟨size, some_size, small, read⟩ := reads (call, out) List.mem_cons_self
    have read : call = .ufsRead fd size := read
    subst read
    obtain ⟨n, amount⟩ : ∃ n, n = min size.val (bytes.length - r.offset.toNat) := ⟨_, rfl⟩
    obtain ⟨same, moved⟩ := Returns.unique one (abstracts.reads junk opened allowed contents small amount)
    subst same moved
    cases events with
    | nil =>
      have nothing : (n : Int) = 0 := by simpa using eof
      simp only [List.map_cons, List.map_nil, List.sum_cons, List.sum_nil]
      omega
    | cons next events =>
      obtain ⟨v', -, abstracts'⟩ := Step.onView abstracts one
      have later := ih ⟨v', abstracts'⟩ (opened.moved rfl) allowed contents
        (show r.offset + (n : Int) ≤ bytes.length by omega)
        (fun event mem => reads event (List.mem_cons_of_mem _ mem)) (by simpa using eof)
      rw [List.map_cons, List.sum_cons, ← Int.add_assoc]
      exact later

/-- What growing a file to `newSize` bytes should do. -/
structure Grown (junk : Junk) (s s' : State) (f : Nat) (bytes : List Byte) (newSize : Nat) : Prop where
  table : s'.table = s.table
  contents : ∃ bytes', s'.disk.Contains f bytes' ∧ bytes'.take bytes.length = bytes ∧ bytes'.length = newSize
  reads : ReadsInTotal junk s' f newSize

/-- A resize to at least the size of the file keeps positions and contents, but the file gets
    the new size only if it has it already. -/
theorem resize_grows (reachable : Reachable (Step junk) State.init s) (opened : Opened s fd p r f file)
    (allowed : r.canWrite = true) {bytes : List Byte} (contents : s.disk.Contains f bytes) {newSize : SizeT}
    (atLeast : bytes.length ≤ newSize.val) (small : newSize.val ≤ maxFileSize) {out : Out}
    (step : Step junk s (.ufsResize fd newSize, out) s') :
    Grown junk s s' f bytes newSize ↔ newSize.val = bytes.length := by
  obtain ⟨v, abstracts⟩ := reachable_onView reachable
  obtain ⟨chain, V, rep, stored, fileRep, packed⟩ := abstracts.blocks opened.live
  have same : V.bytes = bytes := (abstracts.contains stored).unique contents
  subst same
  obtain ⟨-, d, returned, after⟩ := (resize_step abstracts opened allowed small).mp step
  have realized := resizeFile_spec junk rep stored packed small
  obtain ⟨V', resized, chain', rep'⟩ := realized.of_returns returned
  obtain ⟨v', -, abstracts'⟩ := step.onView abstracts
  have bytes : V'.bytes = V.bytes := by
    rw [FileView.resize_bytes packed resized, List.take_of_length_le atLeast]
  obtain ⟨file', live', fileRep'⟩ := rep'.live f V' DiskView.setFile_stored
  have kept : s'.disk.Contains f V.bytes := by
    rw [after, ← bytes]
    exact ⟨file', chain' f, live', fileRep'.path, fileRep'.bytes⟩
  constructor
  · intro grown
    obtain ⟨bytes', contents', -, size⟩ := grown.contents
    rw [← size, contents'.unique kept]
  · intro size
    refine ⟨by rw [after], ⟨V.bytes, kept, List.take_length, size.symm⟩, ?_⟩
    intro fd' p' r' file'' events s'' opened' readable start run reads eof
    have total := reads_total run ⟨v', abstracts'⟩ opened' readable kept (by omega) reads eof
    omega

-- A new file gets a block, but it stores nothing.
theorem resize_grows_nothing : ∃ s s' out, Reachable (Step Junk.zero) State.init s ∧
    Step Junk.zero s (.ufsResize 0 512, out) s' ∧ out.ret = 0 ∧ s.disk.Contains 0 [] ∧
    ¬ Grown Junk.zero s s' 0 [] 512 := by
  obtain ⟨_, s, run, ends⟩ := execute_ends Junk.zero 9 [.ufsOpen [97] 1] State.init
    (fun _ s => (s.disk.files.cell 0).any (fun file => file.blockList == none) &&
      (execute Junk.zero 9 [.ufsResize 0 512] s).any fun result => result.1 == [⟨0, [], .noErr⟩] &&
        (result.2.disk.files.cell 0).any (fun file => file.blockList == some 0) &&
        result.2.disk.nextBlock 0 == none && result.2.disk.bytesOf [0] == []) (by decide +kernel)
  rw [Bool.and_eq_true] at ends
  obtain ⟨before, resized⟩ := ends
  obtain ⟨_, s', answers, ends⟩ := execute_ends Junk.zero 9 [.ufsResize 0 512] s (fun outs s' => outs == [⟨0, [], .noErr⟩] &&
    (s'.disk.files.cell 0).any (fun file => file.blockList == some 0) && s'.disk.nextBlock 0 == none &&
    s'.disk.bytesOf [0] == []) resized
  simp only [Bool.and_eq_true, beq_iff_eq] at ends
  obtain ⟨⟨⟨rfl, after⟩, last⟩, bytes⟩ := ends
  cases answers with
  | cons resize nil =>
    cases nil
    obtain ⟨file, live, empty⟩ := (Option.any_eq_true _ _).mp before
    obtain ⟨file', live', first⟩ := (Option.any_eq_true _ _).mp after
    rw [beq_iff_eq] at empty first
    refine ⟨s, s', _, ⟨_, run⟩, resize, rfl, ⟨file, [], live, empty, rfl⟩, fun grown => ?_⟩
    have still : s'.disk.Contains 0 [] := ⟨file', [0], live', by rw [first]; exact ⟨rfl, last⟩, bytes⟩
    obtain ⟨bytes', contents', -, size⟩ := grown.contents
    rw [contents'.unique still] at size
    cases size

-- A full block.
theorem resize_grows_same : ∃ s s' out, Reachable (Step Junk.zero) State.init s ∧
    s.disk.Contains 0 (List.replicate 512 7) ∧ Step Junk.zero s (.ufsResize 0 512, out) s' ∧
    Grown Junk.zero s s' 0 (List.replicate 512 7) 512 := by
  obtain ⟨_, s, run, ends⟩ := execute_ends Junk.zero 9 [.ufsOpen [97] 1, .ufsWrite 0 (List.replicate 512 7)] State.init
    (fun _ s => ((s.descriptor 0).any fun (_, r, f, file) => r.canWrite && f == 0 && file.blockList == some 0 &&
        s.disk.nextBlock 0 == none && s.disk.bytesOf [0] == List.replicate 512 7) &&
      match ((Call.ufsResize 0 512).run Junk.zero).run 9 s with
      | .ok _ => true
      | .error _ => false) (by decide +kernel)
  simp only [Bool.and_eq_true] at ends
  obtain ⟨before, ends⟩ := ends
  split at ends
  · next result returned =>
    obtain ⟨⟨p, r, f, file⟩, follows, known⟩ := (Option.any_eq_true _ _).mp before
    simp only [Bool.and_eq_true, beq_iff_eq] at known
    obtain ⟨⟨⟨⟨allowed, target⟩, first⟩, last⟩, bytes⟩ := known
    subst target
    have opened := State.descriptor_opened follows
    have path : Chain s.disk.nextBlock file.blockList [0] := by
      rw [first]
      exact ⟨rfl, last⟩
    have contents : s.disk.Contains 0 (List.replicate 512 7) := ⟨file, [0], opened.live, path, bytes⟩
    have size : (List.replicate 512 (7 : Byte)).length = (512 : SizeT).val := List.length_replicate
    have small : (512 : SizeT).val ≤ maxFileSize := by
      rw [maxFileSize_eq]
      decide
    obtain ⟨out, s'⟩ := result
    have step : Step Junk.zero s (.ufsResize 0 512, out) s' := ⟨9, returned⟩
    exact ⟨s, s', out, ⟨_, run⟩, contents, step,
      (resize_grows ⟨_, run⟩ opened allowed contents size.le small step).mpr size.symm⟩
  · cases ends

end SysprogLabs.Userfs
