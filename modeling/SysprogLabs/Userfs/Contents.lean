import SysprogLabs.Userfs.Files

/-! # Writing, reading and resizing the contents of a file

The loops of `ufs_write`, `ufs_read` and `ufs_resize` over the blocks of one file
compute `writeBlocks`, `readBlocks` and `resizeBlocks` on what the blocks store.
-/

namespace SysprogLabs.Userfs

open Prog

variable (junk : Junk) {d : Disk} {v : DiskView} {chain : Nat → List Nat} {f : Nat} {V : FileView}

/-! ## Numbers and buffers -/

theorem blockSize_pos : 0 < blockSize := by
  rw [blockSize_eq]
  decide

theorem lt_of_le_maxFileSize {n : Nat} (small : n ≤ maxFileSize) : n < 18446744073709551616 := by
  rw [maxFileSize_eq] at small
  omega

theorem toLongLong_eq {n : Nat} (small : n < 9223372036854775808) : toLongLong n = n := by
  unfold toLongLong
  rw [Int.bmod_def]
  split <;> omega

theorem toLongLong_neg {n : Nat} (big : 9223372036854775808 ≤ n) (bound : n < 18446744073709551616) :
    toLongLong n < 0 := by
  unfold toLongLong
  rw [Int.bmod_def]
  split <;> omega

theorem toSizeT_sub {n k : Nat} (small : n < 18446744073709551616) (le : k ≤ n) : toSizeT (n - k) = n - k := by
  unfold toSizeT
  omega

theorem slice_eq {buf : List Byte} {start n : Nat} (inside : start + n ≤ buf.length) :
    slice buf start n = some ((buf.drop start).take n) := by
  rw [slice, if_pos (by omega)]
  rfl

theorem Memory.write_eq (m : Memory) {start : Nat} {src : List Byte}
    (fits : start + src.length ≤ blockSize) :
    ∃ m', m.write start src = some m' ∧ m'.bytes = overwrite m.bytes start src := by
  have inside : 0 ≤ (start : Int) ∧ (start : Int) + src.length ≤ blockSize := by omega
  exact ⟨_, dif_pos inside, rfl⟩

theorem Memory.read_eq (m : Memory) {start n : Nat} {data : List Byte} (inside : start + n ≤ data.length)
    (le : data.length ≤ blockSize) (contents : m.bytes.take data.length = data) :
    m.read start n = some ((data.drop start).take n) := by
  rw [Memory.read, if_pos (by omega), ← contents, List.drop_take, List.take_take, Nat.min_eq_left (by omega)]
  rfl

/-! ## `create_block` and the copy loop of `ufs_write` -/

theorem createBlock_spec (rep : DiskRep d v chain) (stored : v.file f = some V) :
    (createBlock junk (some f)).Ensures d fun r d' => r = some d.blocks.next ∧
      DiskRep d' (v.setFile f { V with blocks := V.blocks ++ [[]] })
        (Function.update chain f (chain f ++ [d.blocks.next])) := by
  obtain ⟨file, live, fileRep⟩ := rep.live f V stored
  simp only [createBlock, ensures_bind, Lens.ensures_malloc, Lens.ensures_modify, Lens.ensures_load,
    ensures_ite, ensures_pure]
  cases List.eq_nil_or_concat' (chain f) with
  | inl empty =>
    have no_last : file.lastBlock = none := by rw [fileRep.last, empty]; rfl
    let new : Block := { memory := some d.memories.next, occupied := 0, next := none,
                         prev := (junk.block d.blocks.next).prev }
    have appended := rep.appendBlock stored live (d.blocks.alloc new) (junk.memory d.memories.next) new
      (fun q => by simp [empty]) rfl rfl rfl fun ne => absurd empty ne
    simpa [live, no_last, empty] using appended
  | inr split =>
    obtain ⟨l, last, at_last⟩ := split
    have has_last : file.lastBlock = some last := by rw [fileRep.last, at_last, List.getLast?_concat]
    obtain ⟨b, live_last⟩ := fileRep.live (show last ∈ chain f by simp [at_last])
    have old : last ≠ d.blocks.next := Nat.ne_of_lt (Store.lt_next live_last)
    let new : Block := { memory := some d.memories.next, occupied := 0, next := none, prev := some last }
    have appended := rep.appendBlock stored live
      (((d.blocks.alloc { new with prev := (junk.block d.blocks.next).prev }).put last
        { b with next := some d.blocks.next }).put d.blocks.next new)
      (junk.memory d.memories.next) new ?cell rfl rfl rfl fun _ => by simp [new, at_last]
    case cell =>
      intro q
      by_cases fresh : q = d.blocks.next
      · simp [fresh, old.symm]
      · by_cases at_q : q = last
        · subst at_q
          simp [fresh, live_last, at_last]
        · simp [fresh, at_q, at_last, Ne.symm at_q]
    simpa [live, has_last, live_last, old, old.symm, at_last] using appended

/-- One iteration at the block `p`: it is skipped, or as much of the rest of the buffer is
    copied as fits. -/
theorem writeToBlock_spec {buf : List Byte} {start offset : Nat} {l₁ l₂ : List Nat} {p : Nat}
    {front rest : List (List Byte)} {old : List Byte} (rep : DiskRep d v chain)
    (stored : v.file f = some V) (at_p : chain f = l₁ ++ p :: l₂)
    (blocks : V.blocks = front ++ old :: rest) (len : front.length = l₁.length)
    (inside : start < buf.length) (small : buf.length ≤ maxFileSize) :
    (writeToBlock buf { bufOffset := start, offset := offset, size := buf.length - start,
                        block := some p }).Ensures d fun w d' =>
      (min offset old.length = blockSize ∧ d' = d ∧
        w = { bufOffset := start, offset := (offset - blockSize : Nat), size := buf.length - start,
              block := l₂.head? }) ∨
      (min offset old.length ≠ blockSize ∧
        ∃ part, part = (buf.drop start).take (blockSize - min offset old.length) ∧
        DiskRep d' (v.setFile f { V with
          blocks := front ++ overwrite old (min offset old.length) part :: rest }) chain ∧
        w = { bufOffset := (start + part.length : Nat), offset := (0 : Nat),
              size := buf.length - (start + part.length), block := l₂.head? }) := by
  rw [maxFileSize_eq] at small
  obtain ⟨file, -, fileRep⟩ := rep.live f V stored
  have stores := rep.stores stored at_p blocks len
  have old_le := stores.length_le
  obtain ⟨b, m, mem, live, field, at_m, occupied, contents⟩ := stores
  have next : b.next = l₂.head? := by
    have path := fileRep.path
    rw [at_p] at path
    simpa [Disk.nextBlock, live] using path.next_eq
  have block_offset : min (offset : Int) b.occupied = (min offset old.length : Nat) := by
    rw [occupied]
    omega
  have at_le : min offset old.length ≤ old.length := Nat.min_le_right _ _
  generalize min offset old.length = at' at *
  simp only [writeToBlock, ensures_bind, Lens.ensures_load, Lens.ensures_modify, ensures_ite,
    ensures_require, ensures_pure, blockHeap_get, blockHeap_set, memoryHeap_get, memoryHeap_set,
    Option.some.injEq, exists_eq_left', live, field, at_m, block_offset]
  rw [next]
  by_cases full : at' = blockSize
  · rw [if_pos (by omega)]
    refine .inl ⟨full, trivial, ?_⟩
    simp only [WriteVars.mk.injEq, true_and, and_true]
    omega
  rw [if_neg (by omega)]
  have part_len : ((buf.drop start).take (blockSize - at')).length =
      min (buf.length - start) (blockSize - at') := by
    rw [List.length_take, List.length_drop]
    omega
  have source : slice buf start ((buf.drop start).take (blockSize - at')).length =
      some ((buf.drop start).take (blockSize - at')) := by
    rw [slice_eq (by omega)]
    congr 1
    rw [part_len, List.take_eq_take_iff, List.length_drop]
    omega
  have write_bytes : min (toLongLong (buf.length - start)) (blockSize - at' : Int) =
      ((buf.drop start).take (blockSize - at')).length := by
    rw [toLongLong_eq (by omega), part_len]
    omega
  rw [write_bytes]
  clear write_bytes
  generalize part_def : (buf.drop start).take (blockSize - at') = part at *
  obtain ⟨mem', wrote, bytes⟩ := mem.write_eq (show at' + part.length ≤ blockSize by omega)
  refine ⟨part, source, mem', wrote, .inr ⟨full, part, rfl, ?_, ?_⟩⟩
  · refine rep.setBlock stored at_p blocks len live ?next ?prev ?owns ?others m mem' rfl ?at_m
      ?occupied ?contents
    case next => exact next.symm
    case prev => rfl
    case owns => exact (rep.memories.put_owner live field.symm).put_owned m mem'
    case others =>
      intro q c k other at_q field'
      have apart : k ≠ m := by
        intro same
        subst same
        exact other (rep.memories.unique q p c b at_q live (field'.trans field.symm))
      simp [apart]
    case at_m => simp [at_m]
    case occupied =>
      rw [length_overwrite at_le, occupied]
      show max _ _ = _
      omega
    case contents =>
      rw [length_overwrite at_le, bytes, Nat.max_comm, take_overwrite at_le (by rw [mem.size]; omega),
        contents]
  · rw [toSizeT_sub (by omega) (by omega)]
    simp only [WriteVars.mk.injEq, and_true]
    omega

/-- From the block behind the first `front.length` ones on, the loop writes the rest of the
    buffer the way `writeBlocks` does. -/
theorem writeLoop_spec {buf : List Byte} (start offset : Nat) {l₁ l₂ : List Nat}
    (front : List (List Byte)) {rest : List (List Byte)} (rep : DiskRep d v chain) (stored : v.file f = some V)
    (at_rest : chain f = l₁ ++ l₂) (blocks : V.blocks = front ++ rest)
    (len : front.length = l₁.length) (inside : start ≤ buf.length)
    (small : buf.length ≤ maxFileSize) :
    (writeLoop junk (some f) buf { bufOffset := start, offset := offset, size := buf.length - start,
                                   block := l₂.head? }).Ensures d fun w d' =>
      w.bufOffset = buf.length ∧ ∃ chain', DiskRep d' (v.setFile f { V with
        blocks := front ++ writeBlocks blockSize rest offset (buf.drop start) }) chain' := by
  induction measure : (buf.length - start) + rest.length using Nat.strongRecOn
    generalizing d v chain V l₁ l₂ front rest start offset with
  | ind n ih =>
  by_cases finished : start = buf.length
  · rw [finished, List.drop_length, writeBlocks_nil, ← blocks, DiskView.setFile_self stored]
    refine ensures_loop.mpr ?_
    simpa using ⟨chain, rep⟩
  have more : buf.length - start > 0 := by omega
  have nonempty : buf.drop start ≠ [] := by
    rw [Ne, List.drop_eq_nil_iff]
    omega
  -- One iteration at a block, and the iterations behind it.
  have onBlock : ∀ {d v chain V p l₂} (offset : Nat) old rest, DiskRep d v chain →
      v.file f = some V → chain f = l₁ ++ p :: l₂ → V.blocks = front ++ old :: rest →
      (min offset old.length = blockSize → (buf.length - start) + rest.length < n) →
      rest.length ≤ n - (buf.length - start) →
      (writeToBlock buf { bufOffset := start, offset := offset, size := buf.length - start,
                          block := some p }).Ensures d fun w d' =>
        (writeLoop junk (some f) buf w).Ensures d' fun w d' =>
          w.bufOffset = buf.length ∧ ∃ chain', DiskRep d' (v.setFile f { V with
            blocks := front ++ writeBlocks blockSize (old :: rest) offset (buf.drop start) }) chain' := by
    intro d v chain V p l₂ offset old rest rep stored at_p blocks smaller le
    have at_rest : chain f = (l₁ ++ [p]) ++ l₂ := by rw [at_p]; simp
    refine (writeToBlock_spec rep stored at_p blocks len (by omega) small).mono fun w d' iteration => ?_
    obtain ⟨full, same, rfl⟩ | ⟨partly, part, part_def, rep', rfl⟩ := iteration
    · rw [same, writeBlocks_skip nonempty full]
      have later := ih _ (smaller full) start (offset - blockSize) (front ++ [old]) rep stored at_rest
        (by simp [blocks]) (by simp [len]) inside rfl
      simpa using later
    · have part_len : part.length = min (blockSize - min offset old.length) (buf.length - start) := by
        rw [part_def, List.length_take, List.length_drop]
      have room : min offset old.length < blockSize := by
        have := (rep.stores stored at_p blocks len).length_le
        omega
      rw [writeBlocks_here nonempty partly, ← part_def]
      have later := ih ((buf.length - (start + part.length)) + rest.length) (by omega)
        (start + part.length) 0 (front ++ [overwrite old (min offset old.length) part]) rep'
        DiskView.setFile_stored at_rest (by simp) (by simp [len]) (by omega) rfl
      have remaining : (buf.drop start).drop (blockSize - min offset old.length) =
          buf.drop (start + part.length) := by
        rw [List.drop_drop, part_len]
        by_cases fits : buf.length - start ≤ blockSize - min offset old.length
        · rw [List.drop_eq_nil_of_le (by omega), List.drop_eq_nil_of_le (by omega)]
        · congr 1
          omega
      rw [remaining]
      simpa using later
  obtain ⟨file, -, fileRep⟩ := rep.live f V stored
  have sizes := fileRep.blocks.length_eq
  rw [at_rest, blocks, List.length_append, List.length_append, len] at sizes
  refine ensures_loop.mpr ?_
  simp only [ensures_ite, ensures_bind, ensures_pure]
  rw [if_pos more]
  cases l₂ with
  | nil =>
    rw [if_pos List.head?_nil]
    obtain rfl : rest = [] := List.eq_nil_of_length_eq_zero (by simpa using sizes.symm)
    rw [writeBlocks_fresh blockSize_pos nonempty]
    rw [List.append_nil] at at_rest
    refine (createBlock_spec junk rep stored).mono fun block d' created => ?_
    obtain ⟨rfl, rep'⟩ := created
    have fresh := onBlock 0 [] [] rep' DiskView.setFile_stored
      (by rw [Function.update_self, at_rest]) (by simp [blocks])
      (fun full => by simp [blockSize_eq] at full) (by simp)
    simp only [DiskView.setFile_setFile] at fresh
    exact fresh
  | cons p l₂ =>
    cases rest with
    | nil => simp at sizes
    | cons old rest =>
      rw [List.length_cons] at measure
      rw [if_neg (by simp)]
      exact onBlock offset old rest rep stored at_rest blocks (fun _ => by omega) (by omega)

theorem walkToLast_spec {start : Ptr} {l : List Nat} {last : Nat}
    (path : Chain d.nextBlock start (l ++ [last]))
    (live : ∀ p ∈ l ++ [last], ∃ b, d.blocks.cell p = some b) :
    (walkToLast start).Ensures d fun r d' => r = some last ∧ d' = d := by
  induction l generalizing start with
  | nil =>
    obtain ⟨rfl, stop⟩ := path
    obtain ⟨b, at_last⟩ := live last (by simp)
    have next : b.next = none := by simpa [Disk.nextBlock, at_last] using stop
    refine ensures_loop.mpr ?_
    simp [at_last, next]
  | cons p l ih =>
    obtain ⟨rfl, rest⟩ := path
    obtain ⟨b, at_p⟩ := live p (by simp)
    have next : d.nextBlock p = b.next := by simp [Disk.nextBlock, at_p]
    have more : b.next ≠ none := by
      rw [← next, rest.head_eq (by simp)]
      simp
    rw [next] at rest
    refine ensures_loop.mpr ?_
    simp only [ensures_bind, Lens.ensures_load, blockHeap_get, Option.some.injEq, exists_eq_left', at_p,
      ensures_ite, ensures_pure]
    rw [if_pos more]
    exact ih rest fun q mem => live q (List.mem_cons_of_mem p mem)

/-- `ufs_write` on the file: `none` when there is no block to walk to the end of. -/
def FileView.write (V : FileView) (offset : Nat) (buf : List Byte) : Option FileView :=
  if writeBlocks blockSize V.blocks offset buf = [] then none
  else some { V with blocks := writeBlocks blockSize V.blocks offset buf
                     bytesLeft := V.bytesLeft - buf.length }

theorem writeFile_spec (offset : Nat) {buf : List Byte} (rep : DiskRep d v chain)
    (stored : v.file f = some V) (fits : buf.length ≤ V.bytesLeft) (small : V.bytesLeft ≤ maxFileSize) :
    (writeFile junk (some f) offset buf buf.length).Realizes d (V.write offset buf)
      fun written d' V' => written = buf.length ∧ ∃ chain', DiskRep d' (v.setFile f V') chain' := by
  obtain ⟨file, live, fileRep⟩ := rep.live f V stored
  have wrote := writeLoop_spec junk 0 offset [] rep stored (List.nil_append _).symm rfl rfl (Nat.zero_le _)
    (Nat.le_trans fits small)
  unfold writeFile
  refine Realizes.after (Lens.ensures_load.mpr ⟨f, rfl, file, live, ?_⟩)
  rw [Chain.head_eq fileRep.path]
  refine Realizes.after (wrote.mono fun w d' result => ?_)
  obtain ⟨written, chain', rep'⟩ := result
  rw [List.drop_zero, List.nil_append] at rep'
  obtain ⟨file', live', fileRep'⟩ := rep'.live f _ DiskView.setFile_stored
  refine Realizes.after (Lens.ensures_load.mpr ⟨f, rfl, file', live', ?_⟩)
  have path := fileRep'.path
  have sizes := fileRep'.blocks.length_eq
  have last_eq := fileRep'.last
  cases List.eq_nil_or_concat' (chain' f) with
  | inl empty =>
    rw [empty] at path sizes
    have no_block : file'.blockList = none := path
    rw [FileView.write, if_pos (List.eq_nil_of_length_eq_zero sizes.symm), no_block]
    refine Realizes.stuck (noReturn_iff.mpr fun ensured => ?_)
    simpa using ensures_loop.mp ensured
  | inr split =>
    obtain ⟨l, last, at_last⟩ := split
    rw [at_last] at path sizes last_eq
    rw [List.getLast?_concat] at last_eq
    rw [FileView.write, if_neg (by intro empty; simp [empty] at sizes)]
    have walked := walkToLast_spec path fun p mem => fileRep'.live (by rw [at_last]; exact mem)
    refine Realizes.after (walked.mono fun r d'' result => ?_)
    obtain ⟨rfl, rfl⟩ := result
    have counted := rep'.setFields DiskView.setFile_stored live' file'.refs (V.bytesLeft - buf.length)
      file'.inList
    have left : toSizeT (file'.bytesLeft - w.bufOffset) = V.bytesLeft - buf.length := by
      have bytes_left : file'.bytesLeft = V.bytesLeft := fileRep'.bytesLeft
      rw [bytes_left, written]
      exact toSizeT_sub (lt_of_le_maxFileSize small) fits
    have same_last : { file' with bytesLeft := V.bytesLeft - buf.length, lastBlock := some last } =
        { file' with bytesLeft := V.bytesLeft - buf.length } := by rw [← last_eq]
    simp only [Realizes, ensures_bind, Lens.ensures_modify, ensures_pure, fileHeap_get, fileHeap_set,
      Option.some.injEq, exists_eq_left', live', Store.put_cell, if_true, Option.map_some, Store.put_put,
      left, same_last]
    refine ⟨written, chain', ?_⟩
    have refs : file'.refs = V.refs := fileRep'.refs
    have in_list : file'.inList = V.inList := fileRep'.inList
    rw [refs, in_list, DiskView.setFile_setFile] at counted
    rw [refs, in_list]
    exact counted

/-! ## `ufs_read` -/

/-- A size that does not fit in `long long` reads as a negative one, and nothing is read. -/
theorem readLoop_spec {size : Nat} (offset : Nat) {l₁ l₂ : List Nat} (front : List (List Byte))
    {rest : List (List Byte)} (acc : List Byte) (rep : DiskRep d v chain) (stored : v.file f = some V)
    (at_rest : chain f = l₁ ++ l₂) (blocks : V.blocks = front ++ rest)
    (len : front.length = l₁.length) (bound : size < 18446744073709551616) :
    (readLoop { buf := acc, bytesRead := acc.length, offset := offset, size := size,
                fileBlock := l₂.head? }).Ensures d fun w d' =>
      d' = d ∧ w.buf = acc ++ readBlocks blockSize rest offset (toLongLong size).toNat ∧
      w.bytesRead = w.buf.length := by
  obtain ⟨file, -, fileRep⟩ := rep.live f V stored
  have sizes := fileRep.blocks.length_eq
  rw [at_rest, blocks, List.length_append, List.length_append, len] at sizes
  induction rest generalizing l₁ l₂ front acc offset size with
  | nil =>
    obtain rfl : l₂ = [] := List.eq_nil_of_length_eq_zero (by simpa using sizes)
    refine ensures_loop.mpr ?_
    simp [readBlocks]
  | cons old rest ih =>
    cases l₂ with
    | nil => simp at sizes
    | cons p l₂ =>
    have stores := rep.stores stored at_rest blocks len
    have old_le := stores.length_le
    obtain ⟨b, m, mem, live, field, at_m, occupied, contents⟩ := stores
    have next : b.next = l₂.head? := by
      have path := fileRep.path
      rw [at_rest] at path
      simpa [Disk.nextBlock, live] using path.next_eq
    -- The iterations behind this one.
    have later : ∀ offset size acc, size < 18446744073709551616 →
        (readLoop { buf := acc, bytesRead := acc.length, offset := (offset : Nat), size := size,
                    fileBlock := l₂.head? }).Ensures d fun w d' =>
          d' = d ∧ w.buf = acc ++ readBlocks blockSize rest offset (toLongLong size).toNat ∧
          w.bytesRead = w.buf.length := fun offset size acc bound =>
      ih offset (front ++ [old]) acc (show chain f = (l₁ ++ [p]) ++ l₂ by simp [at_rest])
        (by simp [blocks]) (by simp [len]) bound (by simpa using sizes)
    refine ensures_loop.mpr ?_
    simp only [ensures_ite, ensures_pure]
    by_cases nothing : size = 0
    · rw [if_neg (by simp [nothing]), nothing]
      simp [readBlocks_zero, toLongLong_eq]
    rw [if_pos ⟨by simp, Nat.pos_of_ne_zero nothing⟩]
    simp only [readFromBlock, ensures_bind, Lens.ensures_load, blockHeap_get, List.head?_cons,
      Option.some.injEq, exists_eq_left', live, ensures_ite, ensures_pure, ensures_require,
      memoryHeap_get, field, at_m, next, occupied]
    by_cases before : blockSize ≤ offset
    · have next_offset : (offset : Int) - blockSize = (offset - blockSize : Nat) := by omega
      rw [if_pos (by omega), next_offset, readBlocks]
      refine (later (offset - blockSize) size acc bound).mono fun w d' result => ?_
      rw [if_pos before]
      split
      · next zero => simpa [zero, readBlocks_zero] using result
      · exact result
    have block_offset : min (offset : Int) blockSize = offset := by omega
    rw [block_offset, if_neg (by omega)]
    cases Nat.lt_or_ge size 9223372036854775808 with
    | inl small =>
      rw [toLongLong_eq small, Int.toNat_natCast, readBlocks, if_neg nothing, if_neg before]
      by_cases beyond : old.length < offset
      · rw [if_pos (by omega), if_pos beyond]
        simp
      have part_len : ((old.drop offset).take size).length = min (old.length - offset) size := by
        rw [List.length_take, List.length_drop]
        omega
      have bytes_to_read : min ((old.length : Int) - offset) size = ((old.drop offset).take size).length := by
        omega
      have source := mem.read_eq (show offset + ((old.drop offset).take size).length ≤ old.length by omega)
        old_le contents
      have whole : (old.drop offset).take ((old.drop offset).take size).length =
          (old.drop offset).take size := by
        rw [part_len, List.take_eq_take_iff, List.length_drop]
        omega
      rw [whole] at source
      rw [if_neg beyond, bytes_to_read, if_neg (by omega)]
      generalize (old.drop offset).take size = part at *
      refine ⟨part, source, ?_⟩
      have rest_read := later 0 (size - part.length) (acc ++ part) (by omega)
      rw [toSizeT_sub (by omega) (by omega)]
      rw [toLongLong_eq (by omega), Int.toNat_natCast, List.length_append, Int.natCast_add,
        List.append_assoc] at rest_read
      exact rest_read
    | inr big =>
      have negative := toLongLong_neg big bound
      generalize toLongLong size = converted at negative ⊢
      rw [if_pos (by omega), Int.toNat_of_nonpos (by omega), readBlocks_zero]
      simp

/-- The bytes `ufs_read` stores in the caller's buffer. -/
def FileView.read (V : FileView) (offset size : Nat) : List Byte :=
  readBlocks blockSize V.blocks offset (toLongLong size).toNat

/-! ## `ufs_resize` -/

/-- The branch that cuts the block `p` in the middle. -/
theorem cutBlock_spec {n : Nat} {l₁ l₂ : List Nat} {p : Nat} {front rest : List (List Byte)}
    {old : List Byte} (rep : DiskRep d v chain) (stored : v.file f = some V)
    (at_p : chain f = l₁ ++ p :: l₂) (blocks : V.blocks = front ++ old :: rest)
    (len : front.length = l₁.length) (less : n ≤ old.length) :
    (cutBlock junk (some p) n).Ensures d fun _ d' =>
      DiskRep d' (v.setFile f { V with blocks := front ++ old.take n :: rest }) chain := by
  have stores := rep.stores stored at_p blocks len
  have old_le := stores.length_le
  obtain ⟨b, m, mem, live, field, at_m, occupied, contents⟩ := stores
  have fresh : m ≠ d.memories.next := Nat.ne_of_lt (Store.lt_next at_m)
  have source : mem.read 0 n = some (old.take n) :=
    mem.read_eq (show 0 + n ≤ old.length by omega) old_le contents
  have kept_len : (old.take n).length = n := by
    rw [List.length_take]
    omega
  obtain ⟨mem', wrote, bytes⟩ := (junk.memory d.memories.next).write_eq
    (show 0 + (old.take n).length ≤ blockSize by omega)
  have wrote : (junk.memory d.memories.next).write 0 (old.take n) = some mem' := wrote
  simp only [cutBlock, ensures_bind, Lens.ensures_malloc, Lens.ensures_load, Lens.ensures_modify,
    ensures_require, memoryHeap_get, memoryHeap_set, blockHeap_get, blockHeap_set,
    Option.some.injEq, exists_eq_left', live, field, at_m, Store.alloc_cell, if_true, fresh, if_false,
    source, wrote, Lens.ensures_free_some, Store.alloc_put, Store.put_cell, Option.map_some, Store.put_put]
  refine rep.setBlock stored at_p blocks len live ?next ?prev ?owns ?others d.memories.next mem' rfl ?at_m
    ?occupied ?contents
  case next => rfl
  case prev => rfl
  case owns => exact rep.memories.replace live field rfl
  case others =>
    intro q c k other at_q field'
    obtain ⟨k', mem_k, field'', at_k⟩ := rep.memories.owned q c at_q
    rw [field'] at field''
    cases field''
    have apart : k ≠ m := by
      intro same
      subst same
      exact other (rep.memories.unique q p c b at_q live (field'.trans field.symm))
    simp [apart, Nat.ne_of_lt (Store.lt_next at_k)]
  case at_m => simp [fresh.symm]
  case occupied => rw [kept_len]
  case contents =>
    rw [bytes, overwrite, List.take_zero, List.nil_append, List.take_left]

/-- Behind the last block the loop creates an empty one. -/
theorem resizeBlock_null (n : Nat) (rep : DiskRep d v chain) (stored : v.file f = some V) :
    (resizeBlock junk (some f) n none).Ensures d fun r d' => r = (toSizeT (n - blockSize), none) ∧
      DiskRep d' (v.setFile f { V with blocks := V.blocks ++ [[]] })
        (Function.update chain f (chain f ++ [d.blocks.next])) := by
  simp only [resizeBlock, if_true, ensures_bind]
  refine (createBlock_spec junk rep stored).mono fun block d' created => ?_
  obtain ⟨rfl, rep'⟩ := created
  obtain ⟨file, -, fileRep⟩ := rep'.live f _ DiskView.setFile_stored
  rw [Function.update_self] at fileRep
  obtain ⟨b, live⟩ := fileRep.live (show d.blocks.next ∈ chain f ++ [d.blocks.next] by simp)
  have next : b.next = none := by simpa [Disk.nextBlock, live] using fileRep.path.next_last
  simp only [Lens.ensures_load, blockHeap_get, Option.some.injEq, exists_eq_left', live, ensures_pure, next]
  exact ⟨trivial, rep'⟩

/-- At a block the loop consumes it, cuts it, or passes it by. -/
theorem resizeBlock_at (n : Nat) {l₁ l₂ : List Nat} {p : Nat} {front rest : List (List Byte)}
    {old : List Byte} (rep : DiskRep d v chain) (stored : v.file f = some V)
    (at_p : chain f = l₁ ++ p :: l₂) (blocks : V.blocks = front ++ old :: rest)
    (len : front.length = l₁.length) (bound : n < 18446744073709551616) :
    (resizeBlock junk (some f) n (some p)).Ensures d fun r d' =>
      (blockSize ≤ n ∧ r = (n - blockSize, l₂.head?) ∧ d' = d) ∨
      (n < blockSize ∧ n < old.length ∧ r = (0, l₂.head?) ∧
        DiskRep d' (v.setFile f { V with blocks := front ++ old.take n :: rest }) chain) ∨
      (n < blockSize ∧ old.length ≤ n ∧ r = (n, l₂.head?) ∧ d' = d) := by
  have stores := rep.stores stored at_p blocks len
  have old_le := stores.length_le
  obtain ⟨b, m, mem, live, field, at_m, occupied, contents⟩ := stores
  obtain ⟨file, -, fileRep⟩ := rep.live f V stored
  have next : b.next = l₂.head? := by
    have path := fileRep.path
    rw [at_p] at path
    simpa [Disk.nextBlock, live] using path.next_eq
  simp only [resizeBlock, reduceCtorEq, if_false, ensures_bind, Lens.ensures_load, blockHeap_get,
    Option.some.injEq, exists_eq_left', live, ensures_ite, ensures_pure, next]
  by_cases whole : n ≥ blockSize
  · rw [if_pos whole, toSizeT_sub bound whole]
    exact .inl ⟨whole, rfl, trivial⟩
  have stored_size : toSizeT b.occupied = old.length := by
    have := blockSize_eq
    unfold toSizeT
    omega
  rw [if_neg whole, stored_size]
  by_cases inside : n < old.length
  · rw [if_pos inside]
    refine (cutBlock_spec junk rep stored at_p blocks len (Nat.le_of_lt inside)).mono fun _ d' cut => ?_
    exact .inr (.inl ⟨by omega, inside, trivial, cut⟩)
  · rw [if_neg inside]
    exact .inr (.inr ⟨by omega, by omega, trivial, trivial⟩)

/-- A size that can be reached: the loop appends the missing blocks, keeps the blocks of the new
    contents and stops in front of the ones behind them. -/
theorem resizeLoop_chain (n : Nat) {l₁ l₂ : List Nat} (front : List (List Byte))
    {rest kept : List (List Byte)} (rep : DiskRep d v chain) (stored : v.file f = some V)
    (at_rest : chain f = l₁ ++ l₂) (blocks : V.blocks = front ++ rest)
    (len : front.length = l₁.length) (small : n ≤ maxFileSize)
    (resized : resizeBlocks blockSize rest n = some kept) :
    (resizeLoop junk (some f) n l₂.head?).Ensures d fun block d' =>
      ∃ created l₁' l₂' back,
        DiskRep d' (v.setFile f { V with blocks := front ++ kept ++ back })
          (Function.update chain f (chain f ++ created)) ∧
        chain f ++ created = l₁' ++ l₂' ∧ (front ++ kept).length = l₁'.length ∧ block = l₂'.head? ∧
        created.length = (front ++ kept).length - (chain f).length := by
  obtain ⟨file, -, fileRep⟩ := rep.live f V stored
  have sizes := fileRep.blocks.length_eq
  clear fileRep
  rw [at_rest, blocks, List.length_append, List.length_append, len] at sizes
  induction n using Nat.strongRecOn generalizing d v chain V l₁ l₂ front rest kept with
  | ind n ih =>
  have pos := blockSize_pos
  refine ensures_loop.mpr ?_
  simp only [ensures_ite, ensures_pure]
  by_cases nothing : n = 0
  · subst nothing
    rw [resizeBlocks_zero] at resized
    cases resized
    rw [if_neg (by omega)]
    refine ⟨[], l₁, l₂, rest, ?_, ?_, by simp [len], rfl, ?_⟩
    · rw [List.append_nil, List.append_nil, Function.update_eq_self, ← blocks, DiskView.setFile_self stored]
      exact rep
    · rw [List.append_nil, at_rest]
    · simp [at_rest, len]
  rw [if_pos (Nat.pos_of_ne_zero nothing)]
  simp only [ensures_bind, ensures_pure]
  cases l₂ with
  | nil =>
    obtain rfl : rest = [] := List.eq_nil_of_length_eq_zero (by simpa using sizes.symm)
    rw [List.append_nil] at at_rest
    have whole : blockSize ≤ n := by
      by_contra less
      rw [resizeBlocks_rest (Nat.pos_of_ne_zero nothing) (by omega)] at resized
      cases resized
    rw [resizeBlocks_whole pos whole] at resized
    obtain ⟨kept, resized_rest, rfl⟩ := Option.map_eq_some_iff.mp resized
    refine (resizeBlock_null junk n rep stored).mono fun r d' created => ?_
    obtain ⟨rfl, rep'⟩ := created
    rw [toSizeT_sub (lt_of_le_maxFileSize small) whole]
    refine (ih (n - blockSize) (by omega) (front ++ [[]]) rep' DiskView.setFile_stored
      (show _ = (l₁ ++ [d.blocks.next]) ++ [] by rw [Function.update_self, at_rest, List.append_nil])
      (by simp [blocks]) (by simp [len]) (by omega) resized_rest rfl).mono fun block d'' later => ?_
    obtain ⟨created, l₁', l₂', back, rep'', split, size, stop, count⟩ := later
    rw [Function.update_self] at split count
    simp only [Function.update_self, Function.update_idem, DiskView.setFile_setFile, List.append_assoc,
      List.cons_append, List.nil_append] at rep'' split
    refine ⟨d.blocks.next :: created, l₁', l₂', back, ?_, split, ?_, stop, ?_⟩
    · simpa using rep''
    · simpa using size
    · simp only [List.length_append, List.length_cons, List.length_nil, List.headD_nil] at count ⊢
      rw [at_rest] at count ⊢
      omega
  | cons p l₂ =>
    cases rest with
    | nil => simp at sizes
    | cons old rest =>
    refine (resizeBlock_at junk n rep stored at_rest blocks len
      (lt_of_le_maxFileSize small)).mono fun r d' iteration => ?_
    have shifted : chain f = (l₁ ++ [p]) ++ l₂ := by simp [at_rest]
    have sizes' : (l₁ ++ [p]).length + l₂.length = (l₁ ++ [p]).length + rest.length := by
      simpa using sizes
    obtain ⟨whole, rfl, same⟩ | ⟨less, inside, rfl, rep'⟩ | ⟨less, beyond, rfl, same⟩ := iteration
    · rw [same]
      rw [resizeBlocks_whole pos whole] at resized
      obtain ⟨kept, resized_rest, rfl⟩ := Option.map_eq_some_iff.mp resized
      have later := ih (n - blockSize) (by omega) (front ++ [old]) rep stored shifted (by simp [blocks])
        (by simp [len]) (by omega) resized_rest sizes'
      simp only [List.append_assoc, List.cons_append, List.nil_append, List.headD_cons] at later ⊢
      exact later
    · rw [resizeBlocks_rest (Nat.pos_of_ne_zero nothing) less] at resized
      simp only [inside, if_true, Option.some.injEq] at resized
      subst resized
      have later := ih 0 (Nat.pos_of_ne_zero nothing) (front ++ [old.take n]) rep'
        DiskView.setFile_stored shifted (by simp) (by simp [len]) (Nat.zero_le _) resizeBlocks_zero sizes'
      simp only [DiskView.setFile_setFile, List.append_assoc, List.cons_append, List.nil_append] at later ⊢
      exact later
    · rw [resizeBlocks_rest (Nat.pos_of_ne_zero nothing) less] at resized
      simp only at resized
      rw [if_neg (by omega)] at resized
      cases resized

/-- Taking a block off a size that has wrapped below zero keeps its rest modulo the block
    size, so the loop never gets to zero. -/
theorem toSizeT_sub_block_mod (n : Nat) : toSizeT (n - blockSize) % blockSize = n % blockSize := by
  rw [blockSize_eq]
  unfold toSizeT
  omega

theorem toSizeT_lt (x : Int) : toSizeT x < 18446744073709551616 := by
  unfold toSizeT
  omega

/-- The loop is at `block` of the file `f` with `n` bytes to go, and no number of further
    iterations brings them to zero. -/
def Unreached (f n : Nat) (block : Ptr) (d : Disk) : Prop :=
  ∃ v chain V l₁ l₂ front rest, DiskRep d v chain ∧ v.file f = some V ∧ chain f = l₁ ++ l₂ ∧
    V.blocks = front ++ rest ∧ front.length = l₁.length ∧ block = l₂.head? ∧
    n < 18446744073709551616 ∧ Packed blockSize rest ∧ resizeBlocks blockSize rest n = none

theorem resizeBlock_unreached {n : Nat} {block : Ptr} (unreached : Unreached f n block d) :
    0 < n ∧ (resizeBlock junk (some f) n block).Ensures d fun r d' => Unreached f r.1 r.2 d' := by
  obtain ⟨v, chain, V, l₁, l₂, front, rest, rep, stored, at_rest, blocks, len, rfl, bound, packed,
    none⟩ := unreached
  have pos := blockSize_pos
  have some_left : 0 < n := by
    apply Nat.pos_of_ne_zero
    intro zero
    rw [zero, resizeBlocks_zero] at none
    cases none
  refine ⟨some_left, ?_⟩
  obtain ⟨file, -, fileRep⟩ := rep.live f V stored
  have sizes := fileRep.blocks.length_eq
  rw [at_rest, blocks, List.length_append, List.length_append, len] at sizes
  cases l₂ with
  | nil =>
    obtain rfl : rest = [] := List.eq_nil_of_length_eq_zero (by simpa using sizes.symm)
    refine (resizeBlock_null junk n rep stored).mono fun r d' created => ?_
    obtain ⟨rfl, rep'⟩ := created
    refine ⟨_, _, _, chain f ++ [d.blocks.next], [], V.blocks ++ [[]], [], rep', DiskView.setFile_stored,
      by simp, by simp, ?_, rfl, toSizeT_lt _, trivial, ?_⟩
    · simpa [at_rest, blocks] using len
    · rw [resizeBlocks_nil_none, toSizeT_sub_block_mod]
      exact resizeBlocks_nil_none.mp none
  | cons p l₂ =>
    cases rest with
    | nil => simp at sizes
    | cons old rest =>
    refine (resizeBlock_at junk n rep stored at_rest blocks len bound).mono fun r d' iteration => ?_
    have shifted : chain f = (l₁ ++ [p]) ++ l₂ := by simp [at_rest]
    obtain ⟨whole, rfl, same⟩ | ⟨less, inside, -⟩ | ⟨less, beyond, rfl, same⟩ := iteration
    · rw [resizeBlocks_whole pos whole, Option.map_eq_none_iff] at none
      rw [same]
      exact ⟨v, chain, V, l₁ ++ [p], l₂, front ++ [old], rest, rep, stored, shifted, by simp [blocks],
        by simp [len], rfl, Nat.lt_of_le_of_lt (Nat.sub_le _ _) bound, packed.tail pos, none⟩
    · rw [resizeBlocks_rest some_left less] at none
      simp [inside] at none
    · have passed : resizeBlocks blockSize rest n = Option.none := by
        rw [resizeBlocks_rest some_left less]
        cases rest with
        | nil => rfl
        | cons next rest =>
          obtain ⟨full, -⟩ | ⟨-, empty⟩ := packed
          · omega
          · simp [empty next List.mem_cons_self]
      rw [same]
      exact ⟨v, chain, V, l₁ ++ [p], l₂, front ++ [old], rest, rep, stored, shifted, by simp [blocks],
        by simp [len], rfl, bound, packed.tail pos, passed⟩

/-- A size that cannot be reached: the loop runs forever. -/
theorem resizeLoop_noReturn {n : Nat} {block : Ptr} (unreached : Unreached f n block d) :
    (resizeLoop junk (some f) n block).NoReturn d := by
  intro last d' returned
  refine Returns.loop_induct (Q := fun _ _ => False) (fun state d => Unreached f state.1 state.2 d) ?_
    (a := (n, block)) unreached returned
  intro state d unreached flow d' returned
  obtain ⟨some_left, iteration⟩ := resizeBlock_unreached junk unreached
  simp only [some_left, if_true] at returned
  have ensured : (resizeBlock junk (some f) state.1 state.2 >>= fun r => pure (Flow.again r) :
      Prog Disk (Flow (Nat × Ptr) Ptr)).Ensures d fun flow d' => match flow with
        | .again next => Unreached f next.1 next.2 d'
        | .done _ => False :=
    ensures_bind.mpr (iteration.mono fun r d' later => ensures_pure.mpr later)
  have later := ensured.of_returns returned
  cases flow with
  | again next => exact later
  | done last => exact later

/-- Cuts the chain behind `last` and releases what follows. -/
theorem cutBefore_frees {l l₂ : List Nat} {last : Nat} {kept back : List (List Byte)}
    (rep : DiskRep d v chain) (stored : v.file f = some V) (split : chain f = l ++ [last] ++ l₂)
    (blocks : V.blocks = kept ++ back) (len : kept.length = (l ++ [last]).length) :
    (do cutBefore (some f) l₂.head?; freeBlocks l₂.head? : Prog Disk Unit).Ensures d fun _ d' =>
      DiskRep d' (v.setFile f { V with blocks := kept }) (Function.update chain f (l ++ [last])) ∧
        d'.blocks.freed = l₂.reverse ++ d.blocks.freed := by
  obtain ⟨file, live, fileRep⟩ := rep.live f V stored
  have sizes := fileRep.blocks.length_eq
  rw [split, blocks] at sizes
  have no_more : l₂.length = back.length := by
    simp only [List.length_append] at sizes len
    omega
  cases l₂ with
  | nil =>
    obtain rfl : back = [] := List.eq_nil_of_length_eq_zero no_more.symm
    rw [List.append_nil] at blocks split
    rw [← blocks, DiskView.setFile_self stored, ← split, Function.update_eq_self]
    simp only [List.head?_nil, cutBefore, if_true, ensures_bind, ensures_pure]
    refine ensures_loop.mpr ?_
    simp [rep]
  | cons p l₂ =>
    have path := fileRep.path
    have linked := fileRep.linked
    have nodup := fileRep.nodup
    rw [split] at path linked nodup
    obtain ⟨b, at_p⟩ := fileRep.live (show p ∈ chain f by simp [split])
    obtain ⟨c, at_last⟩ := fileRep.live (show last ∈ chain f by simp [split])
    have prev : b.prev = some last := by
      have link := (List.isChain_append.mp linked).2.2 last (by simp) p rfl
      simpa [Disk.prevBlock, at_p] using link
    have other : ∀ q ∈ p :: l₂, q ≠ last := by
      intro q mem same
      subst same
      exact (List.nodup_append.mp nodup).2.2 q (by simp) q mem rfl
    -- The blocks behind `last` once it is the end of the chain.
    have freed := freeBlocks_spec (l := p :: l₂)
      (d := { d with files := d.files.put f { file with lastBlock := some last }
                     blocks := d.blocks.put last { c with next := none } })
      (Path.congr (Chain.suffix path) fun q mem => by simp [Disk.nextBlock, other q mem])
      (fun q mem => by
        simpa [other q mem] using fileRep.live (show q ∈ chain f by rw [split]; simp [List.mem_cons.mp mem]))
      (rep.memories.put_owner at_last rfl)
    simp only [List.head?_cons, cutBefore, reduceCtorEq, if_false, ensures_bind, Lens.ensures_load,
      blockHeap_get, Option.some.injEq, exists_eq_left', at_p, prev, Lens.ensures_modify, fileHeap_get,
      live, fileHeap_set, blockHeap_set, at_last]
    refine freed.mono fun _ d' result => ?_
    obtain ⟨blocks', memories', rfl, owns, cell, kept_memory, gone, -⟩ := result
    refine ⟨rep.truncate stored live split blocks len owns (fun q => ?_) fun q b m off at_q field => ?_, gone⟩
    · rw [cell]
      by_cases here : q = last
      · simp [here, at_last]
      · simp [here]
    · by_cases here : q = last
      · subst here
        rw [at_last] at at_q
        cases at_q
        exact kept_memory q { c with next := none } m off (by simp [at_last]) field
      · exact kept_memory q b m off (by simp [here, at_q]) field

/-- The last loop adds up what the blocks hold and leaves `last_block` at the last of them. -/
theorem sumBlocks_spec {file : File} {start : Ptr} {l : List Nat} {bs : List (List Byte)}
    (live : d.files.cell f = some file) (path : Chain d.nextBlock start l)
    (stores : List.Forall₂ (BlockRep d) l bs) (last : Ptr) (n : Nat)
    (bound : n + bs.flatten.length ≤ maxFileSize) :
    (sumBlocks (some f) n start).Ensures
        { d with files := d.files.put f { file with lastBlock := last } } fun r d' =>
      r = n + bs.flatten.length ∧
      d' = { d with files := d.files.put f { file with lastBlock := l.getLast?.or last } } := by
  induction l generalizing start bs last n with
  | nil =>
    have at_null : start = none := path
    subst at_null
    cases stores
    refine ensures_loop.mpr ?_
    simp
  | cons p l ih =>
    obtain ⟨rfl, rest⟩ := path
    cases stores with
    | cons here after =>
    rename_i data bs
    obtain ⟨b, m, mem, at_p, -, -, occupied, -⟩ := here
    have next : d.nextBlock p = b.next := by simp [Disk.nextBlock, at_p]
    rw [next] at rest
    rw [List.flatten_cons, List.length_append] at bound
    have sum : toSizeT (n + b.occupied) = n + data.length := by
      rw [occupied]
      have := lt_of_le_maxFileSize bound
      unfold toSizeT
      omega
    have later := ih rest after (some p) (n + data.length) (by omega)
    refine ensures_loop.mpr ?_
    simp only [ne_eq, reduceCtorEq, not_false_eq_true, if_true, ensures_bind, Lens.ensures_load,
      Lens.ensures_modify, blockHeap_get, fileHeap_get, fileHeap_set, Option.some.injEq, exists_eq_left',
      at_p, Store.put_cell, live, Option.map_some, Store.put_put, ensures_pure, sum]
    refine later.mono fun r d' result => ?_
    obtain ⟨total, same⟩ := result
    refine ⟨by rw [total, List.flatten_cons, List.length_append, Nat.add_assoc], ?_⟩
    rw [same]
    cases List.eq_nil_or_concat' l with
    | inl empty => simp [empty]
    | inr split =>
      obtain ⟨l', q, rfl⟩ := split
      rw [← List.cons_append, List.getLast?_concat, List.getLast?_concat]
      rfl

/-- Behind the loops `bytes_left` is recomputed from what the file stores. -/
theorem recount_spec (rep : DiskRep d v chain) (stored : v.file f = some V)
    (small : V.blocks.flatten.length ≤ maxFileSize) :
    (do
      let file ← fileHeap.load (some f)
      let newFileSize ← sumBlocks (some f) 0 file.blockList
      fileHeap.modify (some f) fun f => { f with bytesLeft := toSizeT (maxFileSize - newFileSize) } :
      Prog Disk Unit).Ensures d fun _ d' =>
        DiskRep d' (v.setFile f { V with bytesLeft := maxFileSize - V.blocks.flatten.length }) chain := by
  obtain ⟨file, live, fileRep⟩ := rep.live f V stored
  have summed := sumBlocks_spec live fileRep.path fileRep.blocks file.lastBlock 0 (by omega)
  rw [Store.put_self live] at summed
  have last : (chain f).getLast?.or file.lastBlock = file.lastBlock := by
    rw [fileRep.last]
    cases (chain f).getLast? <;> rfl
  simp only [ensures_bind, Lens.ensures_load, fileHeap_get, Option.some.injEq, exists_eq_left', live]
  refine summed.mono fun r d' result => ?_
  obtain ⟨total, same⟩ := result
  rw [last, Store.put_self live] at same
  have counted := rep.setFields stored live file.refs (maxFileSize - V.blocks.flatten.length) file.inList
  have left : toSizeT (maxFileSize - r) = maxFileSize - V.blocks.flatten.length := by
    rw [total, Nat.zero_add]
    exact toSizeT_sub (lt_of_le_maxFileSize (Nat.le_refl _)) small
  simp only [same, Lens.ensures_modify, fileHeap_get, fileHeap_set, Option.some.injEq, exists_eq_left', live,
    left]
  have refs : file.refs = V.refs := fileRep.refs
  have in_list : file.inList = V.inList := fileRep.inList
  rw [refs, in_list] at counted
  rw [refs, in_list]
  exact counted

/-- `ufs_resize` on the file: `none` when the code runs forever, or releases the blocks that
    `block_list` still points to. -/
def FileView.resize (V : FileView) (newSize : Nat) : Option FileView :=
  if newSize = 0 ∧ V.blocks ≠ [] then none
  else (resizeBlocks blockSize V.blocks newSize).map fun blocks =>
    { V with blocks, bytesLeft := maxFileSize - blocks.flatten.length }

/-- One iteration of `freeBlocks`, whatever the heap looks like. -/
theorem freeBlocks_iteration {q : Nat} {d d' : Disk} {flow : Flow Ptr Unit}
    (returned : (do
      let b ← blockHeap.load (some q)
      memoryHeap.free b.memory
      blockHeap.free (some q)
      return .again b.next : Prog Disk (Flow Ptr Unit)).Returns d flow d') :
    (∃ next, flow = .again next) ∧ d'.blocks = d.blocks.free q ∧ d'.files = d.files := by
  have ensured := returns_iff_ensures.mp returned
  simp only [ensures_bind, Lens.ensures_load, blockHeap_get, Option.some.injEq, exists_eq_left',
    ensures_pure] at ensured
  obtain ⟨b, -, ensured⟩ := ensured
  cases memory : b.memory with
  | none =>
    rw [memory] at ensured
    simp only [Lens.ensures_free_none, Lens.ensures_free_some, blockHeap_get, blockHeap_set] at ensured
    obtain ⟨-, -, again, rfl⟩ := ensured
    exact ⟨⟨_, again.symm⟩, rfl, rfl⟩
  | some m =>
    rw [memory] at ensured
    simp only [Lens.ensures_free_some, blockHeap_get, blockHeap_set, memoryHeap_get, memoryHeap_set] at ensured
    obtain ⟨-, -, -, -, again, rfl⟩ := ensured
    exact ⟨⟨_, again.symm⟩, rfl, rfl⟩

/-- Whatever `freeBlocks` returns from, the first block is dead and the files are untouched. -/
theorem freeBlocks_first {p : Nat} {d d' : Disk} (returned : (freeBlocks (some p)).Returns d () d') :
    d'.blocks.cell p = none ∧ d'.files = d.files := by
  obtain ⟨flow, d₁, first, rest⟩ := returns_loop.mp returned
  obtain ⟨⟨next, rfl⟩, blocks, files⟩ := freeBlocks_iteration first
  have dead : d₁.blocks.cell p = none ∧ d₁.files = d.files := by
    rw [blocks]
    exact ⟨by simp, files⟩
  refine Returns.loop_induct (Q := fun _ s => s.blocks.cell p = none ∧ s.files = d.files)
    (fun _ s => s.blocks.cell p = none ∧ s.files = d.files) (fun block s inv flow s' step => ?_) dead rest
  cases block with
  | none =>
    have ensured := step.ensures (Q := fun r t => r = flow ∧ t = s') ⟨rfl, rfl⟩
    simp only [ne_eq, not_true_eq_false, if_false, ensures_pure] at ensured
    obtain ⟨rfl, rfl⟩ := ensured
    exact inv
  | some q =>
    obtain ⟨⟨next, rfl⟩, blocks, files⟩ := freeBlocks_iteration step
    refine ⟨?_, files.trans inv.2⟩
    rw [blocks, Store.free_cell, inv.1]
    split <;> rfl

/-- Behind the release of its first block the contents of a file cannot be counted any more. -/
theorem freeBlocks_recount {p : Nat} {Q : Disk → Prop}
    (first : ∀ file, d.files.cell f = some file → file.blockList = some p) :
    ¬ (freeBlocks (some p)).Ensures d fun _ s => ∃ file', s.files.cell f = some file' ∧
      (sumBlocks (some f) 0 file'.blockList).Ensures s fun _ s' => Q s' := by
  intro ensured
  obtain ⟨⟨⟩, s, returned, file', live', counted⟩ := ensured
  obtain ⟨dead, files⟩ := freeBlocks_first returned
  rw [files] at live'
  rw [first file' live', sumBlocks, ensures_loop] at counted
  simp [dead] at counted

/-- Resizing a file with blocks to zero: they are all released, and `block_list`, which still
    points to the first of them, is followed. -/
theorem resizeFile_zero {p : Nat} {file : File} (live : d.files.cell f = some file)
    (first : file.blockList = some p) : (resizeFile junk (some f) 0).NoReturn d := by
  rw [noReturn_iff]
  intro ensured
  simp only [resizeFile, ensures_bind, Lens.ensures_load, fileHeap_get, Option.some.injEq, exists_eq_left',
    live, first] at ensured
  rw [resizeLoop, ensures_loop] at ensured
  simp only [gt_iff_lt, Nat.lt_irrefl, if_false, ensures_pure, cutBefore, reduceCtorEq, ensures_bind,
    Lens.ensures_load, ensures_ite, Lens.ensures_modify, blockHeap_get, fileHeap_get, fileHeap_set,
    blockHeap_set, Option.some.injEq, exists_eq_left', live] at ensured
  obtain ⟨b, -, ensured⟩ := ensured
  -- The head block's `prev` is whatever `malloc` left there.
  split at ensured
  · refine freeBlocks_recount (fun file' live' => ?_) ensured
    rw [live] at live'
    cases live'
    exact first
  · obtain ⟨q, -, c, -, ensured⟩ := ensured
    refine freeBlocks_recount (fun file' live' => ?_) ensured
    simp only [Store.put_cell, if_true, live, Option.map_some, Option.some.injEq] at live'
    subst live'
    exact first

/-! ### The blocks a resize creates and releases -/

theorem createBlock_allocates : (createBlock junk (some f)).Yields d fun _ d' =>
    d'.blocks.next = d.blocks.next + 1 ∧ d'.blocks.freed = d.blocks.freed := by
  simp only [createBlock, yields_bind, Lens.yields_malloc, Lens.yields_modify, Lens.yields_load, yields_ite,
    yields_pure, blockHeap_get, blockHeap_set, memoryHeap_get, memoryHeap_set, fileHeap_get, fileHeap_set]
  intros
  constructor
  · intros
    exact ⟨rfl, rfl⟩
  · intros
    exact ⟨rfl, rfl⟩

theorem cutBlock_allocates (block : Ptr) (n : Nat) : (cutBlock junk block n).Yields d fun _ d' =>
    d'.blocks.next = d.blocks.next ∧ d'.blocks.freed = d.blocks.freed := by
  simp only [cutBlock, yields_bind, Lens.yields_malloc, Lens.yields_modify, Lens.yields_load, yields_require,
    blockHeap_get, blockHeap_set, memoryHeap_get, memoryHeap_set]
  intro q _ b _ m field
  rw [field]
  simp only [Lens.yields_free, memoryHeap_get, memoryHeap_set]
  intros
  exact ⟨rfl, rfl⟩

/-- An iteration creates a block when it has run off the chain, and releases none. -/
theorem resizeBlock_allocates (n : Nat) (block : Ptr) :
    (resizeBlock junk (some f) n block).Yields d fun _ d' =>
      d'.blocks.next = d.blocks.next + (if block = none then 1 else 0) ∧ d'.blocks.freed = d.blocks.freed := by
  simp only [resizeBlock, yields_ite, yields_bind, Lens.yields_load, yields_pure]
  constructor
  · intro missing
    refine (createBlock_allocates junk).mono fun _ d' made => ?_
    intros
    rw [if_pos missing]
    exact made
  · intro here q _ b _
    simp only [if_neg here, Nat.add_zero, and_self, implies_true, true_and]
    intro _
    exact ⟨fun _ => cutBlock_allocates junk block n, trivial⟩

theorem resizeLoop_releases (n : Nat) (block : Ptr) :
    (resizeLoop junk (some f) n block).Yields d fun _ d' => d'.blocks.freed = d.blocks.freed := by
  refine yields_loop (fun _ d' => d'.blocks.freed = d.blocks.freed) (fun state d' kept => ?_) rfl
  simp only [yields_ite, yields_bind, yields_pure]
  refine ⟨fun _ => ?_, fun _ => kept⟩
  exact (resizeBlock_allocates junk state.1 state.2).mono fun _ d'' made => made.2.trans kept

/-- What counting the contents leaves alone. -/
theorem sumBlocks_blocks (file : Ptr) (n : Nat) (block : Ptr) :
    (sumBlocks file n block).Yields d fun _ d' => d'.blocks = d.blocks := by
  refine yields_loop (fun _ d' => d'.blocks = d.blocks) (fun state d' kept => ?_) rfl
  simp only [yields_ite, yields_bind, Lens.yields_load, Lens.yields_modify, yields_pure]
  exact ⟨fun _ _ _ _ _ _ _ _ _ => kept, fun _ => kept⟩

theorem recount_blocks : (do
      let file ← fileHeap.load (some f)
      let newFileSize ← sumBlocks (some f) 0 file.blockList
      fileHeap.modify (some f) fun f => { f with bytesLeft := toSizeT (maxFileSize - newFileSize) } :
      Prog Disk Unit).Yields d fun _ d' => d'.blocks = d.blocks := by
  simp only [yields_bind, Lens.yields_load, Lens.yields_modify]
  intro q _ file _
  refine (sumBlocks_blocks (some f) 0 file.blockList).mono fun total d' same => ?_
  intros
  exact same

/-- Resizing a file without blocks to zero changes nothing but `bytes_left`. -/
theorem resizeFile_empty (rep : DiskRep d v chain) (stored : v.file f = some V) (empty : V.blocks = []) :
    (resizeFile junk (some f) 0).Ensures d fun _ d' =>
      DiskRep d' (v.setFile f { V with bytesLeft := maxFileSize - V.blocks.flatten.length }) chain ∧
        d'.blocks = d.blocks := by
  obtain ⟨file, live, fileRep⟩ := rep.live f V stored
  have sizes := fileRep.blocks.length_eq
  have path := fileRep.path
  rw [empty, List.length_nil] at sizes
  rw [List.eq_nil_of_length_eq_zero sizes] at path
  have no_list : file.blockList = none := path
  have recounted := (recount_spec rep stored (by simp [empty])).and_yields recount_blocks
  unfold resizeFile
  refine ensures_bind.mpr (Lens.ensures_load.mpr ⟨f, rfl, file, live, ?_⟩)
  rw [no_list]
  refine ensures_bind.mpr (ensures_loop.mpr ?_)
  simp only [gt_iff_lt, Nat.lt_irrefl, if_false, ensures_pure]
  refine ensures_bind.mpr ?_
  simp only [cutBefore, if_true, ensures_pure]
  refine ensures_bind.mpr (ensures_loop.mpr ?_)
  simp only [ne_eq, not_true_eq_false, if_false, ensures_pure]
  exact recounted

/-- A resize that returns appends the missing blocks to the chain, keeps a front part of it and
    releases exactly the blocks behind. -/
theorem resizeFile_cuts {newSize : Nat} {V' : FileView} (rep : DiskRep d v chain)
    (stored : v.file f = some V) (packed : Packed blockSize V.blocks) (small : newSize ≤ maxFileSize)
    (resized : V.resize newSize = some V') :
    (resizeFile junk (some f) newSize).Ensures d fun _ d' => ∃ created l cut,
      chain f ++ created = l ++ cut ∧ (chain f ++ created).Nodup ∧ l.length = V'.blocks.length ∧
      created.length = V'.blocks.length - (chain f).length ∧
      DiskRep d' (v.setFile f V') (Function.update chain f l) ∧
      d'.blocks.freed = cut.reverse ++ d.blocks.freed := by
  obtain ⟨file, live, fileRep⟩ := rep.live f V stored
  have pos := blockSize_pos
  rw [FileView.resize] at resized
  split at resized
  · cases resized
  next possible =>
  obtain ⟨kept, reached, rfl⟩ := Option.map_eq_some_iff.mp resized
  by_cases zero : newSize = 0
  · subst zero
    have no_blocks : V.blocks = [] := by
      by_contra some_block
      exact possible ⟨rfl, some_block⟩
    have no_chain : chain f = [] := List.eq_nil_of_length_eq_zero (by
      rw [fileRep.blocks.length_eq, no_blocks, List.length_nil])
    rw [resizeBlocks_zero] at reached
    cases reached
    refine (resizeFile_empty junk rep stored no_blocks).mono fun _ d' result => ?_
    obtain ⟨rep', same⟩ := result
    have unchanged : Function.update chain f [] = chain := by rw [← no_chain, Function.update_eq_self]
    rw [no_blocks] at rep'
    refine ⟨[], [], [], by simp [no_chain], by simp [no_chain], rfl, by simp, ?_, by rw [same]; rfl⟩
    rw [unchanged]
    exact rep'
  have some_left : 0 < newSize := Nat.pos_of_ne_zero zero
  have fits : kept.flatten.length ≤ maxFileSize := by
    rw [resizeBlocks_flatten pos packed reached, List.length_take]
    omega
  have looped := resizeLoop_chain junk newSize [] rep stored (List.nil_append _).symm rfl rfl small reached
  have looped := looped.and_yields (resizeLoop_releases junk newSize (chain f).head?)
  unfold resizeFile
  refine ensures_bind.mpr (Lens.ensures_load.mpr ⟨f, rfl, file, live, ?_⟩)
  rw [Chain.head_eq fileRep.path]
  refine ensures_bind.mpr (looped.mono fun block d₁ result => ?_)
  obtain ⟨⟨created, l₁, l₂, back, rep₁, split, len, rfl, count⟩, released⟩ := result
  rw [List.nil_append] at rep₁ len count
  cases List.eq_nil_or_concat' l₁ with
  | inl empty =>
    rw [empty] at len
    exact absurd (List.eq_nil_of_length_eq_zero len) (resizeBlocks_ne_nil pos some_left reached)
  | inr concat =>
    obtain ⟨l, last, rfl⟩ := concat
    have split' : Function.update chain f (chain f ++ created) f = l ++ [last] ++ l₂ := by
      rw [Function.update_self, split]
    have cut := cutBefore_frees rep₁ DiskView.setFile_stored split' rfl len
    rw [ensures_bind] at cut
    refine ensures_bind.mpr (cut.mono fun _ d₂ freed => ensures_bind.mpr (freed.mono fun _ d₃ result => ?_))
    obtain ⟨rep₃, gone⟩ := result
    have recounted := (recount_spec rep₃ DiskView.setFile_stored fits).and_yields recount_blocks
    simp only [DiskView.setFile_setFile, Function.update_idem] at recounted
    refine recounted.mono fun _ d' result => ?_
    obtain ⟨rep', same⟩ := result
    refine ⟨created, l ++ [last], l₂, split, ?_, len.symm, count, rep', ?_⟩
    · obtain ⟨_, -, fileRep₁⟩ := rep₁.live f _ DiskView.setFile_stored
      have nodup := fileRep₁.nodup
      rwa [Function.update_self] at nodup
    · rw [same, gone, released]

theorem resizeFile_spec {newSize : Nat} (rep : DiskRep d v chain) (stored : v.file f = some V)
    (packed : Packed blockSize V.blocks) (small : newSize ≤ maxFileSize) :
    (resizeFile junk (some f) newSize).Realizes d (V.resize newSize) fun _ d' V' =>
      ∃ chain', DiskRep d' (v.setFile f V') chain' := by
  obtain ⟨file, live, fileRep⟩ := rep.live f V stored
  cases resized : V.resize newSize with
  | some V' =>
    refine Ensures.mono (resizeFile_cuts junk rep stored packed small resized) fun _ d' result => ?_
    obtain ⟨_, _, _, -, -, -, -, rep', -⟩ := result
    exact ⟨_, rep'⟩
  | none =>
    rw [FileView.resize] at resized
    split at resized
    · next zero =>
      obtain ⟨rfl, some_block⟩ := zero
      have path := fileRep.path
      have sizes := fileRep.blocks.length_eq
      cases at_chain : chain f with
      | nil =>
        rw [at_chain] at sizes
        exact absurd (List.eq_nil_of_length_eq_zero sizes.symm) some_block
      | cons p l =>
        rw [at_chain] at path
        exact resizeFile_zero junk live path.1
    · unfold resizeFile
      refine Realizes.after (Lens.ensures_load.mpr ⟨f, rfl, file, live, ?_⟩)
      rw [Chain.head_eq fileRep.path]
      exact Realizes.stuck (resizeLoop_noReturn junk ⟨v, chain, V, [], chain f, [], V.blocks, rep, stored,
        rfl, rfl, rfl, rfl, lt_of_le_maxFileSize small, packed, Option.map_eq_none_iff.mp resized⟩)

end SysprogLabs.Userfs
