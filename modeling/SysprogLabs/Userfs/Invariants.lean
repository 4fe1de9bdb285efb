import SysprogLabs.Userfs.Api
import Mathlib.Algebra.Order.Ring.Int

/-! # Block chains and the size limit

What every reachable state says about the blocks of a file, read off the heap: the
shape of its chain, and the relation between what it stores and `bytes_left`.
-/

namespace SysprogLabs.Userfs

variable {junk : Junk} {s s' : State}

namespace Disk

/-- `occupied` of the block `p`, if it is live. -/
def occupied (d : Disk) (p : Nat) : Option Int := (d.blocks.cell p).map Block.occupied

/-- The bytes the blocks `l` store. -/
def stored (d : Disk) (l : List Nat) : Int := (l.map fun p => (d.occupied p).getD 0).sum

end Disk

/-! ## Block chains -/

/-- Full blocks, then at most one partially filled block, then only empty blocks. -/
def Filled (counts : List Int) : Prop :=
  ∃ (full empty : Nat) (part : List Int),
    counts = List.replicate full (blockSize : Int) ++ part ++ List.replicate empty 0 ∧
      part.length ≤ 1 ∧ ∀ c ∈ part, 0 < c ∧ c < blockSize

/-- `block_list` leads over the blocks `l` to `last_block`. -/
structure BlockChain (d : Disk) (file : File) (l : List Nat) : Prop where
  path : Chain d.nextBlock file.blockList l
  acyclic : l.Nodup
  null : file.blockList = none ↔ file.lastBlock = none
  last : file.lastBlock = l.getLast?
  prev : ∀ l₁ p q l₂, l = l₁ ++ p :: q :: l₂ → d.prevBlock q = some p
  occupied : ∃ counts : List Int, l.map d.occupied = counts.map some ∧
    (∀ c ∈ counts, 0 ≤ c ∧ c ≤ blockSize) ∧ Filled counts

theorem BlockRep.occupied {d : Disk} {p : Nat} {data : List Byte} (rep : BlockRep d p data) :
    d.occupied p = some (data.length : Int) := by
  obtain ⟨b, _, _, live, -, -, occupied, -⟩ := rep
  rw [Disk.occupied, live, Option.map_some, occupied]

theorem FileRep.occupied {d : Disk} {file : File} {V : FileView} {l : List Nat}
    (rep : FileRep d file V l) :
    l.map d.occupied = (V.blocks.map fun b => (b.length : Int)).map some := by
  have blocks := rep.blocks
  clear rep
  generalize V.blocks = bs at blocks
  induction blocks with
  | nil => rfl
  | cons here _ ih => rw [List.map_cons, List.map_cons, List.map_cons, ih, here.occupied]

theorem FileRep.stored {d : Disk} {file : File} {V : FileView} {l : List Nat}
    (rep : FileRep d file V l) : d.stored l = V.bytes.length := by
  have blocks := rep.blocks
  rw [FileView.bytes]
  clear rep
  generalize V.blocks = bs at blocks
  induction blocks with
  | nil => rfl
  | cons here _ ih =>
    rw [Disk.stored, List.map_cons, List.sum_cons, here.occupied, List.flatten_cons, List.length_append,
      Int.natCast_add, ← ih]
    rfl

/-- A packed block sequence is filled from the front. -/
theorem filled_of_packed {bs : List (List Byte)} (packed : Packed blockSize bs) :
    Filled (bs.map fun b => (b.length : Int)) := by
  induction bs with
  | nil => exact ⟨0, 0, [], rfl, Nat.zero_le _, fun c mem => by cases mem⟩
  | cons b bs ih =>
    cases packed with
    | inl here =>
      obtain ⟨full, empty, part, counts, short, partial'⟩ := ih here.2
      refine ⟨full + 1, empty, part, ?_, short, partial'⟩
      rw [List.map_cons, counts, here.1]
      rfl
    | inr here =>
      have rest : bs.map (fun b => (b.length : Int)) = List.replicate bs.length 0 := by
        rw [List.eq_replicate_iff]
        refine ⟨by simp, fun c mem => ?_⟩
        obtain ⟨b', mem', rfl⟩ := List.mem_map.mp mem
        rw [here.2 b' mem']
        rfl
      rw [List.map_cons, rest]
      -- An empty block counts among the empty ones.
      cases b with
      | nil => exact ⟨0, bs.length + 1, [], rfl, Nat.zero_le _, fun c mem => by cases mem⟩
      | cons x b =>
        refine ⟨0, bs.length, [((x :: b).length : Int)], rfl, Nat.le_refl 1, fun c mem => ?_⟩
        rw [List.mem_singleton.mp mem, List.length_cons]
        have := here.1
        rw [List.length_cons] at this
        omega

theorem FileRep.blockChain {d : Disk} {file : File} {V : FileView} {l : List Nat}
    (rep : FileRep d file V l) (packed : Packed blockSize V.blocks) : BlockChain d file l where
  path := rep.path
  acyclic := rep.nodup
  null := by
    rw [Chain.head_eq rep.path, rep.last, List.head?_eq_none_iff, List.getLast?_eq_none_iff]
  last := rep.last
  prev := by
    intro l₁ p q l₂ split
    have linked := rep.linked
    rw [split] at linked
    exact (List.isChain_cons_cons.mp (List.isChain_append.mp linked).2.1).1
  occupied := by
    refine ⟨_, rep.occupied, fun c mem => ?_, filled_of_packed packed⟩
    obtain ⟨b, mem', rfl⟩ := List.mem_map.mp mem
    have le := packed.le blockSize_pos b mem'
    omega

/-- In every reachable state each live file has a proper block chain, and no two files
    share a block. -/
theorem blocks_chained (reachable : Reachable (Step junk) State.init s) :
    ∃ chain : Nat → List Nat,
      (∀ f file, s.disk.files.cell f = some file → BlockChain s.disk file (chain f)) ∧
      ∀ f g p, (∃ file, s.disk.files.cell f = some file) → (∃ file, s.disk.files.cell g = some file) →
        p ∈ chain f → p ∈ chain g → f = g := by
  obtain ⟨v, rep, inv⟩ := reachable_onView reachable
  obtain ⟨chain, diskRep⟩ := rep.disk
  refine ⟨chain, fun f file live => ?_, fun f g p ⟨_, live⟩ ⟨_, live'⟩ mem mem' => ?_⟩
  · obtain ⟨V, stored, fileRep⟩ := diskRep.file_stored live
    exact fileRep.blockChain (inv.disk.packed f V stored)
  · obtain ⟨V, stored, -⟩ := diskRep.file_stored live
    obtain ⟨W, stored', -⟩ := diskRep.file_stored live'
    exact diskRep.disjoint f g V W p stored stored' mem mem'

theorem blocks_chained_written : ∃ s, Reachable (Step Junk.zero) State.init s ∧
    ∃ chain : Nat → List Nat,
      (∀ f file, s.disk.files.cell f = some file → BlockChain s.disk file (chain f)) ∧
      ∀ f g p, (∃ file, s.disk.files.cell f = some file) → (∃ file, s.disk.files.cell g = some file) →
        p ∈ chain f → p ∈ chain g → f = g := by
  obtain ⟨s, run⟩ := execute_answers Junk.zero
    (show (execute Junk.zero 5 [.ufsOpen [97] 1, .ufsWrite 0 [1, 2, 3], .ufsOpen [98] 1] State.init).map
      Prod.fst = some [⟨0, [], .noErr⟩, ⟨3, [], .noErr⟩, ⟨1, [], .noErr⟩] by decide +kernel)
  exact ⟨s, ⟨_, run⟩, blocks_chained ⟨_, run⟩⟩

/-! ## The size limit -/

/-- A live file and the view of it. -/
theorem Abstracts.file {v : View} (abstracts : Abstracts s v) {f : Nat} {V : FileView}
    (stored : v.disk.file f = some V) :
    ∃ file l, s.disk.files.cell f = some file ∧ file.bytesLeft = V.bytesLeft ∧
      Chain s.disk.nextBlock file.blockList l ∧ s.disk.stored l = V.bytes.length := by
  obtain ⟨⟨⟨chain, diskRep⟩, -, -⟩, -⟩ := abstracts
  obtain ⟨file, live, fileRep⟩ := diskRep.live f V stored
  exact ⟨file, chain f, live, fileRep.bytesLeft, fileRep.path, fileRep.stored⟩

/-- No file ever stores more than `MAX_FILE_SIZE` bytes, and neither the update of
    `bytes_left` in `ufs_write` nor the one in `ufs_resize` wraps. -/
theorem size_limited (reachable : Reachable (Step junk) State.init s) :
    (∀ f file, s.disk.files.cell f = some file →
      ∃ l, Chain s.disk.nextBlock file.blockList l ∧ s.disk.stored l ≤ maxFileSize ∧
        file.bytesLeft + s.disk.stored l ≤ maxFileSize) ∧
    (∀ fd buf out s', Step junk s (.ufsWrite fd buf, out) s' → out.ret ≠ -1 →
      ∃ f file file', s.table.fileOf fd = some f ∧ s.disk.files.cell f = some file ∧
        s'.disk.files.cell f = some file' ∧ file'.bytesLeft + buf.length = file.bytesLeft) ∧
    (∀ fd newSize out s', Step junk s (.ufsResize fd newSize, out) s' → out.ret ≠ -1 →
      ∃ f file' l, s.table.fileOf fd = some f ∧ s'.disk.files.cell f = some file' ∧
        Chain s'.disk.nextBlock file'.blockList l ∧
        file'.bytesLeft + s'.disk.stored l = maxFileSize) := by
  obtain ⟨v, abstracts⟩ := reachable_onView reachable
  have table : s.table = v.table := abstracts.1.table
  have inv := abstracts.2
  refine ⟨fun f file live => ?_, fun fd buf out s' step success => ?_,
    fun fd newSize out s' step success => ?_⟩
  · obtain ⟨chain, diskRep⟩ := abstracts.1.disk
    obtain ⟨V, stored, fileRep⟩ := diskRep.file_stored live
    have quota := inv.disk.quota f V stored
    refine ⟨chain f, fileRep.path, ?_, ?_⟩
    · rw [fileRep.stored]
      omega
    · rw [fileRep.stored, fileRep.bytesLeft]
      omega
  · obtain ⟨v', stepped, abstracts'⟩ := step.onView abstracts
    cases View.step_effect stepped with
    | refused why => exact absurd rfl success
    | @wrote _ _ p f r V V' found allowed file stored fits written =>
      obtain ⟨file₀, _, live, left, -⟩ := abstracts.file stored
      obtain ⟨file', _, live', left', -⟩ := abstracts'.file (f := f) DiskView.setFile_stored
      obtain ⟨-, -, -, rest, -⟩ := FileView.write_fields written
      refine ⟨f, file₀, file', ?_, live, live', ?_⟩
      · rw [table, Table.fileOf_eq found, file]
      · rw [left', left, rest]
        omega
  · obtain ⟨v', stepped, abstracts'⟩ := step.onView abstracts
    cases View.step_effect stepped with
    | refused why => exact absurd rfl success
    | @resized _ _ p f r V V' found allowed file stored small resized =>
      obtain ⟨file', l, live', left', path, size⟩ := abstracts'.file (f := f) DiskView.setFile_stored
      obtain ⟨-, -, -, rest, -⟩ := FileView.resize_fields resized
      have kept := FileView.resize_bytes (inv.disk.packed f V stored) resized
      have quota := inv.disk.quota f V stored
      refine ⟨f, file', l, ?_, live', path, ?_⟩
      · rw [table, Table.fileOf_eq found, file]
      · rw [left', size, rest, kept, List.length_take]
        omega

theorem size_limited_written : ∃ s, Reachable (Step Junk.zero) State.init s ∧
    ∀ f file, s.disk.files.cell f = some file →
      ∃ l, Chain s.disk.nextBlock file.blockList l ∧ s.disk.stored l ≤ maxFileSize ∧
        file.bytesLeft + s.disk.stored l ≤ maxFileSize := by
  obtain ⟨s, run⟩ := execute_answers Junk.zero
    (show (execute Junk.zero 5 [.ufsOpen [97] 1, .ufsWrite 0 [1, 2, 3], .ufsResize 0 2] State.init).map
      Prod.fst = some [⟨0, [], .noErr⟩, ⟨3, [], .noErr⟩, ⟨0, [], .noErr⟩] by decide +kernel)
  exact ⟨s, ⟨_, run⟩, (size_limited ⟨_, run⟩).1⟩

end SysprogLabs.Userfs
