import SysprogLabs.Lib.Blocks
import SysprogLabs.Lib.Links
import SysprogLabs.Userfs.Model
import Mathlib.Data.List.Forall2

/-! # What a disk stores

A `DiskView` is a disk without its pointers: each file with the stored bytes of
its blocks, and the order of `file_list`.  `DiskRep d v chain` says that the heap
of `d` lays out exactly the view `v`, with the blocks of file `f` at the addresses
`chain f`; exactly, because every live object belongs to a file of the view.

The lemmas below say how each kind of heap change moves the view.
-/

namespace SysprogLabs.Userfs

structure FileView where
  name : Name
  blocks : List (List Byte)
  refs : Int
  bytesLeft : Nat
  inList : Bool

/-- The contents of the file. -/
def FileView.bytes (V : FileView) : List Byte := V.blocks.flatten

structure DiskView where
  file : Nat → Option FileView
  next : Nat
  order : List Nat

def DiskView.setFile (v : DiskView) (f : Nat) (V : FileView) : DiskView :=
  { v with file := fun g => if g = f then some V else v.file g }

/-- An empty file, not listed yet. -/
def FileView.new (name : Name) : FileView :=
  { name, blocks := [], refs := 0, bytesLeft := maxFileSize, inList := true }

/-- Allocates a file. -/
def DiskView.alloc (v : DiskView) (V : FileView) : DiskView :=
  { v with file := fun g => if g = v.next then some V else v.file g, next := v.next + 1 }

/-- Releases the file `f`. -/
def DiskView.release (v : DiskView) (f : Nat) : DiskView :=
  { v with file := fun g => if g = f then none else v.file g }

namespace DiskView

variable {v : DiskView} {f g : Nat} {V W : FileView}

@[simp] theorem setFile_file : (v.setFile f V).file g = if g = f then some V else v.file g := rfl
theorem setFile_stored : (v.setFile f V).file f = some V := if_pos rfl

@[simp] theorem setFile_next : (v.setFile f V).next = v.next := rfl
@[simp] theorem setFile_order : (v.setFile f V).order = v.order := rfl

@[simp] theorem setFile_setFile : (v.setFile f V).setFile f W = v.setFile f W := by
  simp only [setFile, mk.injEq, and_true]
  funext g
  split <;> rfl

theorem setFile_self (stored : v.file f = some V) : v.setFile f V = v := by
  cases v
  simp only [setFile, mk.injEq, and_true]
  funext g
  split
  · next here => rw [here]; exact stored.symm
  · rfl

end DiskView

namespace Disk

def nextBlock (d : Disk) (p : Nat) : Ptr := (d.blocks.cell p).bind Block.next
def prevBlock (d : Disk) (p : Nat) : Ptr := (d.blocks.cell p).bind Block.prev
def nextFile (d : Disk) (f : Nat) : Ptr := (d.files.cell f).bind File.next
def prevFile (d : Disk) (f : Nat) : Ptr := (d.files.cell f).bind File.prev
def nameOf (d : Disk) (f : Nat) : Option Name := (d.files.cell f).bind fun file => file.name.bind d.names.cell
def memoryOf (d : Disk) (p : Nat) : Ptr := (d.blocks.cell p).bind Block.memory

end Disk

/-- What has been released so far, the last release first. -/
structure Ledger where
  files : List Nat
  names : List Nat
  blocks : List Nat
  memories : List Nat

def Disk.ledger (d : Disk) : Ledger where
  files := d.files.freed
  names := d.names.freed
  blocks := d.blocks.freed
  memories := d.memories.freed

/-- The ledger once the file `f` is released, with its name `n`, its blocks `l` and their
    memory. -/
def Disk.bury (d : Disk) (f n : Nat) (l : List Nat) : Ledger where
  files := f :: d.files.freed
  names := n :: d.names.freed
  blocks := l.reverse ++ d.blocks.freed
  memories := (l.filterMap d.memoryOf).reverse ++ d.memories.freed

theorem Disk.bury_congr {d d' : Disk} (ledger : d'.ledger = d.ledger) (blocks : d'.blocks = d.blocks)
    (f n : Nat) (l : List Nat) : d'.bury f n l = d.bury f n l := by
  simp only [Disk.ledger, Ledger.mk.injEq] at ledger
  have memoryOf : d'.memoryOf = d.memoryOf := by
    funext p
    rw [Disk.memoryOf, Disk.memoryOf, blocks]
  rw [Disk.bury, Disk.bury, ledger.1, ledger.2.1, ledger.2.2.1, ledger.2.2.2, memoryOf]

/-- The block `p` stores `data`. -/
def BlockRep (d : Disk) (p : Nat) (data : List Byte) : Prop :=
  ∃ b m mem, d.blocks.cell p = some b ∧ b.memory = some m ∧ d.memories.cell m = some mem ∧
    b.occupied = data.length ∧ mem.bytes.take data.length = data

structure FileRep (d : Disk) (file : File) (V : FileView) (chain : List Nat) : Prop where
  path : Chain d.nextBlock file.blockList chain
  linked : Linked d.prevBlock chain
  last : file.lastBlock = chain.getLast?
  blocks : List.Forall₂ (BlockRep d) chain V.blocks
  name : ∃ n, file.name = some n ∧ d.names.cell n = some V.name
  refs : file.refs = V.refs
  bytesLeft : file.bytesLeft = V.bytesLeft
  inList : file.inList = V.inList

structure DiskRep (d : Disk) (v : DiskView) (chain : Nat → List Nat) : Prop where
  next : d.files.next = v.next
  live : ∀ f V, v.file f = some V → ∃ file, d.files.cell f = some file ∧ FileRep d file V (chain f)
  dead : ∀ f, v.file f = none → d.files.cell f = none
  list : DList d.nextFile d.prevFile d.fileList v.order
  onDisk : ∀ f ∈ v.order, ∃ V, v.file f = some V
  names : Owns d.files File.name d.names
  memories : Owns d.blocks Block.memory d.memories
  disjoint : ∀ f g V W p, v.file f = some V → v.file g = some W → p ∈ chain f → p ∈ chain g → f = g
  covered : ∀ p b, d.blocks.cell p = some b → ∃ f V, v.file f = some V ∧ p ∈ chain f

/-! ## Blocks of one file -/

theorem forall₂_append_iff {α β : Type} {R : α → β → Prop} {l₁ l₂ : List α} {bs : List β} :
    List.Forall₂ R (l₁ ++ l₂) bs ↔
      ∃ b₁ b₂, bs = b₁ ++ b₂ ∧ List.Forall₂ R l₁ b₁ ∧ List.Forall₂ R l₂ b₂ := by
  constructor
  · intro rel
    induction l₁ generalizing bs with
    | nil => exact ⟨[], bs, rfl, .nil, rel⟩
    | cons a l₁ ih =>
      cases rel with
      | cons head tail =>
        obtain ⟨b₁, b₂, rfl, rel₁, rel₂⟩ := ih tail
        exact ⟨_ :: b₁, b₂, rfl, .cons head rel₁, rel₂⟩
  · rintro ⟨b₁, b₂, rfl, rel₁, rel₂⟩
    exact List.rel_append rel₁ rel₂

theorem BlockRep.length_le {d : Disk} {p : Nat} {data : List Byte} (rep : BlockRep d p data) :
    data.length ≤ blockSize := by
  obtain ⟨_, _, mem, _, _, _, _, stored⟩ := rep
  have len := congrArg List.length stored
  rw [List.length_take, mem.size] at len
  omega

theorem BlockRep.frame {d d' : Disk} {p : Nat} {data : List Byte} (rep : BlockRep d p data)
    (block : d'.blocks.cell p = d.blocks.cell p)
    (memory : ∀ b m, d.blocks.cell p = some b → b.memory = some m →
      d'.memories.cell m = d.memories.cell m) : BlockRep d' p data := by
  obtain ⟨b, m, mem, live, field, stored, rest⟩ := rep
  exact ⟨b, m, mem, block.trans live, field, (memory b m live field).trans stored, rest⟩

namespace FileRep

variable {d d' : Disk} {file file' : File} {V : FileView} {chain : List Nat}

theorem nodup (rep : FileRep d file V chain) : chain.Nodup := rep.path.nodup

theorem block (rep : FileRep d file V chain) {p : Nat} (mem : p ∈ chain) :
    ∃ data, BlockRep d p data := by
  obtain ⟨l₁, l₂, rfl⟩ := List.append_of_mem mem
  obtain ⟨_, _, -, -, rel⟩ := forall₂_append_iff.mp rep.blocks
  cases rel with
  | cons here _ => exact ⟨_, here⟩

theorem live (rep : FileRep d file V chain) {p : Nat} (mem : p ∈ chain) :
    ∃ b, d.blocks.cell p = some b := by
  obtain ⟨_, b, _, _, live, _⟩ := rep.block mem
  exact ⟨b, live⟩

/-- A file only depends on its own blocks, their memory and its name. -/
theorem frame (rep : FileRep d file V chain)
    (blocks : ∀ p ∈ chain, d'.blocks.cell p = d.blocks.cell p)
    (memories : ∀ p ∈ chain, ∀ b m, d.blocks.cell p = some b → b.memory = some m →
      d'.memories.cell m = d.memories.cell m)
    (names : ∀ n, file.name = some n → d'.names.cell n = d.names.cell n) :
    FileRep d' file V chain where
  path := Path.congr rep.path fun p mem => by rw [Disk.nextBlock, Disk.nextBlock, blocks p mem]
  linked := rep.linked.congr fun p mem => by rw [Disk.prevBlock, Disk.prevBlock, blocks p mem]
  last := rep.last
  blocks := by
    have own : List.Forall₂ (fun p data => p ∈ chain ∧ BlockRep d p data) chain V.blocks :=
      List.forall₂_and_left _ _ |>.mpr ⟨fun _ mem => mem, rep.blocks⟩
    exact own.imp fun p data here => here.2.frame (blocks p here.1) (memories p here.1)
  name := by
    obtain ⟨n, field, stored⟩ := rep.name
    exact ⟨n, field, (names n field).trans stored⟩
  refs := rep.refs
  bytesLeft := rep.bytesLeft
  inList := rep.inList

end FileRep

/-! ## Changes of the heap -/

namespace DiskRep

variable {d d' : Disk} {v : DiskView} {chain : Nat → List Nat} {f : Nat} {V : FileView}

theorem file_stored (rep : DiskRep d v chain) {file : File} (live : d.files.cell f = some file) :
    ∃ V, v.file f = some V ∧ FileRep d file V (chain f) := by
  cases stored : v.file f with
  | none =>
    rw [rep.dead f stored] at live
    cases live
  | some V =>
    obtain ⟨file', live', fileRep⟩ := rep.live f V stored
    rw [live] at live'
    cases live'
    exact ⟨V, rfl, fileRep⟩

/-- The blocks of a file are live, and so is their memory. -/
theorem block_live (rep : DiskRep d v chain) (stored : v.file f = some V) {p : Nat}
    (mem : p ∈ chain f) : ∃ b, d.blocks.cell p = some b := by
  obtain ⟨file, -, fileRep⟩ := rep.live f V stored
  exact fileRep.live mem

/-- A change that stays inside one file: its record keeps its name and its links, and
    every object outside its old chain is untouched. -/
theorem update (rep : DiskRep d v chain) (stored : v.file f = some V) {file file' : File}
    (live : d.files.cell f = some file) {V' : FileView} {l' : List Nat}
    (files : d'.files = d.files.put f file') (names : d'.names = d.names)
    (fileList : d'.fileList = d.fileList)
    (same_name : file'.name = file.name) (same_next : file'.next = file.next)
    (same_prev : file'.prev = file.prev)
    (owns : Owns d'.blocks Block.memory d'.memories)
    (fileRep : FileRep d' file' V' l')
    (others : ∀ p b, d.blocks.cell p = some b → p ∉ chain f → d'.blocks.cell p = some b ∧
      ∀ m, b.memory = some m → d'.memories.cell m = d.memories.cell m)
    (own : ∀ p ∈ l', p ∈ chain f ∨ d.blocks.cell p = none)
    (covered : ∀ p b, d'.blocks.cell p = some b → p ∈ l' ∨ (d.blocks.cell p = some b ∧ p ∉ chain f)) :
    DiskRep d' (v.setFile f V') (Function.update chain f l') := by
  have cell : ∀ g, d'.files.cell g = if g = f then some file' else d.files.cell g := by
    intro g
    rw [files, Store.put_cell]
    split
    · next at_f => rw [at_f, live]; rfl
    · rfl
  have next_eq : ∀ g, d'.nextFile g = d.nextFile g := by
    intro g
    simp only [Disk.nextFile, cell]
    split
    · next at_f => rw [at_f, live]; exact same_next
    · rfl
  have prev_eq : ∀ g, d'.prevFile g = d.prevFile g := by
    intro g
    simp only [Disk.prevFile, cell]
    split
    · next at_f => rw [at_f, live]; exact same_prev
    · rfl
  -- No other file has a block in the new chain.
  have apart : ∀ g W p, v.file g = some W → g ≠ f → p ∈ chain g → p ∉ l' := by
    intro g W p stored_g other mem mem'
    cases own p mem' with
    | inl mem_f => exact other (rep.disjoint g f W V p stored_g stored mem mem_f)
    | inr dead =>
      obtain ⟨b, at_p⟩ := rep.block_live stored_g mem
      rw [dead] at at_p
      cases at_p
  constructor
  · rw [files]
    exact rep.next
  · intro g W at_g
    simp only [DiskView.setFile] at at_g
    by_cases here : g = f
    · subst here
      rw [if_pos rfl] at at_g
      cases at_g
      exact ⟨file', by rw [cell, if_pos rfl], by rw [Function.update_self]; exact fileRep⟩
    · rw [if_neg here] at at_g
      obtain ⟨file_g, live_g, rep_g⟩ := rep.live g W at_g
      have off : ∀ p ∈ chain g, p ∉ chain f := fun p mem mem_f =>
        here (rep.disjoint g f W V p at_g stored mem mem_f)
      have keep : ∀ p ∈ chain g, ∀ b, d.blocks.cell p = some b → d'.blocks.cell p = some b ∧
          ∀ m, b.memory = some m → d'.memories.cell m = d.memories.cell m :=
        fun p mem b at_p => others p b at_p (off p mem)
      refine ⟨file_g, by rw [cell, if_neg here]; exact live_g, ?_⟩
      rw [Function.update_of_ne here]
      apply rep_g.frame
      · intro p mem
        obtain ⟨b, at_p⟩ := rep_g.live mem
        rw [at_p, (keep p mem b at_p).1]
      · exact fun p mem b m at_p field => (keep p mem b at_p).2 m field
      · exact fun n _ => by rw [names]
  · intro g gone
    simp only [DiskView.setFile] at gone
    split at gone
    · cases gone
    · next here => rw [cell, if_neg here]; exact rep.dead g gone
  · rw [fileList]
    exact rep.list.congr (fun g _ => next_eq g) (fun g _ => prev_eq g)
  · intro g listed
    obtain ⟨W, at_g⟩ := rep.onDisk g listed
    by_cases here : g = f
    · exact ⟨V', by simp [DiskView.setFile, here]⟩
    · exact ⟨W, by simp [DiskView.setFile, here, at_g]⟩
  · rw [files, names]
    exact rep.names.put_owner live same_name
  · exact owns
  · intro g h W X p at_g at_h mem mem'
    simp only [DiskView.setFile] at at_g at_h
    by_cases here : g = f <;> by_cases here' : h = f
    · exact here.trans here'.symm
    · subst here
      rw [if_neg here'] at at_h
      rw [Function.update_self] at mem
      rw [Function.update_of_ne here'] at mem'
      exact absurd mem (apart h X p at_h here' mem')
    · subst here'
      rw [if_neg here] at at_g
      rw [Function.update_self] at mem'
      rw [Function.update_of_ne here] at mem
      exact absurd mem' (apart g W p at_g here mem)
    · rw [if_neg here] at at_g
      rw [if_neg here'] at at_h
      rw [Function.update_of_ne here] at mem
      rw [Function.update_of_ne here'] at mem'
      exact rep.disjoint g h W X p at_g at_h mem mem'
  · intro p b at_p
    cases covered p b at_p with
    | inl mem => exact ⟨f, V', by simp [DiskView.setFile], by rw [Function.update_self]; exact mem⟩
    | inr old =>
      obtain ⟨g, W, at_g, mem⟩ := rep.covered p b old.1
      have here : g ≠ f := by
        intro here
        subst here
        exact old.2 mem
      exact ⟨g, W, by simp [DiskView.setFile, here, at_g], by rw [Function.update_of_ne here]; exact mem⟩

/-- A block of the chain stores the data at its place in the view. -/
theorem stores (rep : DiskRep d v chain) (stored : v.file f = some V) {l₁ l₂ : List Nat} {p : Nat}
    (at_p : chain f = l₁ ++ p :: l₂) {front rest : List (List Byte)} {data : List Byte}
    (blocks : V.blocks = front ++ data :: rest) (len : front.length = l₁.length) :
    BlockRep d p data := by
  obtain ⟨file, -, fileRep⟩ := rep.live f V stored
  have rel := fileRep.blocks
  rw [at_p, blocks] at rel
  obtain ⟨cs₁, cs₂, same, before, here⟩ := forall₂_append_iff.mp rel
  obtain ⟨rfl, rfl⟩ := List.append_inj same (len.trans before.length_eq)
  cases here with
  | cons here _ => exact here

/-- A block of the file gets new contents, in its old memory or in a new one. -/
theorem setBlock (rep : DiskRep d v chain) (stored : v.file f = some V) {l₁ l₂ : List Nat} {p : Nat}
    (at_p : chain f = l₁ ++ p :: l₂) {bs₁ bs₂ : List (List Byte)} {old data : List Byte}
    (blocks : V.blocks = bs₁ ++ old :: bs₂) (len : bs₁.length = l₁.length)
    {b b' : Block} (live : d.blocks.cell p = some b) (same_next : b'.next = b.next)
    (same_prev : b'.prev = b.prev) {M' : Store Memory}
    (owns : Owns (d.blocks.put p b') Block.memory M')
    (others : ∀ q c m, q ≠ p → d.blocks.cell q = some c → c.memory = some m →
      M'.cell m = d.memories.cell m)
    (m : Nat) (mem : Memory) (field : b'.memory = some m) (at_m : M'.cell m = some mem)
    (occupied : b'.occupied = data.length) (contents : mem.bytes.take data.length = data) :
    DiskRep { d with blocks := d.blocks.put p b', memories := M' }
      (v.setFile f { V with blocks := bs₁ ++ data :: bs₂ }) chain := by
  obtain ⟨file, live_f, fileRep⟩ := rep.live f V stored
  have cell : ∀ q, (d.blocks.put p b').cell q = if q = p then some b' else d.blocks.cell q := by
    intro q
    rw [Store.put_cell]
    split
    · next here => rw [here, live]; rfl
    · rfl
  have stores : BlockRep { d with blocks := d.blocks.put p b', memories := M' } p data :=
    ⟨b', m, mem, by simp [live], field, at_m, occupied, contents⟩
  have in_chain : p ∈ chain f := by simp [at_p]
  have keep : ∀ q ∈ chain f, q ≠ p → ∀ data, BlockRep d q data →
      BlockRep { d with blocks := d.blocks.put p b', memories := M' } q data := by
    intro q _ apart data here
    exact here.frame (by simp [apart]) fun c m at_q field => others q c m apart at_q field
  rw [← Function.update_eq_self f chain]
  refine rep.update stored live_f (Store.put_self live_f).symm rfl rfl rfl rfl rfl owns ?_ ?_
    (fun q mem => .inl mem) ?_
  · have nodup := fileRep.nodup
    rw [at_p, List.nodup_append, List.nodup_cons] at nodup
    obtain ⟨-, ⟨fresh₂, -⟩, apart⟩ := nodup
    have rel := fileRep.blocks
    rw [blocks, at_p] at rel
    obtain ⟨cs₁, cs, split, before, rest⟩ := forall₂_append_iff.mp rel
    obtain ⟨rfl, rfl⟩ := List.append_inj split (len.trans before.length_eq)
    cases rest with
    | cons _ after =>
      refine { fileRep with path := ?_, linked := ?_, blocks := ?_ }
      · refine Path.congr fileRep.path fun q _ => ?_
        simp only [Disk.nextBlock, cell]
        split
        · next here => rw [here, live]; exact same_next
        · rfl
      · refine fileRep.linked.congr fun q _ => ?_
        simp only [Disk.prevBlock, cell]
        split
        · next here => rw [here, live]; exact same_prev
        · rfl
      · rw [at_p]
        have before' := List.forall₂_and_left _ _ |>.mpr ⟨fun q mem => mem, before⟩
        have after' := List.forall₂_and_left _ _ |>.mpr ⟨fun q mem => mem, after⟩
        apply List.rel_append
        · exact before'.imp fun q data here =>
            keep q (by simp [at_p, here.1]) (apart q here.1 p (by simp)) data here.2
        · refine .cons stores (after'.imp fun q data here => ?_)
          refine keep q (by simp [at_p, here.1]) ?_ data here.2
          intro same
          exact fresh₂ (same ▸ here.1)
  · intro q c at_q off
    have apart : q ≠ p := by
      intro same
      rw [same] at off
      exact off in_chain
    exact ⟨by rw [cell, if_neg apart]; exact at_q, fun m field => others q c m apart at_q field⟩
  · intro q c at_q
    by_cases mem : q ∈ chain f
    · exact .inl mem
    · have apart : q ≠ p := by
        intro same
        rw [same] at mem
        exact mem in_chain
      rw [cell, if_neg apart] at at_q
      exact .inr ⟨at_q, mem⟩

/-- A new empty block behind the last one. -/
theorem appendBlock (rep : DiskRep d v chain) (stored : v.file f = some V) {file : File}
    (live : d.files.cell f = some file) (blocks' : Store Block) (mem : Memory) (new : Block)
    (cell : ∀ q, blocks'.cell q = if q = d.blocks.next then some new else
      (d.blocks.cell q).map fun b =>
        if (chain f).getLast? = some q then { b with next := some d.blocks.next } else b)
    (memory : new.memory = some d.memories.next) (occupied : new.occupied = 0)
    (next : new.next = none) (prev : chain f ≠ [] → new.prev = (chain f).getLast?) :
    DiskRep
      { d with
        memories := d.memories.alloc mem
        blocks := blocks'
        files := d.files.put f { file with
          blockList := if chain f = [] then some d.blocks.next else file.blockList
          lastBlock := some d.blocks.next } }
      (v.setFile f { V with blocks := V.blocks ++ [[]] })
      (Function.update chain f (chain f ++ [d.blocks.next])) := by
  obtain ⟨file₁, live₁, fileRep⟩ := rep.live f V stored
  rw [live] at live₁
  cases live₁
  have keep : ∀ q m b, d.blocks.cell q = some b → b.memory = some m →
      (d.memories.alloc mem).cell m = d.memories.cell m := by
    intro q m b at_q field
    obtain ⟨m', c, field', at_m⟩ := rep.memories.owned q b at_q
    rw [field] at field'
    cases field'
    rw [Store.alloc_cell, if_neg (Nat.ne_of_lt (Store.lt_next at_m))]
  have in_old : ∀ q b, d.blocks.cell q = some b → q ≠ d.blocks.next := fun q b at_q =>
    Nat.ne_of_lt (Store.lt_next at_q)
  have linked_to : ∀ q b, d.blocks.cell q = some b → ∃ b', blocks'.cell q = some b' ∧
      b'.memory = b.memory ∧ b'.occupied = b.occupied ∧ b'.prev = b.prev ∧
      b'.next = if (chain f).getLast? = some q then some d.blocks.next else b.next := by
    intro q b at_q
    rw [cell, if_neg (in_old q b at_q), at_q]
    refine ⟨_, rfl, ?_⟩
    split <;> simp
  refine rep.update stored live rfl rfl rfl rfl rfl rfl ?owns ?file ?others ?own ?covered
  case owns =>
    refine (rep.memories.alloc memory).congr_owner fun q => ?_
    rw [cell, Store.alloc_cell]
    split
    · rfl
    · rw [Option.map_map]
      congr 1
      funext b
      show Block.memory (if _ then _ else _) = b.memory
      split <;> rfl
  case file =>
    have new_next : (blocks'.cell d.blocks.next).bind Block.next = none := by
      rw [cell, if_pos rfl]
      exact next
    refine { path := ?_, linked := ?_, last := by simp, blocks := ?_, name := fileRep.name,
             refs := fileRep.refs, bytesLeft := fileRep.bytesLeft, inList := fileRep.inList }
    · show Chain _ (if chain f = [] then _ else file.blockList) _
      cases List.eq_nil_or_concat' (chain f) with
      | inl empty =>
        rw [empty, if_pos rfl]
        exact ⟨rfl, new_next⟩
      | inr split =>
        obtain ⟨l, last, at_last⟩ := split
        rw [at_last, if_neg (by simp)]
        have path := fileRep.path
        have nodup := fileRep.nodup
        rw [at_last] at path nodup
        rw [List.nodup_append] at nodup
        refine Path.append_iff.mpr ⟨some d.blocks.next, path.redirect ?_ ?_, rfl, new_next⟩
        · intro q mem
          obtain ⟨b, at_q⟩ := fileRep.live (show q ∈ chain f by simp [at_last, mem])
          obtain ⟨b', at_q', -, -, -, link⟩ := linked_to q b at_q
          have apart : last ≠ q := fun same => nodup.2.2 q mem last (by simp) same.symm
          simp [Disk.nextBlock, at_q, at_q', link, at_last, apart]
        · obtain ⟨b, at_q⟩ := fileRep.live (show last ∈ chain f by simp [at_last])
          obtain ⟨b', at_q', -, -, -, link⟩ := linked_to last b at_q
          simp [Disk.nextBlock, at_q', link, at_last]
    · refine List.isChain_append.mpr ⟨fileRep.linked.congr fun q mem => ?_, .singleton _, ?_⟩
      · obtain ⟨b, at_q⟩ := fileRep.live mem
        obtain ⟨b', at_q', -, -, link, -⟩ := linked_to q b at_q
        simp [Disk.prevBlock, at_q, at_q', link]
      · intro q last p head
        cases head
        simp only [Disk.prevBlock, cell, if_pos, Option.bind_some]
        rw [prev (by intro empty; simp [empty] at last), last]
    · apply List.rel_append
      · have own := List.forall₂_and_left _ _ |>.mpr ⟨fun q mem => mem, fileRep.blocks⟩
        refine own.imp fun q data here => ?_
        obtain ⟨mem_q, b, m, c, at_q, field, at_m, size, contents⟩ := here
        obtain ⟨b', at_q', memory', occupied', -⟩ := linked_to q b at_q
        exact ⟨b', m, c, at_q', memory'.trans field, (keep q m b at_q field).trans at_m,
          occupied'.trans size, contents⟩
      · refine .cons ⟨new, d.memories.next, mem, ?_, memory, ?_, occupied, rfl⟩ .nil
        · show blocks'.cell _ = _
          rw [cell, if_pos rfl]
        · show (d.memories.alloc mem).cell _ = _
          simp
  case others =>
    intro q b at_q off
    refine ⟨?_, fun m field => keep q m b at_q field⟩
    show blocks'.cell q = _
    rw [cell, if_neg (in_old q b at_q), at_q, Option.map_some, if_neg]
    exact fun last => off (List.mem_of_getLast? last)
  case own =>
    intro q mem
    cases List.mem_append.mp mem with
    | inl mem => exact .inl mem
    | inr mem => exact .inr (by rw [List.mem_singleton.mp mem]; exact Store.next_dead _)
  case covered =>
    intro q b at_q
    have at_q : blocks'.cell q = some b := at_q
    by_cases mem : q ∈ chain f
    · exact .inl (List.mem_append_left _ mem)
    rw [cell] at at_q
    split at at_q
    · next here => exact .inl (by simp [here])
    · have middle : (chain f).getLast? ≠ some q := fun last => mem (List.mem_of_getLast? last)
      simp only [middle, if_false, Option.map_id'] at at_q
      exact .inr ⟨at_q, mem⟩

/-- The chain ends at `last`; the blocks behind it are released. -/
theorem truncate (rep : DiskRep d v chain) (stored : v.file f = some V) {file : File}
    (live : d.files.cell f = some file) {l l₂ : List Nat} {last : Nat}
    (split : chain f = l ++ [last] ++ l₂) {bs₁ bs₂ : List (List Byte)}
    (blocks : V.blocks = bs₁ ++ bs₂) (len : bs₁.length = (l ++ [last]).length)
    {blocks' : Store Block} {memories' : Store Memory} (owns : Owns blocks' Block.memory memories')
    (cell : ∀ q, blocks'.cell q = if q ∈ l₂ then none else
      (d.blocks.cell q).map fun b => if q = last then { b with next := none } else b)
    (kept : ∀ q b m, q ∉ l₂ → d.blocks.cell q = some b → b.memory = some m →
      memories'.cell m = d.memories.cell m) :
    DiskRep
      { d with
        memories := memories'
        blocks := blocks'
        files := d.files.put f { file with lastBlock := some last } }
      (v.setFile f { V with blocks := bs₁ }) (Function.update chain f (l ++ [last])) := by
  obtain ⟨file₁, live₁, fileRep⟩ := rep.live f V stored
  rw [live] at live₁
  cases live₁
  have path := fileRep.path
  have nodup := fileRep.nodup
  have linked := fileRep.linked
  rw [split] at path nodup linked
  have apart : ∀ q ∈ l ++ [last], q ∉ l₂ := fun q mem mem' =>
    (List.nodup_append.mp nodup).2.2 q mem q mem' rfl
  have middle : ∀ q ∈ l, q ≠ last := by
    intro q mem
    have nodup := (List.nodup_append.mp nodup).1
    exact (List.nodup_append.mp nodup).2.2 q mem last (by simp)
  have stays : ∀ q b, q ∉ l₂ → d.blocks.cell q = some b → ∃ b', blocks'.cell q = some b' ∧
      b'.memory = b.memory ∧ b'.occupied = b.occupied ∧ b'.prev = b.prev ∧
      b'.next = if q = last then none else b.next := by
    intro q b off at_q
    rw [cell, if_neg off, at_q]
    refine ⟨_, rfl, ?_⟩
    split <;> simp
  refine rep.update stored live rfl rfl rfl rfl rfl rfl owns ?file ?others ?own ?covered
  case file =>
    refine { path := ?_, linked := ?_, last := by simp, blocks := ?_, name := fileRep.name,
             refs := fileRep.refs, bytesLeft := fileRep.bytesLeft, inList := fileRep.inList }
    · obtain ⟨mid, front, -⟩ := Path.append_iff.mp path
      apply front.redirect
      · intro q mem
        obtain ⟨b, at_q⟩ := fileRep.live (show q ∈ chain f by simp [split, mem])
        obtain ⟨b', at_q', -, -, -, link⟩ := stays q b (apart q (by simp [mem])) at_q
        simp [Disk.nextBlock, at_q, at_q', link, middle q mem]
      · obtain ⟨b, at_q⟩ := fileRep.live (show last ∈ chain f by simp [split])
        obtain ⟨b', at_q', -, -, -, link⟩ := stays last b (apart last (by simp)) at_q
        simp [Disk.nextBlock, at_q', link]
    · refine Linked.congr (List.isChain_append.mp linked).1 fun q mem => ?_
      obtain ⟨b, at_q⟩ := fileRep.live (show q ∈ chain f by rw [split]; exact List.mem_append_left _ mem)
      obtain ⟨b', at_q', -, -, link, -⟩ := stays q b (apart q mem) at_q
      simp [Disk.prevBlock, at_q, at_q', link]
    · have rel := fileRep.blocks
      rw [split, blocks] at rel
      obtain ⟨cs₁, cs₂, same, front, -⟩ := forall₂_append_iff.mp rel
      obtain ⟨rfl, rfl⟩ := List.append_inj same (len.trans front.length_eq)
      have own := List.forall₂_and_left _ _ |>.mpr ⟨fun q mem => mem, front⟩
      refine own.imp fun q data here => ?_
      obtain ⟨mem_q, b, m, c, at_q, field, at_m, size, contents⟩ := here
      obtain ⟨b', at_q', memory', occupied', -⟩ := stays q b (apart q mem_q) at_q
      exact ⟨b', m, c, at_q', memory'.trans field, (kept q b m (apart q mem_q) at_q field).trans at_m,
        occupied'.trans size, contents⟩
  case others =>
    intro q b at_q off
    have off₂ : q ∉ l₂ := fun mem => off (by simp [split, mem])
    have other : q ≠ last := by
      intro same
      subst same
      exact off (by simp [split])
    refine ⟨?_, fun m field => kept q b m off₂ at_q field⟩
    show blocks'.cell q = _
    simp [cell, off₂, at_q, other]
  case own =>
    intro q mem
    exact .inl (by rw [split]; exact List.mem_append_left _ mem)
  case covered =>
    intro q b at_q
    have at_q : blocks'.cell q = some b := at_q
    rw [cell] at at_q
    split at at_q
    · cases at_q
    next off₂ =>
      by_cases mem : q ∈ l ++ [last]
      · exact .inl mem
      have other : q ≠ last := by
        intro same
        subst same
        exact mem (by simp)
      simp only [other, if_false, Option.map_id'] at at_q
      refine .inr ⟨at_q, ?_⟩
      rw [split]
      intro mem'
      cases List.mem_append.mp mem' with
      | inl front => exact mem front
      | inr back => exact off₂ back

/-- An unlisted file is released with its name and its blocks. -/
theorem release (rep : DiskRep d v chain) (stored : v.file f = some V) {file : File} {n : Nat}
    (live : d.files.cell f = some file) (name : file.name = some n) (unlisted : f ∉ v.order)
    {blocks' : Store Block} {memories' : Store Memory} (owns : Owns blocks' Block.memory memories')
    (cell : ∀ q, blocks'.cell q = if q ∈ chain f then none else d.blocks.cell q)
    (kept : ∀ q b m, q ∉ chain f → d.blocks.cell q = some b → b.memory = some m →
      memories'.cell m = d.memories.cell m) :
    DiskRep
      { d with
        memories := memories'
        blocks := blocks'
        names := d.names.free n
        files := d.files.free f }
      (v.release f) chain := by
  have others : ∀ g W, (v.release f).file g = some W → g ≠ f ∧ v.file g = some W := by
    intro g W at_g
    simp only [DiskView.release] at at_g
    split at at_g
    · cases at_g
    · next other => exact ⟨other, at_g⟩
  have unlisted_ne : ∀ g ∈ v.order, g ≠ f := by
    intro g listed same
    subst same
    exact unlisted listed
  constructor
  · exact rep.next
  · intro g W at_g
    obtain ⟨other, at_g⟩ := others g W at_g
    obtain ⟨file_g, live_g, rep_g⟩ := rep.live g W at_g
    have off : ∀ p ∈ chain g, p ∉ chain f := fun p mem mem_f =>
      other (rep.disjoint g f W V p at_g stored mem mem_f)
    refine ⟨file_g, by simp [other, live_g], ?_⟩
    apply rep_g.frame
    · intro p mem
      show blocks'.cell p = _
      rw [cell, if_neg (off p mem)]
    · exact fun p mem b m at_p field => kept p b m (off p mem) at_p field
    · intro k field
      have name_ne : k ≠ n := by
        intro same
        subst same
        exact other (rep.names.unique g f file_g file live_g live (field.trans name.symm))
      show (d.names.free n).cell k = _
      rw [Store.free_cell, if_neg name_ne]
  · intro g gone
    simp only [DiskView.release] at gone
    show (d.files.free f).cell g = none
    rw [Store.free_cell]
    split at gone
    · next here => rw [if_pos here]
    · next other => rw [if_neg other]; exact rep.dead g gone
  · apply rep.list.congr
    · exact fun g listed => by simp [Disk.nextFile, unlisted_ne g listed]
    · exact fun g listed => by simp [Disk.prevFile, unlisted_ne g listed]
  · intro g listed
    obtain ⟨W, at_g⟩ := rep.onDisk g listed
    exact ⟨W, by simp [DiskView.release, unlisted_ne g listed, at_g]⟩
  · exact rep.names.free live name
  · exact owns
  · intro g h W X p at_g at_h
    exact rep.disjoint g h W X p (others g W at_g).2 (others h X at_h).2
  · intro q b at_q
    have at_q : blocks'.cell q = some b := at_q
    rw [cell] at at_q
    split at at_q
    · cases at_q
    next off =>
      obtain ⟨g, W, at_g, mem⟩ := rep.covered q b at_q
      have other : g ≠ f := by
        intro same
        subst same
        exact off mem
      exact ⟨g, W, by simp [DiskView.release, other, at_g], mem⟩

/-- The counters and the flag of a file may change. -/
theorem setFields (rep : DiskRep d v chain) (stored : v.file f = some V) {file : File}
    (live : d.files.cell f = some file) (refs : Int) (bytesLeft : Nat) (inList : Bool) :
    DiskRep { d with files := d.files.put f { file with refs, bytesLeft, inList } }
      (v.setFile f { V with refs, bytesLeft, inList }) chain := by
  obtain ⟨file₁, live₁, fileRep⟩ := rep.live f V stored
  rw [live] at live₁
  cases live₁
  rw [← Function.update_eq_self f chain]
  refine rep.update stored live rfl rfl rfl rfl rfl rfl rep.memories ?_ ?_ (fun q mem => .inl mem) ?_
  · exact { fileRep with refs := rfl, bytesLeft := rfl, inList := rfl }
  · exact fun q b at_q _ => ⟨at_q, fun _ _ => rfl⟩
  · intro q b at_q
    by_cases mem : q ∈ chain f
    · exact .inl mem
    · exact .inr ⟨at_q, mem⟩

/-- A new empty file with its name. -/
theorem alloc (rep : DiskRep d v chain) (file : File) (name : Name)
    (links : file.blockList = none ∧ file.lastBlock = none) (named : file.name = some d.names.next)
    (fields : file.refs = 0 ∧ file.bytesLeft = maxFileSize ∧ file.inList = true) :
    DiskRep { d with files := d.files.alloc file, names := d.names.alloc name }
      (v.alloc (.new name)) (Function.update chain d.files.next []) := by
  have old_ne : ∀ g W, v.file g = some W → g ≠ d.files.next := by
    intro g W at_g
    obtain ⟨file_g, live_g, -⟩ := rep.live g W at_g
    exact Nat.ne_of_lt (Store.lt_next live_g)
  have listed_ne : ∀ g ∈ v.order, g ≠ d.files.next := by
    intro g listed
    obtain ⟨W, at_g⟩ := rep.onDisk g listed
    exact old_ne g W at_g
  have file_eq : ∀ g, (v.alloc (.new name)).file g =
      if g = d.files.next then some (.new name) else v.file g := by
    intro g
    rw [rep.next]
    rfl
  constructor
  · show d.files.next + 1 = v.next + 1
    rw [rep.next]
  · intro g W at_g
    rw [file_eq] at at_g
    split at at_g
    · next here =>
      cases at_g
      subst here
      refine ⟨file, by simp, ?_⟩
      rw [Function.update_self]
      exact ⟨links.1, .nil, links.2, .nil, ⟨_, named, by simp [FileView.new]⟩, fields.1, fields.2.1, fields.2.2⟩
    · next other =>
      obtain ⟨file_g, live_g, rep_g⟩ := rep.live g W at_g
      refine ⟨file_g, by simp [other, live_g], ?_⟩
      rw [Function.update_of_ne other]
      refine rep_g.frame (fun _ _ => rfl) (fun _ _ _ _ _ _ => rfl) fun n field => ?_
      obtain ⟨n', name_g, field', at_n⟩ := rep.names.owned g file_g live_g
      rw [field] at field'
      cases field'
      simp [Nat.ne_of_lt (Store.lt_next at_n)]
  · intro g gone
    rw [file_eq] at gone
    split at gone
    · cases gone
    · next other =>
      show (d.files.alloc file).cell g = none
      rw [Store.alloc_cell, if_neg other]
      exact rep.dead g gone
  · apply rep.list.congr
    · exact fun g listed => by simp [Disk.nextFile, listed_ne g listed]
    · exact fun g listed => by simp [Disk.prevFile, listed_ne g listed]
  · intro g listed
    obtain ⟨W, at_g⟩ := rep.onDisk g listed
    exact ⟨W, by rw [file_eq, if_neg (listed_ne g listed)]; exact at_g⟩
  · exact rep.names.alloc named
  · exact rep.memories
  · intro g h W X p at_g at_h mem mem'
    -- The new file has no block.
    by_cases here : g = d.files.next
    · simp [here] at mem
    by_cases here' : h = d.files.next
    · simp [here'] at mem'
    rw [file_eq, if_neg here] at at_g
    rw [file_eq, if_neg here'] at at_h
    rw [Function.update_of_ne here] at mem
    rw [Function.update_of_ne here'] at mem'
    exact rep.disjoint g h W X p at_g at_h mem mem'
  · intro p b at_p
    obtain ⟨g, W, at_g, mem⟩ := rep.covered p b at_p
    have other := old_ne g W at_g
    exact ⟨g, W, by rw [file_eq, if_neg other]; exact at_g, by rw [Function.update_of_ne other]; exact mem⟩

/-- `file_list` may be relinked; a file record is otherwise unchanged. -/
theorem relink (rep : DiskRep d v chain) {files' : Store File} {fileList' : Ptr} {order' : List Nat}
    (next : files'.next = d.files.next)
    (cell : ∀ g, ∃ nextOf prevOf : File → Ptr, files'.cell g = (d.files.cell g).map fun file =>
      { file with next := nextOf file, prev := prevOf file })
    (list : DList { d with files := files' }.nextFile { d with files := files' }.prevFile fileList' order')
    (onDisk : ∀ g ∈ order', ∃ W, v.file g = some W) :
    DiskRep { d with files := files', fileList := fileList' } { v with order := order' } chain := by
  constructor
  · exact next.trans rep.next
  · intro g W at_g
    obtain ⟨file, live, fileRep⟩ := rep.live g W at_g
    obtain ⟨nextOf, prevOf, at_g'⟩ := cell g
    rw [live] at at_g'
    exact ⟨_, at_g', fileRep.path, fileRep.linked, fileRep.last, fileRep.blocks, fileRep.name,
      fileRep.refs, fileRep.bytesLeft, fileRep.inList⟩
  · intro g gone
    obtain ⟨nextOf, prevOf, at_g'⟩ := cell g
    rw [rep.dead g gone] at at_g'
    exact at_g'
  · exact list
  · exact onDisk
  · apply rep.names.congr_owner
    intro g
    obtain ⟨nextOf, prevOf, at_g'⟩ := cell g
    show (files'.cell g).map File.name = _
    rw [at_g', Option.map_map]
    rfl
  · exact rep.memories
  · exact rep.disjoint
  · exact rep.covered

end DiskRep

end SysprogLabs.Userfs
