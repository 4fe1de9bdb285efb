import Mathlib.Data.List.Chain
import Mathlib.Data.List.Nodup

/-! # Linked lists seen through their link functions

`next` and `prev` map an object to the object its link points at; `none` is the
null link.  `Path next start l stop` says that following `next` from the link
`start` visits exactly the objects `l` and then arrives at the link `stop`; a
`Chain` is a path to the null link.  `DList` adds the back links of a doubly
linked list.  The operations are stated by what they do to the link functions,
so they apply to any memory the links are stored in.
-/

namespace SysprogLabs

variable {α : Type}

def Path (next : α → Option α) : Option α → List α → Option α → Prop
  | start, [], stop => start = stop
  | start, a :: l, stop => start = some a ∧ Path next (next a) l stop

abbrev Chain (next : α → Option α) (start : Option α) (l : List α) : Prop := Path next start l none

/-- The back link of every object but the first is its predecessor. -/
def Linked (prev : α → Option α) (l : List α) : Prop := l.IsChain fun a b => prev b = some a

namespace Path

variable {next next' : α → Option α} {start stop : Option α} {a : α} {l l₁ l₂ : List α}

@[simp] theorem nil_iff : Path next start [] stop ↔ start = stop := Iff.rfl

@[simp] theorem cons_iff :
    Path next start (a :: l) stop ↔ start = some a ∧ Path next (next a) l stop := Iff.rfl

theorem append_iff :
    Path next start (l₁ ++ l₂) stop ↔ ∃ mid, Path next start l₁ mid ∧ Path next mid l₂ stop := by
  induction l₁ generalizing start with
  | nil => simp
  | cons a l₁ ih => simp [ih, and_assoc]

/-- Only the links of the visited objects matter. -/
theorem congr (path : Path next start l stop) (same : ∀ a ∈ l, next' a = next a) :
    Path next' start l stop := by
  induction l generalizing start with
  | nil => exact path
  | cons a l ih =>
    refine ⟨path.1, ?_⟩
    rw [same a List.mem_cons_self]
    exact ih path.2 fun b mem => same b (List.mem_cons_of_mem a mem)

theorem head_eq (path : Path next start l stop) (ne : l ≠ []) : start = l.head? := by
  cases l with
  | nil => exact absurd rfl ne
  | cons a l => exact path.1

/-- The last visited object links to where the path stops. -/
theorem next_last (path : Path next start (l ++ [a]) stop) : next a = stop := by
  obtain ⟨mid, -, last⟩ := append_iff.mp path
  exact last.2

/-- Redirects the last link of a path. -/
theorem redirect {stop' : Option α} (path : Path next start (l ++ [a]) stop)
    (same : ∀ b ∈ l, next' b = next b) (last : next' a = stop') :
    Path next' start (l ++ [a]) stop' := by
  obtain ⟨mid, before, at_a⟩ := append_iff.mp path
  exact append_iff.mpr ⟨mid, before.congr same, at_a.1, last⟩

end Path

namespace Chain

variable {next next' : α → Option α} {start : Option α} {a : α} {l l' l₁ l₂ : List α}

theorem head_eq (chain : Chain next start l) : start = l.head? := by
  cases l with
  | nil => exact chain
  | cons a l => exact chain.1

theorem unique (chain : Chain next start l) (chain' : Chain next start l') : l = l' := by
  induction l generalizing start l' with
  | nil =>
    have at_null : start = none := chain
    cases l' with
    | nil => rfl
    | cons b l' => rw [chain'.1] at at_null; cases at_null
  | cons a l ih =>
    cases l' with
    | nil =>
      have at_null : start = none := chain'
      rw [chain.1] at at_null
      cases at_null
    | cons b l' =>
      have same : a = b := Option.some.inj (chain.1.symm.trans chain'.1)
      subst same
      rw [ih chain.2 chain'.2]

theorem suffix (chain : Chain next start (l₁ ++ a :: l₂)) : Chain next (some a) (a :: l₂) := by
  obtain ⟨mid, -, rest⟩ := Path.append_iff.mp chain
  exact ⟨rfl, rest.2⟩

/-- A chain that ends is acyclic. -/
theorem nodup (chain : Chain next start l) : l.Nodup := by
  induction l generalizing start with
  | nil => exact .nil
  | cons a l ih =>
    refine List.nodup_cons.mpr ⟨fun again => ?_, ih chain.2⟩
    obtain ⟨l₁, l₂, rfl⟩ := List.append_of_mem again
    have whole : Chain next (some a) (a :: (l₁ ++ a :: l₂)) := ⟨rfl, chain.2⟩
    have shorter : a :: (l₁ ++ a :: l₂) = a :: l₂ := whole.unique (suffix chain.2)
    have lengths := congrArg List.length shorter
    simp at lengths
    omega

theorem next_eq (chain : Chain next start (l₁ ++ a :: l₂)) : next a = l₂.head? :=
  Chain.head_eq chain.suffix.2

end Chain

theorem Linked.congr {prev prev' : α → Option α} {l : List α} (linked : Linked prev l)
    (same : ∀ a ∈ l, prev' a = prev a) : Linked prev' l :=
  List.IsChain.imp_of_mem_imp (fun _ b _ mem link => (same b mem).trans link) linked

/-- The objects `l` form a doubly linked list whose head link is `first`. -/
structure DList (next prev : α → Option α) (first : Option α) (l : List α) : Prop where
  chain : Chain next first l
  linked : Linked prev l
  head : ∀ a, l.head? = some a → prev a = none

namespace DList

variable {next next' prev prev' : α → Option α} {first first' : Option α} {a c : α}
  {l l₁ l₂ : List α}

theorem nodup (list : DList next prev first l) : l.Nodup := list.chain.nodup

theorem congr (list : DList next prev first l) (same_next : ∀ a ∈ l, next' a = next a)
    (same_prev : ∀ a ∈ l, prev' a = prev a) : DList next' prev' first l where
  chain := Path.congr list.chain same_next
  linked := list.linked.congr same_prev
  head a e := (same_prev a (List.mem_of_head? e)).trans (list.head a e)

theorem next_eq (list : DList next prev first (l₁ ++ a :: l₂)) : next a = l₂.head? :=
  list.chain.next_eq

theorem prev_eq (list : DList next prev first (l₁ ++ a :: l₂)) : prev a = l₁.getLast? := by
  have linked := list.linked
  rw [Linked, List.isChain_append] at linked
  cases last : l₁.getLast? with
  | none =>
    rw [List.getLast?_eq_none_iff] at last
    subst last
    exact list.head a rfl
  | some b => exact linked.2.2 b last a rfl

/-- The back links are the inverse of the links. -/
theorem next_iff_prev (list : DList next prev first l) (mem_a : a ∈ l) (mem_c : c ∈ l) :
    next a = some c ↔ prev c = some a := by
  constructor
  · intro link
    obtain ⟨l₁, l₂, rfl⟩ := List.append_of_mem mem_a
    rw [list.next_eq] at link
    cases l₂ with
    | nil => cases link
    | cons b l₂ =>
      cases link
      have behind : l₁ ++ a :: c :: l₂ = (l₁ ++ [a]) ++ c :: l₂ := by simp
      rw [behind] at list
      rw [list.prev_eq, List.getLast?_concat]
  · intro link
    obtain ⟨l₁, l₂, rfl⟩ := List.append_of_mem mem_c
    rw [list.prev_eq] at link
    obtain ⟨l₀, rfl⟩ := List.getLast?_eq_some_iff.mp link
    have before : l₀ ++ [a] ++ c :: l₂ = l₀ ++ a :: (c :: l₂) := by simp
    rw [before] at list
    rw [list.next_eq, List.head?_cons]

/-- Adds `c` behind the last object. -/
theorem push_back [DecidableEq α] (list : DList next prev first l)
    (next_c : next' c = none) (prev_c : prev' c = l.getLast?)
    (next_old : ∀ a ∈ l, next' a = if l.getLast? = some a then some c else next a)
    (prev_old : ∀ a ∈ l, prev' a = prev a)
    (new_first : first' = if l = [] then some c else first) :
    DList next' prev' first' (l ++ [c]) := by
  rcases List.eq_nil_or_concat' l with rfl | ⟨l, b, rfl⟩
  · subst new_first
    exact ⟨⟨rfl, next_c⟩, .singleton _, fun a e => by cases e; exact prev_c⟩
  · rw [if_neg (by simp)] at new_first
    rw [new_first]
    have apart : ∀ a ∈ l, a ≠ b := by
      intro a mem same
      have nodup := list.nodup
      rw [List.nodup_append] at nodup
      exact nodup.2.2 a mem b (by simp) same
    have to_c : Path next' first (l ++ [b]) (some c) := by
      refine list.chain.redirect (fun a mem => ?_) ?_
      · rw [next_old a (by simp [mem]), if_neg]
        simpa using (apart a mem).symm
      · rw [next_old b (by simp), if_pos (by simp)]
    constructor
    · exact Path.append_iff.mpr ⟨some c, to_c, rfl, next_c⟩
    · refine List.isChain_append.mpr ⟨list.linked.congr prev_old, .singleton _, ?_⟩
      intro x last y head
      cases head
      rw [prev_c, last]
    · intro a e
      have in_old : (l ++ [b]).head? = some a := by
        rw [List.head?_append_of_ne_nil _ (by simp)] at e
        exact e
      rw [prev_old a (List.mem_of_head? in_old)]
      exact list.head a in_old

/-- Adds `c` in front of the first object. -/
theorem push_front [DecidableEq α] (list : DList next prev first l)
    (next_c : next' c = first) (prev_c : prev' c = none)
    (next_old : ∀ a ∈ l, next' a = next a)
    (prev_old : ∀ a ∈ l, prev' a = if l.head? = some a then some c else prev a) :
    DList next' prev' (some c) (c :: l) := by
  constructor
  · refine ⟨rfl, ?_⟩
    rw [next_c]
    exact Path.congr list.chain next_old
  · cases l with
    | nil => exact .singleton _
    | cons b l =>
      refine List.isChain_cons_cons.mpr ⟨by simp [prev_old b], ?_⟩
      have fresh := list.nodup
      refine List.IsChain.imp_of_mem_tail_imp (fun x y _ mem link => ?_) list.linked
      rw [prev_old y (by simpa using .inr mem), if_neg]
      · exact link
      · rintro ⟨⟩
        exact (List.nodup_cons.mp fresh).1 mem
  · intro a e
    cases e
    exact prev_c

/-- Takes `a` out, whether it is the first, the last or one in the middle. -/
theorem remove [DecidableEq α] (list : DList next prev first (l₁ ++ a :: l₂))
    (next_rest : ∀ x ∈ l₁ ++ l₂, next' x = if prev a = some x then next a else next x)
    (prev_rest : ∀ x ∈ l₁ ++ l₂, prev' x = if next a = some x then prev a else prev x)
    (new_first : first' = if prev a = none then next a else first) :
    DList next' prev' first' (l₁ ++ l₂) := by
  have nodup := list.nodup
  rw [list.prev_eq] at next_rest prev_rest new_first
  rw [list.next_eq] at next_rest prev_rest new_first
  rw [List.nodup_append, List.nodup_cons] at nodup
  obtain ⟨nodup₁, ⟨-, nodup₂⟩, apart⟩ := nodup
  obtain ⟨mid, before, -, after⟩ := Path.append_iff.mp list.chain
  rw [list.next_eq] at after
  have after' : Path next' l₂.head? l₂ none := by
    refine after.congr fun x mem => ?_
    rw [next_rest x (by simp [mem]), if_neg]
    intro last
    exact apart x (List.mem_of_getLast? last) x (List.mem_cons_of_mem a mem) rfl
  have linked := list.linked
  rw [Linked, List.isChain_append] at linked
  obtain ⟨linked₁, linked₂, -⟩ := linked
  have linked₁' : Linked prev' l₁ := by
    refine Linked.congr linked₁ fun x mem => ?_
    rw [prev_rest x (by simp [mem]), if_neg]
    intro head
    exact apart x mem x (List.mem_cons_of_mem a (List.mem_of_head? head)) rfl
  have linked₂' : Linked prev' l₂ := by
    refine List.IsChain.imp_of_mem_tail_imp (fun x y _ mem link => ?_) linked₂.tail
    rw [prev_rest y (by simp [List.mem_of_mem_tail mem]), if_neg]
    · exact link
    · intro head
      cases l₂ with
      | nil => cases mem
      | cons b l₂ => cases head; exact (List.nodup_cons.mp nodup₂).1 mem
  have head₂ : ∀ y, l₂.head? = some y → prev' y = l₁.getLast? := by
    intro y head
    rw [prev_rest y (by simp [List.mem_of_head? head]), if_pos head]
  rcases List.eq_nil_or_concat' l₁ with rfl | ⟨l₁, b, rfl⟩
  · rw [List.getLast?_nil, if_pos rfl] at new_first
    subst new_first
    exact ⟨after', linked₂', head₂⟩
  · rw [if_neg (by simp)] at new_first
    rw [new_first]
    refine ⟨?_, ?_, ?_⟩
    · refine Path.append_iff.mpr ⟨l₂.head?, before.redirect (fun x mem => ?_) ?_, after'⟩
      · rw [next_rest x (by simp [mem]), if_neg]
        rw [List.getLast?_concat]
        rintro ⟨⟩
        rw [List.nodup_append] at nodup₁
        exact nodup₁.2.2 b mem b (by simp) rfl
      · rw [next_rest b (by simp), if_pos (by simp)]
    · refine List.isChain_append.mpr ⟨linked₁', linked₂', ?_⟩
      intro x last y head
      rw [head₂ y head, last]
    · intro x head
      have in_l₁ : (l₁ ++ [b]).head? = some x := by
        rw [List.head?_append_of_ne_nil _ (by simp)] at head
        exact head
      rw [prev_rest x (List.mem_append_left _ (List.mem_of_head? in_l₁)), if_neg]
      · exact list.head x (by rw [List.head?_append_of_ne_nil _ (by simp)]; exact in_l₁)
      · intro head_l₂
        exact apart x (List.mem_of_head? in_l₁) x
          (List.mem_cons_of_mem a (List.mem_of_head? head_l₂)) rfl

end DList

end SysprogLabs
