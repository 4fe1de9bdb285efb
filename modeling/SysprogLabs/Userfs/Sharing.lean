import SysprogLabs.Userfs.Ledger
import SysprogLabs.Userfs.Handles

/-! # Who refers to a file, and when it is released

On zeroed memory the field `refs` of a file is the number of descriptors opened on it,
and a file is released by the very call that leaves it without a name and without
descriptors.
-/

namespace SysprogLabs.Userfs

variable {junk : Junk} {v v' : View} {call : Call} {out : Out}

/-- `refs` counts descriptors, and whatever is live is listed or open. -/
structure View.Counted (v : View) : Prop where
  exact : v.table.Exact
  refs : ∀ f V, v.disk.file f = some V → V.refs = v.table.references f
  held : ∀ f, v.disk.file f = none → v.table.references f = 0
  kept : ∀ f V, v.disk.file f = some V → V.inList = true ∨ V.refs ≠ 0

namespace View.Counted

theorem init : View.init.Counted where
  exact := .init
  refs _ _ stored := by cases stored
  held _ _ := rfl
  kept _ _ stored := by cases stored

/-- The counters stay right when the descriptors of `f` and its `refs` change together,
    and `f` is released when nothing is left. -/
theorem update {table' : Table} {disk' : DiskView} {f : Nat} {V : FileView} (V' : FileView)
    (counted : v.Counted) (stored : v.disk.file f = some V) (exact : table'.Exact)
    (moved : ∀ g, (table'.references g : Int) = v.table.references g + if g = f then V'.refs - V.refs else 0)
    (other : ∀ g, g ≠ f → disk'.file g = v.disk.file g)
    (here : disk'.file f = some V' ∧ (V'.inList = true ∨ V'.refs ≠ 0) ∨ disk'.file f = none ∧ V'.refs = 0)
    (errno : ErrorCode) : View.Counted { disk := disk', table := table', ufsErrorCode := errno } := by
  have at_f := moved f
  rw [if_pos rfl, ← counted.refs f V stored] at at_f
  constructor
  · exact exact
  · intro g W at_g
    by_cases same : g = f
    · subst same
      obtain ⟨at_here, -⟩ | ⟨gone, -⟩ := here
      · have same : disk'.file g = some W := at_g
        rw [at_here] at same
        cases same
        show _ = (table'.references g : Int)
        omega
      · have same : disk'.file g = some W := at_g
        rw [gone] at same
        cases same
    · have at_g : disk'.file g = some W := at_g
      rw [other g same] at at_g
      have moved := moved g
      rw [if_neg same, ← counted.refs g W at_g] at moved
      show _ = (table'.references g : Int)
      omega
  · intro g gone
    have gone : disk'.file g = none := gone
    show table'.references g = 0
    by_cases same : g = f
    · subst same
      obtain ⟨at_here, -⟩ | ⟨-, zero⟩ := here
      · rw [at_here] at gone
        cases gone
      · omega
    · rw [other g same] at gone
      have moved := moved g
      rw [if_neg same, counted.held g gone] at moved
      omega
  · intro g W at_g
    have at_g : disk'.file g = some W := at_g
    by_cases same : g = f
    · subst same
      obtain ⟨at_here, kept⟩ | ⟨gone, -⟩ := here
      · rw [at_here] at at_g
        cases at_g
        exact kept
      · rw [gone] at at_g
        cases at_g
    · rw [other g same] at at_g
      exact counted.kept g W at_g

/-- Nothing refers to a new file yet. -/
theorem create (counted : v.Counted) (inv : v.Inv) (filename : Name) :
    View.Counted { v with disk := v.disk.create filename } := by
  have unopened := counted.held v.disk.next (inv.disk.fresh _ (Nat.le_refl _))
  constructor
  · exact counted.exact
  · intro f V stored
    simp only [DiskView.create, DiskView.alloc] at stored
    split at stored
    · next here =>
      cases stored
      show (0 : Int) = (v.table.references f : Int)
      rw [here, unopened]
      rfl
    · exact counted.refs f V stored
  · intro f gone
    simp only [DiskView.create, DiskView.alloc] at gone
    split at gone
    · cases gone
    · exact counted.held f gone
  · intro f V stored
    simp only [DiskView.create, DiskView.alloc] at stored
    split at stored
    · cases stored
      exact .inl rfl
    · exact counted.kept f V stored

/-- The counters stay right when `f` is collected. -/
theorem collect {table' : Table} {disk' : DiskView} {f : Nat} {V V' : FileView} (counted : v.Counted)
    (stored : v.disk.file f = some V) (exact : table'.Exact)
    (moved : ∀ g, (table'.references g : Int) = v.table.references g + if g = f then V'.refs - V.refs else 0)
    (after : ∀ g, disk'.file g = if g = f then some V' else v.disk.file g) :
    View.Counted { disk := disk'.collect f, table := table', ufsErrorCode := v.ufsErrorCode } := by
  have here : disk'.file f = some V' := by rw [after, if_pos rfl]
  apply counted.update V' stored exact moved
  · intro g other
    rw [DiskView.collect_file here, if_neg (fun both => other both.1), after, if_neg other]
  · rw [DiskView.collect_file here]
    by_cases unreferenced : V'.refs = 0 ∧ V'.inList = false
    · exact .inr ⟨if_pos ⟨rfl, unreferenced⟩, unreferenced.1⟩
    · refine .inl ⟨by rw [if_neg (fun both => unreferenced both.2), here], ?_⟩
      by_cases listed : V'.inList = true
      · exact .inl listed
      · exact .inr fun zero => unreferenced ⟨zero, Bool.eq_false_iff.mpr listed⟩

end View.Counted

/-- On zeroed memory every step keeps the counters right. -/
theorem Effect.counted (effect : Effect junk v call out v') (zero : junk.ZeroSlots) (inv : v.Inv)
    (counted : v.Counted) : v'.Counted := by
  cases effect with
  | refused why => exact ⟨counted.exact, counted.refs, counted.held, counted.kept⟩
  | @opened _ _ f _ V _ found stored installed =>
    obtain ⟨exact, -⟩ := counted.exact.install inv.table zero installed
    apply counted.update { V with refs := V.refs + 1 } stored exact
    · intro g
      rw [counted.exact.install_references inv.table zero installed]
      by_cases same : f = g
      · simp [same]
      · simp [same, Ne.symm same]
    · exact fun g other => if_neg other
    · obtain listed | held := counted.kept f V stored
      · exact .inl ⟨if_pos rfl, .inl listed⟩
      · refine .inl ⟨if_pos rfl, .inr ?_⟩
        have refs := counted.refs f V stored
        show V.refs + 1 ≠ 0
        omega
  | @created filename _ _ _ missing create installed =>
    obtain ⟨exact, -⟩ := counted.exact.install inv.table zero installed
    have created : View.Counted { v with disk := v.disk.create filename } := counted.create inv filename
    have at_next : (v.disk.create filename).file v.disk.next = some (.new filename) := if_pos rfl
    refine View.Counted.update { FileView.new filename with refs := 1 } created at_next exact ?_
      (fun g other => if_neg other) (.inl ⟨if_pos rfl, .inl rfl⟩) v.ufsErrorCode
    intro g
    rw [counted.exact.install_references inv.table zero installed]
    by_cases same : v.disk.next = g
    · simp [same, FileView.new]
    · simp [same, Ne.symm same]
  | @wrote _ buf p f r V V' found allowed file stored fits written =>
    obtain ⟨-, -, live⟩ := Table.lookup_some found
    obtain ⟨name, refs, inList, -⟩ := FileView.write_fields written
    apply counted.update V' stored (counted.exact.advance live _)
    · intro g
      rw [counted.exact.advance_references found, refs]
      simp
    · exact fun g other => if_neg other
    · exact .inl ⟨if_pos rfl, by rw [refs, inList]; exact counted.kept f V stored⟩
  | read found allowed file stored result =>
    obtain ⟨-, -, live⟩ := Table.lookup_some found
    constructor
    · exact counted.exact.advance live _
    · intro g W at_g
      rw [counted.exact.advance_references found]
      exact counted.refs g W at_g
    · intro g gone
      rw [counted.exact.advance_references found]
      exact counted.held g gone
    · exact counted.kept
  | @closed _ p f r V found file stored =>
    apply counted.collect stored (counted.exact.close inv.table found) ?_ fun g => DiskView.setFile_file
    intro g
    have closed := counted.exact.close_references inv.table found g
    simp only [file, Option.some.injEq] at closed
    by_cases same : f = g
    · simp only [same, if_true] at closed ⊢
      omega
    · simp only [same, Ne.symm same, if_false] at closed ⊢
      omega
  | @deleted _ f V found stored =>
    apply counted.collect stored counted.exact ?_ fun g => rfl
    intro g
    simp
  | @resized _ newSize _ f _ V V' found allowed file stored small resized =>
    obtain ⟨name, refs, inList, -⟩ := FileView.resize_fields resized
    apply counted.update V' stored counted.exact
    · intro g
      rw [refs]
      simp
    · exact fun g other => if_neg other
    · exact .inl ⟨if_pos rfl, by rw [refs, inList]; exact counted.kept f V stored⟩

/-! ## On the heap -/

/-- The states of the API on zeroed memory. -/
theorem reachable_counted {s : State} (zero : junk.ZeroSlots)
    (reachable : Reachable (Step junk) State.init s) : ∃ v, Abstracts s v ∧ v.Counted := by
  obtain ⟨events, run⟩ := reachable
  obtain ⟨v, -, related⟩ := run.simulate (R := fun s v => Abstracts s v ∧ v.Counted)
    ⟨init_abstracts, .init⟩ fun s v event s' related step => by
      obtain ⟨abstracts, counted⟩ := related
      obtain ⟨v', stepped, abstracts'⟩ := step.onView abstracts
      exact ⟨v', stepped, abstracts', (View.step_effect stepped).counted zero abstracts.2 counted⟩
  exact ⟨v, related⟩

end SysprogLabs.Userfs
