import SysprogLabs.FileSort.Sharing
import SysprogLabs.FileSort.Concatenation

/-! # Every schedule gives the same result

What the labels of a run say about the files, and the whole program.
-/

namespace SysprogLabs.FileSort

open Prog

variable {setup : Setup} {w : Nat → Nat} {s s' : Pool} {c i : Nat} {label : Label} {labels : List Label}

def Label.claimed : Label → Option Nat
  | .claim _ i => some i
  | _ => none

def Label.written : Label → Option Nat
  | .write _ i _ => some i
  | _ => none

/-! ## Runs -/

/-- A run spends its budget. -/
theorem run_inv (run : Run (Step setup) s labels s') (inv : s.Inv setup w) :
    ∃ w', s'.Inv setup w' ∧ labels.length + s'.measure setup w' ≤ s.measure setup w := by
  induction run generalizing w with
  | nil => exact ⟨w, inv, by simp⟩
  | cons one _ ih =>
    obtain ⟨w₁, inv₁, less⟩ := one.inv inv
    obtain ⟨w', inv', le⟩ := ih inv₁
    refine ⟨w', inv', ?_⟩
    rw [List.length_cons]
    omega

/-- The files are claimed in order. -/
theorem run_claimed (run : Run (Step setup) s labels s') :
    List.range s.nextFileIdx ++ labels.filterMap Label.claimed = List.range s'.nextFileIdx := by
  induction run with
  | nil => simp
  | cons one _ ih =>
    rw [← ih]
    cases one with
    | claim => simp [Label.claimed, Pool.goto, List.range_succ]
    | _ => simp [List.filterMap_cons, Label.claimed, Pool.goto]

/-- A write goes to an empty slot, and writes the sorted numbers of its file. -/
theorem Step.written (step : Step setup s label s') (inv : s.Inv setup w) :
    (∃ c i data, label = .write c i data.mergeSort ∧ setup.files.data[i]? = some data ∧
        s.destinations[i]? = some none ∧ s'.destinations = s.destinations.set i (some data.mergeSort)) ∨
      (∀ c i numbers, label ≠ .write c i numbers) ∧ s'.destinations = s.destinations := by
  cases step with
  | @write c i numbers runs control room =>
    have mine : (s.control c).file = some i := by rw [control]; rfl
    have fits := inv.fits c
    rw [control] at fits
    obtain ⟨-, data, file, sorts⟩ := fits
    obtain rfl := sorts.result
    exact .inl ⟨c, i, data, rfl, file, (inv.taken c i mine).2, rfl⟩
  | _ => exact .inr ⟨by simp, rfl⟩

theorem Label.written_eq_none (other : ∀ c i numbers, label ≠ .write c i numbers) : label.written = none := by
  cases label with
  | write c i numbers => exact absurd rfl (other c i numbers)
  | _ => rfl

/-- Each slot is written to once, while it is empty. -/
theorem run_written (run : Run (Step setup) s labels s') (inv : s.Inv setup w) :
    (labels.filterMap Label.written).Nodup ∧
      (∀ i ∈ labels.filterMap Label.written, s.destinations[i]? = some none) ∧
      ∀ c i numbers, .write c i numbers ∈ labels →
        ∃ data, setup.files.data[i]? = some data ∧ numbers = data.mergeSort := by
  induction run generalizing w with
  | nil => simp
  | @cons s s₁ s' label labels one _ ih =>
    obtain ⟨w₁, inv₁, -⟩ := one.inv inv
    obtain ⟨once, empty, sorted⟩ := ih inv₁
    obtain ⟨c, i, data, rfl, file, before, after⟩ | ⟨other, same⟩ := one.written inv
    · have room : i < s.destinations.length := (List.getElem?_eq_some_iff.mp before).1
      have filled : s₁.destinations[i]? = some (some data.mergeSort) := by rw [after, List.getElem?_set_self room]
      have new : i ∉ labels.filterMap Label.written := by
        intro mem
        rw [empty i mem] at filled
        cases filled
      simp only [List.filterMap_cons, Label.written, List.nodup_cons, List.mem_cons]
      refine ⟨⟨new, once⟩, ?_, ?_⟩
      · rintro j (rfl | mem)
        · exact before
        · have apart : i ≠ j := fun same => new (same ▸ mem)
          rw [← empty j mem, after, List.getElem?_set_ne apart]
      · rintro d j numbers (same | mem)
        · cases same
          exact ⟨data, file, rfl⟩
        · exact sorted d j numbers mem
    · rw [List.filterMap_cons, Label.written_eq_none other]
      refine ⟨once, fun j mem => same ▸ empty j mem, fun d j numbers mem => ?_⟩
      obtain rfl | mem := List.mem_cons.mp mem
      · exact absurd rfl (other d j numbers)
      · exact sorted d j numbers mem

/-- A slot that gets filled is written to. -/
theorem run_fills (run : Run (Step setup) s labels s') (inv : s.Inv setup w) {numbers : List Int}
    (empty : s.destinations[i]? = some none) (filled : s'.destinations[i]? = some (some numbers)) :
    ∃ c numbers, .write c i numbers ∈ labels := by
  induction run generalizing w with
  | nil =>
    rw [empty] at filled
    cases filled
  | @cons s s₁ s' label labels one _ ih =>
    obtain ⟨w₁, inv₁, -⟩ := one.inv inv
    by_cases still : s₁.destinations[i]? = some none
    · obtain ⟨c, numbers, mem⟩ := ih inv₁ still filled
      exact ⟨c, numbers, List.mem_cons_of_mem _ mem⟩
    · obtain ⟨c, j, data, rfl, -, -, after⟩ | ⟨-, same⟩ := one.written inv
      · by_cases here : j = i
        · subst here
          exact ⟨c, _, List.mem_cons_self⟩
        · rw [after, List.getElem?_set_ne here] at still
          exact absurd empty still
      · rw [same] at still
        exact absurd empty still

/-- The running coroutine goes on. -/
theorem goes_on (inv : s.Inv setup w) (runs : s.running = some c) : ∃ label s', Step setup s label s' := by
  obtain ⟨inside, more⟩ := inv.runs c runs
  have fits := inv.fits c
  cases control : s.control c with
  | start =>
    obtain ⟨_, t, set, -⟩ := @setCoroTimestamp_returns setup.clock s.times c
    exact ⟨_, _, .start runs control set⟩
  | head =>
    rw [control] at fits
    by_cases left : s.nextFileIdx < setup.filesTotal
    · exact ⟨_, _, .claim runs control left (List.getElem?_eq_getElem left)⟩
    · obtain ⟨_, t, updated, -⟩ := @updateCoroWorkTime_returns setup.clock s.times c fits
      exact ⟨_, _, .finish runs control (Nat.not_lt.mp left) updated⟩
  | sorting i rest =>
    have mine : (s.control c).file = some i := by rw [control]; rfl
    obtain ⟨-, empty⟩ := inv.taken c i mine
    rw [control] at fits
    obtain ⟨started, numbers, file, sorts⟩ := fits
    cases rest with
    | done numbers => exact ⟨_, _, .write runs control (List.getElem?_eq_some_iff.mp empty).1⟩
    | yield rest => exact ⟨_, _, .yield runs control⟩
    | act p rest =>
      cases budget : w c with
      | zero =>
        rw [budget] at sorts
        exact sorts.elim
      | succ n =>
        rw [budget] at sorts
        obtain ⟨b, t, returned, -⟩ := sorts s.times started
        exact ⟨_, _, .act runs control returned⟩
  | finished => exact absurd control more

/-! ## All coroutines have finished -/

/-- The loop of `main` that waits has ended. -/
def Pool.Finished (setup : Setup) (s : Pool) : Prop := ∀ c < setup.corosTotal, s.control c = .finished

/-- Then every slot holds the sorted numbers of its file. -/
theorem Pool.Inv.destinations_eq (inv : s.Inv setup w) (some : 0 < setup.corosTotal) (finished : s.Finished setup) :
    s.nextFileIdx = setup.filesTotal ∧ s.destinations = setup.slots.map .some := by
  have all : s.nextFileIdx = setup.filesTotal := by
    have fits := inv.fits 0
    rwa [finished 0 some] at fits
  refine ⟨all, List.ext_getElem? fun i => ?_⟩
  by_cases within : i < setup.filesTotal
  · obtain ⟨empty, later | ⟨c, holds⟩⟩ | ⟨-, data, file, filled⟩ := inv.slots i within
    · omega
    · -- Nobody has a file any more.
      by_cases inside : c < setup.corosTotal
      · rw [finished c inside] at holds
        cases holds
      · rw [inv.outside c (Nat.not_lt.mp inside)] at holds
        cases holds
    · rw [filled, Setup.slots, List.map_map, List.getElem?_map, file]
      rfl
  · have slots := setup.slots_length
    have length := inv.length_eq
    rw [List.getElem?_eq_none (by omega), List.getElem?_eq_none (by rw [List.length_map]; omega)]

/-- Each run goes on until all have finished. -/
theorem finishes (inv : s.Inv setup w) : ∃ labels s', Run (Step setup) s labels s' ∧ s'.Finished setup := by
  induction budget : s.measure setup w using Nat.strong_induction_on generalizing s w with
  | _ n ih =>
    have go : ∀ label s₁, Step setup s label s₁ → ∃ labels s', Run (Step setup) s labels s' ∧ s'.Finished setup := by
      intro label s₁ one
      obtain ⟨w₁, inv₁, less⟩ := one.inv inv
      obtain ⟨labels, s', rest, finished⟩ := ih _ (budget ▸ less) inv₁ rfl
      exact ⟨label :: labels, s', .cons one rest, finished⟩
    by_cases finished : s.Finished setup
    · exact ⟨[], s, .nil s, finished⟩
    · cases runs : s.running with
      | none =>
        simp only [Pool.Finished, not_forall] at finished
        obtain ⟨c, inside, more⟩ := finished
        exact go _ _ (.resume runs inside more)
      | some c =>
        obtain ⟨label, s₁, one⟩ := goes_on inv runs
        exact go label s₁ one

/-! ## The program -/

/-- What a run does with the files: each is claimed once, in order, and each slot is written to once. -/
structure Shares (setup : Setup) (labels : List Label) : Prop where
  claimed : ∃ n ≤ setup.filesTotal, labels.filterMap Label.claimed = List.range n
  once : (labels.filterMap Label.written).Nodup
  sorted : ∀ c i numbers, .write c i numbers ∈ labels →
    ∃ data, setup.files.data[i]? = some data ∧ numbers = data.mergeSort

/-- What is there when all coroutines have finished. -/
structure Fills (setup : Setup) (labels : List Label) (s : Pool) : Prop where
  claimed : labels.filterMap Label.claimed = List.range setup.filesTotal
  written : ∀ i < setup.filesTotal, ∃ c numbers, .write c i numbers ∈ labels
  slots : s.destinations = setup.files.data.map fun numbers => some numbers.mergeSort

theorem run_shares (run : Run (Step setup) (.init setup) labels s) : Shares setup labels := by
  obtain ⟨w, inv, -⟩ := run_inv run (Pool.init_inv setup)
  have claimed := run_claimed run
  obtain ⟨once, -, sorted⟩ := run_written run (Pool.init_inv setup)
  exact ⟨⟨_, inv.next_le, by simpa [Pool.init] using claimed⟩, once, sorted⟩

theorem run_ends (run : Run (Step setup) (.init setup) labels s) (some : 0 < setup.corosTotal)
    (finished : s.Finished setup) : Fills setup labels s := by
  obtain ⟨w, inv, -⟩ := run_inv run (Pool.init_inv setup)
  obtain ⟨all, slots⟩ := inv.destinations_eq some finished
  have claimed := run_claimed run
  rw [all] at claimed
  refine ⟨by simpa [Pool.init] using claimed, fun i within => ?_, ?_⟩
  · have empty : (Pool.init setup).destinations[i]? = .some none := by simp [Pool.init, within]
    have lt : i < setup.slots.length := setup.slots_length ▸ within
    have filled : s.destinations[i]? = .some (.some setup.slots[i]) := by
      rw [slots, List.getElem?_map, List.getElem?_eq_getElem lt, Option.map_some]
    exact run_fills run (Pool.init_inv setup) empty filled
  · rw [slots, Setup.slots, List.map_map]
    rfl

/-- A run of the program on these files. -/
structure Runs (files : Files) (setup : Setup) (labels : List Label) (s : Pool) : Prop where
  files_eq : setup.files = files
  coros : 0 < setup.corosTotal
  run : Run (Step setup) (.init setup) labels s

/-- The coroutines share the files, for every number of them and every schedule. -/
structure SharesFiles (files : Files) : Prop where
  /-- What the slots hold is what `get_sorted_numbers` returns where nobody else runs. -/
  sorts : ∀ numbers ∈ files.data, ∀ clock depth t, 32 ≤ depth →
    (getSortedNumbers clock none depth numbers).straight.Ensures t fun sorted _ => sorted = numbers.mergeSort
  shares : ∀ setup labels s, Runs files setup labels s → Shares setup labels
  /-- No access goes wrong. -/
  goes_on : ∀ setup labels s, Runs files setup labels s → ∀ c, s.running = some c → ∃ label s', Step setup s label s'
  /-- No schedule runs forever. -/
  bounded : ∀ setup : Setup, ∃ bound, ∀ labels s, Runs files setup labels s → labels.length ≤ bound
  fills : ∀ setup labels s, Runs files setup labels s → s.Finished setup → Fills setup labels s

/-- The result is that of the files alone. -/
structure ScheduleIndependent (files : Files) : Prop extends SharesFiles files where
  /-- The slots stand one behind the other, in the order of the files. -/
  concatenates : ∀ setup labels s, Runs files setup labels s → s.Finished setup → ∀ t : Times,
    (concatenation s.destinations setup.filesTotal).Ensures t fun cells _ =>
      cells = (files.data.map fun numbers => numbers.mergeSort).flatten.map some
  result : ∃ result, ∀ setup labels s, Runs files setup labels s → s.Finished setup → ∀ t,
    (mainEnd setup s.destinations).Ensures t fun written _ => written = result

theorem shares_files (files : Files) : SharesFiles files where
  sorts numbers mem clock depth t deep :=
    getSortedNumbers_returns (files.len numbers mem).1 (files.len numbers mem).2 deep
  shares _ _ _ runs := run_shares runs.run
  goes_on setup labels s runs c running := by
    obtain ⟨w, inv, -⟩ := run_inv runs.run (Pool.init_inv setup)
    exact FileSort.goes_on inv running
  bounded setup := by
    refine ⟨(Pool.init setup).measure setup fun _ => 0, fun labels s runs => ?_⟩
    obtain ⟨w, -, le⟩ := run_inv runs.run (Pool.init_inv setup)
    omega
  fills _ _ _ runs finished := run_ends runs.run runs.coros finished

/-- The slots when all have finished. -/
theorem Runs.slots_eq {files : Files} (runs : Runs files setup labels s) (finished : s.Finished setup) :
    s.destinations = setup.slots.map some := by
  obtain ⟨w, inv, -⟩ := run_inv runs.run (Pool.init_inv setup)
  exact (inv.destinations_eq runs.coros finished).2

theorem slots_length_eq (setup : Setup) : setup.slots.flatten.length = setup.files.data.flatten.length :=
  (slots_perm setup).length_eq

/-- As long as the numbers can be counted with an `int`. -/
theorem independent_of_fits {files : Files} (some : files.data ≠ []) (fits : files.data.flatten.length < 2 ^ 31) :
    ScheduleIndependent files where
  toSharesFiles := shares_files files
  concatenates setup labels s runs finished t := by
    rw [runs.slots_eq finished, ← setup.slots_length]
    obtain rfl := runs.files_eq
    rw [← slots_length_eq] at fits
    exact (concatenation_returns fits).mono fun _ _ after => after.2
  result := by
    refine ⟨files.data.flatten.mergeSort, fun setup labels s runs finished t => ?_⟩
    rw [runs.slots_eq finished]
    obtain rfl := runs.files_eq
    exact mainEnd_returns some fits

/-- With one coroutine the whole program runs. -/
def single (files : Files) : Setup where
  files := files
  corosTotal := 1
  clock _ := ⟨0, 0⟩
  depth := 32
  deep := Nat.le_refl _

theorem fits_of_independent {files : Files} (independent : ScheduleIndependent files) :
    files.data.flatten.length < 2 ^ 31 := by
  obtain ⟨labels, s, run, finished⟩ := finishes (Pool.init_inv (single files))
  have runs : Runs files (single files) labels s := ⟨rfl, Nat.one_pos, run⟩
  have concatenated := independent.concatenates _ _ _ runs finished (Pool.init (single files)).times
  obtain ⟨cells, t, returned, -⟩ := concatenated
  rw [runs.slots_eq finished, ← (single files).slots_length] at returned
  have fits := concatenation_fits returned
  rwa [slots_length_eq] at fits

/-- The files are always shared; the result is independent of the schedule if and only if the total of
    the lengths is an `int`. -/
theorem schedule_independent (files : Files) (some : files.data ≠ []) :
    SharesFiles files ∧ (ScheduleIndependent files ↔ files.data.flatten.length < 2 ^ 31) :=
  ⟨shares_files files, fits_of_independent, independent_of_fits some⟩

theorem schedule_independent_two :
    ScheduleIndependent ⟨[[3, 1, 2], [1]], by decide⟩ :=
  (schedule_independent ⟨[[3, 1, 2], [1]], by decide⟩ (by simp)).2.mpr (by simp)

/-- Two files with `n` numbers each. -/
def twice (n : Nat) (len : 1 ≤ n ∧ n < 2 ^ 31) : Files where
  data := [List.replicate n 0, List.replicate n 0]
  len numbers mem := by
    have same : numbers = List.replicate n 0 := by simpa using mem
    rwa [same, List.length_replicate]

theorem twice_length (n : Nat) (len : 1 ≤ n ∧ n < 2 ^ 31) : (twice n len).data.flatten.length = n + n := by
  simp [twice]

theorem twice_overflows : ¬ ScheduleIndependent (twice (2 ^ 30) (by decide)) := by
  intro independent
  have fits := fits_of_independent independent
  rw [twice_length] at fits
  exact absurd fits (by decide)

end SysprogLabs.FileSort
