import Mathlib.Data.List.Sort
import Mathlib.Data.List.Dedup

/-!
# Grouping rows and numbering them in order

`groups` lists the distinct keys of some rows in ascending order and `group`
selects the rows of one key: the two halves of an ordered GROUP BY. `numbered`
sorts integers and numbers them from one, as a window function does over one
partition; rows that tie may be numbered either way, and the numbered pairs are
the same.

The second half is the gaps-and-islands argument. In strictly ascending values
the difference between a value and its number never decreases, and it stays the
same exactly along a run of consecutive values.
-/

namespace Replikon.Foundation

universe u v

section Groups

variable {α : Type u} {κ : Type v} [LinearOrder κ]

/-- The distinct keys of the rows, ascending. -/
def groups (key : α → κ) (rows : List α) : List κ :=
  (rows.map key).dedup.insertionSort (· ≤ ·)

/-- The rows of one key. -/
def group (key : α → κ) (rows : List α) (wanted : κ) : List α :=
  rows.filter fun row => key row = wanted

/-- A key is listed exactly when some row has it. -/
theorem mem_groups (key : α → κ) (rows : List α) (wanted : κ) :
    wanted ∈ groups key rows ↔ ∃ row ∈ rows, key row = wanted := by
  rw [groups, (List.perm_insertionSort _ _).mem_iff, List.mem_dedup, List.mem_map]

/-- Each key is listed once, in ascending order. -/
theorem groups_ascending (key : α → κ) (rows : List α) :
    (groups key rows).Pairwise (· < ·) := by
  have sorted : (groups key rows).Pairwise (· ≤ ·) := List.pairwise_insertionSort _ _
  have distinct : (groups key rows).Nodup :=
    (List.perm_insertionSort _ _).nodup_iff.mpr (List.nodup_dedup _)
  refine (sorted.and distinct).imp ?_
  rintro first second ⟨below, different⟩
  exact lt_of_le_of_ne below different

/-- A row belongs to the group of a key exactly when it has that key. -/
theorem mem_group (key : α → κ) (rows : List α) (wanted : κ) (row : α) :
    row ∈ group key rows wanted ↔ row ∈ rows ∧ key row = wanted := by
  simp [group]

/-- The keys of two lists with the same members are the same list. -/
theorem groups_congr (key : α → κ) (left right : List α)
    (same : ∀ row, row ∈ left ↔ row ∈ right) : groups key left = groups key right := by
  refine List.Pairwise.eq_of_mem_iff (groups_ascending key left) (groups_ascending key right) ?_
  intro wanted
  simp only [mem_groups, same]

end Groups

/-- Integers in ascending order, numbered from one. -/
def numbered (values : List Int) : List (Int × Nat) :=
  (values.insertionSort (· ≤ ·)).zipIdx 1

/-- The numbered pairs depend only on the values and their multiplicities. -/
theorem numbered_congr (left right : List Int) (permuted : left.Perm right) :
    numbered left = numbered right := by
  have sortedPerm : (left.insertionSort (· ≤ ·)).Perm (right.insertionSort (· ≤ ·)) :=
    (List.perm_insertionSort _ _).trans (permuted.trans (List.perm_insertionSort _ _).symm)
  have sorted : left.insertionSort (· ≤ ·) = right.insertionSort (· ≤ ·) :=
    sortedPerm.eq_of_pairwise (fun _ _ _ _ below above => le_antisymm below above)
      (List.pairwise_insertionSort _ _) (List.pairwise_insertionSort _ _)
  rw [numbered, numbered, sorted]

/-- A pair is numbered exactly when the value stands at that place of the
sorted list, counted from one. -/
theorem mem_numbered (values : List Int) (value : Int) (number : Nat) :
    (value, number) ∈ numbered values ↔
      1 ≤ number ∧ (values.insertionSort (· ≤ ·))[number - 1]? = some value := by
  rw [numbered, List.mk_mem_zipIdx_iff_le_and_getElem?_sub]

/-- The numbered values are the given ones. -/
theorem mem_numbered_value (values : List Int) (value : Int) :
    value ∈ values ↔ ∃ number, (value, number) ∈ numbered values := by
  have sorted : value ∈ values ↔ value ∈ values.insertionSort (· ≤ ·) :=
    (List.perm_insertionSort _ _).mem_iff.symm
  rw [sorted, List.mem_iff_getElem?]
  constructor
  · rintro ⟨index, found⟩
    exact ⟨index + 1, (mem_numbered values value (index + 1)).mpr ⟨by omega, by simpa using found⟩⟩
  · rintro ⟨number, member⟩
    exact ⟨number - 1, ((mem_numbered values value number).mp member).2⟩

/-- The numbers from one on are numbered by themselves. -/
theorem numbered_consecutive (count : Nat) (value : Int) (number : Nat)
    (member : (value, number) ∈ numbered ((List.range' 1 count).map Int.ofNat)) :
    value = number := by
  have sorted : ((List.range' 1 count).map Int.ofNat).Pairwise (· ≤ ·) := by
    rw [List.pairwise_map]
    exact (List.pairwise_le_range' 1).imp fun below => Int.ofNat_le.mpr below
  obtain ⟨positive, found⟩ := (mem_numbered _ _ _).mp member
  rw [sorted.insertionSort_eq] at found
  obtain ⟨inside, same⟩ := List.getElem?_eq_some_iff.mp found
  rw [← same]
  simp only [List.getElem_map, List.getElem_range', Int.ofNat_eq_natCast]
  omega

/-- A value that is there twice has two numbers, one after the other. -/
theorem numbered_repeated (values : List Int) (repeated : ¬ values.Nodup) :
    ∃ value number, (value, number) ∈ numbered values ∧ (value, number + 1) ∈ numbered values := by
  by_contra none
  have sorted : (values.insertionSort (· ≤ ·)).Pairwise (· ≤ ·) := List.pairwise_insertionSort _ _
  have chain : (values.insertionSort (· ≤ ·)).IsChain (· < ·) := by
    rw [List.isChain_iff_getElem]
    intro place inside
    refine lt_of_le_of_ne (List.pairwise_iff_getElem.mp sorted _ _ _ _ (by omega)) fun same => ?_
    refine none ⟨(values.insertionSort (· ≤ ·))[place], place + 1, ?_, ?_⟩
    · exact (mem_numbered _ _ _).mpr ⟨by omega, List.getElem?_eq_getElem (by omega)⟩
    · rw [same]
      exact (mem_numbered _ _ _).mpr ⟨by omega, List.getElem?_eq_getElem inside⟩
  have strict := List.isChain_iff_pairwise.mp chain
  exact repeated ((List.perm_insertionSort _ _).nodup_iff.mp (strict.imp fun below => ne_of_lt below))

/-- Distinct values sort into a strictly ascending list. -/
theorem sorted_strict (values : List Int) (distinct : values.Nodup) :
    (values.insertionSort (· ≤ ·)).Pairwise (· < ·) := by
  have sorted : (values.insertionSort (· ≤ ·)).Pairwise (· ≤ ·) := List.pairwise_insertionSort _ _
  have unique : (values.insertionSort (· ≤ ·)).Nodup :=
    (List.perm_insertionSort _ _).nodup_iff.mpr distinct
  refine (sorted.and unique).imp ?_
  rintro first second ⟨below, different⟩
  exact lt_of_le_of_ne below different

/-- Strictly ascending integers grow by at least one at each place. -/
theorem ascending_gap (values : List Int) (ascending : values.Pairwise (· < ·))
    (first distance : Nat) (bounded : first + distance < values.length) :
    values[first] + distance ≤ values[first + distance] := by
  induction distance with
  | zero => simp
  | succ distance inductionHypothesis =>
    have before : values[first] + distance ≤ values[first + distance] :=
      inductionHypothesis (by omega)
    have next : values[first + distance] < values[first + distance + 1] :=
      List.pairwise_iff_getElem.mp ascending _ _ (by omega) (by omega) (by omega)
    have same : values[first + (distance + 1)] = values[first + distance + 1] := rfl
    rw [same]
    push_cast
    omega

section Islands

variable {values : List Int} (distinct : values.Nodup)
include distinct

/-- A later number belongs to a value at least as much larger. -/
theorem numbered_gap {value later : Int} {number next : Nat}
    (member : (value, number) ∈ numbered values) (other : (later, next) ∈ numbered values)
    (order : number ≤ next) : value + (next - number) ≤ later := by
  obtain ⟨positive, found⟩ := (mem_numbered values value number).mp member
  obtain ⟨_, foundLater⟩ := (mem_numbered values later next).mp other
  obtain ⟨bounded, same⟩ := List.getElem?_eq_some_iff.mp found
  obtain ⟨boundedLater, sameLater⟩ := List.getElem?_eq_some_iff.mp foundLater
  have place : number - 1 + (next - number) = next - 1 := by omega
  have gap := ascending_gap _ (sorted_strict values distinct) (number - 1) (next - number) (by omega)
  simp only [place, same, sameLater] at gap
  omega

/-- A value is above a lower bound of all values by at least its number less one. -/
theorem numbered_lower (low : Int) {value : Int} {number : Nat}
    (member : (value, number) ∈ numbered values) (bounded : ∀ other ∈ values, low ≤ other) :
    low + (number - 1) ≤ value := by
  obtain ⟨positive, found⟩ := (mem_numbered values value number).mp member
  obtain ⟨inside, _⟩ := List.getElem?_eq_some_iff.mp found
  have nonempty : 0 < (values.insertionSort (· ≤ ·)).length := by omega
  let least := (values.insertionSort (· ≤ ·))[0]
  have leastNumbered : (least, 1) ∈ numbered values :=
    (mem_numbered values least 1).mpr ⟨le_rfl, List.getElem?_eq_getElem nonempty⟩
  have above : low ≤ least := bounded least ((mem_numbered_value values least).mpr ⟨1, leastNumbered⟩)
  have gap := numbered_gap distinct leastNumbered member positive
  push_cast at gap
  omega

/-- A larger value has a later number. -/
theorem numbered_order {value later : Int} {number next : Nat}
    (member : (value, number) ∈ numbered values) (other : (later, next) ∈ numbered values) :
    value < later ↔ number < next := by
  constructor
  · intro below
    by_contra notBefore
    have gap := numbered_gap distinct other member (by omega)
    omega
  · intro before
    have gap := numbered_gap distinct member other (by omega)
    omega

/-- Between two values at the same distance from their numbers there is no gap:
every integer between them is numbered, at the same distance again. -/
theorem island_filled {value later between : Int} {number next : Nat}
    (member : (value, number) ∈ numbered values) (other : (later, next) ∈ numbered values)
    (level : value - number = later - next) (above : value ≤ between) (below : between ≤ later) :
    ∃ middle, (between, middle) ∈ numbered values ∧ between - middle = value - number := by
  obtain ⟨positive, found⟩ := (mem_numbered values value number).mp member
  obtain ⟨_, foundLater⟩ := (mem_numbered values later next).mp other
  obtain ⟨boundedLater, _⟩ := List.getElem?_eq_some_iff.mp foundLater
  obtain ⟨step, stepped⟩ := Int.eq_ofNat_of_zero_le (show 0 ≤ between - value by omega)
  have inside : number + step - 1 < (values.insertionSort (· ≤ ·)).length := by omega
  -- The value at that place is squeezed between the two ends of the island.
  let found := (values.insertionSort (· ≤ ·))[number + step - 1]
  have numberedFound : (found, number + step) ∈ numbered values :=
    (mem_numbered values found (number + step)).mpr
      ⟨by omega, List.getElem?_eq_getElem inside⟩
  have fromLeft := numbered_gap distinct member numberedFound (by omega)
  have fromRight := numbered_gap distinct numberedFound other (by omega)
  have same : found = between := by
    push_cast at fromLeft fromRight
    omega
  refine ⟨number + step, same ▸ numberedFound, ?_⟩
  push_cast
  omega

end Islands

end Replikon.Foundation
