import Std.Data.TreeSet.Lemmas
import PagedQueue.Fault
import PagedQueue.Page.Name

/-!
# Sets of page numbers

Which pages a directory holds is a set of numbers. Its greatest number tells how far the pages reach
(`greatest_eq_some`, `greatest_eq_none_iff`).

Pages are numbered in a circle: after the largest number comes zero. If both ends of the range are
in a set, the newest page of the set is the end of the unbroken run that begins at zero (`newest`).
It is found by counting up to the first number that is missing (`firstMissing?_eq_some`), and only a
set of all numbers has none (`firstMissing?_eq_none`).
-/

namespace PagedQueue

/-- A set of page numbers. -/
abbrev IndexSet := Std.TreeSet Nat

namespace IndexSet

/-- The set of these numbers. -/
def ofList (indexes : List Nat) : IndexSet := indexes.foldl .insert {}

private theorem mem_foldl_insert (indexes : List Nat) (set : IndexSet) (index : Nat) :
    index ∈ indexes.foldl .insert set ↔ index ∈ set ∨ index ∈ indexes := by
  induction indexes generalizing set with
  | nil => simp
  | cons first rest ih =>
    rw [List.foldl_cons, ih, Std.TreeSet.mem_insert, Std.LawfulEqCmp.compare_eq_iff_eq,
      List.mem_cons]
    constructor
    · rintro ((rfl | h) | h)
      · exact .inr (.inl rfl)
      · exact .inl h
      · exact .inr (.inr h)
    · rintro (h | rfl | h)
      · exact .inl (.inr h)
      · exact .inl (.inl rfl)
      · exact .inr h

@[simp]
theorem mem_ofList (indexes : List Nat) (index : Nat) :
    index ∈ ofList indexes ↔ index ∈ indexes := by
  simp [ofList, mem_foldl_insert]

/-- The greatest number of a set. -/
def greatest (indexes : IndexSet) : Option Nat := indexes.toList.getLast?

theorem greatest_eq_some {indexes : IndexSet} {index : Nat}
    (h : greatest indexes = some index) :
    index ∈ indexes ∧ ∀ other ∈ indexes, other ≤ index := by
  obtain ⟨front, hfront⟩ := List.getLast?_eq_some_iff.mp h
  have hordered := indexes.ordered_toList
  rw [hfront, List.pairwise_append] at hordered
  have hmem (other : Nat) : other ∈ indexes ↔ other ∈ front ∨ other = index := by
    rw [← Std.TreeSet.mem_toList, hfront, List.mem_append, List.mem_singleton]
  refine ⟨(hmem index).mpr (.inr rfl), fun other hother => ?_⟩
  rcases (hmem other).mp hother with hin | rfl
  · have hlt := hordered.2.2 other hin index (List.mem_singleton.mpr rfl)
    exact Nat.le_of_lt (Nat.compare_eq_lt.mp hlt)
  · exact Nat.le_refl _

/-- Only the empty set has no greatest number. -/
theorem greatest_eq_none_iff {indexes : IndexSet} :
    greatest indexes = none ↔ ∀ index, index ∉ indexes := by
  simp only [greatest, List.getLast?_eq_none_iff, ← Std.TreeSet.mem_toList,
    List.eq_nil_iff_forall_not_mem]

/-- Counts up from `next` as long as the number is in the set, and stops at the first number that is
not. Behind the largest number of a page there is none to count to. -/
def firstMissing? (indexes : IndexSet) (next : Nat) : Option Nat :=
  if next ∈ indexes then
    if _h : next < PageName.maxIndex then firstMissing? indexes (next + 1) else none
  else some next
  termination_by PageName.maxIndex - next
  decreasing_by omega

/-- All numbers on the way are in the set, and the one where the count stops is not. -/
theorem firstMissing?_eq_some {indexes : IndexSet} {next stop : Nat}
    (hnext : next ≤ PageName.maxIndex)
    (h : firstMissing? indexes next = some stop) : stop ∉ indexes ∧ stop ≤ PageName.maxIndex
      ∧ ∀ index, next ≤ index → index < stop → index ∈ indexes := by
  fun_induction firstMissing? indexes next with
  | case1 next hmem hlt ih =>
    obtain ⟨hstop, hle, hbefore⟩ := ih hlt h
    refine ⟨hstop, hle, fun index hge hbelow => ?_⟩
    rcases Nat.eq_or_lt_of_le hge with rfl | hgt
    · exact hmem
    · exact hbefore index hgt hbelow
  | case2 => cases h
  | case3 next hmissing =>
    obtain rfl := Option.some.inj h
    exact ⟨hmissing, hnext, fun index hge hbelow => absurd hge (Nat.not_le_of_gt hbelow)⟩

/-- The numbers run out only where none is missing. -/
theorem firstMissing?_eq_none {indexes : IndexSet} {next : Nat}
    (h : firstMissing? indexes next = none)
    {index : Nat} (hge : next ≤ index) (hle : index ≤ PageName.maxIndex) : index ∈ indexes := by
  fun_induction firstMissing? indexes next with
  | case1 next hmem hlt ih =>
    rcases Nat.eq_or_lt_of_le hge with rfl | hgt
    · exact hmem
    · exact ih h hgt
  | case2 next hmem hlast =>
    obtain rfl : next = index := by omega
    exact hmem
  | case3 => cases h

/-- The newest of a set of pages numbered in a circle. -/
def newest (indexes : IndexSet) : Except Fault (Option Nat) :=
  match greatest indexes with
  | none => .ok none
  | some largest =>
    if largest ≠ PageName.maxIndex then .ok (some largest)
    else match firstMissing? indexes 0 with
      | none => .error (.misuse .numbersExhausted)
      | some 0 => .ok (some PageName.maxIndex)
      | some (next + 1) => .ok (some next)

end IndexSet

end PagedQueue
