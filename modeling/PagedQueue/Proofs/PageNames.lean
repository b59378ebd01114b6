import Mathlib.Data.List.Basic
import PagedQueue.Page.Name

/-!
# Pages and the names of their files

A number may be spelled in several ways: a plus sign may stand in front, and zeros before the first
digit (`Decimal.Spelling`). Reading accepts these spellings and nothing else
(`Decimal.read?_eq_some_iff`). The argument goes along the digits: once the number read so far is
not zero, its own digits and those that follow are the digits of the number read in the end, and
before that there are only zeros.

So a name is read as a page if it spells the page (`index?_eq_some_iff`). The name that is written
for a page is read back as the page (`index?_ofIndex_eq_some_iff`), if its number is in range, so
pages of different numbers have files of different names (`ofIndex_injective`).
-/

namespace PagedQueue

namespace Decimal

/-- How a number is spelled. -/
structure Spelling where
  /-- Whether a plus sign stands in front. -/
  signed : Bool
  /-- How many zeros stand before the first digit. -/
  zeros : Nat
  deriving DecidableEq

/-- The way in which numbers are written. -/
def Spelling.plain : Spelling := ⟨false, 0⟩

/-- A number in this spelling. -/
def Spelling.write (how : Spelling) (n : Nat) : List Char :=
  (if how.signed then ['+'] else []) ++ (List.replicate how.zeros '0' ++ Nat.toDigits 10 n)

/-! ## Digits -/

/-- A digit is read as its value. -/
theorem digit?_of_isDigit {c : Char} (h : c.isDigit = true) :
    digit? c = some (c.toNat - '0'.toNat) := by
  have hrange : '0' ≤ c ∧ c ≤ '9' := by
    rw [Char.isDigit, Bool.and_eq_true, decide_eq_true_eq, decide_eq_true_eq] at h
    exact h
  rw [digit?, if_pos hrange]

/-- A text of digits is read as the number that these digits make up. -/
theorem readDigits?_eq_ofDigitChars (text : List Char) (h : ∀ c ∈ text, c.isDigit = true)
    (n : Nat) :
    readDigits? n text = some (Nat.ofDigitChars 10 text n) := by
  induction text generalizing n with
  | nil => rw [readDigits?, Nat.ofDigitChars_nil]
  | cons c rest ih =>
    obtain ⟨hc, hrest⟩ := List.forall_mem_cons.mp h
    rw [readDigits?, digit?_of_isDigit hc, Option.bind_some, ih hrest, Nat.ofDigitChars_cons,
      Nat.mul_comm]

/-- What has a value is a digit. -/
theorem eq_digitChar_of_digit? {c : Char} {d : Nat} (h : digit? c = some d) :
    d < 10 ∧ c = Nat.digitChar d := by
  unfold digit? at h
  split at h
  next hrange =>
    obtain rfl := Option.some.inj h
    have hge : '0'.toNat ≤ c.toNat := hrange.1
    have hle : c.toNat ≤ '9'.toNat := hrange.2
    have hzero : '0'.toNat = 48 := rfl
    have hnine : '9'.toNat = 57 := rfl
    have hlt : c.toNat - '0'.toNat < 10 := by omega
    refine ⟨hlt, Char.toNat_inj.mp ?_⟩
    rw [Nat.toNat_digitChar_of_lt_ten hlt]
    omega
  next => cases h

/-- From a number on that is not zero, digits are added behind those that it has. -/
theorem toDigits_append_of_readDigits? {text : List Char} {m n : Nat} (hpos : 0 < m)
    (h : readDigits? m text = some n) : Nat.toDigits 10 m ++ text = Nat.toDigits 10 n := by
  induction text generalizing m with
  | nil =>
    obtain rfl := Option.some.inj h
    exact List.append_nil _
  | cons c rest ih =>
    obtain ⟨d, hdigit, hrest⟩ := Option.bind_eq_some_iff.mp h
    obtain ⟨hd, rfl⟩ := eq_digitChar_of_digit? hdigit
    have hdigits := Nat.toDigits_append_toDigits (b := 10) (by decide) hpos hd
    rw [Nat.toDigits_of_lt_base hd, Nat.mul_comm] at hdigits
    rw [List.append_cons, hdigits]
    exact ih (by omega) hrest

/-- Digits that are read as a number are its own, with zeros in front. -/
theorem eq_zeros_append_of_readDigits? {text : List Char} {n : Nat} (htext : text ≠ [])
    (h : readDigits? 0 text = some n) : ∃ zeros,
      text = List.replicate zeros '0' ++ Nat.toDigits 10 n := by
  induction text with
  | nil => exact absurd rfl htext
  | cons c rest ih =>
    obtain ⟨d, hdigit, hrest⟩ := Option.bind_eq_some_iff.mp h
    obtain ⟨hd, rfl⟩ := eq_digitChar_of_digit? hdigit
    rw [Nat.zero_mul, Nat.zero_add] at hrest
    -- a zero leaves the number at zero, and any other digit is the first of the number's own
    rcases Nat.eq_zero_or_pos d with rfl | hpos
    · by_cases hend : rest = []
      · subst hend
        obtain rfl := Option.some.inj hrest
        exact ⟨0, rfl⟩
      · obtain ⟨zeros, rfl⟩ := ih hend hrest
        exact ⟨zeros + 1, rfl⟩
    · have hdigits := toDigits_append_of_readDigits? hpos hrest
      rw [Nat.toDigits_of_lt_base hd] at hdigits
      exact ⟨0, hdigits⟩

theorem isDigit_of_mem_zeros_append {zeros n : Nat} {c : Char}
    (h : c ∈ List.replicate zeros '0' ++ Nat.toDigits 10 n) : c.isDigit = true := by
  rcases List.mem_append.mp h with hzero | hdigit
  · rw [List.eq_of_mem_replicate hzero]
    rfl
  · exact Nat.isDigit_of_mem_toDigits (by decide) (by decide) hdigit

theorem plus_not_mem_zeros_append (zeros n : Nat) :
    '+' ∉ List.replicate zeros '0' ++ Nat.toDigits 10 n :=
  fun hmem => absurd (isDigit_of_mem_zeros_append hmem) (by decide)

/-- Zeros in front change nothing. -/
theorem readDigits?_zeros_append (zeros n : Nat) :
    readDigits? 0 (List.replicate zeros '0' ++ Nat.toDigits 10 n) = some n := by
  rw [readDigits?_eq_ofDigitChars _ (fun _ => isDigit_of_mem_zeros_append), Nat.ofDigitChars_append,
    Nat.ofDigitChars_replicate_zero, Nat.mul_zero, Nat.ofDigitChars_ten_toDigits]

/-- What is left without a sign had one or none before. -/
theorem dropSign_eq_iff {text digits : List Char} (h : '+' ∉ digits) :
    dropSign text = digits ↔ ∃ signed : Bool, text = (if signed then ['+'] else []) ++ digits := by
  constructor
  · intro hdrop
    unfold dropSign at hdrop
    split at hdrop
    next => exact ⟨true, congrArg (List.cons '+') hdrop⟩
    next => exact ⟨false, hdrop⟩
  · rintro ⟨signed, rfl⟩
    cases signed with
    | true => rfl
    | false =>
      show dropSign digits = digits
      unfold dropSign
      split
      next => exact absurd List.mem_cons_self h
      next => rfl

/-- Exactly the spellings of a number are read as the number. -/
theorem read?_eq_some_iff {text : List Char} {n : Nat} :
    read? text = some n ↔ ∃ how : Spelling, text = how.write n := by
  have hdigits : read? text = some n
      ↔ ∃ zeros, dropSign text = List.replicate zeros '0' ++ Nat.toDigits 10 n := by
    unfold read?
    split
    next hnone =>
      refine iff_of_false (nofun) ?_
      rintro ⟨zeros, heq⟩
      exact Nat.toDigits_ne_nil (List.append_eq_nil_iff.mp (heq.symm.trans hnone)).2
    next hsome =>
      refine ⟨eq_zeros_append_of_readDigits? hsome, ?_⟩
      rintro ⟨zeros, heq⟩
      rw [heq, readDigits?_zeros_append]
  have hplus (zeros : Nat) := plus_not_mem_zeros_append zeros n
  rw [hdigits]
  constructor
  · rintro ⟨zeros, heq⟩
    obtain ⟨signed, rfl⟩ := (dropSign_eq_iff (hplus zeros)).mp heq
    exact ⟨⟨signed, zeros⟩, rfl⟩
  · rintro ⟨⟨signed, zeros⟩, rfl⟩
    exact ⟨zeros, (dropSign_eq_iff (hplus zeros)).mpr ⟨signed, rfl⟩⟩

theorem Spelling.plus_mem_write_iff {how : Spelling} {n : Nat} :
    '+' ∈ how.write n ↔ how.signed = true := by
  obtain ⟨signed, zeros⟩ := how
  cases signed with
  | true => exact iff_of_true List.mem_cons_self rfl
  | false => exact iff_of_false (plus_not_mem_zeros_append zeros n) Bool.false_ne_true

/-- Spellings that give the same text are the same. -/
theorem Spelling.write_inj {how other : Spelling} {n : Nat} :
    how.write n = other.write n ↔ how = other := by
  refine ⟨fun heq => ?_, congrArg (write · n)⟩
  have hsigned : how.signed = other.signed := by
    rw [Bool.eq_iff_iff, ← plus_mem_write_iff (n := n), heq, plus_mem_write_iff]
  have hlength := congrArg List.length heq
  simp only [write, hsigned, List.length_append, List.length_replicate] at hlength
  have hzeros : how.zeros = other.zeros := by omega
  obtain ⟨_, _⟩ := how
  obtain ⟨_, _⟩ := other
  exact congrArg₂ Spelling.mk hsigned hzeros

/-- A spelling tells its number. -/
theorem Spelling.number_eq_of_write_eq {how other : Spelling} {m n : Nat}
    (h : how.write m = other.write n) :
    m = n := by
  have hm : read? (how.write m) = some m := read?_eq_some_iff.mpr ⟨how, rfl⟩
  have hn : read? (how.write m) = some n := read?_eq_some_iff.mpr ⟨other, h⟩
  exact Option.some.inj (hm.symm.trans hn)

end Decimal

namespace PageName

open Decimal (Spelling)

/-- The name of a page with its number in this spelling. -/
def spell (how : Spelling) (index : Nat) : String :=
  head ++ String.ofList (how.write index) ++ tail

theorem toList_spell (how : Spelling) (index : Nat) :
    (spell how index).toList = head.toList ++ (how.write index ++ tail.toList) := by
  simp [spell]

/-- The name that is written for a page has its number in the plain spelling. -/
theorem spell_plain (index : Nat) : spell .plain index = ofIndex index := by
  rw [← String.toList_inj, toList_spell]
  simp [ofIndex, Spelling.plain, Spelling.write]

theorem spell_inj {how other : Spelling} {index : Nat} :
    spell how index = spell other index ↔ how = other := by
  rw [← String.toList_inj, toList_spell, toList_spell, List.append_cancel_left_eq,
    List.append_cancel_right_eq, Spelling.write_inj]

/-- A spelling of the name of a page tells the page. -/
theorem index_eq_of_spell_eq {how other : Spelling} {i j : Nat} (h : spell how i = spell other j) :
    i = j := by
  rw [← String.toList_inj, toList_spell, toList_spell, List.append_cancel_left_eq,
    List.append_cancel_right_eq] at h
  exact Spelling.number_eq_of_write_eq h

/-- A name is read as a page if it spells the page, and its number is in range. -/
theorem index?_eq_some_iff {name : String} {index : Nat} :
    index? name = some index ↔ index ≤ maxIndex ∧ ∃ how, name = spell how index := by
  simp only [index?, Option.bind_eq_bind, Option.bind_eq_some_iff,
    List.isPrefixOf?_eq_some_iff_append_eq,
    List.isSuffixOf?_eq_some_iff_append_eq, Decimal.readBelow?, Option.filter_eq_some_iff,
    Decimal.read?_eq_some_iff, decide_eq_true_eq, Nat.lt_succ_iff]
  constructor
  · rintro ⟨rest, hrest, digits, rfl, ⟨how, rfl⟩, hle⟩
    exact ⟨hle, how, String.toList_inj.mp (hrest.symm.trans (toList_spell how index).symm)⟩
  · rintro ⟨hle, how, rfl⟩
    exact ⟨_, (toList_spell how index).symm, _, rfl, ⟨how, rfl⟩, hle⟩

/-- The written name of a page and no other is read as the page, unless the name has another
spelling. -/
theorem index?_eq_some_iff_eq_ofIndex {name : String} {index : Nat} (hle : index ≤ maxIndex) :
    (index? name = some index ↔ name = ofIndex index)
      ↔ ∀ how : Spelling, name = spell how index → how = .plain := by
  rw [index?_eq_some_iff, ← spell_plain]
  constructor
  · rintro hwritten how rfl
    exact spell_inj.mp (hwritten.mp ⟨hle, how, rfl⟩)
  · intro hplain
    constructor
    · rintro ⟨-, how, rfl⟩
      rw [hplain how rfl]
    · rintro rfl
      exact ⟨hle, .plain, rfl⟩

/-- What is written for a page is read back as the page, if its number is in range. -/
theorem index?_ofIndex_eq_some_iff {i j : Nat} :
    index? (ofIndex i) = some j ↔ i = j ∧ i ≤ maxIndex := by
  rw [index?_eq_some_iff, ← spell_plain]
  constructor
  · rintro ⟨hle, how, heq⟩
    obtain rfl := index_eq_of_spell_eq heq
    exact ⟨rfl, hle⟩
  · rintro ⟨rfl, hle⟩
    exact ⟨hle, .plain, rfl⟩

/-- What is read is in range. -/
theorem le_maxIndex_of_index? {name : String} {index : Nat} (h : index? name = some index) :
    index ≤ maxIndex := (index?_eq_some_iff.mp h).1

/-- Pages of different numbers have files of different names. -/
theorem ofIndex_injective {i j : Nat} (h : ofIndex i = ofIndex j) : i = j := by
  rw [← spell_plain, ← spell_plain] at h
  exact index_eq_of_spell_eq h

@[simp]
theorem ofIndex_inj {i j : Nat} : ofIndex i = ofIndex j ↔ i = j :=
  ⟨ofIndex_injective, congrArg ofIndex⟩

end PageName

end PagedQueue
