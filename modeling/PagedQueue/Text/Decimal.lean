/-!
# Decimal numbers

A number is read from a run of the digits `0` to `9` that is not empty; leading zeros change
nothing, and one plus sign may stand in front. No other character is accepted, so a sign alone,
blanks and digits of other scripts are refused.
-/

namespace PagedQueue.Decimal

/-- The value of one digit. -/
def digit? (c : Char) : Option Nat :=
  if '0' ≤ c ∧ c ≤ '9' then some (c.toNat - '0'.toNat) else none

/-- Continues the number `n` with the digits of a text. -/
def readDigits? (n : Nat) : List Char → Option Nat
  | [] => some n
  | c :: rest => (digit? c).bind fun d => readDigits? (n * 10 + d) rest

/-- Drops one leading plus sign. -/
def dropSign : List Char → List Char
  | '+' :: rest => rest
  | text => text

/-- Reads a number. -/
def read? (text : List Char) : Option Nat :=
  match dropSign text with
  | [] => none
  | digits => readDigits? 0 digits

/-- Reads a number that lies below `bound`. -/
def readBelow? (bound : Nat) (text : List Char) : Option Nat :=
  (read? text).filter (· < bound)

end PagedQueue.Decimal
