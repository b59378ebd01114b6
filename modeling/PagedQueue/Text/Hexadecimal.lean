/-!
# Hexadecimal digits

One digit stands for four bits. Digits are written in lower case and read in either case.
-/

namespace PagedQueue.Hexadecimal

/-- The digit of a value below sixteen. -/
def digit (value : Nat) : Char :=
  if value < 10 then Char.ofNat ('0'.toNat + value) else Char.ofNat ('a'.toNat + (value - 10))

/-- The value of a digit, in either case. -/
def value? (c : Char) : Option Nat :=
  if '0' ≤ c ∧ c ≤ '9' then some (c.toNat - '0'.toNat)
  else if 'a' ≤ c ∧ c ≤ 'f' then some (c.toNat - 'a'.toNat + 10)
  else if 'A' ≤ c ∧ c ≤ 'F' then some (c.toNat - 'A'.toNat + 10)
  else none

/-- The lowest `width` digits of a number, most significant first. -/
def write : (width n : Nat) → List Char
  | 0, _ => []
  | width + 1, n => write width (n / 16) ++ [digit (n % 16)]

/-- The number that these digits stand for. -/
def read? (text : List Char) : Option Nat :=
  text.foldlM (fun n c => (value? c).map (n * 16 + ·)) 0

end PagedQueue.Hexadecimal
