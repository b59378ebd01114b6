import PagedQueue.Text.Decimal

/-!
# Names of page files

The file of page `i` is called `page-i.dat`. A file counts as the page whose number stands between
those two parts. Reading is more liberal than writing: a leading plus sign and leading zeros are
accepted too.
-/

namespace PagedQueue.PageName

/-- What stands in front of the number. -/
def head : String := "page-"

/-- What stands behind the number. -/
def tail : String := ".dat"

/-- The largest number of a page. -/
def maxIndex : Nat := UInt64.size - 1

/-- The name of the file of a page. -/
def ofIndex (index : Nat) : String :=
  head ++ toString index ++ tail

/-- The number of the page that a file of this name holds. -/
def index? (name : String) : Option Nat := do
  let rest ← List.isPrefixOf? head.toList name.toList
  let digits ← List.isSuffixOf? tail.toList rest
  Decimal.readBelow? (maxIndex + 1) digits

end PagedQueue.PageName
