import PagedQueue.Disk
import PagedQueue.Fault

/-!
# Pages

A page is a mapping of one page file into the byte space. It is told where it lies in that space, so
its bytes are asked for by their offset there, and it refuses what lies outside.

Two counters govern its life. `references` is how many users a page has: zero means idle, and a
negative count means that it was collected and must be fetched anew. `stamp` is when it was last
used; a negative stamp pins the page, so that it is never let go for its age.
-/

namespace PagedQueue

/-- A page file that is or was mapped. -/
structure Page where
  index : Nat
  /-- Where the page begins in the byte space. -/
  base : Nat
  /-- The number of bytes of the page. -/
  size : Nat
  /-- The name under which the file was mapped. -/
  path : Path
  file : FileId
  isOpen : Bool
  /-- Whether bytes count as written that have not been forced out. -/
  dirty : Bool
  references : Int
  stamp : Int
  /-- What was written since the bytes of the page were last forced out, latest first: offsets in
  the byte space with the bytes written there. Nothing that the page does depends on it. -/
  unforced : List (Nat × List UInt8) := []
  deriving DecidableEq, Repr

namespace Page

/-- A page that was collected before it was ever used. -/
instance : Inhabited Page :=
  ⟨{ index := 0, base := 0, size := 0, path := [], file := 0, isOpen := false, dirty := false,
     references := -1, stamp := 0 }⟩

/-- The page just mapped over a file. -/
def mapped (index size : Nat) (path : Path) (file : FileId) (now : Int) : Page where
  index := index
  base := index * size
  size := size
  path := path
  file := file
  isOpen := true
  dirty := false
  references := 0
  stamp := now

/-- Where the page ends in the byte space. -/
def limit (p : Page) : Nat := p.base + p.size

/-- Whether all of a range lies in the page. -/
def Covers (p : Page) (start length : Nat) : Prop :=
  p.base ≤ start ∧ start + length ≤ p.limit

instance (p : Page) (start length : Nat) : Decidable (p.Covers start length) :=
  inferInstanceAs (Decidable (_ ∧ _))

/-- The misuse of asking a page for a range that it does not cover. -/
def outside (p : Page) (start length : Nat) : Misuse :=
  .outsidePage start (start + length) p.index p.base p.limit

/-! ## Users -/

/-- Whether the page has not been collected. -/
def isLive (p : Page) : Bool := 0 ≤ p.references

/-- One user more. -/
def retain (p : Page) : Page := { p with references := p.references + 1 }

/-- One user less. -/
def release (p : Page) : Page := { p with references := p.references - 1 }

/-- Whether the page is idle and may be collected. -/
def isIdle (p : Page) : Bool := p.references = 0

/-- Collects an idle page: it never gets a user again. -/
def collect (p : Page) : Page := { p with references := -1 }

/-! ## Age -/

/-- Whether the page is kept whatever its age. -/
def isPinned (p : Page) : Bool := p.stamp < 0

/-- Moves the time of the last use forward, unless the page is pinned. -/
def touch (p : Page) (time : Int) : Page :=
  if 0 ≤ p.stamp ∧ p.stamp < time then { p with stamp := time } else p

/-- Keeps the page whatever its age. -/
def pin (p : Page) : Page := { p with stamp := -(p.stamp.natAbs : Int) }

/-- Lets the age of the page count again. -/
def unpin (p : Page) : Page := { p with stamp := p.stamp.natAbs }

/-- Whether the page was last used a lifetime ago. -/
def isExpired (p : Page) (lifetime now : Int) : Bool :=
  0 ≤ p.stamp && lifetime ≤ now - p.stamp

/-! ## Bytes -/

/-- Marks the page as one with bytes to be forced out. -/
def markDirty (p : Page) : Page := { p with dirty := true }

/-- Bytes were written at an offset of the byte space. -/
def written (p : Page) (start : Nat) (bytes : List UInt8) : Page :=
  { p with unforced := (start, bytes) :: p.unforced }.markDirty

/-- Forces written bytes out, if the page is marked dirty. A closed page has none. -/
def flush (p : Page) : Page :=
  if p.isOpen && p.dirty then { p with dirty := false, unforced := [] } else p

/-- Forces written bytes out and gives up the mapping. -/
def close (p : Page) : Page := { p.flush with isOpen := false }

/-- A summary of a page; `stamp` is the text by which its stamp is shown. -/
def describe (p : Page) (stamp : String) : String :=
  let isClosed := !p.isOpen
  s!"MappedPage \x7b index: {p.index}, offset: {p.base}, len: {p.size}, dirty: {p.dirty}, "
    ++ s!"closed: {isClosed}, ref_count: {p.references}, timestamp: {stamp} \x7d"

end Page

end PagedQueue
