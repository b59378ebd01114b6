import PagedQueue.Disk
import PagedQueue.Fault

/-!
# Procedures

An operation of the queue works on a host, that is a disk, a clock and the journal of the changes
made to the disk, and on a part `σ` of what the program holds in memory. It answers with a value or
a fault, and in both cases the host and the memory are left as the operation left them: a fault
undoes nothing.

The clock is a sequence of readings of which nothing is assumed, so that whatever holds for every
host holds however much time passes between two looks at it.
-/

namespace PagedQueue

/-- What the looks at the clock show, in milliseconds, and how often it was looked at. -/
structure Clock where
  reading : Nat → Int
  looks : Nat := 0

/-- The disk, the clock, and the changes made to the disk so far, latest first. -/
structure Host where
  disk : Disk := {}
  clock : Clock
  journal : List Change := []

namespace Host

/-- What the clock shows. -/
def now (h : Host) : Int := h.clock.reading h.clock.looks

/-- Another look at the clock was taken. -/
def looked (h : Host) : Host := { h with clock := { h.clock with looks := h.clock.looks + 1 } }

/-- Makes a change to the disk and notes it in the journal. -/
def perform (h : Host) (change : Change) : Host :=
  { h with disk := change.apply h.now h.disk, journal := change :: h.journal }

end Host

/-- A host, and what one part of the program holds in memory. -/
structure Session (σ : Type) where
  host : Host
  memory : σ

/-- An operation on a session that answers with a value or a fault. -/
abbrev Procedure (σ : Type) := EStateM Fault (Session σ)

namespace Procedure

variable {σ τ α : Type}

/-- What is held in memory. -/
def memory : Procedure σ σ := fun s => .ok s.memory s

/-- Changes what is held in memory. -/
def update (f : σ → σ) : Procedure σ Unit := fun s => .ok () { s with memory := f s.memory }

/-- The disk as it is. -/
def disk : Procedure σ Disk := fun s => .ok s.host.disk s

/-- Makes a change to the disk. -/
def perform (change : Change) : Procedure σ Unit :=
  fun s => .ok () { s with host := s.host.perform change }

/-- Looks at the clock. -/
def look : Procedure σ Int := fun s =>
  .ok s.host.now { s with host := s.host.looked }

/-- The value that is there, or else a fault. -/
def ofOption (fault : Fault) : Option α → Procedure σ α
  | some value => pure value
  | none => throw fault

/-- A procedure on a part of the memory, as a procedure on the whole. -/
def within (part : τ → σ) (replace : σ → τ → τ) (procedure : Procedure σ α) : Procedure τ α :=
  fun s =>
  match procedure ⟨s.host, part s.memory⟩ with
  | .ok value t => .ok value ⟨t.host, replace t.memory s.memory⟩
  | .error fault t => .error fault ⟨t.host, replace t.memory s.memory⟩

/-- A procedure on memory of its own, which it hands over together with its value. -/
def launch (initial : τ) (procedure : Procedure τ α) : Procedure σ (α × τ) := fun s =>
  match procedure ⟨s.host, initial⟩ with
  | .ok value t => .ok (value, t.memory) ⟨t.host, s.memory⟩
  | .error fault t => .error fault ⟨t.host, s.memory⟩

end Procedure

/-- The outcome of a procedure as a value, with the session it leaves. -/
def Procedure.outcome {σ α : Type} (procedure : Procedure σ α) (s : Session σ) :
    Except Fault α × Session σ :=
  match procedure s with
  | .ok value t => (.ok value, t)
  | .error fault t => (.error fault, t)

end PagedQueue
