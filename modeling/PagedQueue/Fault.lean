import PagedQueue.Path

/-!
# Faults

Why an operation fails. A fault is a value that says what was wrong; its wording is made in one
place, `Fault.message`, out of the sentence of its class (`FaultClass.sentence`) and its detail.

Outcomes that are expected when several clients use one queue are no faults: a push of a message
that is already there answers `false`, and a lock of a message that is not available answers `none`.
-/

namespace PagedQueue

/-- What can be wrong with stored records. -/
inductive Corruption where
  /-- A record was decoded from a number of bytes other than the record size. -/
  | recordSize (size : Nat)
  | unknownStatus (tag : Int32)
  | unknownKind (tag : Int32)
  /-- A live record whose payload would start or extend below zero. -/
  | negativeExtent (position : Nat) (offset : Int64) (length : Int32)
  | negativeCount (count : Int32)
  /-- The count covers more records than the file has bytes for. -/
  | countBeyondFile (count needed held : Nat)
  deriving DecidableEq, Repr

/-- Why a message cannot be pushed at all. -/
inductive Rejection where
  | nilUuid
  | payloadTooLarge (size : Nat)
  deriving DecidableEq, Repr

/-- Which value of the settings cannot be used. -/
inductive Misconfiguration where
  | pageSizeNotPositive
  | pageSizeUnaligned (size : Nat)
  | pageSizeTooLarge (size : Nat)
  | lifetimeZero
  | operationCountZero
  | intervalZero
  deriving DecidableEq, Repr

/-- What is against the rules of pages. Nothing prevents a caller from asking for it. -/
inductive Misuse where
  /-- Bytes `[start, stop)` were asked of page `index`, which holds `[first, last)`. -/
  | outsidePage (start stop index first last : Nat)
  | readClosed (path : Path)
  | writeClosed (path : Path)
  /-- The newest page was asked of a set that has every number, so that the circle has no end. -/
  | numbersExhausted
  deriving DecidableEq, Repr

/-- Why an operation failed. -/
inductive Fault where
  | corruption (cause : Corruption)
  | rejected (cause : Rejection)
  | closed
  | misconfigured (cause : Misconfiguration)
  /-- A directory could not be made or read. -/
  | disk
  /-- The page file at this path could not be opened, sized or mapped. -/
  | pageMap (path : Path)
  | misuse (cause : Misuse)
  deriving DecidableEq, Repr

/-- The classes of faults that carry a sentence of their own. -/
inductive FaultClass where
  | corruption
  | codec
  | invalidMessage
  | closed
  | settings
  deriving DecidableEq, Repr

/-- The sentence of a class of faults with its detail. -/
def FaultClass.sentence (detail : String) : FaultClass → String
  | corruption => "Segment corruption detected: " ++ detail
  | codec => "Codec error: " ++ detail
  | invalidMessage => "Invalid message: " ++ detail
  | closed => "Transaction log is closed"
  | settings => "Configuration error: " ++ detail

/-- The detail of a corruption. -/
def Corruption.detail : Corruption → String
  | recordSize size => s!"meta record must be 36 bytes, got {size}"
  | unknownStatus tag => s!"unknown status tag {tag}"
  | unknownKind tag => s!"unknown message type tag {tag}"
  | negativeExtent position offset length =>
    s!"record {position} has negative offset {offset} or length {length}"
  | negativeCount count => s!"negative meta record count {count}"
  | countBeyondFile count needed held =>
    s!"meta record count {count} needs {needed} bytes, file holds {held}"

/-- The detail of a rejection. -/
def Rejection.detail : Rejection → String
  | nilUuid => "nil UUID is reserved for empty slots"
  | payloadTooLarge size => s!"payload of {size} bytes is too large"

/-- The detail of a misconfiguration. -/
def Misconfiguration.detail : Misconfiguration → String
  | pageSizeNotPositive => "page_size must be positive"
  | pageSizeUnaligned size => s!"page_size must be a non-zero multiple of 8, got {size}"
  | pageSizeTooLarge size => s!"page_size {size} exceeds the maximum mappable page"
  | lifetimeZero => "cache_ttl_ms must be positive"
  | operationCountZero => "EveryNOperations requires count > 0"
  | intervalZero => "Interval requires ms > 0"

/-- The text of a misuse; `root` is the name by which the root directory of the disk is known
outside. -/
def Misuse.detail (root : String) : Misuse → String
  | outsidePage start stop index first last =>
    s!"offset range [{start}, {stop}) outside page {index} [{first}, {last})"
  | readClosed path => "read from closed page " ++ path.render root
  | writeClosed path => "write to closed page " ++ path.render root
  | numbersExhausted => "attempt to add with overflow"

/-- The text of a fault; `root` is the name by which the root directory of the disk is known
outside. -/
def Fault.message (root : String) : Fault → String
  | corruption cause => FaultClass.corruption.sentence cause.detail
  | rejected cause => FaultClass.invalidMessage.sentence cause.detail
  | closed => FaultClass.closed.sentence ""
  | misconfigured cause => FaultClass.settings.sentence cause.detail
  | disk => "IO error"
  | pageMap path => "Failed to map page file " ++ path.render root
  | misuse cause => cause.detail root

end PagedQueue
