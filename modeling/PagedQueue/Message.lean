import PagedQueue.Fault
import PagedQueue.Uuid

/-!
# Messages

A message has an identity, a kind and a payload of bytes that the queue never looks into. The kind
is stored as a tag.
-/

namespace PagedQueue

/-- What the payload of a message is said to be. -/
inductive Kind where
  /-- UTF-8 text. -/
  | text
  /-- A JSON document. -/
  | json
  deriving DecidableEq, Inhabited, Repr

namespace Kind

/-- The tag by which a kind is stored. -/
def tag : Kind → Int32
  | text => 0
  | json => 1

/-- The kind that a stored tag stands for. -/
def ofTag (tag : Int32) : Except Fault Kind :=
  if tag = 0 then .ok text
  else if tag = 1 then .ok json
  else .error (.corruption (.unknownKind tag))

/-- The name under which a kind is shown. -/
def name : Kind → String
  | text => "String"
  | json => "Json"

/-- The kind of this name. -/
def ofName? (name : String) : Option Kind :=
  [text, json].find? fun kind => kind.name = name

@[simp]
theorem ofTag_tag (kind : Kind) : ofTag kind.tag = .ok kind := by
  cases kind <;> rfl

end Kind

/-- A message of the queue. -/
structure Message where
  uuid : Uuid
  kind : Kind
  payload : List UInt8
  deriving DecidableEq

namespace Message

/-- The number of bytes of the payload. -/
def size (m : Message) : Nat := m.payload.length

/-- A summary that leaves the payload out. -/
def describe (m : Message) : String :=
  let uuid := m.uuid.render
  let kind := m.kind.name
  let size := m.size
  s!"QueueMessage \x7b uuid: {uuid}, kind: {kind}, len: {size} \x7d"

end Message

end PagedQueue
