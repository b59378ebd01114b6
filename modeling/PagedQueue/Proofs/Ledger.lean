import Mathlib.Data.List.Induction
import PagedQueue.Proofs.IndexRecovery
import PagedQueue.Queue

/-!
# The ledger

What a queue is meant to be is a list: all messages ever put into it in the order they came, each
with where it stands (`Ledger.items`), and the place where the next payload goes (`Ledger.stop`). A
message that is finished stays in the list, so a message keeps its position for ever.

`Items.held` is what an index holds for such a list, given where the payloads were put. It changes
at one position when a message comes in (`held_push`), moves (`held_setStatus_of_live`) or is
finished (`held_setStatus_of_dead`).
-/

namespace PagedQueue

theorem getElem?_concat_eq_some_iff {α : Type} {xs : List α} {x y : α} {p : Nat} :
    (xs ++ [x])[p]? = some y ↔ xs[p]? = some y ∨ p = xs.length ∧ x = y := by
  rw [List.getElem?_append]
  by_cases hp : p < xs.length
  · rw [if_pos hp]
    have hne : p ≠ xs.length := by omega
    simp [hne]
  · have hnone : xs[p]? = none := List.getElem?_eq_none (Nat.le_of_not_lt hp)
    have hiff : p - xs.length = 0 ↔ p = xs.length := by omega
    rw [if_neg hp, hnone, List.getElem?_singleton]
    simp [hiff]

/-- A message that was put into the queue, and where it stands. -/
structure Item where
  uuid : Uuid
  kind : Kind
  payload : List UInt8
  status : Status
  deriving DecidableEq

namespace Item

/-- The message as it was put in. -/
def message (i : Item) : Message := ⟨i.uuid, i.kind, i.payload⟩

/-- A message that comes in. -/
def ofMessage (m : Message) : Item := ⟨m.uuid, m.kind, m.payload, .new⟩

/-- What the index keeps of a message whose payload begins at `offset`. -/
def toEntry (i : Item) (position offset : Nat) : Entry where
  uuid := i.uuid
  offset := .ofNat offset
  length := .ofNat i.payload.length
  kind := i.kind
  position := position
  status := i.status

end Item

/-- The end of the page in which a range that stops here ends. -/
def pageEnd (pageSize stop : Nat) : Nat := (stop + pageSize - 1) / pageSize * pageSize

/-- All messages ever put into a queue, by position. -/
abbrev Items := List Item

/-- What a queue is meant to be: its messages, and where the next payload goes. -/
structure Ledger where
  items : Items := []
  stop : Nat := 0

namespace Items

/-- The position of the message of this UUID that is in the queue. -/
def find? (items : Items) (uuid : Uuid) : Option Nat :=
  items.findIdx? fun i => i.status.isLive ∧ i.uuid = uuid

/-- The position of the oldest message that waits. -/
def oldest? (items : Items) : Option Nat := items.findIdx? fun i => i.status = .new

/-- The position of the message of this UUID if it has this status. -/
def at? (items : Items) (uuid : Uuid) (status : Status) : Option Nat :=
  (items.find? uuid).filter fun p => items[p]?.any fun i => i.status = status

/-- The message at a position gets another status. -/
def setStatus (items : Items) (position : Nat) (status : Status) : Items :=
  items.modify position ({ · with status })

/-- How many messages stand where. -/
def tally (items : Items) : Tally where
  records := items.length
  new := items.countP fun i => i.status = .new
  locked := items.countP fun i => i.status = .locked
  deleted := items.countP fun i => i.status = .deleted

/-- What is true of the messages of every queue. -/
structure WellFormed (items : Items) : Prop where
  named : ∀ i ∈ items, i.uuid ≠ Uuid.nil
  entered : ∀ i ∈ items, i.status ≠ .vacant
  short : ∀ i ∈ items, i.payload.length ≤ Queue.maxPayload
  unique : ∀ {p q : Nat} {i j : Item}, items[p]? = some i → items[q]? = some j →
    i.status.isLive = true → j.status.isLive = true → i.uuid = j.uuid → p = q

end Items

namespace Ledger

/-- The message comes in behind the others, and its payload goes behind all payloads. -/
def enter (l : Ledger) (m : Message) : Ledger where
  items := l.items ++ [.ofMessage m]
  stop := l.stop + m.size

/-- The message at a position gets another status, if there is one. -/
def move (l : Ledger) (position? : Option Nat) (status : Status) : Ledger :=
  match position? with
  | some p => { l with items := l.items.setStatus p status }
  | none => l

/-- The message at a position, if there is one. -/
def message? (l : Ledger) (position? : Option Nat) : Option Message :=
  position?.bind fun p => l.items[p]?.map Item.message

end Ledger

namespace Items

variable {items : Items} {layout : Nat → Nat} {p q : Nat} {i j : Item} {e : Entry} {status : Status}
  {u : Uuid}

theorem lt_length (hp : items[p]? = some i) : p < items.length :=
  (List.getElem?_eq_some_iff.mp hp).1

/-- Only the item at `p` gets the new status. -/
theorem getElem?_setStatus (items : Items) (p q : Nat) (status : Status) :
    (items.setStatus p status)[q]?
      = items[q]?.map fun i => if p = q then { i with status } else i := by
  rw [setStatus, List.getElem?_modify]
  cases items[q]? with
  | none => rfl
  | some i => by_cases hpq : p = q <;> simp [hpq]

theorem length_setStatus (items : Items) (p : Nat) (status : Status) :
    (items.setStatus p status).length = items.length := List.length_modify ..

/-- A move changes nothing but the status. -/
theorem map_setStatus {α : Type} {f : Item → α} (hf : ∀ i status, f { i with status } = f i)
    (items : Items) (p : Nat) (status : Status) :
    (items.setStatus p status).map f = items.map f := by
  refine List.ext_getElem? fun q => ?_
  rw [List.getElem?_map, List.getElem?_map, getElem?_setStatus]
  cases items[q]? with
  | none => rfl
  | some i => by_cases hpq : p = q <;> simp [hpq, hf]

/-- Its payload stays. -/
theorem payload_setStatus (items : Items) (p : Nat) (status : Status) :
    (items.setStatus p status).map Item.payload = items.map Item.payload :=
  map_setStatus (fun _ _ => rfl) items p status

theorem countP_eq_countP_range (f : Item → Bool) (items : Items) :
    items.countP f = (List.range items.length).countP fun p => items[p]?.any f := by
  induction items using List.reverseRecOn with
  | nil => rfl
  | append_singleton items i ih =>
    have hsame (p : Nat) (hp : p ∈ List.range items.length) :
        (items ++ [i])[p]?.any f = true ↔ items[p]?.any f = true := by
      rw [List.getElem?_append_left (List.mem_range.mp hp)]
    rw [List.countP_append, ih, List.length_append, List.length_singleton, List.range_succ,
      List.countP_append, List.countP_congr hsame]
    simp

/-! ## What is found -/

/-- The oldest item is the first that is new. -/
theorem oldest?_eq_some_iff : items.oldest? = some p
    ↔ (∃ i, items[p]? = some i ∧ i.status = .new)
      ∧ ∀ q < p, ∀ j, items[q]? = some j → j.status ≠ .new := by
  rw [oldest?, List.findIdx?_eq_some_iff_getElem]
  constructor
  · intro hand
    obtain ⟨hp, hnew, hbefore⟩ := hand
    refine ⟨⟨items[p], List.getElem?_eq_getElem hp, of_decide_eq_true hnew⟩,
      fun q hq j hj hnot => ?_⟩
    obtain ⟨hlt, rfl⟩ := List.getElem?_eq_some_iff.mp hj
    exact hbefore q hq (decide_eq_true hnot)
  · intro hand
    obtain ⟨⟨i, hi, hnew⟩, hbefore⟩ := hand
    obtain ⟨hp, rfl⟩ := List.getElem?_eq_some_iff.mp hi
    refine ⟨hp, decide_eq_true hnew, fun q hq hnot => ?_⟩
    have hlt : q < items.length := by omega
    exact hbefore q hq _ (List.getElem?_eq_getElem hlt) (of_decide_eq_true hnot)

/-- There is none exactly if no item is new. -/
theorem oldest?_eq_none_iff :
    items.oldest? = none ↔ ∀ (q : Nat) (j : Item), items[q]? = some j → j.status ≠ .new := by
  rw [oldest?, List.findIdx?_eq_none_iff]
  constructor
  · intro h q j hj hnew
    have hfalse := h j (List.mem_of_getElem? hj)
    rw [decide_eq_true hnew] at hfalse
    cases hfalse
  · intro h j hj
    obtain ⟨q, hq⟩ := List.getElem?_of_mem hj
    exact decide_eq_false (h q j hq)

/-- A UUID is not found exactly if no live item bears it. -/
theorem find?_eq_none_iff : items.find? u = none
    ↔ ∀ (q : Nat) (j : Item), items[q]? = some j → j.status.isLive = true → j.uuid ≠ u := by
  rw [find?, List.findIdx?_eq_none_iff]
  constructor
  · intro h q j hj hlive huuid
    have hfalse := h j (List.mem_of_getElem? hj)
    rw [decide_eq_true ⟨hlive, huuid⟩] at hfalse
    cases hfalse
  · intro h j hj
    obtain ⟨q, hq⟩ := List.getElem?_of_mem hj
    exact decide_eq_false fun hand => h q j hq hand.1 hand.2

/-- As no other message in the queue has the UUID, it is the first one that has it. -/
theorem WellFormed.find?_eq_some_iff (h : items.WellFormed) : items.find? u = some p
    ↔ ∃ i, items[p]? = some i ∧ i.status.isLive = true ∧ i.uuid = u := by
  rw [find?, List.findIdx?_eq_some_iff_getElem]
  constructor
  · intro hand
    obtain ⟨hp, hand, -⟩ := hand
    exact ⟨items[p], List.getElem?_eq_getElem hp, of_decide_eq_true hand⟩
  · intro hand
    obtain ⟨i, hi, hlive, huuid⟩ := hand
    obtain ⟨hp, rfl⟩ := List.getElem?_eq_some_iff.mp hi
    refine ⟨hp, decide_eq_true ⟨hlive, huuid⟩, fun q hq hand => ?_⟩
    have hlt : q < items.length := by omega
    obtain ⟨hlive', huuid'⟩ := of_decide_eq_true hand
    have heq := h.unique (List.getElem?_eq_getElem hlt) hi hlive' hlive (huuid'.trans huuid.symm)
    omega

/-- A message is taken if there is one of its UUID that is, as only one of a UUID is in the
queue. -/
theorem WellFormed.at?_eq_some_iff (h : items.WellFormed) (hlive : status.isLive = true) :
    items.at? u status = some p ↔ ∃ i, items[p]? = some i ∧ i.uuid = u ∧ i.status = status := by
  rw [at?, Option.filter_eq_some_iff, h.find?_eq_some_iff]
  constructor
  · intro hand
    obtain ⟨⟨i, hi, -, huuid⟩, hany⟩ := hand
    rw [hi, Option.any_some] at hany
    exact ⟨i, hi, huuid, of_decide_eq_true hany⟩
  · intro hand
    obtain ⟨i, hi, huuid, rfl⟩ := hand
    refine ⟨⟨i, hi, hlive, huuid⟩, ?_⟩
    rw [hi, Option.any_some]
    exact decide_eq_true rfl

/-- It is the first one that has the UUID and the status. -/
theorem WellFormed.at?_eq_findIdx? (h : items.WellFormed) (hlive : status.isLive = true) :
    items.at? u status = items.findIdx? fun i => i.status = status ∧ i.uuid = u := by
  refine Option.ext fun p => ?_
  rw [h.at?_eq_some_iff hlive, List.findIdx?_eq_some_iff_getElem]
  constructor
  · intro hand
    obtain ⟨i, hi, rfl, rfl⟩ := hand
    obtain ⟨hp, heq⟩ := List.getElem?_eq_some_iff.mp hi
    refine ⟨hp, decide_eq_true ⟨by rw [heq], by rw [heq]⟩, fun q hq hand => ?_⟩
    have hlt : q < items.length := by omega
    obtain ⟨hstatus, huuid⟩ := of_decide_eq_true hand
    have heq := h.unique (List.getElem?_eq_getElem hlt) hi (hstatus ▸ hlive) hlive huuid
    omega
  · intro hand
    obtain ⟨hp, hand, -⟩ := hand
    obtain ⟨hstatus, huuid⟩ := of_decide_eq_true hand
    exact ⟨items[p], List.getElem?_eq_getElem hp, huuid, hstatus⟩

/-! ## Messages that come in and move -/

namespace WellFormed

theorem nil : WellFormed [] := ⟨nofun, nofun, nofun, nofun⟩

/-- A message comes in behind the others, and if it is in the queue no other one there has its
UUID. -/
theorem concat (h : items.WellFormed) (hnil : i.uuid ≠ Uuid.nil) (hentered : i.status ≠ .vacant)
    (hshort : i.payload.length ≤ Queue.maxPayload)
    (hnew : i.status.isLive = true → items.find? i.uuid = none) : WellFormed (items ++ [i]) := by
  have hapart (hlive : i.status.isLive = true) {q : Nat} {j : Item} (hj : items[q]? = some j)
      (hlive' : j.status.isLive = true) : j.uuid ≠ i.uuid :=
    find?_eq_none_iff.mp (hnew hlive) q j hj hlive'
  refine ⟨?_, ?_, ?_, ?_⟩
  · intro j hj
    rcases List.mem_append.mp hj with hold | hlast
    · exact h.named j hold
    · rw [List.mem_singleton.mp hlast]
      exact hnil
  · intro j hj
    rcases List.mem_append.mp hj with hold | hlast
    · exact h.entered j hold
    · rw [List.mem_singleton.mp hlast]
      exact hentered
  · intro j hj
    rcases List.mem_append.mp hj with hold | hlast
    · exact h.short j hold
    · rw [List.mem_singleton.mp hlast]
      exact hshort
  · intro p q j k hj hk hlive hlive' huuid
    rcases getElem?_concat_eq_some_iff.mp hj with hj | ⟨rfl, rfl⟩
    · rcases getElem?_concat_eq_some_iff.mp hk with hk | ⟨rfl, rfl⟩
      · exact h.unique hj hk hlive hlive' huuid
      · exact absurd huuid (hapart hlive' hj hlive)
    · rcases getElem?_concat_eq_some_iff.mp hk with hk | ⟨rfl, rfl⟩
      · exact absurd huuid.symm (hapart hlive hk hlive')
      · rfl

/-- A message that is named, short enough and not yet live may be entered. -/
theorem push (h : items.WellFormed) {m : Message} (hnil : m.uuid ≠ Uuid.nil)
    (hshort : m.size ≤ Queue.maxPayload) (hnew : items.find? m.uuid = none) :
    WellFormed (items ++ [.ofMessage m]) :=
  h.concat hnil nofun hshort fun _ => hnew

/-- A live item may take any status but that of a slot never written. -/
theorem setStatus (h : items.WellFormed) (hp : items[p]? = some i) (hlive : i.status.isLive = true)
    (hentered : status ≠ .vacant) : WellFormed (items.setStatus p status) := by
  -- each message was there before, and was in the queue if it is now
  have hbefore {q : Nat} {j : Item} (hj : (items.setStatus p status)[q]? = some j) :
      ∃ j₀, items[q]? = some j₀ ∧ j₀.uuid = j.uuid ∧ j₀.payload = j.payload
        ∧ j.status ≠ .vacant ∧ (j.status.isLive = true → j₀.status.isLive = true) := by
    rw [getElem?_setStatus, Option.map_eq_some_iff] at hj
    obtain ⟨j₀, hj₀, rfl⟩ := hj
    by_cases hpq : p = q
    · subst hpq
      rw [hp] at hj₀
      cases hj₀
      rw [if_pos rfl]
      exact ⟨i, hp, rfl, rfl, hentered, fun _ => hlive⟩
    · rw [if_neg hpq]
      exact ⟨j₀, hj₀, rfl, rfl, h.entered j₀ (List.mem_of_getElem? hj₀), id⟩
  refine ⟨?_, ?_, ?_, ?_⟩
  · intro j hj
    obtain ⟨q, hq⟩ := List.getElem?_of_mem hj
    obtain ⟨j₀, hj₀, huuid, -⟩ := hbefore hq
    rw [← huuid]
    exact h.named j₀ (List.mem_of_getElem? hj₀)
  · intro j hj
    obtain ⟨q, hq⟩ := List.getElem?_of_mem hj
    obtain ⟨-, -, -, -, hstatus, -⟩ := hbefore hq
    exact hstatus
  · intro j hj
    obtain ⟨q, hq⟩ := List.getElem?_of_mem hj
    obtain ⟨j₀, hj₀, -, hpayload, -⟩ := hbefore hq
    rw [← hpayload]
    exact h.short j₀ (List.mem_of_getElem? hj₀)
  · intro q r j k hj hk hlive hlive' huuid
    obtain ⟨j₀, hj₀, hju, -, -, hjlive⟩ := hbefore hj
    obtain ⟨k₀, hk₀, hku, -, -, hklive⟩ := hbefore hk
    exact h.unique hj₀ hk₀ (hjlive hlive) (hklive hlive') (hju.trans (huuid.trans hku.symm))

end WellFormed

/-! ## The messages in the queue -/

/-- The messages that are in the queue. -/
def live (items : Items) : Items := items.filter (·.status.isLive)

/-- The live items of two lists, one after the other. -/
theorem live_append (items more : Items) : live (items ++ more) = items.live ++ more.live :=
  List.filter_append ..

/-- The first message that is wanted gets another status. -/
def moveFirst (items : Items) (wanted : Item → Bool) (status : Status) : Items :=
  match items.findIdx? wanted with
  | some p => items.setStatus p status
  | none => items

theorem moveFirst_cons (i : Item) (items : Items) (wanted : Item → Bool) (status : Status) :
    moveFirst (i :: items) wanted status
      = if wanted i then { i with status } :: items else i :: moveFirst items wanted status := by
  unfold moveFirst
  rw [List.findIdx?_cons]
  by_cases hi : wanted i = true
  · rw [if_pos hi, if_pos hi]
    rfl
  · rw [if_neg hi, if_neg hi]
    cases items.findIdx? wanted with
    | none => rfl
    | some p => rfl

/-- The first wanted item may be moved if only live items are wanted. -/
theorem WellFormed.moveFirst (h : items.WellFormed) {wanted : Item → Bool}
    (hwanted : ∀ i, wanted i = true → i.status.isLive = true) (hentered : status ≠ .vacant) :
    (items.moveFirst wanted status).WellFormed := by
  unfold Items.moveFirst
  split
  next p hp =>
    obtain ⟨hlt, hfound, -⟩ := List.findIdx?_eq_some_iff_getElem.mp hp
    exact h.setStatus (List.getElem?_eq_getElem hlt) (hwanted _ hfound) hentered
  next => exact h

/-- A message in the queue moves as if the finished ones were not there. -/
theorem live_moveFirst {wanted : Item → Bool}
    (hwanted : ∀ i, wanted i = true → i.status.isLive = true) (items : Items) (status : Status) :
    (items.moveFirst wanted status).live = (items.live.moveFirst wanted status).live := by
  induction items with
  | nil => rfl
  | cons i rest ih =>
    have hcons (j : Item) (others : Items) :
        live (j :: others) = if j.status.isLive then j :: live others else live others :=
        List.filter_cons
    have hrest : live (live rest) = live rest :=
      List.filter_filter.trans (by simp only [Bool.and_self, live])
    rw [moveFirst_cons, hcons i rest]
    by_cases hi : wanted i = true
    · rw [if_pos hi, if_pos (hwanted i hi), moveFirst_cons, if_pos hi, hcons, hcons, hrest]
    · rw [if_neg hi, hcons i, ih]
      by_cases hlive : i.status.isLive = true
      · rw [if_pos hlive, if_pos hlive, moveFirst_cons, if_neg hi, hcons, if_pos hlive]
      · rw [if_neg hlive, if_neg hlive]

/-- Whether a message of a UUID is in the queue shows in those that are. -/
theorem find?_eq_none_iff_live : items.find? u = none ↔ ∀ i ∈ items.live, i.uuid ≠ u := by
  rw [find?_eq_none_iff]
  constructor
  · intro h i hi
    obtain ⟨hmem, hlive⟩ := List.mem_filter.mp hi
    obtain ⟨q, hq⟩ := List.getElem?_of_mem hmem
    exact h q i hq hlive
  · intro h q j hj hlive
    exact h j (List.mem_filter.mpr ⟨List.mem_of_getElem? hj, hlive⟩)

/-! ## What an index holds for the messages -/

/-- The entries of the messages that are in the queue, if the payloads begin as `layout` says. -/
def held (items : Items) (layout : Nat → Nat) (position : Nat) : Option Entry :=
  (items[position]?.filter (·.status.isLive)).map (·.toEntry position (layout position))

/-- The index holds an entry for each live item, at its place. -/
theorem held_eq_some_iff : items.held layout p = some e
    ↔ ∃ i, items[p]? = some i ∧ i.status.isLive = true ∧ i.toEntry p (layout p) = e := by
  simp only [held, Option.map_eq_some_iff, Option.filter_eq_some_iff, and_assoc]

theorem held_of_live (hp : items[p]? = some i) (hlive : i.status.isLive = true) :
    items.held layout p = some (i.toEntry p (layout p)) := held_eq_some_iff.mpr ⟨i, hp, hlive, rfl⟩

/-- It holds none past the last item. -/
theorem held_eq_none (h : items.length ≤ p) : items.held layout p = none := by
  rw [held, List.getElem?_eq_none h]
  rfl

/-- A message comes in behind the others, and its payload is put somewhere. -/
theorem held_push (hlive : i.status.isLive = true) (offset : Nat) :
    held (items ++ [i]) (Function.update layout items.length offset)
      = Function.update (items.held layout) items.length
        (some (i.toEntry items.length offset)) := by
  funext p
  by_cases hp : p = items.length
  · subst hp
    have hlast : (items ++ [i])[items.length]? = some i := by simp
    rw [Function.update_self, held_of_live hlast hlive, Function.update_self]
  · rw [Function.update_of_ne hp, held, held, Function.update_of_ne hp]
    by_cases hlt : p < items.length
    · rw [List.getElem?_append_left hlt]
    · have hlen : (items ++ [i]).length = items.length + 1 := by simp
      have hnone : (items ++ [i])[p]? = none := List.getElem?_eq_none (by omega)
      have hnone' : items[p]? = none := List.getElem?_eq_none (by omega)
      rw [hnone, hnone']

/-- A message that is not in the queue shows nowhere. -/
theorem held_concat_of_dead (hdead : i.status.isLive = false) (offset : Nat) :
    held (items ++ [i]) (Function.update layout items.length offset) = items.held layout := by
  funext p
  by_cases hp : p = items.length
  · subst hp
    have hlast : (items ++ [i])[items.length]? = some i := by simp
    rw [held_eq_none (Nat.le_refl _), held, hlast, Option.filter_some, hdead]
    rfl
  · rw [held, held, Function.update_of_ne hp, List.getElem?_append]
    split
    next => rfl
    next hge =>
      rw [List.getElem?_eq_none (Nat.le_of_not_lt hge), List.getElem?_eq_none]
      simp only [List.length_singleton]
      omega

/-- An item that stays live keeps its entry, with the new status. -/
theorem held_setStatus_of_live (hp : items[p]? = some i) (hlive : status.isLive = true) :
    held (items.setStatus p status) layout
      = Function.update (items.held layout) p (some { i.toEntry p (layout p) with status }) := by
  funext q
  by_cases hq : q = p
  · subst hq
    have hset : (items.setStatus q status)[q]? = some { i with status } := by
      rw [getElem?_setStatus, hp, Option.map_some, if_pos rfl]
    rw [Function.update_self, held_of_live hset hlive]
    rfl
  · have hne : p ≠ q := fun heq => hq heq.symm
    rw [Function.update_of_ne hq, held, held, getElem?_setStatus]
    simp only [if_neg hne, Option.map_id']

/-- One that does not loses it. -/
theorem held_setStatus_of_dead (hdead : status.isLive = false) :
    held (items.setStatus p status) layout = Function.update (items.held layout) p none := by
  funext q
  by_cases hq : q = p
  · subst hq
    rw [Function.update_self, held, getElem?_setStatus]
    cases items[q]? with
    | none => rfl
    | some i =>
      simp only [Option.map_some, if_true]
      rw [Option.filter_some, hdead]
      rfl
  · have hne : p ≠ q := fun heq => hq heq.symm
    rw [Function.update_of_ne hq, held, held, getElem?_setStatus]
    simp only [if_neg hne, Option.map_id']

end Items

end PagedQueue
