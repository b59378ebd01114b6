import PagedQueue.Command
import PagedQueue.Proofs.LossyText
import PagedQueue.Proofs.RecordHistory

/-!
# Runs of the program share one queue

Every run of the program is a process of its own: it finds a queue on disk, does one thing with it
and leaves it there. All that one run hands on to the next is the disk. Still the runs answer as if
there were one list of messages, of which each of them does its part (`Command.onShared`) and tells
what it sees (`Command.Prints`).

What is told is put down here in words of its own, apart from those of the program: a message that
is taken is shown with the text that was pushed (`Message.line`), as a text is shown as itself out
of its bytes.

Two ways lead to what is told. A message is taken or given back through the index that was
recovered, while the counts and the dump are read off the records. Both agree with the list, because
the queue that a run has in memory tracks it (`Queue.Tracks`), and because the records on disk are
those of its messages (`Tracks.records_eq`).

What holds between two runs is a statement about the disk only (`Shared.Lies`): either nothing is
there yet, or the directories hold the messages and the pages of the payloads end where the last
payload does. Each run loads the queue from there, with the next payload behind the last page
(`Shared.load_ensures`), and leaves it there again (`ProgramRun.run_shared`).
-/

namespace PagedQueue

open Procedure
open Queue (AtRest Goes Tracks recordBytes rootOf)

/-! ## One list of messages -/

/-- What the runs share: the messages, and where the payload of each begins. -/
structure Shared where
  ledger : Ledger := {}
  layout : Nat → Nat := fun _ => 0

namespace Shared

/-- A message comes in, and its payload goes where the next one is to go. -/
def enter (q : Shared) (m : Message) : Shared where
  ledger := q.ledger.enter m
  layout := Function.update q.layout q.ledger.items.length q.ledger.stop

/-- The next payload goes behind the page in which the last one ends. -/
def reopened (q : Shared) (pageSize : Nat) : Shared :=
  { q with ledger := q.ledger.reopened pageSize }

end Shared

/-- The bytes of a text. -/
def bytesOf (text : String) : List UInt8 := text.toUTF8.data.toList

/-- The line about a message that is taken, with the text of its payload. -/
def Message.line (m : Message) (text : String) : String :=
  let kind := match m.kind with
    | .text => "String"
    | .json => "Json"
  s!"{m.uuid.render} {kind} {text}"

/-- The column that shows a status. -/
def Status.column : Status → String
  | vacant => "None    "
  | new => "New     "
  | locked => "Locked  "
  | deleted => "Deleted "

/-- The number that shows a kind. -/
def Kind.number : Kind → Nat
  | text => 0
  | json => 1

/-- The line about one message, whose payload begins at an offset. -/
def Item.line (i : Item) (position offset : Nat) : String :=
  let blanks := String.ofList (List.replicate (8 - (toString position).length) ' ')
  let uuid := i.uuid.render
  let status := i.status.column
  let length := i.payload.length
  let kind := i.kind.number
  s!"{blanks}{position}  {uuid}  {status} offset={offset} length={length} type={kind}"

/-- The lines about how many messages there are and what they occupy. -/
def Items.statsLines (items : Items) (footprint : Footprint) : List String :=
  let tally := items.tally
  [s!"records:     {tally.records}",
   s!"new:         {tally.new}",
   s!"locked:      {tally.locked}",
   s!"deleted:     {tally.deleted}",
   s!"meta pages:  {footprint.recordPages} ({footprint.recordBytes} bytes)",
   s!"data pages:  {footprint.payloadPages} ({footprint.payloadBytes} bytes)",
   s!"data cursor: {footprint.cursor}"]

namespace Command

/-- The message that is pushed under a UUID. -/
def pushed (fresh : Uuid) (payload : String) (kind : Kind) : Message :=
  ⟨fresh, kind, bytesOf payload⟩

/-- The command pushes a message that is too long, which is refused. -/
def TooLong (fresh : Uuid) : Command → Prop
  | push payload kind => Queue.maxPayload < (pushed fresh payload kind).size
  | stats | dump | pop _ | rollback _ => False

/-- The message that a command puts in, unless it is too long. -/
def message? (fresh : Uuid) : Command → Option Message
  | push payload kind =>
    if (pushed fresh payload kind).size ≤ Queue.maxPayload then some (pushed fresh payload kind)
      else none
  | stats | dump | pop _ | rollback _ => none

/-- What a command does with the messages. -/
def onShared (fresh : Uuid) (q : Shared) : Command → Shared
  | push payload kind =>
    if (pushed fresh payload kind).size ≤ Queue.maxPayload then q.enter (pushed fresh payload kind)
      else q
  | pop finish =>
    { q with ledger := q.ledger.move q.ledger.items.oldest? (if finish then .deleted else .locked) }
  | rollback uuid => { q with ledger := q.ledger.move (q.ledger.items.at? uuid .locked) .new }
  | stats | dump => q

/-- What a command that is not refused prints about the messages. -/
def Prints (fresh : Uuid) (q : Shared) : Command → List String → Prop
  | push _ _, lines => lines = [fresh.render]
  | pop _, lines => match q.ledger.message? q.ledger.items.oldest? with
      | some m => ∃ text, m.payload = bytesOf text ∧ lines = [m.line text]
      | none => lines = ["queue is empty"]
  | rollback uuid, lines => lines = [if ∃ i ∈ q.ledger.items, i.uuid = uuid ∧ i.status = .locked
      then "rolled back " ++ uuid.render else uuid.render ++ " is not locked"]
  | stats, lines => ∃ footprint : Footprint, footprint.cursor = q.ledger.stop
      ∧ lines = q.ledger.items.statsLines footprint
  | dump, lines => lines = q.ledger.items.mapIdx fun p i => i.line p (q.layout p)

/-- The UUID of a message that is pushed is fresh, and there is room for its record and its
payload. -/
def Fits (fresh : Uuid) (q : Shared) : Command → Prop
  | push _ _ => fresh ≠ Uuid.nil ∧ (∀ i ∈ q.ledger.items, i.uuid ≠ fresh)
      ∧ q.ledger.items.length < 0x7FFFFFFF ∧ q.ledger.stop < 0x8000000000000000
  | stats | dump | pop _ | rollback _ => True

end Command

/-! ## What the list tells -/

namespace Items

variable {items : Items}

/-- Every message waits, is taken or is finished. -/
theorem WellFormed.tally_sum (h : items.WellFormed) :
    items.tally.new + items.tally.locked + items.tally.deleted = items.tally.records := by
  have hentered := h.entered
  clear h
  simp only [tally]
  induction items with
  | nil => rfl
  | cons i rest ih =>
    obtain ⟨hi, hrest⟩ := List.forall_mem_cons.mp hentered
    have hsum := ih hrest
    simp only [List.countP_cons, List.length_cons, decide_eq_true_eq, ← hsum]
    cases hstatus : i.status with
    | vacant => exact absurd hstatus hi
    | new | locked | deleted =>
      simp only [reduceCtorEq, if_true, if_false]
      omega

/-- Of two statuses given to an item the last remains. -/
theorem setStatus_setStatus (items : Items) (p : Nat) (first last : Status) :
    (items.setStatus p first).setStatus p last = items.setStatus p last :=
  List.modify_modify_eq ..

end Items

/-- A move changes no message. -/
theorem Ledger.map_message_move (l : Ledger) (position? : Option Nat) (status : Status) :
    (l.move position? status).items.map Item.message = l.items.map Item.message := by
  cases position? with
  | none => rfl
  | some p => exact Items.map_setStatus (fun _ _ => rfl) l.items p status

/-- A command adds its own message at most. -/
theorem Command.messages_onShared (fresh : Uuid) (q : Shared) (c : Command) :
    (c.onShared fresh q).ledger.items.map Item.message
      = q.ledger.items.map Item.message ++ (c.message? fresh).toList := by
  cases c with
  | push payload kind =>
    rw [onShared, message?]
    split
    · exact List.map_append
    · exact (List.append_nil _).symm
  | pop finish => exact (Ledger.map_message_move ..).trans (List.append_nil _).symm
  | rollback uuid => exact (Ledger.map_message_move ..).trans (List.append_nil _).symm
  | stats | dump => exact (List.append_nil _).symm

/-- Every payload is the bytes of a text. -/
def Shared.AllTexts (q : Shared) : Prop :=
  ∀ m ∈ q.ledger.items.map Item.message, ∃ text, m.payload = bytesOf text

/-- The payload of a message that a command puts in is the bytes of a text. -/
theorem Shared.AllTexts.onShared {q : Shared} (h : q.AllTexts) (fresh : Uuid) (c : Command) :
    (c.onShared fresh q).AllTexts := by
  intro m hm
  rw [Command.messages_onShared, List.mem_append] at hm
  refine hm.elim (h m) fun hput => ?_
  cases c with
  | push payload kind =>
    rw [Command.message?] at hput
    split at hput
    · obtain rfl := List.mem_singleton.mp hput
      exact ⟨payload, rfl⟩
    · cases hput
  | pop | rollback | stats | dump => cases hput

/-- Texts with the same bytes are the same. -/
theorem bytesOf_injective : Function.Injective bytesOf := fun text other h => by
  rw [← Text.ofBytesLossy_toUTF8 text, ← Text.ofBytesLossy_toUTF8 other]
  exact congrArg Text.ofBytesLossy h

/-- The line that the program prints about a message is the one about its text. -/
theorem messageLine_eq {m : Message} {text : String} (h : m.payload = bytesOf text) :
    messageLine m = m.line text := by
  rw [messageLine, h, bytesOf, Text.ofBytesLossy_toUTF8]
  obtain ⟨uuid, kind, payload⟩ := m
  cases kind <;> rfl

/-! ## What the records tell -/

/-- What stands in front of a position is filled up with blanks. -/
theorem alignRight_eq (width : Nat) (text : String) :
    alignRight width text = String.ofList (List.replicate (width - text.length) ' ') ++ text := by
  rw [alignRight, List.leftpad, String.ofList_append, String.ofList_toList, String.length_toList]

/-- The name of a status is filled up to its column. -/
theorem Status.alignLeft_name (status : Status) : alignLeft 8 status.name = status.column := by
  cases status <;> rfl

theorem Kind.toString_tag (kind : Kind) : toString kind.tag = toString kind.number := by
  cases kind <;> rfl

namespace Item

variable {i : Item} {p offset : Nat}

/-- The record of a named item is not that of an empty slot. -/
theorem isEmpty_toRecord (hnamed : i.uuid ≠ Uuid.nil) :
    (i.toEntry p offset).toRecord.isEmpty = false := by
  rw [Bool.eq_false_iff, ne_eq, Record.isEmpty_iff, uuid_toRecord]
  exact hnamed

/-- The line about a record is the one about its message. -/
theorem recordLine_toRecord (hnamed : i.uuid ≠ Uuid.nil)
    (hshort : i.payload.length ≤ Queue.maxPayload) (hoffset : offset < 0x8000000000000000) :
    recordLine (i.toEntry p offset).toRecord p = i.line p offset := by
  have hshort' : i.payload.length < 0x80000000 := Nat.lt_of_le_of_lt hshort (by decide)
  have hplace : toString (i.toEntry p offset).toRecord.offset = toString offset := by
    have heq : (i.toEntry p offset).toRecord.offset = Int64.ofNat offset := UInt64.toInt64_ofNat'
    have hint := Int64.toInt_ofNat_of_lt hoffset
    rw [heq]
    show toString (Int64.ofNat offset).toInt = _
    rw [hint]
    rfl
  have hlength : toString (i.toEntry p offset).toRecord.length = toString i.payload.length := by
    have heq : (i.toEntry p offset).toRecord.length = Int32.ofNat i.payload.length :=
      UInt32.toInt32_ofNat'
    have hint := Int32.toInt_ofNat_of_lt hshort'
    rw [heq]
    show toString (Int32.ofNat i.payload.length).toInt = _
    rw [hint]
    rfl
  have hstatus : statusText (i.toEntry p offset).toRecord.status = i.status.name := by
    show statusText i.status.tag = i.status.name
    rw [statusText, Status.ofTag_tag]
  have hkind : (i.toEntry p offset).toRecord.kind = i.kind.tag := rfl
  have hblanks := alignRight_eq 8 (toString p)
  simp only [recordLine, isEmpty_toRecord hnamed, uuid_toRecord, hplace, hlength, hstatus,
    hkind, line, Status.alignLeft_name, Kind.toString_tag, hblanks, Bool.false_eq_true, if_false]
  rfl

end Item

/-- What is counted does not depend on where it stands. -/
theorem countP_mapIdx {α β : Type} {f : Nat → α → β} {counts : β → Bool} {counts' : α → Bool}
    (xs : List α) (h : ∀ p, ∀ x ∈ xs, counts (f p x) = counts' x) :
    (xs.mapIdx f).countP counts = xs.countP counts' := by
  induction xs using List.reverseRecOn with
  | nil => rfl
  | append_singleton xs x ih =>
    rw [List.mapIdx_concat, List.countP_append, List.countP_append,
      ih fun p y hy => h p y (List.mem_append_left _ hy)]
    simp only [List.countP_singleton, h _ x (List.mem_append_right _ List.mem_cons_self)]

namespace Queue

variable {l : Ledger} {layout : Nat → Nat} {s : Session Queue}

/-- The records on disk are those of the messages. -/
theorem Tracks.records_eq (h : Tracks l layout s) :
    (List.range l.items.length).map (recordBytes s).recordAt
      = l.items.mapIdx fun p i => (i.toEntry p (layout p)).toRecord := by
  refine List.ext_getElem? fun p => ?_
  rw [List.getElem?_map, List.getElem?_mapIdx]
  cases hp : l.items[p]? with
  | none =>
    rw [List.getElem?_eq_none (by simpa using List.getElem?_eq_none_iff.mp hp)]
    rfl
  | some i =>
    rw [List.getElem?_range (Items.lt_length hp), Option.map_some, Option.map_some]
    exact congrArg some (h.kept.records.record hp)

/-- Records are counted by status as the items are. -/
theorem Tracks.countOf_eq (h : Tracks l layout s) (status : Status) :
    countOf status ((List.range l.items.length).map (recordBytes s).recordAt)
      = l.items.countP fun i => i.status = status := by
  rw [h.records_eq, countOf]
  refine countP_mapIdx _ fun p i hi => ?_
  rw [Item.isEmpty_toRecord (h.kept.wellFormed.named i hi), Bool.not_false, Bool.true_and]
  exact decide_eq_decide.mpr (Item.status_toRecord_iff i p _ status)

/-- The records are listed as the items are. -/
theorem Tracks.recordLines_eq (h : Tracks l layout s) :
    ((List.range l.items.length).map (recordBytes s).recordAt).mapIdx
        (fun position record => recordLine record position)
      = l.items.mapIdx fun p i => i.line p (layout p) := by
  rw [h.records_eq]
  refine List.ext_getElem? fun p => ?_
  rw [List.getElem?_mapIdx, List.getElem?_mapIdx, List.getElem?_mapIdx]
  cases hp : l.items[p]? with
  | none => rw [Option.map_none, Option.map_none, Option.map_none]
  | some i =>
    have hi := List.mem_of_getElem? hp
    rw [Option.map_some, Option.map_some, Option.map_some,
      Item.recordLine_toRecord (h.kept.wellFormed.named i hi) (h.kept.wellFormed.short i hi)
        (h.kept.records.placed (Items.lt_length hp))]

end Queue

/-! ## One command -/

/-- A queue with some settings is at rest with what is shared. -/
structure Shared.Held (q : Shared) (settings : Settings) (s : Session Queue) : Prop where
  atRest : AtRest q.ledger q.layout s
  settings : s.memory.settings = settings

variable {q r : Shared} {settings : Settings} {s t : Session Queue} {fresh : Uuid}

theorem Shared.Held.goes (h : q.Held settings s)
    (hgoes : Goes q.ledger.items q.layout r.ledger r.layout s t) : r.Held settings t :=
  ⟨hgoes.atRest h.atRest.idle, hgoes.settings.trans h.settings⟩

namespace Command

/-- The counts that are printed are those of the ledger. -/
theorem stats_ensures (h : q.Held settings s) : (stats.perform fresh).Ensures s fun lines t =>
    stats.Prints fresh q lines ∧ (stats.onShared fresh q).Held settings t := by
  have htracks := h.atRest.toTracks
  unfold perform Ensures
  simp only [leads_bind, leads_memory, leads_pure]
  refine (Queue.footprint_ensures (s := s) ?_ ?_).leads.mono ?_ fun _ _ => False.elim
  · rw [show s.memory.index.file.store.directory = _ from htracks.recordDirectory]
    exact htracks.kept.grounds.records
  · rw [show s.memory.payloads.file.store.directory = _ from htracks.payloadDirectory]
    exact htracks.kept.grounds.payloads
  intro footprint _ hand
  obtain ⟨rfl, hcursor⟩ := hand
  refine (Queue.records_ensures htracks).leads.mono ?_ fun _ _ => False.elim
  intro records u hu
  obtain ⟨rfl, -, hgoes⟩ := hu
  refine ⟨⟨footprint, hcursor.trans htracks.cursor, ?_⟩, h.goes hgoes⟩
  rw [statsLines, hgoes.tracks.recordCount_eq, htracks.countOf_eq, htracks.countOf_eq,
    htracks.countOf_eq]
  rfl

/-- The records that are listed are those of the ledger. -/
theorem dump_ensures (h : q.Held settings s) : (dump.perform fresh).Ensures s fun lines t =>
    dump.Prints fresh q lines ∧ (dump.onShared fresh q).Held settings t := by
  have htracks := h.atRest.toTracks
  unfold perform Ensures
  simp only [leads_bind, leads_pure]
  refine (Queue.records_ensures htracks).leads.mono ?_ fun _ _ => False.elim
  intro records u hu
  obtain ⟨rfl, -, hgoes⟩ := hu
  exact ⟨htracks.recordLines_eq, h.goes hgoes⟩

/-- A message is put in under its fresh UUID, or it is refused as too long. -/
theorem push_leads (h : q.Held settings s) {payload : String} {kind : Kind}
    (hfits : (push payload kind).Fits fresh q) : ((push payload kind).perform fresh).Leads s
      (fun lines t => ¬ (push payload kind).TooLong fresh ∧ (push payload kind).Prints fresh q lines
        ∧ ((push payload kind).onShared fresh q).Held settings t)
      fun _ t => (push payload kind).TooLong fresh ∧ t = s := by
  obtain ⟨hnil, hunused, hlength, hstop⟩ := hfits
  have htracks := h.atRest.toTracks
  have hnew : q.ledger.items.find? fresh = none :=
    Items.find?_eq_none_iff.mpr fun _ j hj _ => hunused j (List.mem_of_getElem? hj)
  unfold perform
  simp only [leads_bind]
  by_cases hlong : Queue.maxPayload < (pushed fresh payload kind).size
  · exact (Queue.push_long htracks (m := pushed fresh payload kind) hnil hlong).mono
      (fun _ _ => False.elim) fun _ _ hand => ⟨hlong, hand.2⟩
  · have hshort := Nat.le_of_not_lt hlong
    refine (Queue.push_new htracks (m := pushed fresh payload kind) hnil hshort
      (h.atRest.idle _) hnew hstop (by omega)).leads.mono ?_ fun _ _ => False.elim
    intro new t hand
    obtain ⟨rfl, hgoes⟩ := hand
    simp only [if_true, leads_pure]
    refine ⟨hlong, rfl, ?_⟩
    rw [onShared, if_pos hshort]
    exact h.goes hgoes

/-- The oldest message that waits is taken, and finished at once if that was asked for. -/
theorem pop_ensures (h : q.Held settings s) (htexts : q.AllTexts) (finish : Bool) :
    ((pop finish).perform fresh).Ensures s fun lines t => (pop finish).Prints fresh q lines
      ∧ ((pop finish).onShared fresh q).Held settings t := by
  have htracks := h.atRest.toTracks
  unfold perform Ensures
  simp only [leads_bind]
  refine (Queue.pop_ensures htracks htracks.length_lt).leads.mono ?_ fun _ _ => False.elim
  intro answer t hand
  obtain ⟨rfl, hgoes⟩ := hand
  cases holdest : q.ledger.items.oldest? with
  | none =>
    rw [holdest] at hgoes
    refine ⟨?_, ?_⟩
    · rw [Prints, holdest]
      rfl
    · rw [onShared, holdest]
      exact h.goes (r := q) hgoes
  | some p =>
    obtain ⟨⟨i, hi, -⟩, -⟩ := Items.oldest?_eq_some_iff.mp holdest
    have hmessage : q.ledger.message? (some p) = some i.message := by
      rw [Ledger.message?, Option.bind_some, hi, Option.map_some]
    rw [holdest] at hgoes
    have hlocked := h.goes (r := { q with ledger := q.ledger.move (some p) .locked }) hgoes
    have hprints : (pop finish).Prints fresh q [messageLine i.message] := by
      obtain ⟨text, htext⟩ := htexts i.message (List.mem_map_of_mem (List.mem_of_getElem? hi))
      rw [Prints, holdest, hmessage, messageLine_eq htext]
      exact ⟨text, htext, rfl⟩
    rw [onShared, holdest, hmessage]
    cases finish with
    | false => exact ⟨hprints, hlocked⟩
    | true =>
      simp only [leads_bind, leads_discard, leads_pure, if_true]
      -- the message just taken is the one that is finished, as its UUID is that of no other
      have htaken := hlocked.atRest.toTracks
      have hat : Items.at? (q.ledger.items.setStatus p .locked) i.uuid .locked = some p := by
        refine (htaken.kept.wellFormed.at?_eq_some_iff rfl).mpr
          ⟨{ i with status := .locked }, ?_, rfl, rfl⟩
        show (q.ledger.items.setStatus p .locked)[p]? = _
        rw [Items.getElem?_setStatus, hi, Option.map_some, if_pos rfl]
      refine (Queue.finish_ensures htaken htaken.length_lt i.uuid).leads.mono ?_ fun _ _ =>
        False.elim
      intro _ u hand
      obtain ⟨-, hgoes'⟩ := hand
      have hledger : (q.ledger.move (some p) .locked).move
          (Items.at? (q.ledger.items.setStatus p .locked) i.uuid .locked) .deleted
          = q.ledger.move (some p) .deleted := by
        rw [hat]
        exact congrArg (Ledger.mk · q.ledger.stop) (Items.setStatus_setStatus ..)
      refine ⟨hprints, hlocked.goes (r := { q with ledger := q.ledger.move (some p) .deleted }) ?_⟩
      rw [← hledger]
      exact hgoes'

/-- A message that is taken is given back, and nothing happens if there is none of the UUID. -/
theorem rollback_ensures (h : q.Held settings s) (uuid : Uuid) :
    ((rollback uuid).perform fresh).Ensures s fun lines t => (rollback uuid).Prints fresh q lines
      ∧ ((rollback uuid).onShared fresh q).Held settings t := by
  have htracks := h.atRest.toTracks
  have htaken (p : Nat) : q.ledger.items.at? uuid .locked = some p
      ↔ ∃ i, q.ledger.items[p]? = some i ∧ i.uuid = uuid ∧ i.status = .locked :=
    htracks.kept.wellFormed.at?_eq_some_iff rfl
  unfold perform Ensures
  simp only [leads_bind]
  refine (Queue.rollback_ensures htracks htracks.length_lt uuid).leads.mono ?_ fun _ _ => False.elim
  intro answer t hand
  obtain ⟨rfl, hgoes⟩ := hand
  have hheld : ((rollback uuid).onShared fresh q).Held settings t := h.goes hgoes
  cases hat : q.ledger.items.at? uuid .locked with
  | none =>
    have hnot : ¬ ∃ i ∈ q.ledger.items, i.uuid = uuid ∧ i.status = .locked := by
      intro hand
      obtain ⟨i, hi, hand⟩ := hand
      obtain ⟨p, hp⟩ := List.getElem?_of_mem hi
      rw [(htaken p).mpr ⟨i, hp, hand⟩] at hat
      cases hat
    refine ⟨?_, hheld⟩
    rw [Prints, if_neg hnot]
  | some p =>
    obtain ⟨i, hi, hand⟩ := (htaken p).mp hat
    have hmessage : q.ledger.message? (some p) = some i.message := by
      rw [Ledger.message?, Option.bind_some, hi, Option.map_some]
    rw [hmessage]
    refine ⟨?_, hheld⟩
    rw [Prints, if_pos ⟨i, List.mem_of_getElem? hi, hand⟩]

/-- A command prints what it has to and does its part, or it is refused and nothing is done. -/
theorem perform_leads (h : q.Held settings s) (htexts : q.AllTexts) (c : Command)
    (hfits : c.Fits fresh q) :
    (c.perform fresh).Leads s
      (fun lines t => ¬ c.TooLong fresh ∧ c.Prints fresh q lines
        ∧ (c.onShared fresh q).Held settings t)
      fun _ t => c.TooLong fresh ∧ t = s := by
  cases c with
  | stats => exact (stats_ensures h).leads.mono (fun _ _ ht => ⟨id, ht⟩) fun _ _ => False.elim
  | dump => exact (dump_ensures h).leads.mono (fun _ _ ht => ⟨id, ht⟩) fun _ _ => False.elim
  | push payload kind => exact push_leads h hfits
  | pop finish =>
    exact (pop_ensures h htexts finish).leads.mono (fun _ _ ht => ⟨id, ht⟩) fun _ _ => False.elim
  | rollback uuid =>
    exact (rollback_ensures h uuid).leads.mono (fun _ _ ht => ⟨id, ht⟩) fun _ _ => False.elim

/-- What is refused does nothing. -/
theorem onShared_of_tooLong {c : Command} (h : c.TooLong fresh) (q : Shared) :
    c.onShared fresh q = q := by
  cases c with
  | push payload kind => exact if_neg (Nat.not_le_of_lt h)
  | stats | dump | pop finish | rollback uuid => exact h.elim

end Command

/-! ## One run after another -/

namespace Shared

/-- The directories hold what is shared, or nothing was ever there. -/
def Lies (root : Path) (pageSize : Nat) (q : Shared) (d : Disk) : Prop :=
  q.ledger = {} ∧ d.Fresh root
    ∨ d.Stored root pageSize q.ledger.items q.layout
      ∧ d.reach (root ++ ["meta"]) pageSize ≠ 0
      ∧ d.reach (root ++ ["data"]) pageSize = pageEnd pageSize q.ledger.stop

/-- What a queue holds stays when the queue is gone. -/
theorem Held.lies (h : q.Held settings s) :
    q.Lies (rootOf settings) settings.pageSize s.host.disk := by
  obtain ⟨hrest, rfl⟩ := h
  exact .inr ⟨hrest.kept, hrest.reachOf_eq ▸ hrest.started, hrest.reach⟩

theorem Lies.wellFormed {root : Path} {pageSize : Nat} {d : Disk} (h : q.Lies root pageSize d) :
    q.ledger.items.WellFormed := by
  rcases h with ⟨hnone, -⟩ | ⟨hstored, -⟩
  · rw [hnone]
    exact .nil
  · exact hstored.wellFormed

/-- A queue that is loaded holds what was left, and the next payload goes behind the last page. -/
theorem Lies.load_ensures {host : Host} (h : q.Lies (rootOf settings) settings.pageSize host.disk)
    (hvalid : settings.validate = .ok ()) :
    (Queue.load settings : Procedure Unit Queue).Ensures ⟨host, ()⟩ fun queue t =>
      (q.reopened settings.pageSize).Held settings ⟨t.host, queue⟩ := by
  rcases h with ⟨hnone, hfresh⟩ | ⟨hstored, hstarted, hreach⟩
  · have hpos := ((Settings.validate_eq_ok_iff settings).mp hvalid).1
    have hpageEnd : pageEnd settings.pageSize 0 = 0 := by
      have hmul := Disk.pageEnd_mul hpos 0
      rwa [Nat.zero_mul] at hmul
    have hledger : (q.reopened settings.pageSize).ledger = {} := by
      rw [reopened, hnone, Ledger.reopened, hpageEnd]
    refine (Queue.load_of_fresh (s := ⟨host, ()⟩) hvalid hfresh q.layout).mono ?_
    intro queue t ht
    obtain ⟨-, hsettings, htracks, hidle⟩ := ht
    exact ⟨⟨hledger.symm ▸ htracks, hidle⟩, hsettings⟩
  · refine (Queue.load_ensures (s := ⟨host, ()⟩) hvalid hstored).mono ?_
    intro queue t ht
    obtain ⟨-, hsettings, htracks, hidle, -⟩ := ht
    have hstarted' : host.disk.reach (Queue.recordDirectory settings) settings.pageSize ≠ 0 :=
      hstarted
    have hreach' : host.disk.reach (Queue.payloadDirectory settings) settings.pageSize
        = pageEnd settings.pageSize q.ledger.stop := hreach
    rw [if_neg hstarted', hreach'] at htracks
    exact ⟨⟨htracks, hidle⟩, hsettings⟩

end Shared

namespace Invocation

/-- A run loads what was left, does its part, and leaves it again. -/
theorem perform_leads {i : Invocation} {host : Host} (hvalid : i.settings.validate = .ok ())
    (h : q.Lies (rootOf i.settings) i.pageSize host.disk) (htexts : q.AllTexts)
    (hfits : i.command.Fits fresh (q.reopened i.pageSize)) :
    (i.perform fresh : Procedure Unit (List String)).Leads ⟨host, ()⟩
      (fun lines t => ¬ i.command.TooLong fresh
        ∧ i.command.Prints fresh (q.reopened i.pageSize) lines
        ∧ (i.command.onShared fresh (q.reopened i.pageSize)).Lies (rootOf i.settings) i.pageSize
          t.host.disk)
      fun _ t => i.command.TooLong fresh
        ∧ (i.command.onShared fresh (q.reopened i.pageSize)).Lies (rootOf i.settings) i.pageSize
          t.host.disk := by
  unfold perform
  simp only [leads_bind, leads_launch, leads_pure]
  refine (h.load_ensures hvalid).leads.mono (fun queue t ht => ?_) fun _ _ => False.elim
  refine (i.command.perform_leads ht (q := q.reopened i.pageSize) htexts hfits).mono ?_ ?_
  · intro lines u hu
    obtain ⟨hshort, hprints, hheld⟩ := hu
    refine (Queue.close_ensures u).leads.mono (fun _ v hv => ?_) fun _ _ => False.elim
    subst hv
    exact ⟨hshort, hprints, hheld.lies⟩
  · intro _ u hu
    obtain ⟨hlong, rfl⟩ := hu
    refine ⟨hlong, ?_⟩
    rw [Command.onShared_of_tooLong hlong]
    exact ht.lies

end Invocation

/-- One run of the program on a directory with pages of some size: the UUID that it has for a
message, and its command line, which asks for something there. -/
structure ProgramRun (root : Path) (pageSize : Nat) where
  fresh : Uuid
  arguments : List String
  invocation : Invocation
  asks : Request.ofArguments arguments = .ok (.run invocation)
  directory : Path.ofString invocation.directory = root
  pageSize_eq : invocation.pageSize = pageSize

namespace ProgramRun

variable {root : Path} {pageSize : Nat}

/-- What a run does with the messages. -/
def onShared (q : Shared) (r : ProgramRun root pageSize) : Shared :=
  r.invocation.command.onShared r.fresh (q.reopened pageSize)

/-- What runs that follow one another leave of the messages. -/
def after (q : Shared) (runs : List (ProgramRun root pageSize)) : Shared := runs.foldl onShared q

/-- The message that a run puts in. -/
def message? (r : ProgramRun root pageSize) : Option Message :=
  r.invocation.command.message? r.fresh

/-- What a run reports: it fails if its message is too long, and else it succeeds and prints what it
has to. -/
def Reports (q : Shared) (r : ProgramRun root pageSize) (report : Report) : Prop :=
  (r.invocation.command.TooLong r.fresh → report = ⟨1, ""⟩)
    ∧ (¬ r.invocation.command.TooLong r.fresh → ∃ lines,
        r.invocation.command.Prints r.fresh (q.reopened pageSize) lines
        ∧ report = ⟨0, unlines lines⟩)

/-- Every UUID of a message that is pushed is fresh, and there is room for every message. -/
def AllFit : Shared → List (ProgramRun root pageSize) → Prop
  | _, [] => True
  | q, r :: rest =>
    r.invocation.command.Fits r.fresh (q.reopened pageSize) ∧ AllFit (r.onShared q) rest

/-- The host that runs leave that follow one another. -/
def leave (host : Host) (runs : List (ProgramRun root pageSize)) : Host :=
  runs.foldl (fun host r => (host.run r.fresh r.arguments).2) host

/-- In the list is what was put in, in that order. -/
theorem messages_after (q : Shared) (runs : List (ProgramRun root pageSize)) :
    (after q runs).ledger.items.map Item.message
      = q.ledger.items.map Item.message ++ runs.filterMap message? := by
  induction runs generalizing q with
  | nil => exact (List.append_nil _).symm
  | cons r rest ih =>
    have hfirst : (r.onShared q).ledger.items.map Item.message
        = q.ledger.items.map Item.message ++ r.message?.toList := Command.messages_onShared ..
    rw [after, List.foldl_cons, ← after, ih, hfirst, List.append_assoc, List.filterMap_cons]
    cases r.message? <;> rfl

/-! Each run does its part, and so do all of them. -/

theorem valid_settings (r : ProgramRun root pageSize)
    (hvalid : ({ pageSize } : Settings).validate = .ok ()) :
    r.invocation.settings.validate = .ok () := by
  obtain ⟨hpos, hdvd, hle, hlifetime, -⟩ := (Settings.validate_eq_ok_iff _).mp hvalid
  refine (Settings.validate_eq_ok_iff _).mpr ?_
  simp only [Invocation.settings, r.pageSize_eq]
  exact ⟨hpos, hdvd, hle, hlifetime, by simp, by simp⟩

/-- One program prints what the ledger says of its command, and leaves the queue to the next. -/
theorem run_shared (hvalid : ({ pageSize } : Settings).validate = .ok ()) {host : Host}
    (h : q.Lies root pageSize host.disk) (htexts : q.AllTexts) (r : ProgramRun root pageSize)
    (hfits : r.invocation.command.Fits r.fresh (q.reopened pageSize)) :
    r.Reports q (host.run r.fresh r.arguments).1
      ∧ (r.onShared q).Lies root pageSize (host.run r.fresh r.arguments).2.disk := by
  have hvalid' := r.valid_settings hvalid
  obtain ⟨fresh, arguments, invocation, hasks, rfl, rfl⟩ := r
  have hleads := invocation.perform_leads hvalid' h htexts hfits
  unfold Host.run
  rw [hasks]
  dsimp only
  generalize houtcome : (invocation.perform fresh).outcome (⟨host, ()⟩ : Session Unit) = outcome
  obtain ⟨answer, t⟩ := outcome
  cases answer with
  | ok lines =>
    obtain ⟨hshort, hprints, hlies⟩ := hleads.of_ok houtcome
    exact ⟨⟨fun hlong => absurd hlong hshort, fun _ => ⟨lines, hprints, rfl⟩⟩, hlies⟩
  | error fault =>
    obtain ⟨hlong, hlies⟩ := hleads.of_error houtcome
    exact ⟨⟨fun _ => rfl, fun hshort => absurd hlong hshort⟩, hlies⟩

/-- So do any number of them, one after another. -/
theorem leave_shared (hvalid : ({ pageSize } : Settings).validate = .ok ()) {host : Host}
    (h : q.Lies root pageSize host.disk) (htexts : q.AllTexts)
    (runs : List (ProgramRun root pageSize)) (hfit : AllFit q runs) :
    (after q runs).Lies root pageSize (leave host runs).disk ∧ (after q runs).AllTexts := by
  induction runs generalizing q host with
  | nil => exact ⟨h, htexts⟩
  | cons r rest ih =>
    have htexts' : (r.onShared q).AllTexts :=
      Shared.AllTexts.onShared (q := q.reopened pageSize) htexts r.fresh r.invocation.command
    exact ih (r.run_shared hvalid h htexts hfit.1).2 htexts' hfit.2

theorem allFit_append (q : Shared) (runs : List (ProgramRun root pageSize))
    (r : ProgramRun root pageSize) :
    AllFit q (runs ++ [r]) ↔ AllFit q runs
      ∧ r.invocation.command.Fits r.fresh ((after q runs).reopened pageSize) := by
  induction runs generalizing q with
  | nil => exact ⟨fun hand => ⟨trivial, hand.1⟩, fun hand => ⟨hand.2, trivial⟩⟩
  | cons first rest ih =>
    rw [List.cons_append, AllFit, ih, AllFit, and_assoc]
    rfl

end ProgramRun

/-- The program is run any number of times on a directory in which nothing is at first. As long as
UUIDs are fresh and there is room, the next run reports what it has to about one list of messages:
those that the runs before it put in, in that order, each of which waits, is taken or is
finished. -/
theorem runs_share_one_queue {root : Path} {pageSize : Nat} (host : Host)
    (runs : List (ProgramRun root pageSize)) (next : ProgramRun root pageSize)
    (hvalid : ({ pageSize } : Settings).validate = .ok ()) (hfresh : host.disk.Fresh root)
    (hfit : ProgramRun.AllFit {} (runs ++ [next])) :
    next.Reports (ProgramRun.after {} runs)
        ((ProgramRun.leave host runs).run next.fresh next.arguments).1
      ∧ (ProgramRun.after {} runs).ledger.items.map Item.message
        = runs.filterMap ProgramRun.message?
      ∧ (ProgramRun.after {} runs).ledger.items.tally.new
          + (ProgramRun.after {} runs).ledger.items.tally.locked
          + (ProgramRun.after {} runs).ledger.items.tally.deleted
        = (runs.filterMap ProgramRun.message?).length := by
  obtain ⟨hbefore, hnext⟩ := (ProgramRun.allFit_append {} runs next).mp hfit
  obtain ⟨hlies, htexts⟩ :=
    ProgramRun.leave_shared (q := {}) hvalid (.inl ⟨rfl, hfresh⟩) nofun runs hbefore
  have hmessages := ProgramRun.messages_after {} runs
  refine ⟨(next.run_shared hvalid hlies htexts hnext).1, hmessages, ?_⟩
  rw [hlies.wellFormed.tally_sum, ← List.nil_append (runs.filterMap _)]
  have hlength := congrArg List.length hmessages
  rw [List.length_map] at hlength
  exact hlength

/-- The UUIDs that the program makes up are never nil. -/
theorem Uuid.ofRandom_ne_nil (n : Nat) : ofRandom n ≠ nil := by
  intro heq
  have hbit := congrArg (fun u : Uuid => u.bits.getLsbD 63) heq
  simp [ofRandom, nil] at hbit

/-! A message is pushed by one run and taken by another, and a third one shows it. -/

/-- Pushes a message to the queue in the directory `queue`. -/
def pushHello : ProgramRun ["queue"] 8 where
  fresh := .ofRandom 1
  arguments := ["--data-dir=queue", "-p8", "push", "hello"]
  invocation := ⟨"queue", 8, .push "hello" .text⟩
  asks := by decide +kernel
  directory := by decide +kernel
  pageSize_eq := rfl

/-- Takes a message from the queue in the directory `queue`. -/
def popOne : ProgramRun ["queue"] 8 where
  fresh := .ofRandom 2
  arguments := ["-d", "./queue/", "-p", "8", "pop"]
  invocation := ⟨"./queue/", 8, .pop false⟩
  asks := by decide +kernel
  directory := by decide +kernel
  pageSize_eq := rfl

/-- Shows the records of the queue in the directory `queue`. -/
def dumpAll : ProgramRun ["queue"] 8 where
  fresh := .ofRandom 3
  arguments := ["-d", "queue", "-p", "8", "dump"]
  invocation := ⟨"queue", 8, .dump⟩
  asks := by decide +kernel
  directory := by decide +kernel
  pageSize_eq := rfl

/-- The host on which nothing was run yet. -/
def bareProgramHost : Host := ⟨{}, ⟨fun _ => 0, 0⟩, []⟩

/-- The text that was pushed is printed with its UUID, and the dump shows that the message is
taken. -/
theorem runs_share_one_queue_dumped :
    ({ pageSize := 8 } : Settings).validate = .ok () ∧ bareProgramHost.disk.Fresh ["queue"]
      ∧ ProgramRun.AllFit {} ([pushHello] ++ [popOne])
      ∧ ((ProgramRun.leave bareProgramHost [pushHello]).run popOne.fresh popOne.arguments).1
        = ⟨0, "00000000-0000-4000-8000-000000000001 String hello\n"⟩
      ∧ ProgramRun.AllFit {} ([pushHello, popOne] ++ [dumpAll])
      ∧ ((ProgramRun.leave bareProgramHost [pushHello, popOne]).run dumpAll.fresh
        dumpAll.arguments).1
        = ⟨0,
      "       0  00000000-0000-4000-8000-000000000001  Locked   offset=0 length=5 type=0\n"⟩ := by
  have hpush : ProgramRun.AllFit {} ([pushHello] ++ [popOne]) :=
    ⟨⟨Uuid.ofRandom_ne_nil 1, nofun, by decide +kernel, by decide +kernel⟩, trivial, trivial⟩
  have hfit : ProgramRun.AllFit {} ([pushHello, popOne] ++ [dumpAll]) :=
    ⟨hpush.1, trivial, trivial, trivial⟩
  refine ⟨rfl, Disk.fresh_new _, hpush, ?_, hfit, ?_⟩
  · obtain ⟨⟨-, hreport⟩, -⟩ := runs_share_one_queue bareProgramHost [pushHello] popOne rfl
      (Disk.fresh_new _) hpush
    obtain ⟨lines, hlines, hprinted⟩ := hreport id
    obtain ⟨text, htext, rfl⟩ : ∃ text, bytesOf "hello" = bytesOf text
        ∧ lines = [Message.line ⟨.ofRandom 1, .text, bytesOf "hello"⟩ text] := hlines
    obtain rfl := bytesOf_injective htext
    refine hprinted.trans ?_
    decide +kernel
  · obtain ⟨⟨-, hreport⟩, -⟩ := runs_share_one_queue bareProgramHost [pushHello, popOne] dumpAll rfl
      (Disk.fresh_new _) hfit
    obtain ⟨lines, rfl, hprinted⟩ := hreport id
    refine hprinted.trans ?_
    decide +kernel

end PagedQueue
