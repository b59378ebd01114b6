import PagedQueue.Proofs.BegunRecords
import PagedQueue.Proofs.QueueReloading

/-!
# What is begun in a queue

While messages are put in, or after some could not be, there are payloads that no record leads to
and records of which only a beginning is written. A plan tells what all of them are to be (`Plan`),
and a queue keeps to it if it was written so far and nothing else was (`Plan.Kept`). That can be
loaded at any time, since a count may well cover records that are only begun: most of them are
vacant. But where a record straddles two pages, its message may come up torn (`Item.Torn`,
`Plan.Kept.recordAt_cases`).
-/

namespace PagedQueue

open Procedure
open Record (place size Straddles BreaksAt)

/-- A message whose record ends early: its kind is lost, or its kind and the length of its
payload. -/
def Item.Torn (i j : Item) : Prop :=
  j = { i with kind := .text } ∨ j = { i with kind := .text, payload := [] }

namespace Item

variable {i j : Item}

theorem Torn.status_eq (h : i.Torn j) : j.status = i.status := by
  rcases h with rfl | rfl <;> rfl

theorem Torn.length_le (h : i.Torn j) : j.payload.length ≤ i.payload.length := by
  rcases h with rfl | rfl
  · exact Nat.le_refl _
  · exact Nat.zero_le _

end Item

/-- What the files of a queue are to hold, and how far they do. -/
structure Plan where
  /-- The bytes of the payloads. -/
  payloads : ByteSpace
  /-- The message of each position. -/
  items : Items
  /-- Where the payload of each position begins. -/
  layout : Nat → Nat
  /-- How many bytes of the record of each position are written. -/
  written : Nat → Nat

namespace Plan

open Queue (Mounted Readable recordBytes payloadBytes RecordPage PayloadPage recordReach recordsHeld
  rootOf messageOf contents)

/-- A payload has its place, and so many bytes of it are written. -/
structure Placed (plan : Plan) (s : Session Queue) (payload : List UInt8) (offset written : Nat) :
    Prop where
  stop_le : offset + payload.length ≤ s.memory.payloads.cursor
  planned : plan.payloads.read offset payload.length = payload
  settled : ∀ o, InRange offset written o → payloadBytes s o = plan.payloads o

/-- The queue keeps to a plan: of each record as much is written as the plan says, the payloads are
written, there are zeros behind the last record, and the count covers none of them. -/
structure Kept (plan : Plan) (s : Session Queue) : Prop where
  mounted : Mounted s
  next_eq : s.memory.index.next = plan.items.length
  named : ∀ i ∈ plan.items, i.uuid ≠ Uuid.nil
  short : ∀ i ∈ plan.items, i.payload.length ≤ Queue.maxPayload
  placed : ∀ {p : Nat} {i : Item}, plan.items[p]? = some i →
    plan.Placed s i.payload (plan.layout p) i.payload.length
  begun : ∀ {p : Nat} {i : Item}, plan.items[p]? = some i →
    (recordBytes s).Begun p (i.toEntry p (plan.layout p)).toRecord (plan.written p)
  breaks : ∀ {p : Nat}, p < plan.items.length →
    BreaksAt s.memory.settings.pageSize p (plan.written p)
  blank : ∀ o, place plan.items.length ≤ o → recordBytes s o = 0
  count : (recordBytes s).count = .ofNat s.memory.index.count
  count_le : s.memory.index.count ≤ plan.items.length
  page : ∃ o, place s.memory.index.count ≤ o + 1 ∧ RecordPage s o

variable {plan : Plan} {s t : Session Queue} {p : Nat} {i : Item}

theorem Placed.read_eq {payload : List UInt8} {offset : Nat}
    (h : plan.Placed s payload offset payload.length) :
    (payloadBytes s).read offset payload.length = payload :=
  (ByteSpace.read_congr fun o hle hlt => h.settled o ⟨hle, hlt⟩).trans h.planned

/-- A part of the payload is what is planned for its range. -/
theorem Placed.take_drop_eq {payload : List UInt8} {offset written count : Nat}
    (h : plan.Placed s payload offset written) (hle : written + count ≤ payload.length) :
    (payload.drop written).take count = plan.payloads.read (offset + written) count := by
  conv_lhs => rw [← h.planned]
  exact ByteSpace.take_drop_read _ _ hle

namespace Kept

/-- The record of a position is vacant or that of its message, unless it is not complete and
straddles two pages: then it may be torn. -/
theorem recordAt_cases (h : plan.Kept s) (hp : plan.items[p]? = some i) :
    ((recordBytes s).recordAt p).IsVacant
      ∨ ∃ j : Item, (recordBytes s).recordAt p = (j.toEntry p (plan.layout p)).toRecord
        ∧ (plan.written p = size ∧ j = i
          ∨ plan.written p ≠ size ∧ Straddles s.memory.settings.pageSize p ∧ i.Torn j) := by
  rcases (h.begun hp).cases h.mounted.pageSize_dvd (h.breaks (Items.lt_length hp)) with
    hvacant | ⟨hwhole, heq⟩ | ⟨hbegun, hstraddles, heq | heq⟩
  · exact .inl hvacant
  · exact .inr ⟨i, heq, .inl ⟨hwhole, rfl⟩⟩
  · exact .inr ⟨{ i with kind := .text, payload := [] }, heq, .inr ⟨hbegun, hstraddles, .inr rfl⟩⟩
  · exact .inr ⟨{ i with kind := .text }, heq, .inr ⟨hbegun, hstraddles, .inl rfl⟩⟩

/-- Whatever comes up of a message has its payload. -/
theorem read_eq (h : plan.Kept s) (hp : plan.items[p]? = some i) {j : Item}
    (hj : j = i ∨ Straddles s.memory.settings.pageSize p ∧ i.Torn j) :
    (payloadBytes s).read (plan.layout p) j.payload.length = j.payload := by
  have hread := (h.placed hp).read_eq
  rcases hj with rfl | ⟨-, rfl | rfl⟩
  · exact hread
  · exact hread
  · rfl

theorem length_le (h : plan.Kept s) (hp : plan.items[p]? = some i) {j : Item}
    (hj : j = i ∨ Straddles s.memory.settings.pageSize p ∧ i.Torn j) :
    j.payload.length ≤ i.payload.length ∧ j.payload.length ≤ Queue.maxPayload := by
  have hshort := h.short i (List.mem_of_getElem? hp)
  rcases hj with rfl | ⟨-, htorn⟩
  · exact ⟨Nat.le_refl _, hshort⟩
  · exact ⟨htorn.length_le, Nat.le_trans htorn.length_le hshort⟩

theorem covered_eq (h : plan.Kept s) (hroom : plan.items.length < 0x80000000) :
    (recordBytes s).covered = s.memory.index.count := by
  have hlt : s.memory.index.count < 0x80000000 := Nat.lt_of_le_of_lt h.count_le hroom
  rw [ByteSpace.covered, h.count, Int32.toInt_ofNat_of_lt hlt]
  rfl

/-- The count covers no more than the pages reach. -/
theorem place_count_le (h : plan.Kept s) (hclear : s.host.disk.Clear (rootOf s.memory.settings)) :
    place s.memory.index.count ≤ recordReach s := by
  obtain ⟨o, hle, hpage⟩ := h.page
  exact Nat.le_trans hle (hclear.records.lt_reach h.mounted.pageSize_pos hpage)

/-- A message that comes up is one of the plan, unless it is torn. -/
theorem of_liveAt? (h : plan.Kept s) {e : Entry}
    (he : (recordBytes s).liveAt? s.memory.index.count p = some e) :
    ∃ i j : Item, plan.items[p]? = some i ∧ e = j.toEntry p (plan.layout p)
      ∧ (j = i ∨ Straddles s.memory.settings.pageSize p ∧ i.Torn j) := by
  obtain ⟨hlt, hfirst, rfl⟩ := ByteSpace.liveAt?_eq_some_iff.mp he
  have hitem := List.getElem?_eq_getElem (Nat.lt_of_lt_of_le hlt h.count_le)
  rcases h.recordAt_cases hitem with hvacant | ⟨j, heq, hj⟩
  · exact absurd hfirst.1 hvacant.not_isLive
  · refine ⟨_, j, hitem, ?_, hj.imp And.right And.right⟩
    have hrecord := hfirst.1
    rw [heq] at hrecord ⊢
    exact Entry.toEntry_toRecord ((Entry.isLive_toRecord_iff _).mp hrecord).2

/-- Where the next payload goes is behind all others. -/
theorem layout_lt (h : plan.Kept s) {bound : Nat} (hcursor : s.memory.payloads.cursor < bound)
    (hp : p < plan.items.length) : plan.layout p < bound :=
  Nat.lt_of_le_of_lt (Nat.le_trans (Nat.le_add_right _ _)
    (h.placed (List.getElem?_eq_getElem hp)).stop_le) hcursor

section

variable (h : plan.Kept s) (hlayout : ∀ p < plan.items.length, plan.layout p < 0x8000000000000000)
include h hlayout

/-- The record of a message makes sense, even if it is torn. -/
theorem not_faulty (hp : p < plan.items.length) : ¬ ((recordBytes s).recordAt p).Faulty := by
  have hitem := List.getElem?_eq_getElem hp
  rcases h.recordAt_cases hitem with hvacant | ⟨j, heq, hj⟩
  · exact hvacant.not_faulty
  · rw [heq]
    exact Item.not_faulty (hlayout p hp) (h.length_le hitem (hj.imp And.right And.right)).2

theorem not_unsound (hroom : plan.items.length < 0x80000000)
    (hreach : place s.memory.index.count ≤ recordReach s) :
    ¬ (recordBytes s).Unsound (recordReach s) := by
  have hcovered := h.covered_eq hroom
  intro hand
  obtain ⟨-, hnegative | hbeyond | ⟨p, hp, hfaulty⟩⟩ := hand
  · have hlt := Int32.lt_iff_toInt_lt.mp hnegative
    rw [h.count, Int32.toInt_ofNat_of_lt (Nat.lt_of_le_of_lt h.count_le hroom)] at hlt
    exact absurd hlt (Int.not_lt.mpr (Int.natCast_nonneg _))
  · rw [hcovered] at hbeyond
    exact Nat.not_lt_of_le hreach hbeyond
  · rw [hcovered] at hp
    exact h.not_faulty hlayout (Nat.lt_of_lt_of_le hp h.count_le) hfaulty

variable (hp : plan.items[p]? = some i) {j : Item}
  (hj : j = i ∨ Straddles s.memory.settings.pageSize p ∧ i.Torn j)
include hp hj

/-- Where the payload lies and how long it is fits into the words of the record. -/
theorem extent : (j.toEntry p (plan.layout p)).offset.toNat = plan.layout p
    ∧ (j.toEntry p (plan.layout p)).length.toNat = j.payload.length := by
  have hoffset := hlayout p (Items.lt_length hp)
  obtain ⟨-, hshort⟩ := h.length_le hp hj
  have hmax : Queue.maxPayload < 0x80000000 := by decide
  exact ⟨UInt64.toNat_ofNat_of_lt' (show plan.layout p < 0x10000000000000000 by omega),
    UInt32.toNat_ofNat_of_lt' (show j.payload.length < 0x100000000 by omega)⟩

/-- Whatever comes up of a message is read as it comes up. -/
theorem messageOf_eq : messageOf s (j.toEntry p (plan.layout p)) = j.message := by
  obtain ⟨hoffset, hlength⟩ := h.extent hlayout hp hj
  rw [messageOf, hoffset, hlength, h.read_eq hp hj]
  rfl

/-- The payload lies where numbers reach. -/
theorem stop_le :
    (j.toEntry p (plan.layout p)).offset.toNat + (j.toEntry p (plan.layout p)).length.toNat
    ≤ 0x10000000000000000 := by
  obtain ⟨hoffset, hlength⟩ := h.extent hlayout hp hj
  obtain ⟨-, hshort⟩ := h.length_le hp hj
  have hbelow := hlayout p (Items.lt_length hp)
  have hmax : Queue.maxPayload < 0x80000000 := by decide
  omega

/-- It can be read if all of the message can. -/
theorem readable (hpages : s.host.disk.Clear (rootOf s.memory.settings)
      ∨ s.host.disk.refused = []
        ∧ ∀ o, InRange (plan.layout p) i.payload.length o → PayloadPage s o) :
    Readable s (j.toEntry p (plan.layout p)) := by
  obtain ⟨hoffset, hlength⟩ := h.extent hlayout hp hj
  obtain ⟨hle, -⟩ := h.length_le hp hj
  refine ⟨h.stop_le hlayout hp hj, hpages.imp_right fun ⟨hcalm, hpages⟩ =>
    ⟨hcalm, fun o ho => hpages o ⟨?_, ?_⟩⟩⟩
  · exact hoffset ▸ ho.1
  · have hlt := ho.2
    omega

end

/-- What is on disk can be loaded at any time, and all messages that come up can be read. -/
theorem load_contents (h : plan.Kept s) (hroom : plan.items.length < 0x80000000)
    (hlayout : ∀ p < plan.items.length, plan.layout p < 0x8000000000000000)
    (hreach : place s.memory.index.count ≤ recordReach s)
    (hrecords : s.host.disk.Openable (Queue.recordDirectory s.memory.settings))
    (hpages : ∀ {p : Nat} {i : Item}, plan.items[p]? = some i →
      s.host.disk.Clear (rootOf s.memory.settings)
        ∨ s.host.disk.refused = []
          ∧ ∀ o, InRange (plan.layout p) i.payload.length o → PayloadPage s o)
    (policy : Policy) {host : Host} (hdisk : host.disk = s.host.disk) :
    (Queue.load (policy.onSettings s.memory.settings) : Procedure Unit Queue).Ensures ⟨host, ()⟩
      fun q t => (contents.outcome ⟨t.host, q⟩).1
        = .ok ((List.range s.memory.index.count).filterMap fun p =>
          ((recordBytes s).liveAt? s.memory.index.count p).map fun e =>
            (messageOf s e, e.status)) := by
  have hstarted : recordReach s ≠ 0 := by
    have hpos : 4 ≤ place s.memory.index.count := Nat.le_add_right _ _
    omega
  have hsound := h.not_unsound hlayout hroom hreach
  -- whatever was opened over the disk reads the records and the payloads of this queue
  have hsame {opened : Session Queue} (hopened : opened.host = host)
      (hsettings : opened.memory.settings = policy.onSettings s.memory.settings) :
      recordBytes opened = recordBytes s ∧ recordReach opened = recordReach s
        ∧ payloadBytes opened = payloadBytes s ∧ ∀ e, Readable s e → Readable opened e := by
    obtain ⟨openedHost, memory⟩ := opened
    obtain rfl : openedHost = host := hopened
    refine ⟨?_, ?_, ?_, fun e he => ⟨he.below, ?_⟩⟩
    · rw [recordBytes, hsettings, hdisk]
      rfl
    · rw [recordReach, hsettings, hdisk]
      rfl
    · rw [payloadBytes, hsettings, hdisk]
      rfl
    · have hpages := he.pages
      simp only [PayloadPage, ← hdisk] at hpages ⊢
      rw [hsettings]
      exact hpages
  refine ((Queue.load_leads (s := (⟨host, ()⟩ : Session Unit))
    (policy.validate_onSettings h.mounted.valid)
    (hdisk.symm ▸ h.mounted.grounds) (by rw [hdisk]; exact hstarted)).ensures ?_).mono ?_
  · intro _ _ hand
    obtain ⟨opened, hopened, hsettings, hmounted, hfailed⟩ := hand
    obtain ⟨hbytes, hreached, -, -⟩ := hsame hopened hsettings
    rw [hbytes, hreached] at hfailed
    refine hfailed.elim hsound fun hunreadable => hunreadable.not_openable ?_
    have hdirectory : (Queue.indexOf opened).memory.file.store.directory = _ :=
      hmounted.recordDirectory
    show opened.host.disk.Openable _
    rw [hdirectory, hopened, hsettings, hdisk]
    exact hrecords
  · intro q t ht
    obtain ⟨opened, hopened, hsettings, -, ht⟩ := ht
    obtain ⟨hbytes, hreached, hpayloads, hreadable⟩ := hsame hopened hsettings
    have hholds := ht.holds
    rw [recordsHeld, ByteSpace.recordCount, hreached, if_neg hstarted, hbytes,
      h.covered_eq hroom] at hholds
    obtain ⟨_, _, hfound, rfl⟩ := (Queue.contents_of_holds ht.changes.mounted hholds
      (fun he => (ByteSpace.liveAt?_eq_some_iff.mp he).1) fun he => by
        obtain ⟨i, j, hp, rfl, hj⟩ := h.of_liveAt? he
        exact (hreadable _ (h.readable hlayout hp hj (hpages hp))).changes ht.changes).outcome
    rw [hfound]
    simp only [messageOf, ht.changes.payloadBytes_eq, hpayloads]

end Kept

end Plan

end PagedQueue
