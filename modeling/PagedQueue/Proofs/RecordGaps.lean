import PagedQueue.Proofs.LoadedQueues
import PagedQueue.Proofs.QueueWrites

/-!
# Queues with gaps among their records

A queue that was loaded agrees with its records. A push that fails at its record burns a position,
and pushes that are accepted later raise the count over it: the slot is a gap, of which nothing is
known but that one of its pages is barred. A message that is finished may leave behind a second live
record of its UUID, which was on disk when the queue was loaded and was passed over then. But for
these gaps and second records, memory and records go on matching whatever is called (`Matches`), and
the messages that were put in stay where they lie (`Lies`).

Each call is followed by itself: `Matches.put` and `Matches.burn` for the two ends of a push,
`Matches.moved` for a call that moves a message, `Matches.aside` for all that leaves the records
alone.
-/

namespace PagedQueue

open Procedure
open PageStore (Nowhere)
open Record (place countSize statusOffset)
open MessageIndex (Unreadable)

/-! ## What records say -/

theorem ByteSpace.covered_lt (b : ByteSpace) : b.covered < 0x80000000 := by
  have hlt := Int32.toInt_lt b.count
  rw [ByteSpace.covered]
  omega

/-- Of the first records more than one that is live bears the UUID. -/
def ByteSpace.Doubles (b : ByteSpace) (n : Nat) (uuid : Uuid) : Prop :=
  ∃ p q, p < q ∧ q < n ∧ (b.recordAt p).IsLive ∧ (b.recordAt q).IsLive
    ∧ (b.recordAt p).uuid = uuid ∧ (b.recordAt q).uuid = uuid

/-- A live record that is passed over bears the UUID of an earlier one. -/
theorem ByteSpace.doubles_of_liveAt?_eq_none {b : ByteSpace} {n p : Nat} (hp : p < n)
    (hlive : (b.recordAt p).IsLive) (hnone : b.liveAt? n p = none) :
    b.Doubles n (b.recordAt p).uuid := by
  obtain ⟨q, hle, hfirst, huuid⟩ := ByteSpace.exists_firstLive hlive
  rcases Nat.lt_or_eq_of_le hle with hlt | rfl
  · exact ⟨q, p, hlt, hp, hfirst.1, hlive, huuid, rfl⟩
  · rw [ByteSpace.liveAt?, if_pos ⟨hp, hfirst⟩] at hnone
    cases hnone

/-- Where the payload of a live record ends that makes sense. -/
theorem Entry.extent_le {e : Entry} (hlive : e.toRecord.IsLive) (hsense : ¬ e.toRecord.Faulty) :
    e.offset.toNat + e.length.toNat ≤ 0x10000000000000000 := by
  have hoffset : e.offset.toNat < 0x8000000000000000 := by
    by_contra hbeyond
    refine hsense ⟨hlive.1, .inr ⟨hlive.2, .inl ?_⟩⟩
    have hlt := e.offset.toNat_lt
    have heq : e.toRecord.offset = Int64.ofNat e.offset.toNat := by
      rw [← UInt64.toInt64_ofNat', UInt64.ofNat_toNat]
      rfl
    rw [heq, Int64.lt_iff_toInt_lt, Int64.toInt_ofNat', Int64.toInt_zero, Int.bmod_def,
      show Int64.size = 0x10000000000000000 from rfl]
    split
    next => omega
    next => omega
  have hlength := e.length.toNat_lt
  omega

namespace Queue

variable {doubled : Uuid → Prop} {gaps payloads : Nat → Prop} {held : Nat → Option Entry}
  {s t : Session Queue} {m : Message} {p offset : Nat} {id : EntryId} {e : Entry} {status : Status}

/-! ## Memory and records that match -/

/-- There is room for a record more, and an offset can say where the next payload goes. -/
structure HasRoom (q : Queue) : Prop where
  record : q.index.next < 0x7FFFFFFF
  payload : q.payloads.cursor < 0x8000000000000000

/-- In memory the queue has what the records on disk say, but for gaps, each of which has a page
that is barred, and for second live records of UUIDs that were doubled. Apart from the gaps the
records are sound and their pages are there. No file is refused. -/
structure Matches (doubled : Uuid → Prop) (gaps : Nat → Prop) (held : Nat → Option Entry)
    (s : Session Queue) : Prop extends Mounted s where
  calm : s.host.disk.refused = []
  count_eq : s.memory.index.count = (recordBytes s).covered
  count_le : s.memory.index.count ≤ s.memory.index.next
  next_le : s.memory.index.next ≤ 0x7FFFFFFF
  nonneg : ¬ (recordBytes s).count < 0
  holds : s.memory.index.Holds held
  record : ∀ {p e}, held p = some e →
    p < s.memory.index.count ∧ ¬ gaps p ∧ (recordBytes s).recordAt p = e.toRecord
      ∧ ((recordBytes s).recordAt p).IsLive
  spare : ∀ {p}, p < s.memory.index.count → ¬ gaps p → held p = none →
    ((recordBytes s).recordAt p).IsLive → doubled ((recordBytes s).recordAt p).uuid
  sense : ∀ {p}, p < s.memory.index.count → ¬ gaps p → ¬ ((recordBytes s).recordAt p).Faulty
  countPage : CountPage s
  recordPage : ∀ {p}, p < s.memory.index.count → ¬ gaps p → ∀ o, InRange (place p) Record.size o →
    RecordPage s o
  gap : ∀ {p}, gaps p → p < s.memory.index.next ∧ ∃ o, InRange (place p) Record.size o
    ∧ RecordBarred s o
  burnt : ∀ {p}, s.memory.index.count ≤ p → p < s.memory.index.next → gaps p

/-- A queue that was loaded has no gaps, if no file is refused. -/
theorem Agrees.matches (h : Agrees s) (hcalm : s.host.disk.refused = []) :
    Matches ((recordBytes s).Doubles (recordBytes s).covered) (fun _ => False)
      ((recordBytes s).liveAt? (recordBytes s).covered) s := by
  have hlt := (recordBytes s).covered_lt
  exact {
    toMounted := h.toMounted
    calm := hcalm
    count_eq := h.count_eq
    count_le := Nat.le_of_eq (h.count_eq.trans h.next_eq.symm)
    next_le := by
      rw [h.next_eq]
      omega
    nonneg := h.nonneg
    holds := h.holds
    record := fun {p e} he => by
      obtain ⟨hp, hfirst, rfl⟩ := ByteSpace.liveAt?_eq_some_iff.mp he
      exact ⟨h.count_eq ▸ hp, not_false, (Record.toRecord_toEntry hfirst.1 (h.sense p hp) p).symm,
        hfirst.1⟩
    spare :=
      fun hp _ hnone hlive => ByteSpace.doubles_of_liveAt?_eq_none (h.count_eq ▸ hp) hlive hnone
    sense := fun {p} hp _ => h.sense p (h.count_eq ▸ hp)
    countPage := fun o ho => h.recordPage o (by
      have hend := ho.2
      simp only [place]
      omega)
    recordPage := fun {p} hp _ o ho => h.recordPage o (by
      rw [h.count_eq] at hp
      have hend := ho.2
      simp only [place, Record.size] at hend ⊢
      omega)
    gap := False.elim
    burnt := fun hle hlt => by
      rw [h.count_eq] at hle
      rw [h.next_eq] at hlt
      exact Nat.not_lt_of_le hle hlt }

namespace Matches

/-- A page that is there can be mapped. -/
theorem mappable (h : Matches doubled gaps held s) {o : Nat} (hpage : RecordPage s o) :
    s.host.disk.Mappable (Queue.recordDirectory s.memory.settings)
      (o / s.memory.settings.pageSize) :=
  ⟨h.calm ▸ List.not_mem_nil, .inl hpage⟩

/-- Where the count stands, by the numbers on disk. -/
theorem recordCount_eq (h : Matches doubled gaps held s) :
    s.memory.recordCount = (recordBytes s).covered :=
  h.count_eq

/-- Nothing that leaves the records alone touches the match. -/
theorem aside (h : Matches doubled gaps held s) (hc : Changes Nowhere payloads s t)
    (hindex : t.memory.index = { s.memory.index with
      file := t.memory.index.file, pending := t.memory.index.pending }) :
    Matches doubled gaps held t := by
  have hbytes := hc.recordBytes_eq
  have hcount : t.memory.index.count = s.memory.index.count := by rw [hindex]
  have hnext : t.memory.index.next = s.memory.index.next := by rw [hindex]
  exact {
    toMounted := hc.mounted
    calm := hc.refused.trans h.calm
    count_eq := hcount.trans (hbytes ▸ h.count_eq)
    count_le := hcount ▸ hnext ▸ h.count_le
    next_le := hnext ▸ h.next_le
    nonneg := hbytes ▸ h.nonneg
    holds := h.holds.congr (by rw [hindex]) (by rw [hindex]) (by rw [hindex])
    record := fun he => hbytes.symm ▸ hcount.symm ▸ h.record he
    spare := fun hp => hbytes.symm ▸ h.spare (hcount ▸ hp)
    sense := fun hp => hbytes.symm ▸ h.sense (hcount ▸ hp)
    countPage := fun o ho => hc.recordPage o (h.countPage o ho)
    recordPage := fun hp hgap o ho => hc.recordPage o (h.recordPage (hcount ▸ hp) hgap o ho)
    gap := fun hgap => by
      obtain ⟨hlt, o, ho, hbarred⟩ := h.gap hgap
      exact ⟨hnext.symm ▸ hlt, o, ho, hc.recordBarred hbarred⟩
    burnt := fun hle hlt => h.burnt (hcount ▸ hle) (hnext ▸ hlt) }

/-! ## Pushes -/

/-- The next position is free. -/
theorem held_next (h : Matches doubled gaps held s) : held s.memory.index.next = none := by
  refine Option.eq_none_iff_forall_ne_some.mpr fun e he => ?_
  exact Nat.not_lt_of_le h.count_le (h.record he).1

/-- No message in the queue has a UUID that is not known. -/
theorem uuid_ne (h : Matches doubled gaps held s)
    (hnew : s.memory.index.live.contains m.uuid = false)
    {q : Nat} {e : Entry} (he : held q = some e) : e.uuid ≠ m.uuid := by
  intro huuid
  have hcontains := h.holds.contains_iff.mpr ⟨q, e, he, huuid⟩
  rw [hnew] at hcontains
  cases hcontains

/-- The records below the next position stay when a message is put in. -/
theorem recordAt_put (ht : Put m s t) {q : Nat} (hq : q < s.memory.index.next) :
    (recordBytes t).recordAt q = (recordBytes s).recordAt q := by
  rw [ht.recordBytes_eq, ByteSpace.recordAt_write_count, ByteSpace.recordAt_write_of_disjoint]
  exact .inl (ByteSpace.place_add_size_le hq)

/-- The record of the message is in the next slot. -/
theorem recordAt_next (ht : Put m s t) :
    (recordBytes t).recordAt s.memory.index.next = (s.memory.entryOf m).toRecord := by
  rw [ht.recordBytes_eq, ByteSpace.recordAt_write_count, ByteSpace.recordAt_write]

/-- The count covers it, as far as it can be told. -/
theorem count_put (ht : Put m s t) : (recordBytes t).count = .ofNat (s.memory.index.next + 1) := by
  rw [ht.recordBytes_eq, ByteSpace.count_write_count]

theorem covered_put (ht : Put m s t) (hroom : s.memory.index.next < 0x7FFFFFFF) :
    (recordBytes t).covered = s.memory.index.next + 1 := by
  rw [ByteSpace.covered, count_put ht, Int32.toInt_ofNat_of_lt (by omega), Int.toNat_natCast]

/-- A message is put in for which there was room. What was burnt before it is covered now. -/
theorem put (h : Matches doubled gaps held s) (ht : Put m s t) (hroom : HasRoom s.memory)
    (hnamed : m.uuid ≠ Uuid.nil) (hshort : m.size ≤ maxPayload)
    (hnew : s.memory.index.live.contains m.uuid = false) :
    Matches doubled gaps
      (Function.update held s.memory.index.next (some (s.memory.entryOf m))) t := by
  have hindex := ht.index_eq
  have hcount : t.memory.index.count = s.memory.index.next + 1 := by rw [hindex]
  have hnext : t.memory.index.next = s.memory.index.next + 1 := by rw [hindex]
  have hroom' := hroom.record
  have hfree : ¬ gaps s.memory.index.next := fun hgap => Nat.lt_irrefl _ (h.gap hgap).1
  -- a position that is covered now was covered before, or it is the new one, or a gap
  have hcases {q : Nat} (hq : q < t.memory.index.count) (hgap : ¬ gaps q) :
      q < s.memory.index.count ∨ q = s.memory.index.next := by
    rw [hcount] at hq
    by_contra hnot
    exact hgap (h.burnt (by omega) (by omega))
  have hold {q : Nat} (hq : q < s.memory.index.count) :
      (recordBytes t).recordAt q = (recordBytes s).recordAt q :=
    recordAt_put ht (Nat.lt_of_lt_of_le hq h.count_le)
  have hlive : (s.memory.entryOf m).toRecord.IsLive :=
    (Item.isLive_toRecord_iff (i := .ofMessage m) hnamed).mpr rfl
  exact {
    toMounted := ht.changes.mounted
    calm := ht.changes.refused.trans h.calm
    count_eq := hcount.trans (covered_put ht hroom').symm
    count_le := Nat.le_of_eq (hcount.trans hnext.symm)
    next_le := by
      rw [hnext]
      omega
    nonneg := by
      rw [count_put ht, Int32.lt_iff_toInt_lt, Int32.toInt_ofNat_of_lt (by omega), Int32.toInt_zero]
      omega
    holds := h.holds.enter (e := s.memory.entryOf m) h.held_next rfl
      (fun q e he => h.uuid_ne hnew he)
      (by rw [hindex]) (by rw [hindex]; rfl) (by rw [hindex]; rfl)
    record := fun {q e} he => by
      by_cases hq : q = s.memory.index.next
      · subst hq
        rw [Function.update_self] at he
        obtain rfl := Option.some.inj he
        rw [recordAt_next ht]
        exact ⟨hcount.symm ▸ Nat.lt_succ_self _, hfree, rfl, hlive⟩
      · rw [Function.update_of_ne hq] at he
        obtain ⟨hlt, hgap, hrecord, hliveRecord⟩ := h.record he
        rw [hold hlt]
        refine ⟨?_, hgap, hrecord, hliveRecord⟩
        rw [hcount]
        exact Nat.lt_succ_of_lt (Nat.lt_of_lt_of_le hlt h.count_le)
    spare := fun {q} hq hgap hnone => by
      rcases hcases hq hgap with hlt | rfl
      · rw [Function.update_of_ne (Nat.ne_of_lt (Nat.lt_of_lt_of_le hlt h.count_le))] at hnone
        rw [hold hlt]
        exact h.spare hlt hgap hnone
      · rw [Function.update_self] at hnone
        cases hnone
    sense := fun {q} hq hgap => by
      rcases hcases hq hgap with hlt | rfl
      · rw [hold hlt]
        exact h.sense hlt hgap
      · rw [recordAt_next ht]
        exact Item.not_faulty (i := .ofMessage m) hroom.payload hshort
    countPage := fun o ho => ht.changes.recordPage o (h.countPage o ho)
    recordPage := fun {q} hq hgap o ho => by
      rcases hcases hq hgap with hlt | rfl
      · exact ht.changes.recordPage o (h.recordPage hlt hgap o ho)
      · exact ht.recordPage o (.inl ho)
    gap := fun hgap => by
      obtain ⟨hlt, o, ho, hbarred⟩ := h.gap hgap
      exact ⟨hnext.symm ▸ Nat.lt_succ_of_lt hlt, o, ho, ht.changes.recordBarred hbarred⟩
    burnt := fun {q} hle hlt => by
      rw [hcount] at hle
      rw [hnext] at hlt
      exact absurd hlt (Nat.not_lt_of_le hle) }

/-- A record breaks off, and its position is burnt. -/
theorem burn (h : Matches doubled gaps held s) {written : Nat} (ht : Begins m written s t)
    (hbarred : ∃ o, Record.Slot s.memory.index.next o ∧ RecordBarred t o)
    (hroom : s.memory.index.next < 0x7FFFFFFF) :
    Matches doubled (fun p => gaps p ∨ p = s.memory.index.next) held t := by
  have hindex := ht.index_eq
  have hcount : t.memory.index.count = s.memory.index.count := by rw [hindex]
  have hnext : t.memory.index.next = s.memory.index.next + 1 := by rw [hindex]
  have hold {q : Nat} (hq : q < s.memory.index.next) :
      (recordBytes t).recordAt q = (recordBytes s).recordAt q := by
    rw [ht.recordBytes_eq, ByteSpace.recordAt_write_of_disjoint]
    exact .inl (ByteSpace.place_add_size_le hq)
  have hbytes : (recordBytes t).count = (recordBytes s).count := by
    rw [ht.recordBytes_eq, ByteSpace.count_write_of_le]
    exact Nat.le_add_right _ _
  have hlt {q : Nat} (hq : q < t.memory.index.count) : q < s.memory.index.next :=
    Nat.lt_of_lt_of_le (hcount ▸ hq) h.count_le
  exact {
    toMounted := ht.changes.mounted
    calm := ht.changes.refused.trans h.calm
    count_eq := by rw [hcount, h.count_eq, ByteSpace.covered, ← hbytes, ByteSpace.covered]
    count_le := by
      rw [hcount, hnext]
      exact Nat.le_succ_of_le h.count_le
    next_le := by
      rw [hnext]
      omega
    nonneg := hbytes.symm ▸ h.nonneg
    holds := h.holds.make (by rw [hindex]) (by rw [hindex]) (by rw [hindex])
    record := fun {q e} he => by
      obtain ⟨hq, hgap, hrecord⟩ := h.record he
      have hq' := Nat.lt_of_lt_of_le hq h.count_le
      rw [hold hq']
      exact ⟨hcount.symm ▸ hq, fun hor => hor.elim hgap (Nat.ne_of_lt hq'), hrecord⟩
    spare := fun {q} hq hgap => by
      rw [hold (hlt hq)]
      exact h.spare (hcount ▸ hq) fun hold => hgap (.inl hold)
    sense := fun {q} hq hgap => by
      rw [hold (hlt hq)]
      exact h.sense (hcount ▸ hq) fun hold => hgap (.inl hold)
    countPage := fun o ho => ht.changes.recordPage o (h.countPage o ho)
    recordPage := fun {q} hq hgap o ho =>
      ht.changes.recordPage o (h.recordPage (hcount ▸ hq) (fun hold => hgap (.inl hold)) o ho)
    gap := fun {q} hgap => by
      rw [hnext]
      rcases hgap with hgap | rfl
      · obtain ⟨hlt, o, ho, hbarred⟩ := h.gap hgap
        exact ⟨Nat.lt_succ_of_lt hlt, o, ho, ht.changes.recordBarred hbarred⟩
      · -- the page of the count is there, so it is one of the record that is barred
        obtain ⟨o, ho | ho, hbarred⟩ := hbarred
        · exact ⟨Nat.lt_succ_self _, o, ho, hbarred⟩
        · have hrefused := hbarred.refused (ht.changes.recordPage o (h.countPage o ho))
          rw [ht.changes.refused, h.calm] at hrefused
          cases hrefused
    burnt := fun {q} hle hlt => by
      rw [hcount] at hle
      rw [hnext] at hlt
      rcases Nat.lt_succ_iff_lt_or_eq.mp hlt with hlt | rfl
      · exact .inl (h.burnt hle hlt)
      · exact .inr rfl }

/-! ## Moves -/

/-- A message moves: its status is written over, and it leaves if it is finished. -/
theorem moved (h : Matches doubled gaps held s) {c : StatusCall} (ht : HasMoved c id s t)
    (hid : s.memory.index.ordered[p]? = some id) :
    Matches doubled gaps (Function.update held p (if c.kind = .finish then none
      else some { s.memory.index.entry id with status := c.kind.target })) t := by
  have hheld := h.holds.held_of_ordered hid
  have hposition : (s.memory.index.entry id).position = p := h.holds.queued.position hheld
  obtain ⟨hlt, hgap, hrecord, hlive⟩ := h.record hheld
  have hplace : s.memory.index.statusPlace id = place p + statusOffset := by
    rw [MessageIndex.statusPlace, hposition]
  have hcount : t.memory.index.count = s.memory.index.count := by
    rw [ht.index_eq]
    exact c.count_done _ id
  have hnext : t.memory.index.next = s.memory.index.next := by
    rw [ht.index_eq]
    exact c.next_done _ id
  have hbytes := ht.recordBytes_eq
  rw [hplace] at hbytes
  have hself : (recordBytes t).recordAt p
      = { (recordBytes s).recordAt p with status := c.kind.target.tag } := by
    rw [hbytes, ByteSpace.recordAt_write_status]
  have hother {q : Nat} (hq : q ≠ p) : (recordBytes t).recordAt q = (recordBytes s).recordAt q := by
    rw [hbytes, ByteSpace.recordAt_write_status_of_ne hq.symm]
  have hcounted : (recordBytes t).count = (recordBytes s).count := by
    rw [hbytes, ByteSpace.count_write_status]
  exact {
    toMounted := ht.changes.mounted
    calm := ht.changes.refused.trans h.calm
    count_eq := by rw [hcount, h.count_eq, ByteSpace.covered, ← hcounted, ByteSpace.covered]
    count_le := hcount ▸ hnext ▸ h.count_le
    next_le := hnext ▸ h.next_le
    nonneg := hcounted.symm ▸ h.nonneg
    holds := (StatusCall.holds_done h.holds hid ht.selected).congr (by rw [ht.index_eq])
      (by rw [ht.index_eq]) (by rw [ht.index_eq])
    record := fun {q e} he => by
      rw [hcount]
      by_cases hq : q = p
      · subst hq
        rw [Function.update_self] at he
        split at he
        next => cases he
        next hstays =>
          obtain rfl := Option.some.inj he
          rw [hself]
          refine ⟨hlt, hgap, by rw [hrecord]; rfl, hlive.1, ?_⟩
          cases hkind : c.kind with
          | finish => exact absurd hkind hstays
          | lock => exact .inr rfl
          | rollback => exact .inl rfl
      · rw [Function.update_of_ne hq] at he
        rw [hother hq]
        exact h.record he
    spare := fun {q} hq hgap hnone hborne => by
      by_cases heq : q = p
      · subst heq
        rw [Function.update_self] at hnone
        split at hnone
        next hfinish =>
          -- the tombstone of a finished message is not live
          rw [hself, hfinish] at hborne
          have hstatus : Move.finish.target.tag = Status.new.tag
            ∨ Move.finish.target.tag = Status.locked.tag := hborne.2
          exact absurd hstatus (by decide)
        next => cases hnone
      · rw [Function.update_of_ne heq] at hnone
        rw [hother heq] at hborne ⊢
        exact h.spare (hcount ▸ hq) hgap hnone hborne
    sense := fun {q} hq hgap => by
      by_cases heq : q = p
      · subst heq
        have hsense := h.sense hlt hgap
        rw [hself]
        rintro ⟨hnamed, hstatus | ⟨-, hextent⟩⟩
        · refine hstatus ?_
          show c.kind.target.tag ∈ [0, 1, 2, 3]
          cases c.kind <;> decide
        · exact hsense ⟨hnamed, .inr ⟨hlive.2, hextent⟩⟩
      · rw [hother heq]
        exact h.sense (hcount ▸ hq) hgap
    countPage := fun o ho => ht.changes.recordPage o (h.countPage o ho)
    recordPage := fun hq hgap o ho => ht.changes.recordPage o (h.recordPage (hcount ▸ hq) hgap o ho)
    gap := fun hgap => by
      obtain ⟨hlt, o, ho, hbarred⟩ := h.gap hgap
      exact ⟨hnext.symm ▸ hlt, o, ho, ht.changes.recordBarred hbarred⟩
    burnt := fun hle hlt => h.burnt (hcount ▸ hle) (hnext ▸ hlt) }

end Matches

/-! ## Messages in their places -/

/-- A message that was put in stands under a position, and its payload lies before the place of the
next one. -/
structure Lies (held : Nat → Option Entry) (m : Message) (p offset : Nat) (status : Status)
    (s : Session Queue) : Prop where
  held_eq : held p = some (({ Item.ofMessage m with status } : Item).toEntry p offset)
  payload : (payloadBytes s).read offset m.size = m.payload
  payloadPage : ∀ o, InRange offset m.size o → PayloadPage s o
  short : m.size ≤ maxPayload
  offset_lt : offset < 0x8000000000000000
  le_cursor : offset + m.size ≤ s.memory.payloads.cursor

/-- It stays there while bytes are replaced behind it. -/
theorem Lies.changed {records : Nat → Prop} (h : Lies held m p offset status s)
    (hc : Changes records payloads s t) (hbehind : ∀ o < s.memory.payloads.cursor, ¬ payloads o)
    (hcursor : s.memory.payloads.cursor ≤ t.memory.payloads.cursor) :
    Lies held m p offset status t where
  held_eq := h.held_eq
  payload := by
    rw [ByteSpace.read_congr fun o _ ho =>
      hc.payloadBytes o (hbehind o (Nat.lt_of_lt_of_le ho h.le_cursor))]
    exact h.payload
  payloadPage o ho := hc.payloadPage o (h.payloadPage o ho)
  short := h.short
  offset_lt := h.offset_lt
  le_cursor := Nat.le_trans h.le_cursor hcursor

/-- The queue matches its records, whatever gaps there are, and each of the messages lies in its
place. -/
def Carries (doubled : Uuid → Prop) (ms : List Message) (s : Session Queue) : Prop :=
  ∃ gaps held, Matches doubled gaps held s
    ∧ ∀ m ∈ ms, ∃ p offset status, Lies held m p offset status s

namespace Carries

variable {ms : List Message}

/-- Nothing that leaves the records and the payloads alone touches what is carried. -/
theorem still (h : Carries doubled ms s) (hc : Changes Nowhere Nowhere s t)
    (hindex : t.memory.index = { s.memory.index with
      file := t.memory.index.file, pending := t.memory.index.pending })
    (hcursor : t.memory.payloads.cursor = s.memory.payloads.cursor) : Carries doubled ms t := by
  obtain ⟨gaps, held, hmatches, hlies⟩ := h
  refine ⟨gaps, held, hmatches.aside hc hindex, fun m hm => ?_⟩
  obtain ⟨p, offset, status, hl⟩ := hlies m hm
  exact ⟨p, offset, status, hl.changed hc (fun _ _ => False.elim) (Nat.le_of_eq hcursor.symm)⟩

theorem quiet (h : Carries doubled ms s) (hq : Quiet s t) : Carries doubled ms t := by
  obtain ⟨_, _, hmatches, -⟩ := id h
  exact h.still (hmatches.toMounted.quiet hq) (by rw [hq.index]) (by rw [hq.payloads])

/-- A push that goes through carries its message as well; one that does not burns a position at
most. -/
theorem push_leads (h : Carries doubled ms s) (m : Message) (hroom : HasRoom s.memory) :
    (push m).Leads s (fun isNew t => Carries doubled (if isNew then ms ++ [m] else ms) t)
      fun _ t => Carries doubled ms t := by
  obtain ⟨gaps, held, hmatches, hlies⟩ := h
  have hrecord := hroom.record
  have hpayload := hroom.payload
  have hbelow (hshort : m.size ≤ maxPayload) :
      s.memory.payloads.cursor + m.size ≤ 0x10000000000000000 := by
    rw [maxPayload] at hshort
    omega
  have hbehind : ∀ o < s.memory.payloads.cursor, ¬ InRange s.memory.payloads.cursor m.size o :=
    fun o ho hin => Nat.not_le_of_lt ho hin.1
  refine (push_writes hmatches.toMounted m hmatches.count_le (by omega) hbelow).mono ?_ ?_
  · intro isNew t ht
    rcases ht with ⟨rfl, hnamed, hshort, hnew, ht⟩ | ⟨rfl, hhost, hmemory⟩
    · refine ⟨gaps, _, hmatches.put ht hroom hnamed hshort hnew, fun other hother => ?_⟩
      rw [if_pos rfl, List.mem_append, List.mem_singleton] at hother
      rcases hother with hother | rfl
      · obtain ⟨p, offset, status, hl⟩ := hlies other hother
        have hp : p ≠ s.memory.index.next :=
          Nat.ne_of_lt (Nat.lt_of_lt_of_le (hmatches.record hl.held_eq).1 hmatches.count_le)
        refine ⟨p, offset, status, { hl.changed ht.changes hbehind ?_ with
          held_eq := (Function.update_of_ne hp _ _).trans hl.held_eq }⟩
        exact ht.cursor_eq.symm ▸ Nat.le_add_right _ _
      · exact ⟨s.memory.index.next, s.memory.payloads.cursor, .new,
          { held_eq := Function.update_self ..
            payload := by
              rw [ht.payloadBytes_eq]
              exact ByteSpace.read_write ..
            payloadPage := ht.payloadPage
            short := hshort
            offset_lt := hpayload
            le_cursor := Nat.le_of_eq ht.cursor_eq.symm }⟩
    · obtain ⟨host, memory⟩ := t
      obtain rfl : host = s.host := hhost
      obtain ⟨pending, rfl⟩ : ∃ pending, memory = { s.memory with
        index := { s.memory.index with pending } } := ⟨_, hmemory⟩
      exact still ⟨gaps, held, hmatches, hlies⟩
        (hmatches.toMounted.withIndex (m := { s.memory.index with pending }) rfl) rfl rfl
  · intro _ t ht
    rcases ht with rfl | ⟨-, -, -, hbroken⟩
    · exact ⟨gaps, held, hmatches, hlies⟩
    · cases hbroken with
      | payload hc hcursor hindex =>
        refine ⟨gaps, held, hmatches.aside hc hindex, fun other hother => ?_⟩
        obtain ⟨p, offset, status, hl⟩ := hlies other hother
        exact ⟨p, offset, status, hl.changed hc hbehind (hcursor.symm ▸ Nat.le_add_right _ _)⟩
      | record written hbegins hbarred _ =>
        refine ⟨_, held, hmatches.burn hbegins hbarred hrecord, fun other hother => ?_⟩
        obtain ⟨p, offset, status, hl⟩ := hlies other hother
        exact ⟨p, offset, status, hl.changed hbegins.changes hbehind
          (hbegins.cursor_eq.symm ▸ Nat.le_add_right _ _)⟩

/-- Where the payload of an entry in the queue ends. -/
private theorem entry_le (h : Matches doubled gaps held s)
    (hid : s.memory.index.ordered[p]? = some id) :
    (s.memory.index.entry id).offset.toNat + (s.memory.index.entry id).length.toNat
      ≤ 0x10000000000000000 := by
  obtain ⟨hlt, hgap, hrecord, hlive⟩ := h.record (h.holds.held_of_ordered hid)
  exact Entry.extent_le (hrecord ▸ hlive) (hrecord ▸ h.sense hlt hgap)

/-- A message is read, or it is not as one of its pages is barred; nothing changes. -/
theorem readMessage?_leads (h : Carries doubled ms s) {found : Option EntryId}
    (hfound : ∀ id, found = some id → ∃ p : Nat, s.memory.index.ordered[p]? = some id) :
    (readMessage? found).Leads s (fun _ t => Carries doubled ms t) fun _ t =>
      Carries doubled ms t := by
  obtain ⟨gaps, held, hmatches, hlies⟩ := h
  cases found with
  | none => exact ⟨gaps, held, hmatches, hlies⟩
  | some id =>
    obtain ⟨p, hid⟩ := hfound id rfl
    unfold readMessage?
    simp only [leads_bind, leads_pure]
    refine (readMessage_leads hmatches.toMounted id (entry_le hmatches hid)).mono ?_ ?_
    · intro _ t ht
      obtain ⟨-, hc, hindex, hcursor⟩ := ht
      exact still ⟨gaps, held, hmatches, hlies⟩ hc (by rw [hindex]) hcursor
    · intro _ t ht
      obtain ⟨⟨hc, hindex, hcursor⟩, -⟩ := ht
      exact still ⟨gaps, held, hmatches, hlies⟩ hc (by rw [hindex]) hcursor

/-- A call that moves a message carries all messages on but the one that it finishes, whether it
answers or cannot read the message that it has moved. -/
theorem move_leads (h : Carries doubled ms s) (c : StatusCall) {kept : List Message}
    (hkept : ∀ m ∈ kept, m ∈ ms ∧ c ≠ .move .finish m.uuid) :
    c.run.Leads s (fun _ t => Carries doubled kept t) fun _ t => Carries doubled kept t := by
  obtain ⟨gaps, held, hmatches, hlies⟩ := h
  have hholds := hmatches.holds
  have hmoved {id : EntryId} {t : Session Queue} (ht : HasMoved c id s t) :
      Carries doubled kept t := by
    obtain ⟨p, hid⟩ := StatusCall.exists_position hholds ht.selected
    have hheld := hholds.held_of_ordered hid
    refine ⟨gaps, _, hmatches.moved ht hid, fun m hm => ?_⟩
    obtain ⟨q, offset, status, hl⟩ := hlies m (hkept m hm).1
    have hl' := hl.changed ht.changes (fun _ _ => False.elim) (Nat.le_of_eq ht.cursor_eq.symm)
    by_cases hq : q = p
    · subst hq
      have hentry := Option.some.inj (hheld.symm.trans hl.held_eq)
      have hstays : c.kind ≠ .finish := by
        intro hfinish
        cases c with
        | pop => cases hfinish
        | move k uuid =>
          obtain rfl : k = .finish := hfinish
          obtain ⟨_, -, huuid⟩ :=
            hholds.find?_eq_some_iff.mp (Option.filter_eq_some_iff.mp ht.selected).1
          rw [hentry] at huuid
          exact (hkept m hm).2 (by rw [← huuid]; rfl)
      refine ⟨q, offset, c.kind.target, { hl' with held_eq := ?_ }⟩
      rw [Function.update_self, if_neg hstays, hentry]
      rfl
    · exact ⟨q, offset, status,
        { hl' with held_eq := (Function.update_of_ne hq _ _).trans hl.held_eq }⟩
  refine (Queue.move_leads hmatches.toMounted c hholds.indexed (fun id hselected => ?_)
    fun id hselected => ?_).mono ?_ ?_
  · obtain ⟨p, hid⟩ := StatusCall.exists_position hholds hselected
    have hheld := hholds.held_of_ordered hid
    have hlt := (hmatches.record hheld).1
    rw [hmatches.count_eq] at hlt
    rw [hholds.queued.position hheld]
    exact Nat.lt_trans hlt (ByteSpace.covered_lt _)
  · obtain ⟨p, hid⟩ := StatusCall.exists_position hholds hselected
    exact entry_le hmatches hid
  · intro _ t ht
    rcases ht with ⟨-, rfl, -⟩ | ⟨id, _, -, -, ht⟩
    · exact ⟨gaps, held, hmatches, fun m hm => hlies m (hkept m hm).1⟩
    · exact hmoved ht
  · intro _ t ht
    obtain ⟨id, hselected, ⟨o, ho, hunmappable⟩ | ⟨-, ht⟩⟩ := ht
    · -- the page of a status is there
      obtain ⟨p, hid⟩ := StatusCall.exists_position hholds hselected
      have hheld := hholds.held_of_ordered hid
      obtain ⟨hlt, hgap, -⟩ := hmatches.record hheld
      have hpage := hmatches.recordPage hlt hgap o (by
        rw [MessageIndex.statusPlace, hholds.queued.position hheld] at ho
        obtain ⟨hle, hend⟩ := ho
        simp only [statusOffset] at hle hend
        exact ⟨by omega, by rw [Record.size]; omega⟩)
      rw [Session.memory_part, hmatches.recordDirectory, hmatches.recordSize] at hunmappable
      exact absurd (hmatches.mappable hpage) hunmappable
    · exact hmoved ht

end Carries

end Queue

/-! ## Calls -/

/-- The call is to finish the message of the UUID. -/
def QueueCall.finishes (uuid : Uuid) : QueueCall → Bool
  | finish other => other = uuid
  | _ => false

namespace Queue

variable {doubled : Uuid → Prop} {ms : List Message} {s t : Session Queue}

/-- Whatever becomes of a call that asks for something or moves a message, the messages are carried
on but for the one that it was to finish. -/
theorem Carries.run_leads (h : Carries doubled ms s) (c : QueueCall) (hc : c.asksOrMoves = true) :
    c.run.Leads s (fun _ t => Carries doubled (ms.filter fun m => !c.finishes m.uuid) t)
      fun _ t => Carries doubled (ms.filter fun m => !c.finishes m.uuid) t := by
  obtain ⟨gaps, held, hmatches, -⟩ := id h
  have hholds := hmatches.holds
  have hmove (k : StatusCall) (hrun : c.run = do return .message (← k.run))
      (hfinish : ∀ uuid, k = .move .finish uuid → c = .finish uuid) :
      c.run.Leads s (fun _ t => Carries doubled (ms.filter fun m => !c.finishes m.uuid) t)
        fun _ t => Carries doubled (ms.filter fun m => !c.finishes m.uuid) t := by
    rw [hrun]
    simp only [leads_bind, leads_pure]
    refine h.move_leads k fun m hm => ?_
    obtain ⟨hm, hstays⟩ := List.mem_filter.mp hm
    refine ⟨hm, fun heq => ?_⟩
    rw [hfinish _ heq] at hstays
    simp [QueueCall.finishes] at hstays
  have hall (hnot : ∀ uuid, c.finishes uuid = false) :
      (ms.filter fun m => !c.finishes m.uuid) = ms :=
    List.filter_eq_self.mpr fun m _ => by rw [hnot]; rfl
  have hquiet (hnot : ∀ uuid, c.finishes uuid = false) {t : Session Queue} (hq : Quiet s t) :
      Carries doubled (ms.filter fun m => !c.finishes m.uuid) t := (hall hnot).symm ▸ h.quiet hq
  cases c with
  | push | recover | startEmpty => cases hc
  | get uuid =>
    rw [hall fun _ => rfl]
    unfold QueueCall.run Queue.get?
    simp only [leads_bind, leads_pure]
    rw [leads_ensureOpen hmatches.isOpen, leads_memory]
    exact h.readMessage?_leads fun id hid => ((hholds.find?_eq_some_iff).mp hid).imp
      fun _ hp => hp.1
  | peek =>
    rw [hall fun _ => rfl]
    unfold QueueCall.run Queue.peek?
    simp only [leads_bind, leads_pure]
    rw [leads_ensureOpen hmatches.isOpen, leads_memory]
    exact h.readMessage?_leads fun id hid => MessageIndex.exists_position_of_oldestNew? hid
  | lock uuid => exact hmove (.move .lock uuid) rfl fun _ heq => by cases heq
  | pop => exact hmove .pop rfl fun _ heq => by cases heq
  | finish uuid => exact hmove (.move .finish uuid) rfl fun _ heq => by cases heq; rfl
  | rollback uuid => exact hmove (.move .rollback uuid) rfl fun _ heq => by cases heq
  | status | size | recordCount => exact (hall fun _ => rfl).symm ▸ h
  | flush =>
    unfold QueueCall.run Queue.flush
    simp only [leads_bind, leads_pure]
    rw [leads_ensureOpen hmatches.isOpen]
    exact (flushFiles_quiet hmatches.recordCoherent hmatches.payloadCoherent).leads.mono
      (fun _ _ => hquiet fun _ => rfl) fun _ _ => False.elim
  | checkpoint =>
    unfold QueueCall.run
    simp only [leads_bind, leads_pure]
    exact (checkpoint_quiet hmatches.recordCoherent hmatches.payloadCoherent
      hmatches.grounds.sound).leads.mono (fun _ _ => hquiet fun _ => rfl) fun _ _ => False.elim

/-- What was done with a queue after it was loaded: messages were pushed while there was room for
them, and other calls were made, whatever came of any of it. The messages are those that were
accepted and that no call was to finish since. -/
inductive Used (first : Session Queue) : List Message → Session Queue → Prop
  | loaded : Used first [] first
  | accepted {ms : List Message} {s t : Session Queue} {isNew : Bool} (before : Used first ms s)
    (m : Message) (hroom : HasRoom s.memory) (hrun : (push m).outcome s = (.ok isNew, t)) :
      Used first (if isNew then ms ++ [m] else ms) t
  | failed {ms : List Message} {s t : Session Queue} {fault : Fault} (before : Used first ms s)
    (m : Message) (hroom : HasRoom s.memory) (hrun : (push m).outcome s = (.error fault, t)) :
      Used first ms t
  | called {ms : List Message} {s : Session Queue} (before : Used first ms s) (c : QueueCall)
      (hc : c.asksOrMoves = true) :
      Used first (ms.filter fun m => !c.finishes m.uuid) (c.run.outcome s).2

/-- Whatever is done, the messages are carried on. -/
theorem Used.carries {first : Session Queue} (h : Used first ms s)
    (hfirst : Carries doubled [] first) :
    Carries doubled ms s := by
  induction h with
  | loaded => exact hfirst
  | accepted before m hroom hrun ih => exact (ih.push_leads m hroom).of_ok hrun
  | failed before m hroom hrun ih => exact (ih.push_leads m hroom).of_error hrun
  | called before c hc ih =>
    have hleads := ih.run_leads c hc
    cases hrun : c.run.outcome _ with
    | mk answer t =>
      cases answer with
      | ok value => exact hleads.of_ok hrun
      | error fault => exact hleads.of_error hrun

end Queue

end PagedQueue
