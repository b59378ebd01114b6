import PagedQueue.Proofs.PlanSteps
import PagedQueue.Proofs.RecordBytes

/-!
# Calls that keep to a plan

What a whole call does to the files keeps to a plan as well. A message takes the next position, and
its record is written to its end or breaks off before (`Plan.Kept.extend`); the status of a message
is written over the one in its record (`Plan.Kept.setStatus`).
-/

namespace PagedQueue

open PageStore (Nowhere)
open Record (place size countSize statusOffset BreaksAt)
open Queue (Changes recordBytes payloadBytes RecordPage)

/-- A record that is read at a position is written there to its end. -/
theorem ByteSpace.Begun.of_recordAt {b : ByteSpace} {position : Nat} {r : Record}
    (h : b.recordAt position = r) : b.Begun position r size := by
  have hread : b.read (place position) size = r.encode :=
    Record.decode_eq_ok_iff.mp (h ▸ b.decode_read position)
  intro i hi
  rw [if_pos hi, ← hread, List.getD_eq_getElem _ _ (by rwa [length_read]), read_getElem]

namespace Plan

variable {plan : Plan} {s t : Session Queue} {p : Nat} {i : Item} {m : Message} {written : Nat}

/-- The plan with one message more, whose payload begins at an offset. -/
def extend (plan : Plan) (m : Message) (offset written : Nat) : Plan where
  payloads := plan.payloads.write offset m.payload
  items := plan.items ++ [.ofMessage m]
  layout := Function.update plan.layout plan.items.length offset
  written := Function.update plan.written plan.items.length written

theorem length_extend (plan : Plan) (m : Message) (offset written : Nat) :
    (plan.extend m offset written).items.length = plan.items.length + 1 := by
  simp [extend]

/-- A position of the longer plan is one of the plan as it was, or that of the new message. -/
theorem extend_cases {offset : Nat} (h : (plan.extend m offset written).items[p]? = some i) :
    plan.items[p]? = some i ∧ (plan.extend m offset written).layout p = plan.layout p
        ∧ (plan.extend m offset written).written p = plan.written p
      ∨ p = plan.items.length ∧ i = .ofMessage m ∧ (plan.extend m offset written).layout p = offset
        ∧ (plan.extend m offset written).written p = written := by
  rcases getElem?_concat_eq_some_iff.mp h with hp | ⟨rfl, rfl⟩
  · have hne := Nat.ne_of_lt (Items.lt_length hp)
    exact .inl ⟨hp, Function.update_of_ne hne _ _, Function.update_of_ne hne _ _⟩
  · exact .inr ⟨rfl, rfl, Function.update_self .., Function.update_self ..⟩

/-- What was planned before stays planned when a message takes the next position. -/
theorem follows_extend (plan : Plan)
    (hc : Changes (Record.Slot s.memory.index.next) (InRange s.memory.payloads.cursor m.size) s t)
    (hcursor : t.memory.payloads.cursor = s.memory.payloads.cursor + m.size) (written : Nat) :
    plan.Follows none s (plan.extend m s.memory.payloads.cursor written) t where
  settings := hc.settings
  cursor_le := hcursor ▸ Nat.le_add_right _ _
  item hp := ⟨getElem?_concat_eq_some_iff.mpr (.inl hp),
    Function.update_of_ne (Nat.ne_of_lt (Items.lt_length hp)) _ _⟩
  written hp _ := Function.update_of_ne (Nat.ne_of_lt hp) _ _
  payloads _ ho := ByteSpace.write_of_not_mem fun hand => Nat.not_le_of_lt ho hand.1
  settled o ho hsettled := (hc.payloadBytes o fun hin => Nat.not_le_of_lt ho hin.1).trans hsettled
  recordPage := hc.recordPage

namespace Kept

/-- A message takes the next position: its payload is written behind all others, and so much of its
record is written. -/
theorem extend (h : plan.Kept s) (hnamed : m.uuid ≠ Uuid.nil) (hshort : m.size ≤ Queue.maxPayload)
    (hc : Changes (Record.Slot s.memory.index.next) (InRange s.memory.payloads.cursor m.size) s t)
    (hpayload : payloadBytes t = (payloadBytes s).write s.memory.payloads.cursor m.payload)
    (hbegun : (recordBytes t).Begun s.memory.index.next (s.memory.entryOf m).toRecord written)
    (hbreaks : BreaksAt s.memory.settings.pageSize s.memory.index.next written)
    (hcount : (recordBytes t).count = .ofNat t.memory.index.count)
    (hle : t.memory.index.count ≤ s.memory.index.next + 1)
    (hpage : ∃ o, place t.memory.index.count ≤ o + 1 ∧ RecordPage t o)
    (hnext : t.memory.index.next = s.memory.index.next + 1)
    (hcursor : t.memory.payloads.cursor = s.memory.payloads.cursor + m.size) :
    (plan.extend m s.memory.payloads.cursor written).Kept t := by
  have hposition := h.next_eq
  have hfollows := follows_extend plan hc hcursor written
  have hlength := plan.length_extend m s.memory.payloads.cursor written
  -- the records before the new one are not touched, nor what is behind it
  have hbeside {o : Nat} (ho : countSize ≤ o) (hout : ¬ InRange (place plan.items.length) size o) :
      recordBytes t o = recordBytes s o := by
    refine hc.recordBytes o fun hin => ?_
    rcases hin with hin | hin
    · exact hout (hposition ▸ hin)
    · exact Nat.not_lt_of_le ho (Nat.lt_of_lt_of_eq hin.2 (Nat.zero_add _))
  exact {
    mounted := hc.mounted
    next_eq := by rw [hnext, hposition, hlength]
    named := fun j hj => (List.mem_append.mp hj).elim (h.named j) fun hlast =>
      List.mem_singleton.mp hlast ▸ hnamed
    short := fun j hj => (List.mem_append.mp hj).elim (h.short j) fun hlast =>
      List.mem_singleton.mp hlast ▸ hshort
    placed := fun {p j} hp => by
      rcases extend_cases hp with ⟨hp, hlayout, -⟩ | ⟨rfl, rfl, hlayout, -⟩
      · rw [hlayout]
        exact (h.placed hp).follows hfollows (Nat.le_refl _)
      · rw [hlayout]
        refine ⟨Nat.le_of_eq hcursor.symm, ByteSpace.read_write .., fun o ho => ?_⟩
        rw [hpayload]
        exact (ByteSpace.write_of_mem ho.1 ho.2).trans (ByteSpace.write_of_mem ho.1 ho.2).symm
    begun := fun {p j} hp => by
      rcases extend_cases hp with ⟨hp, hlayout, hwritten⟩ | ⟨rfl, rfl, hlayout, hwritten⟩
      · rw [hlayout, hwritten]
        refine (h.begun hp).congr fun o ho => hbeside ?_ fun hin => ?_
        · exact Nat.le_trans (Nat.le_add_right _ _) ho.1
        · have hbefore := ByteSpace.place_add_size_le (Items.lt_length hp)
          exact Nat.not_lt_of_le (Nat.le_trans hbefore hin.1) ho.2
      · rw [hlayout, hwritten]
        exact hposition ▸ hbegun
    breaks := fun {p} hp => by
      obtain ⟨j, hj⟩ : ∃ j, (plan.extend m s.memory.payloads.cursor written).items[p]? = some j :=
        ⟨_, List.getElem?_eq_getElem hp⟩
      rw [hc.settings]
      rcases extend_cases hj with ⟨hp, -, hwritten⟩ | ⟨rfl, -, -, hwritten⟩
      · rw [hwritten]
        exact h.breaks (Items.lt_length hp)
      · rw [hwritten]
        exact hposition ▸ hbreaks
    blank := fun o ho => by
      rw [hlength] at ho
      have hbehind := ByteSpace.place_add_size_le (Nat.lt_succ_self plan.items.length)
      rw [hbeside (Nat.le_trans (Nat.le_add_right _ _) ho) fun hin =>
        Nat.not_lt_of_le (Nat.le_trans hbehind ho) hin.2]
      exact h.blank o (Nat.le_trans (Nat.le_trans (Nat.le_add_right _ _) hbehind) ho)
    count := hcount
    count_le := by rw [hlength, ← hposition]; exact hle
    page := hpage }

/-- The status of a message is written over the one in its record. -/
theorem setStatus (h : plan.Kept s) (hp : plan.items[p]? = some i) (hwhole : plan.written p = size)
    {status : Status} (hc : Changes (InRange (place p + statusOffset) 4) Nowhere s t)
    (hbytes : recordBytes t = (recordBytes s).write (place p + statusOffset)
      (encodeInt32 status.tag))
    (hnext : t.memory.index.next = s.memory.index.next)
    (hcount : t.memory.index.count = s.memory.index.count)
    (hcursor : t.memory.payloads.cursor = s.memory.payloads.cursor) :
    Kept { plan with items := plan.items.setStatus p status } t := by
  have hlength : (plan.items.setStatus p status).length = plan.items.length :=
    Items.length_setStatus ..
  -- whatever else a message is, it was before
  have hitem {q : Nat} {j : Item} (hj : (plan.items.setStatus p status)[q]? = some j) :
      ∃ j₀, plan.items[q]? = some j₀ ∧ j = if p = q then { j₀ with status } else j₀ := by
    rw [Items.getElem?_setStatus, Option.map_eq_some_iff] at hj
    exact hj.imp fun _ hand => ⟨hand.1, hand.2.symm⟩
  have hkept {q : Nat} {j : Item} (hj : (plan.items.setStatus p status)[q]? = some j) :
      ∃ j₀, plan.items[q]? = some j₀ ∧ j₀.uuid = j.uuid ∧ j₀.payload = j.payload := by
    obtain ⟨j₀, hj₀, rfl⟩ := hitem hj
    refine ⟨j₀, hj₀, ?_⟩
    split <;> exact ⟨rfl, rfl⟩
  have hsettled (o : Nat) : payloadBytes t o = payloadBytes s o := congrFun hc.payloadBytes_eq o
  exact {
    mounted := hc.mounted
    next_eq := by rw [hnext, h.next_eq, ← hlength]
    named := fun j hj => by
      obtain ⟨q, hq⟩ := List.getElem?_of_mem hj
      obtain ⟨j₀, hj₀, huuid, -⟩ := hkept hq
      exact huuid ▸ h.named j₀ (List.mem_of_getElem? hj₀)
    short := fun j hj => by
      obtain ⟨q, hq⟩ := List.getElem?_of_mem hj
      obtain ⟨j₀, hj₀, -, hpayload⟩ := hkept hq
      exact hpayload ▸ h.short j₀ (List.mem_of_getElem? hj₀)
    placed := fun hq => by
      obtain ⟨j₀, hj₀, -, hpayload⟩ := hkept hq
      obtain ⟨hstop, hplanned, hbefore⟩ := h.placed hj₀
      rw [← hpayload]
      exact ⟨hcursor ▸ hstop, hplanned, fun o ho => (hsettled o).trans (hbefore o ho)⟩
    begun := fun {q j} hq => by
      obtain ⟨j₀, hj₀, rfl⟩ := hitem hq
      split
      next heq =>
        subst heq
        obtain rfl := Option.some.inj (hp.symm.trans hj₀)
        have hrecord := h.begun hp
        rw [hwhole] at hrecord ⊢
        refine .of_recordAt ?_
        rw [hbytes, ByteSpace.recordAt_write_status, hrecord.recordAt_eq]
        rfl
      next hne =>
        refine (h.begun hj₀).congr fun o ho => hc.recordBytes o fun hin => ?_
        have hapart := ByteSpace.status_place_le hne
        have hle := ho.1
        have hlt := ho.2
        have hle' := hin.1
        have hlt' := hin.2
        omega
    breaks := fun hq => hc.settings ▸ h.breaks (hlength ▸ hq)
    blank := fun o ho => by
      rw [hlength] at ho
      have hbefore := ByteSpace.place_add_size_le (Items.lt_length hp)
      rw [hc.recordBytes o fun hin => ?_]
      · exact h.blank o ho
      · have hlt := hin.2
        simp only [statusOffset, size] at hlt hbefore
        omega
    count := by rw [hbytes, ByteSpace.count_write_status, hcount]; exact h.count
    count_le := by rw [hcount, hlength]; exact h.count_le
    page := hcount ▸ h.page.imp fun o ho => ⟨ho.1, hc.recordPage o ho.2⟩ }

end Kept

end Plan

end PagedQueue
