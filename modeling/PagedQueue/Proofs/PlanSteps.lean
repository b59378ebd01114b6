import PagedQueue.Proofs.QueuePlans

/-!
# Steps that keep to a plan

What a queue does to its files one page at a time keeps to the plan, or to the plan with one thing
more in it: bytes of payloads are written that are planned (`Kept.aside`), a payload takes its place
(`Kept.reserve`), a message takes a position (`Kept.enter`), its record is written further
(`Kept.writeRecord`), the count is raised (`Kept.raise`).

All that was planned before stays planned, and all that was written stays written (`Plan.Follows`).
-/

namespace PagedQueue

open PageStore (Nowhere)
open Record (place size BreaksAt)
open Queue (Changes recordBytes payloadBytes RecordPage)

namespace Plan

variable {plan plan' : Plan} {s t : Session Queue} {own : Option Nat} {p : Nat} {i : Item}

/-- The queue goes on, and so does its plan. Only the record at the position `own` is written
further, if any. -/
structure Follows (own : Option Nat) (plan : Plan) (s : Session Queue) (plan' : Plan)
    (t : Session Queue) : Prop where
  settings : t.memory.settings = s.memory.settings
  cursor_le : s.memory.payloads.cursor ≤ t.memory.payloads.cursor
  item : ∀ {p : Nat} {i : Item}, plan.items[p]? = some i →
    plan'.items[p]? = some i ∧ plan'.layout p = plan.layout p
  written : ∀ {p : Nat}, p < plan.items.length → own ≠ some p → plan'.written p = plan.written p
  payloads : ∀ o < s.memory.payloads.cursor, plan'.payloads o = plan.payloads o
  settled : ∀ o < s.memory.payloads.cursor, payloadBytes s o = plan.payloads o →
    payloadBytes t o = plan.payloads o
  recordPage : ∀ o, RecordPage s o → RecordPage t o

/-- What is placed stays placed, and what of it is written stays written. -/
theorem Placed.follows {payload : List UInt8} {offset written : Nat}
    (h : plan.Placed s payload offset written) (hf : plan.Follows own s plan' t)
    (hwritten : written ≤ payload.length) : plan'.Placed t payload offset written where
  stop_le := Nat.le_trans h.stop_le hf.cursor_le
  planned := (ByteSpace.read_congr fun o _ hlt =>
    hf.payloads o (Nat.lt_of_lt_of_le hlt h.stop_le)).trans h.planned
  settled o ho := by
    have hlt : o < s.memory.payloads.cursor := by
      have hstop := h.stop_le
      have hin := ho.2
      omega
    rw [hf.settled o hlt (h.settled o ho), hf.payloads o hlt]

theorem Follows.length_le (h : plan.Follows own s plan' t) :
    plan.items.length ≤ plan'.items.length := by
  by_contra hlt
  have hlast := (h.item (List.getElem?_eq_getElem (Nat.lt_of_not_le hlt))).1
  rw [List.getElem?_eq_none (Nat.le_refl _)] at hlast
  cases hlast

namespace Kept

/-- The records are left alone, and bytes of the payloads are replaced by those that are planned. -/
theorem aside (h : plan.Kept s) {payloads : Nat → Prop} (hc : Changes Nowhere payloads s t)
    (hnext : t.memory.index.next = s.memory.index.next)
    (hcount : t.memory.index.count = s.memory.index.count)
    (hcursor : s.memory.payloads.cursor ≤ t.memory.payloads.cursor)
    (hsettled : ∀ o < s.memory.payloads.cursor, payloadBytes s o = plan.payloads o →
      payloadBytes t o = plan.payloads o) :
    plan.Kept t ∧ plan.Follows none s plan t := by
  have hfollows : plan.Follows none s plan t :=
    ⟨hc.settings, hcursor, fun hp => ⟨hp, rfl⟩, fun _ _ => rfl, fun _ _ => rfl, hsettled,
    hc.recordPage⟩
  have hrecords := hc.recordBytes_eq
  refine ⟨?_, hfollows⟩
  exact {
    mounted := hc.mounted
    next_eq := hnext.trans h.next_eq
    named := h.named
    short := h.short
    placed := fun hp => (h.placed hp).follows hfollows (Nat.le_refl _)
    begun := fun hp => hrecords ▸ h.begun hp
    breaks := fun hp => hc.settings ▸ h.breaks hp
    blank := fun o ho => hrecords ▸ h.blank o ho
    count := by rw [hrecords, hcount]; exact h.count
    count_le := hcount ▸ h.count_le
    page := hcount ▸ h.page.imp fun o ho => ⟨ho.1, hc.recordPage o ho.2⟩ }

/-- Nothing on disk counts that is not in its bytes. -/
theorem quiet (h : plan.Kept s) (hc : Changes Nowhere Nowhere s t)
    (hnext : t.memory.index.next = s.memory.index.next)
    (hcount : t.memory.index.count = s.memory.index.count)
    (hcursor : t.memory.payloads.cursor = s.memory.payloads.cursor) :
    plan.Kept t ∧ plan.Follows none s plan t :=
  h.aside hc hnext hcount (Nat.le_of_eq hcursor.symm) fun o _ ho =>
    (congrFun hc.payloadBytes_eq o).trans ho

/-- A payload takes the next place. -/
theorem reserve (h : plan.Kept s) (payload : List UInt8) (hc : Changes Nowhere Nowhere s t)
    (hindex : t.memory.index = s.memory.index)
    (hcursor : t.memory.payloads.cursor = s.memory.payloads.cursor + payload.length)
    (hplan : plan' = { plan with
      payloads := plan.payloads.write s.memory.payloads.cursor payload }) :
    plan'.Kept t ∧ plan.Follows none s plan' t
      ∧ plan'.Placed t payload s.memory.payloads.cursor 0 := by
  subst hplan
  have hrecords := hc.recordBytes_eq
  have hbefore (o : Nat) (ho : o < s.memory.payloads.cursor) :
      plan.payloads.write s.memory.payloads.cursor payload o = plan.payloads o :=
    ByteSpace.write_of_not_mem fun hand => Nat.not_le_of_lt ho hand.1
  have hfollows : plan.Follows none s
      { plan with payloads := plan.payloads.write s.memory.payloads.cursor payload } t :=
    ⟨hc.settings, hcursor ▸ Nat.le_add_right _ _, fun hp => ⟨hp, rfl⟩, fun _ _ => rfl, hbefore,
      fun o _ ho => (congrFun hc.payloadBytes_eq o).trans ho, hc.recordPage⟩
  refine ⟨?_, hfollows, ?_⟩
  · exact {
      mounted := hc.mounted
      next_eq := hindex ▸ h.next_eq
      named := h.named
      short := h.short
      placed := fun hp => (h.placed hp).follows hfollows (Nat.le_refl _)
      begun := fun hp => hrecords ▸ h.begun hp
      breaks := fun hp => hc.settings ▸ h.breaks hp
      blank := fun o ho => hrecords ▸ h.blank o ho
      count := by rw [hrecords, hindex]; exact h.count
      count_le := hindex ▸ h.count_le
      page := hindex ▸ h.page.imp fun o ho => ⟨ho.1, hc.recordPage o ho.2⟩ }
  · exact ⟨Nat.le_of_eq hcursor.symm, ByteSpace.read_write ..,
      fun o ho => absurd ho.1 (Nat.not_le_of_lt ho.2)⟩

/-- A message whose payload is written takes the next position. -/
theorem enter (h : plan.Kept s) (hc : Changes Nowhere Nowhere s t) {offset : Nat}
    (hplaced : plan.Placed s i.payload offset i.payload.length) (hnamed : i.uuid ≠ Uuid.nil)
    (hshort : i.payload.length ≤ Queue.maxPayload)
    (hnext : t.memory.index.next = s.memory.index.next + 1)
    (hcount : t.memory.index.count = s.memory.index.count)
    (hcursor : t.memory.payloads = s.memory.payloads)
    (hplan : plan' = { plan with
      items := plan.items ++ [i]
      layout := Function.update plan.layout plan.items.length offset
      written := Function.update plan.written plan.items.length 0 }) :
    plan'.Kept t ∧ plan.Follows none s plan' t := by
  subst hplan
  have hrecords := hc.recordBytes_eq
  have hold {p : Nat} {j : Item} (hp : plan.items[p]? = some j) : p ≠ plan.items.length :=
    Nat.ne_of_lt (Items.lt_length hp)
  have hfollows : plan.Follows none s { plan with
      items := plan.items ++ [i]
      layout := Function.update plan.layout plan.items.length offset
      written := Function.update plan.written plan.items.length 0 } t :=
    ⟨hc.settings, Nat.le_of_eq (by rw [hcursor]),
      fun hp => ⟨getElem?_concat_eq_some_iff.mpr (.inl hp), Function.update_of_ne (hold hp) _ _⟩,
      fun hp _ => Function.update_of_ne (Nat.ne_of_lt hp) _ _, fun _ _ => rfl,
      fun o _ ho => (congrFun hc.payloadBytes_eq o).trans ho, hc.recordPage⟩
  have hlength : (plan.items ++ [i]).length = plan.items.length + 1 := by simp
  refine ⟨?_, hfollows⟩
  exact {
    mounted := hc.mounted
    next_eq := by rw [hnext, h.next_eq, hlength]
    named := fun j hj => (List.mem_append.mp hj).elim (h.named j) fun hlast =>
      List.mem_singleton.mp hlast ▸ hnamed
    short := fun j hj => (List.mem_append.mp hj).elim (h.short j) fun hlast =>
      List.mem_singleton.mp hlast ▸ hshort
    placed := fun {p j} hp => by
      rcases getElem?_concat_eq_some_iff.mp hp with hp | ⟨rfl, rfl⟩
      · simp only [Function.update_of_ne (hold hp)]
        exact (h.placed hp).follows hfollows (Nat.le_refl _)
      · simp only [Function.update_self]
        exact hplaced.follows hfollows (Nat.le_refl _)
    begun := fun {p j} hp => by
      rw [hrecords]
      rcases getElem?_concat_eq_some_iff.mp hp with hp | ⟨rfl, rfl⟩
      · simp only [Function.update_of_ne (hold hp)]
        exact h.begun hp
      · -- behind the last record there are only zeros
        simp only [Function.update_self]
        exact .of_blank (fun o ho => h.blank o ho.1) _
    breaks := fun {p} hp => by
      rw [hc.settings]
      by_cases hlast : p = plan.items.length
      · simp only [hlast, Function.update_self]
        exact .inl rfl
      · simp only [Function.update_of_ne hlast]
        exact h.breaks
          (Nat.lt_of_le_of_ne (Nat.le_of_lt_succ (Nat.lt_of_lt_of_eq hp hlength)) hlast)
    blank := fun o ho => by
      rw [hrecords]
      refine h.blank o (Nat.le_trans (Nat.le_trans (Nat.le_add_right _ size) ?_) ho)
      exact ByteSpace.place_add_size_le (Nat.lt_of_lt_of_eq (Nat.lt_succ_self _) hlength.symm)
    count := by rw [hrecords, hcount]; exact h.count
    count_le := by
      have hle := h.count_le
      rw [hcount, hlength]
      omega
    page := hcount ▸ h.page.imp fun o ho => ⟨ho.1, hc.recordPage o ho.2⟩ }

/-- More of the record of a position is written. -/
theorem writeRecord (h : plan.Kept s) (hp : plan.items[p]? = some i) {more : Nat}
    (hc : Changes (InRange (place p + plan.written p) more) Nowhere s t)
    (hmore : plan.written p + more ≤ size)
    (hbreaks : BreaksAt s.memory.settings.pageSize p (plan.written p + more))
    (hbytes : recordBytes t = (recordBytes s).write (place p + plan.written p)
      (((i.toEntry p (plan.layout p)).toRecord.encode.drop (plan.written p)).take more))
    (hnext : t.memory.index.next = s.memory.index.next)
    (hcount : t.memory.index.count = s.memory.index.count)
    (hpayloads : t.memory.payloads = s.memory.payloads)
    (hplan : plan' = { plan with
      written := Function.update plan.written p (plan.written p + more) }) :
    plan'.Kept t ∧ plan.Follows (some p) s plan' t := by
  subst hplan
  have hfollows : plan.Follows (some p) s
      { plan with written := Function.update plan.written p (plan.written p + more) } t :=
    ⟨hc.settings, Nat.le_of_eq (by rw [hpayloads]), fun hp => ⟨hp, rfl⟩,
      fun _ hne => Function.update_of_ne (fun heq => hne (congrArg some heq.symm)) _ _,
      fun _ _ => rfl,
      fun o _ ho => (congrFun hc.payloadBytes_eq o).trans ho, hc.recordPage⟩
  have hlt := Items.lt_length hp
  -- no other record, nor the count, is in the range
  have hbeside {o : Nat} (ho : o < place p ∨ place p + size ≤ o) :
      recordBytes t o = recordBytes s o := by
    refine hc.recordBytes o fun hin => ?_
    have hle := hin.1
    have hlt := hin.2
    omega
  refine ⟨?_, hfollows⟩
  exact {
    mounted := hc.mounted
    next_eq := hnext.trans h.next_eq
    named := h.named
    short := h.short
    placed := fun hq => (h.placed hq).follows hfollows (Nat.le_refl _)
    begun := fun {q j} hq => by
      by_cases heq : q = p
      · subst heq
        obtain rfl := Option.some.inj (hp.symm.trans hq)
        simp only [Function.update_self, hbytes]
        exact (h.begun hq).write hmore
      · simp only [Function.update_of_ne heq]
        refine (h.begun hq).congr fun o ho => hbeside ?_
        have hle := ho.1
        have hlt := ho.2
        simp only [place, size] at hle hlt ⊢
        omega
    breaks := fun {q} hq => by
      rw [hc.settings]
      by_cases heq : q = p
      · subst heq
        simp only [Function.update_self]
        exact hbreaks
      · simp only [Function.update_of_ne heq]
        exact h.breaks hq
    blank := fun o ho => by
      have hafter := ByteSpace.place_add_size_le hlt
      rw [hbeside (.inr (Nat.le_trans hafter ho))]
      exact h.blank o ho
    count := by
      have hsame : (recordBytes t).count = (recordBytes s).count := by
        refine ByteSpace.count_congr fun o ho => hbeside (.inl (Nat.lt_of_lt_of_le ho ?_))
        exact Nat.le_add_right _ _
      rw [hsame, hcount]
      exact h.count
    count_le := hcount ▸ h.count_le
    page := hcount ▸ h.page.imp fun o ho => ⟨ho.1, hc.recordPage o ho.2⟩ }

/-- The count is raised. -/
theorem raise (h : plan.Kept s) {count : Nat} (hc : Changes (InRange 0 4) Nowhere s t)
    (hbytes : recordBytes t = (recordBytes s).write 0 (encodeInt32 (.ofNat count)))
    (hle : count ≤ plan.items.length) {o : Nat} (ho : place count ≤ o + 1) (hpage : RecordPage s o)
    (hnext : t.memory.index.next = s.memory.index.next) (hcount : t.memory.index.count = count)
    (hpayloads : t.memory.payloads = s.memory.payloads) :
    plan.Kept t ∧ plan.Follows none s plan t := by
  have hfollows : plan.Follows none s plan t :=
    ⟨hc.settings, Nat.le_of_eq (by rw [hpayloads]), fun hp => ⟨hp, rfl⟩, fun _ _ => rfl,
      fun _ _ => rfl, fun o _ ho => (congrFun hc.payloadBytes_eq o).trans ho, hc.recordPage⟩
  have hbehind {o : Nat} (ho : place 0 ≤ o) : recordBytes t o = recordBytes s o :=
    hc.recordBytes o fun hin => Nat.not_le_of_lt hin.2 ho
  refine ⟨?_, hfollows⟩
  exact {
    mounted := hc.mounted
    next_eq := hnext.trans h.next_eq
    named := h.named
    short := h.short
    placed := fun hq => (h.placed hq).follows hfollows (Nat.le_refl _)
    begun := fun hq => (h.begun hq).congr fun o ho =>
      hbehind (Nat.le_trans (Nat.le_add_right _ _) ho.1)
    breaks := fun hq => hc.settings ▸ h.breaks hq
    blank := fun o ho => by
      rw [hbehind (Nat.le_trans (Nat.le_add_right _ _) ho)]
      exact h.blank o ho
    count := by rw [hbytes, ByteSpace.count_write_count, hcount]
    count_le := hcount.symm ▸ hle
    page := ⟨o, hcount.symm ▸ ho, hc.recordPage o hpage⟩ }

end Kept

end Plan

end PagedQueue
