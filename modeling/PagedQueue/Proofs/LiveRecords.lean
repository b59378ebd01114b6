import PagedQueue.Proofs.IndexMemory
import PagedQueue.Proofs.StoredRecords

/-!
# The live records of a file

Of the records that a count covers, each is vacant, a tombstone, the first live one of its UUID
(`FirstLive`), or a live one whose UUID an earlier one has. `tallyOf` counts them, and `liveAt?` is
the entry that a position contributes to the queue, if any. Both are told for one record more by its
kind (`tallyOf_succ`, `liveAt?_succ`), which is what a loop over the records needs.
-/

namespace PagedQueue

/-! ## One kind for each record -/

namespace Record

variable {r : Record}

theorem IsVacant.not_isLive (h : r.IsVacant) : ¬ r.IsLive := by
  intro hand
  obtain ⟨hne, hstatus⟩ := hand
  rcases h with hnil | hvacant
  · exact hne hnil
  · rw [hvacant] at hstatus
    exact absurd hstatus (by decide)

theorem IsVacant.not_isTombstone (h : r.IsVacant) : ¬ r.IsTombstone := by
  intro hand
  obtain ⟨hne, hstatus⟩ := hand
  rcases h with hnil | hvacant
  · exact hne hnil
  · rw [hvacant] at hstatus
    exact absurd hstatus (by decide)

theorem IsVacant.not_faulty (h : r.IsVacant) : ¬ r.Faulty := by
  intro hand
  obtain ⟨hnil, hstatus⟩ := hand
  have hzero : r.status = 0 := h.resolve_left hnil
  simp [hzero] at hstatus

theorem IsTombstone.not_isLive (h : r.IsTombstone) : ¬ r.IsLive := by
  intro hand
  obtain ⟨-, hstatus⟩ := hand
  rw [h.2] at hstatus
  exact absurd hstatus (by decide)

/-- A record that is not faulty is vacant, a tombstone or live. -/
theorem isVacant_or (h : ¬ r.Faulty) : r.IsVacant ∨ r.IsTombstone ∨ r.IsLive := by
  rcases Slot.ofRecord_cases r 0 with ⟨hvacant, -⟩ | ⟨htombstone, -⟩ | ⟨hlive, -⟩ | ⟨hfaulty, -⟩
  · exact .inl hvacant
  · exact .inr (.inl htombstone)
  · exact .inr (.inr hlive)
  · exact absurd hfaulty h

/-- A live record is locked or new. -/
theorem IsLive.status_ne (h : r.IsLive) :
    r.status = Status.locked.tag ↔ r.status ≠ Status.new.tag := by
  rcases h.2 with hnew | hlocked
  · rw [hnew]
    decide
  · rw [hlocked]
    decide

end Record

namespace ByteSpace

/-- The first live record of its UUID. -/
def FirstLive (b : ByteSpace) (position : Nat) : Prop :=
  (b.recordAt position).IsLive ∧ ∀ earlier < position, (b.recordAt earlier).IsLive →
    (b.recordAt earlier).uuid ≠ (b.recordAt position).uuid

instance (b : ByteSpace) (position : Nat) : Decidable (b.FirstLive position) :=
  inferInstanceAs (Decidable (_ ∧ _))

/-- What there is among the first `n` records. -/
def tallyOf (b : ByteSpace) (n : Nat) : Tally where
  records := n
  new := (List.range n).countP fun p => b.FirstLive p ∧ (b.recordAt p).status = Status.new.tag
  locked := (List.range n).countP fun p => b.FirstLive p ∧ (b.recordAt p).status = Status.locked.tag
  deleted := (List.range n).countP fun p => (b.recordAt p).IsTombstone
  vacant := (List.range n).countP fun p => (b.recordAt p).IsVacant
  duplicates := (List.range n).countP fun p => (b.recordAt p).IsLive ∧ ¬ b.FirstLive p

/-- The entry of a position below `n` in the queue. -/
def liveAt? (b : ByteSpace) (n position : Nat) : Option Entry :=
  if position < n ∧ b.FirstLive position then some ((b.recordAt position).toEntry position)
  else none

variable {b : ByteSpace} {n p : Nat}

/-- The live record at a position is the first of its UUID there. -/
theorem liveAt?_eq_some_iff {e : Entry} : b.liveAt? n p = some e
    ↔ p < n ∧ b.FirstLive p ∧ (b.recordAt p).toEntry p = e := by
  unfold liveAt?
  split
  next h => simp [h]
  next h => simp only [reduceCtorEq, false_iff]; exact fun hand => h ⟨hand.1, hand.2.1⟩

/-- Among the live records of a UUID one is first. -/
theorem exists_firstLive (hp : (b.recordAt p).IsLive) :
    ∃ q ≤ p, b.FirstLive q ∧ (b.recordAt q).uuid = (b.recordAt p).uuid := by
  induction p using Nat.strongRecOn with
  | ind p ih =>
    by_cases hfirst : b.FirstLive p
    · exact ⟨p, Nat.le_refl p, hfirst, rfl⟩
    · -- an earlier live record has the UUID, and one before it or itself is first
      unfold FirstLive at hfirst
      push Not at hfirst
      obtain ⟨earlier, hlt, hlive, huuid⟩ := hfirst hp
      obtain ⟨q, hle, hq, heq⟩ := ih earlier hlt hlive
      exact ⟨q, by omega, hq, heq.trans huuid⟩

/-- Whether a live record is the first of its UUID shows in what came before it. -/
theorem firstLive_iff (hlive : (b.recordAt n).IsLive) : b.FirstLive n
    ↔ ∀ q e, b.liveAt? n q = some e → e.uuid ≠ (b.recordAt n).uuid := by
  constructor
  · intro hfirst q e he
    obtain ⟨hlt, hq, rfl⟩ := liveAt?_eq_some_iff.mp he
    exact hfirst.2 q hlt hq.1
  · intro hnone
    refine ⟨hlive, fun earlier hlt hearlier huuid => ?_⟩
    obtain ⟨q, hle, hq, heq⟩ := exists_firstLive hearlier
    exact hnone q _ (liveAt?_eq_some_iff.mpr ⟨by omega, hq, rfl⟩) (heq.trans huuid)

/-! ## One record more -/

/-- One more record counts if it is the first live one of its UUID. -/
theorem liveAt?_succ_of_first (h : b.FirstLive n) : b.liveAt? (n + 1)
    = Function.update (b.liveAt? n) n (some ((b.recordAt n).toEntry n)) := by
  funext p
  by_cases hp : p = n
  · subst hp
    rw [Function.update_self, liveAt?, if_pos ⟨Nat.lt_succ_self p, h⟩]
  · rw [Function.update_of_ne hp]
    have hiff : p < n + 1 ↔ p < n := by omega
    simp only [liveAt?, hiff]

/-- Otherwise it does not. -/
theorem liveAt?_succ_of_not_first (h : ¬ b.FirstLive n) :
    b.liveAt? (n + 1) = b.liveAt? n := by
  funext p
  by_cases hp : p = n
  · subst hp
    rw [liveAt?, if_neg fun hand => h hand.2, liveAt?, if_neg fun hand => h hand.2]
  · have hiff : p < n + 1 ↔ p < n := by omega
    simp only [liveAt?, hiff]

theorem countP_range_succ (f : Nat → Prop) [DecidablePred f] (n : Nat) :
    (List.range (n + 1)).countP (fun p => f p)
      = (List.range n).countP (fun p => f p) + if f n then 1 else 0 := by
  rw [List.range_succ, List.countP_append, List.countP_singleton]
  simp

/-- The tally of one more record. -/
private theorem tallyOf_succ (b : ByteSpace) (n : Nat) : b.tallyOf (n + 1) = {
    records := n + 1
    new := (b.tallyOf n).new
      + if b.FirstLive n ∧ (b.recordAt n).status = Status.new.tag then 1 else 0
    locked := (b.tallyOf n).locked
      + if b.FirstLive n ∧ (b.recordAt n).status = Status.locked.tag then 1 else 0
    deleted := (b.tallyOf n).deleted + if (b.recordAt n).IsTombstone then 1 else 0
    vacant := (b.tallyOf n).vacant + if (b.recordAt n).IsVacant then 1 else 0
    duplicates := (b.tallyOf n).duplicates
      + if (b.recordAt n).IsLive ∧ ¬ b.FirstLive n then 1 else 0 } := by
  simp only [tallyOf, countP_range_succ]

theorem tallyOf_succ_of_isVacant (h : (b.recordAt n).IsVacant) : b.tallyOf (n + 1)
    = { b.tallyOf n with records := n + 1, vacant := (b.tallyOf n).vacant + 1 } := by
  have hfirst : ¬ b.FirstLive n := fun hfirst => h.not_isLive hfirst.1
  rw [tallyOf_succ]
  simp only [hfirst, h, h.not_isLive, h.not_isTombstone, false_and, if_false, if_true, Nat.add_zero]

theorem tallyOf_succ_of_isTombstone (h : (b.recordAt n).IsTombstone) : b.tallyOf (n + 1)
    = { b.tallyOf n with records := n + 1, deleted := (b.tallyOf n).deleted + 1 } := by
  have hfirst : ¬ b.FirstLive n := fun hfirst => h.not_isLive hfirst.1
  have hvacant : ¬ (b.recordAt n).IsVacant := fun hvacant => hvacant.not_isTombstone h
  rw [tallyOf_succ]
  simp only [hfirst, h, h.not_isLive, hvacant, false_and, if_false, if_true, Nat.add_zero]

/-- A live record of a UUID met before counts as a duplicate. -/
theorem tallyOf_succ_of_duplicate (h : (b.recordAt n).IsLive) (hfirst : ¬ b.FirstLive n) :
    b.tallyOf (n + 1)
      = { b.tallyOf n with records := n + 1, duplicates := (b.tallyOf n).duplicates + 1 } := by
  have hvacant : ¬ (b.recordAt n).IsVacant := fun hvacant => hvacant.not_isLive h
  have htombstone : ¬ (b.recordAt n).IsTombstone := fun htombstone => htombstone.not_isLive h
  rw [tallyOf_succ]
  simp only [hfirst, h, htombstone, hvacant, false_and, not_false_eq_true, and_true, if_false,
    if_true, Nat.add_zero]

/-- One of a new UUID counts by its status. -/
theorem tallyOf_succ_of_firstLive (hfirst : b.FirstLive n) : b.tallyOf (n + 1)
    = if (b.recordAt n).status = Status.new.tag then
        { b.tallyOf n with records := n + 1, new := (b.tallyOf n).new + 1 }
      else { b.tallyOf n with records := n + 1, locked := (b.tallyOf n).locked + 1 } := by
  have hlive := hfirst.1
  have hvacant : ¬ (b.recordAt n).IsVacant := fun hvacant => hvacant.not_isLive hlive
  have htombstone : ¬ (b.recordAt n).IsTombstone := fun htombstone => htombstone.not_isLive hlive
  have hlocked := hlive.status_ne
  rw [tallyOf_succ]
  simp only [hfirst, htombstone, hvacant, hlocked, not_true_eq_false, and_false, true_and, if_false,
    Nat.add_zero]
  split <;> simp_all

/-- Where every record makes sense, each is counted once. -/
theorem tallyOf_sum (h : ∀ p < n, ¬ (b.recordAt p).Faulty) :
    (b.tallyOf n).new + (b.tallyOf n).locked + (b.tallyOf n).deleted + (b.tallyOf n).vacant
      + (b.tallyOf n).duplicates = n := by
  induction n with
  | zero => rfl
  | succ n ih =>
    have hrest := ih fun p hp => h p (by omega)
    rcases Record.isVacant_or (h n (Nat.lt_succ_self n)) with hvacant | htombstone | hlive
    · rw [tallyOf_succ_of_isVacant hvacant]
      dsimp only
      omega
    · rw [tallyOf_succ_of_isTombstone htombstone]
      dsimp only
      omega
    · by_cases hfirst : b.FirstLive n
      · rw [tallyOf_succ_of_firstLive hfirst]
        split
        · dsimp only
          omega
        · dsimp only
          omega
      · rw [tallyOf_succ_of_duplicate hlive hfirst]
        dsimp only
        omega

/-- As many messages are in the queue as first live records are counted. -/
theorem countP_liveAt? (b : ByteSpace) (n : Nat) :
    (List.range n).countP (fun p => (b.liveAt? n p).isSome)
      = (b.tallyOf n).new + (b.tallyOf n).locked := by
  have hsome (p : Nat) (hp : p ∈ List.range n) :
      (b.liveAt? n p).isSome = true ↔ decide (b.FirstLive p) = true := by
    rw [List.mem_range] at hp
    by_cases hfirst : b.FirstLive p
    · simp [liveAt?, hp, hfirst]
    · simp [liveAt?, hfirst]
  rw [List.countP_congr hsome]
  clear hsome
  induction n with
  | zero => rfl
  | succ n ih =>
    rw [countP_range_succ, ih]
    by_cases hfirst : b.FirstLive n
    · rw [if_pos hfirst, tallyOf_succ_of_firstLive hfirst]
      split
      · dsimp only
        omega
      · dsimp only
        omega
    · -- a record that is not the first live one of its UUID counts elsewhere
      have hnew : (b.tallyOf (n + 1)).new = (b.tallyOf n).new := by
        rw [tallyOf_succ]
        simp only [hfirst, false_and, if_false, Nat.add_zero]
      have hlocked : (b.tallyOf (n + 1)).locked = (b.tallyOf n).locked := by
        rw [tallyOf_succ]
        simp only [hfirst, false_and, if_false, Nat.add_zero]
      rw [if_neg hfirst, hnew, hlocked, Nat.add_zero]

end ByteSpace

end PagedQueue
