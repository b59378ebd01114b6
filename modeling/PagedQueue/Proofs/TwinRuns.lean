import PagedQueue.Proofs.Outcome

/-!
# Two runs side by side

Two procedures, each started in a session of its own, agree if both answer or both fail with the
same fault (`Procedure.Agree`). If they do so from any two sessions that are related, and leave
sessions that are related again, they are twins (`Procedure.Twins`). Twins are put together like the
procedures that they are made of, so of two runs of one program only the steps matter at which the
two sessions differ.
-/

namespace PagedQueue

namespace Procedure

variable {σ τ α β γ δ : Type}

/-- Both procedures answer, and then `done` holds of the answers and of what is left, or both fail
with the same fault, and then `failed` holds of what is left. -/
def Agree (p : Procedure σ α) (q : Procedure σ β) (s t : Session σ)
    (done : α → Session σ → β → Session σ → Prop) (failed : Session σ → Session σ → Prop) : Prop :=
  match p s, q t with
  | .ok value u, .ok value' v => done value u value' v
  | .error fault u, .error fault' v => fault = fault' ∧ failed u v
  | _, _ => False

/-- From sessions that are related both procedures come to the same fault or to answers that are
related, and to sessions that are related. -/
def Twins (related : Session σ → Session σ → Prop) (answers : α → β → Prop) (p : Procedure σ α)
    (q : Procedure σ β) : Prop :=
  ∀ s t, related s t → p.Agree q s t (fun a u b v => answers a b ∧ related u v) related

/-! ## Two sessions -/

@[simp]
theorem agree_update {f g : σ → σ} {s t : Session σ}
    {done : Unit → Session σ → Unit → Session σ → Prop}
    {failed : Session σ → Session σ → Prop} : Agree (update f) (update g) s t done failed
      ↔ done () ⟨s.host, f s.memory⟩ () ⟨t.host, g t.memory⟩ := Iff.rfl

theorem agree_memory {s t : Session σ} {done : σ → Session σ → σ → Session σ → Prop}
    {failed : Session σ → Session σ → Prop} :
    Agree memory memory s t done failed ↔ done s.memory s t.memory t := Iff.rfl

theorem agree_within {part : τ → σ} {replace : σ → τ → τ} {p : Procedure σ α} {q : Procedure σ β}
    {s t : Session τ} {done : α → Session τ → β → Session τ → Prop}
    {failed : Session τ → Session τ → Prop} :
    Agree (within part replace p) (within part replace q) s t done failed
      ↔ p.Agree q (s.part part) (t.part part)
          (fun a u b v => done a ⟨u.host, replace u.memory s.memory⟩ b
            ⟨v.host, replace v.memory t.memory⟩)
          fun u v => failed ⟨u.host, replace u.memory s.memory⟩
            ⟨v.host, replace v.memory t.memory⟩ := by
  unfold Agree within Session.part
  generalize p ⟨s.host, part s.memory⟩ = answer, q ⟨t.host, part t.memory⟩ = answer'
  cases answer <;> cases answer' <;> rfl

/-- Two procedures, each with memory of its own. -/
theorem agree_launch {m m' : σ} {p : Procedure σ α} {q : Procedure σ β} {s t : Session τ}
    {done : α × σ → Session τ → β × σ → Session τ → Prop} {failed : Session τ → Session τ → Prop} :
    Agree (launch m p) (launch m' q) s t done failed
      ↔ p.Agree q ⟨s.host, m⟩ ⟨t.host, m'⟩
          (fun a u b v => done (a, u.memory) ⟨u.host, s.memory⟩ (b, v.memory) ⟨v.host, t.memory⟩)
          fun u v => failed ⟨u.host, s.memory⟩ ⟨v.host, t.memory⟩ := by
  unfold Agree launch
  generalize p ⟨s.host, m⟩ = answer, q ⟨t.host, m'⟩ = answer'
  cases answer <;> cases answer' <;> rfl

theorem tryFinally_apply (p : Procedure σ α) (last : Procedure σ β) (s : Session σ) :
    tryFinally p last s = match p s with
      | .ok value t => match last t with
        | .ok _ u => .ok value u
        | .error fault u => .error fault u
      | .error fault t => match last t with
        | .ok _ u => .error fault u
        | .error fault' u => .error fault' u := by
  simp only [tryFinally, MonadFinally.tryFinally', Functor.map, EStateM.map]
  cases p s with
  | ok value t => cases hlast : last t <;> simp only [hlast]
  | error fault t => cases hlast : last t <;> simp only [hlast]

namespace Agree

variable {p : Procedure σ α} {q : Procedure σ β} {s t : Session σ}
  {done done' : α → Session σ → β → Session σ → Prop}
    {failed failed' : Session σ → Session σ → Prop}

theorem mono (h : p.Agree q s t done failed) (hdone : ∀ a u b v, done a u b v → done' a u b v)
    (hfailed : ∀ u v, failed u v → failed' u v) : p.Agree q s t done' failed' := by
  unfold Agree at h ⊢
  generalize p s = answer, q t = answer' at h ⊢
  cases answer <;> cases answer'
  · exact hdone _ _ _ _ h
  · exact h
  · exact h
  · exact ⟨h.1, hfailed _ _ h.2⟩

/-- Where nothing fails, what each of the two ensures is all that is asked of them. -/
theorem of_ensures {left : α → Session σ → Prop} {right : β → Session σ → Prop}
    (hp : p.Ensures s left)
    (hq : q.Ensures t right) (h : ∀ a u b v, left a u → right b v → done a u b v) :
    p.Agree q s t done failed := by
  obtain ⟨a, u, hpu, hu⟩ := ensures_iff.mp hp
  obtain ⟨b, v, hqv, hv⟩ := ensures_iff.mp hq
  unfold Agree
  rw [hpu, hqv]
  exact h a u b v hu hv

/-- What each of the two leads to when it fails is true besides. -/
theorem failed_and (h : p.Agree q s t done failed) {left right : Session σ → Prop}
    (hp : p.Leads s (fun _ _ => True) fun _ u => left u)
    (hq : q.Leads t (fun _ _ => True) fun _ v => right v) :
    p.Agree q s t done fun u v => failed u v ∧ left u ∧ right v := by
  unfold Agree at h ⊢
  unfold Leads at hp hq
  generalize p s = answer, q t = answer' at h hp hq ⊢
  cases answer <;> cases answer'
  · exact h
  · exact h
  · exact h
  · exact ⟨h.1, h.2, hp, hq⟩

theorem bind {f : α → Procedure σ γ} {g : β → Procedure σ δ}
    {last : γ → Session σ → δ → Session σ → Prop} (h : p.Agree q s t done failed)
    (hrest : ∀ a u b v, done a u b v → (f a).Agree (g b) u v last failed) :
    (p >>= f).Agree (q >>= g) s t last failed := by
  unfold Agree at h
  unfold Agree
  simp only [Bind.bind, EStateM.bind]
  generalize p s = answer, q t = answer' at h ⊢
  cases answer <;> cases answer'
  · exact hrest _ _ _ _ h
  · exact h.elim
  · exact h.elim
  · exact h

/-- One procedure after the other, followed step by step. -/
theorem seq {f : α → Procedure σ γ} {g : β → Procedure σ δ}
    {last : γ → Session σ → δ → Session σ → Prop}
    (h : p.Agree q s t (fun a u b v => (f a).Agree (g b) u v last failed) failed) :
    (p >>= f).Agree (q >>= g) s t last failed := h.bind fun _ _ _ _ => id

/-- What is done at last is done after answers and after faults. -/
theorem tryFinally {p' : Procedure σ γ} {q' : Procedure σ δ} (h : p.Agree q s t done failed)
    (hdone : ∀ a u b v, done a u b v → p'.Agree q' u v (fun _ u _ v => done' a u b v) failed')
    (hfailed : ∀ u v, failed u v → p'.Agree q' u v (fun _ u _ v => failed' u v) failed') :
    (tryFinally p p').Agree (tryFinally q q') s t done' failed' := by
  unfold Agree at h
  unfold Agree
  rw [tryFinally_apply, tryFinally_apply]
  generalize p s = answer, q t = answer' at h ⊢
  cases answer with
  | ok a u =>
    cases answer' with
    | error => exact h.elim
    | ok b v =>
      have hlast := hdone a u b v h
      unfold Agree at hlast
      dsimp only
      generalize p' u = answer, q' v = answer' at hlast ⊢
      cases answer <;> cases answer' <;> exact hlast
  | error fault u =>
    cases answer' with
    | ok => exact h.elim
    | error fault' v =>
      have hlast := hfailed u v h.2
      unfold Agree at hlast
      dsimp only
      generalize p' u = answer, q' v = answer' at hlast ⊢
      cases answer <;> cases answer'
      · exact ⟨h.1, hlast⟩
      · exact hlast.elim
      · exact hlast.elim
      · exact hlast

/-- Where neither can fail, both answer. -/
theorem exists_ok (h : p.Agree q s t done fun _ _ => False) :
    ∃ a u b v, p.outcome s = (.ok a, u) ∧ q.outcome t = (.ok b, v) ∧ done a u b v := by
  unfold Agree at h
  unfold Procedure.outcome
  generalize p s = answer, q t = answer' at h ⊢
  cases answer <;> cases answer'
  · exact ⟨_, _, _, _, rfl, rfl, h⟩
  · exact h.elim
  · exact h.elim
  · exact h.2.elim

/-- Outcomes of procedures that agree. -/
theorem outcome {related : Session σ → Session σ → Prop} {q : Procedure σ α}
    (h : p.Agree q s t (fun a u b v => a = b ∧ related u v) related) :
    (p.outcome s).1 = (q.outcome t).1 ∧ related (p.outcome s).2 (q.outcome t).2 := by
  unfold Agree at h
  unfold Procedure.outcome
  generalize p s = answer, q t = answer' at h ⊢
  cases answer <;> cases answer'
  · exact ⟨congrArg Except.ok h.1, h.2⟩
  · exact h.elim
  · exact h.elim
  · exact ⟨congrArg Except.error h.1, h.2⟩

end Agree

/-! ## Twins -/

section

variable {related : Session σ → Session σ → Prop} {answers answers' : α → β → Prop}
    {p : Procedure σ α}
  {q : Procedure σ β}

theorem twins_pure {a : α} {b : β} (h : answers a b) : Twins related answers (pure a) (pure b) :=
  fun _ _ hst => ⟨h, hst⟩

theorem twins_throw (fault : Fault) :
    Twins related answers (throw fault : Procedure σ α) (throw fault : Procedure σ β) :=
  fun _ _ hst => ⟨rfl, hst⟩

/-- What is read of the memory stands in two sessions that are related. -/
theorem twins_memory : Twins related (fun m m' => ∃ h h', related ⟨h, m⟩ ⟨h', m'⟩) memory memory :=
  fun s t hst => ⟨⟨s.host, t.host, hst⟩, hst⟩

theorem twins_update {f g : σ → σ}
    (h : ∀ s t, related s t → related ⟨s.host, f s.memory⟩ ⟨t.host, g t.memory⟩) :
    Twins related (fun _ _ => True) (update f) (update g) := fun s t hst => ⟨trivial, h s t hst⟩

theorem twins_ofExcept (value : Except Fault α) :
    Twins related Eq (ofExcept value : Procedure σ α) (ofExcept value) := by
  cases value with
  | ok => exact twins_pure rfl
  | error fault => exact twins_throw fault

namespace Twins

theorem mono (h : Twins related answers p q) (hanswers : ∀ a b, answers a b → answers' a b) :
    Twins related answers' p q := fun s t hst =>
  (h s t hst).mono (fun a _ b _ hab => ⟨hanswers a b hab.1, hab.2⟩) fun _ _ => id

theorem bind {f : α → Procedure σ γ} {g : β → Procedure σ δ} {last : γ → δ → Prop}
    (h : Twins related answers p q) (hrest : ∀ a b, answers a b → Twins related last (f a) (g b)) :
    Twins related last (p >>= f) (q >>= g) := fun s t hst =>
  (h s t hst).bind fun a u b v hab => hrest a b hab.1 u v hab.2

theorem discard (h : Twins related answers p q) :
    Twins related (fun _ _ => True) (discard p) (discard q) := by
  rw [discard_eq_bind, discard_eq_bind]
  exact h.bind fun _ _ _ => twins_pure trivial

theorem ite {c c' : Prop} [Decidable c] [Decidable c'] {p' : Procedure σ α} {q' : Procedure σ β}
    (hc : c ↔ c') (hp : c → Twins related answers p q) (hq : ¬ c → Twins related answers p' q') :
    Twins related answers (if c then p else p') (if c' then q else q') := by
  by_cases h : c
  · rw [if_pos h, if_pos (hc.mp h)]
    exact hp h
  · rw [if_neg h, if_neg (mt hc.mpr h)]
    exact hq h

theorem tryFinally {last : γ → δ → Prop} {p' : Procedure σ γ} {q' : Procedure σ δ}
    (h : Twins related answers p q) (hlast : Twins related last p' q') :
    Twins related answers (tryFinally p p') (tryFinally q q') := fun s t hst =>
  (h s t hst).tryFinally
    (fun _ u _ v hab => (hlast u v hab.2).mono (fun _ _ _ _ huv => ⟨hab.1, huv.2⟩) fun _ _ => id)
    fun u v huv => (hlast u v huv).mono (fun _ _ _ _ huv => huv.2) fun _ _ => id

/-- The parts of two sessions are related, which is all that the relation of the whole asks of
them. -/
theorem within {part : τ → σ} {replace : σ → τ → τ} {whole : Session τ → Session τ → Prop}
    (h : ∀ s t, whole s t → ∃ related : Session σ → Session σ → Prop, Twins related answers p q
      ∧ related (s.part part) (t.part part) ∧ ∀ u v, related u v →
        whole ⟨u.host, replace u.memory s.memory⟩ ⟨v.host, replace v.memory t.memory⟩) :
    Twins whole answers (within part replace p) (within part replace q) := by
  intro s t hst
  obtain ⟨related, hpq, hpart, hwhole⟩ := h s t hst
  exact agree_within.mpr
    ((hpq _ _ hpart).mono (fun _ u _ v hab => ⟨hab.1, hwhole u v hab.2⟩) hwhole)

/-- Runs over one list, with results so far that are related. -/
theorem foldlM {f : α → γ → Procedure σ α} {g : β → γ → Procedure σ β}
    (h : ∀ a b c, answers a b → Twins related answers (f a c) (g b c)) (list : List γ)
    {a : α} {b : β}
    (hab : answers a b) : Twins related answers (list.foldlM f a) (list.foldlM g b) := by
  induction list generalizing a b with
  | nil => exact twins_pure hab
  | cons c rest ih =>
    rw [List.foldlM_cons, List.foldlM_cons]
    exact (h a b c hab).bind fun a' b' hab' => ih hab'

theorem mapM {f : γ → Procedure σ α} (h : ∀ c, Twins related Eq (f c) (f c)) (list : List γ) :
    Twins related Eq (list.mapM f) (list.mapM f) := by
  induction list with
  | nil => exact twins_pure rfl
  | cons c rest ih =>
    rw [List.mapM_cons]
    refine (h c).bind fun a b hab => ih.bind fun as bs habs => twins_pure ?_
    rw [hab, habs]

/-- Where each of many relations is kept, it is kept that one of them holds. -/
theorem some_of {ι : Type} {related : ι → Session σ → Session σ → Prop}
    (h : ∀ i, Twins (related i) answers p q) : Twins (fun s t => ∃ i, related i s t) answers p q :=
  fun s t hst => hst.elim fun i hi =>
    (h i s t hi).mono (fun _ _ _ _ hab => ⟨hab.1, i, hab.2⟩) fun _ _ huv => ⟨i, huv⟩

end Twins

end

end Procedure

end PagedQueue
