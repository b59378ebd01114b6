import PagedQueue.Procedure

/-!
# What a procedure leads to

`Leads p s done failed` tells what comes of the procedure `p` when it is started in the session `s`:
an answer and the session it leaves satisfy `done`, or a fault and the session it leaves satisfy
`failed`. `Ensures p s done` is the case in which no fault is possible.

Each way of putting procedures together has one equation here (`leads_bind`, `leads_within`,
`leads_tryFinally`, …), so a procedure is followed step by step by rewriting, and the procedures
that have a law of their own are passed by `Leads.mono` and `Ensures.mono`.
-/

namespace PagedQueue

/-- The session seen by a procedure that works on a part of the memory. -/
def Session.part {σ τ : Type} (part : τ → σ) (s : Session τ) : Session σ := ⟨s.host, part s.memory⟩

@[simp]
theorem Session.host_part {σ τ : Type} (part : τ → σ) (s : Session τ) :
    (s.part part).host = s.host := rfl

@[simp]
theorem Session.memory_part {σ τ : Type} (part : τ → σ) (s : Session τ) :
    (s.part part).memory = part s.memory := rfl

namespace Procedure

variable {σ τ α β : Type}

/-- From the session `s` the procedure leads to an answer as `done` says or to a fault as `failed`
says. -/
def Leads (p : Procedure σ α) (s : Session σ) (done : α → Session σ → Prop)
    (failed : Fault → Session σ → Prop) : Prop :=
  match p s with
  | .ok value t => done value t
  | .error fault t => failed fault t

/-- From the session `s` the procedure leads to an answer as `done` says. -/
def Ensures (p : Procedure σ α) (s : Session σ) (done : α → Session σ → Prop) : Prop :=
  p.Leads s done fun _ _ => False

variable {p : Procedure σ α} {s : Session σ} {done done' : α → Session σ → Prop}
  {failed failed' : Fault → Session σ → Prop}

/-- What follows from the results of a procedure is true of it as well. -/
theorem Leads.mono (h : p.Leads s done failed) (hdone : ∀ value t, done value t → done' value t)
    (hfailed : ∀ fault t, failed fault t → failed' fault t) : p.Leads s done' failed' := by
  unfold Leads at h ⊢
  split
  next heq => rw [heq] at h; exact hdone _ _ h
  next heq => rw [heq] at h; exact hfailed _ _ h

/-- A procedure leads to what it answers. -/
theorem leads_answer (p : Procedure σ α) (s : Session σ) :
    p.Leads s (fun value t => p s = .ok value t) fun fault t => p s = .error fault t := by
  unfold Leads
  split
  next heq => exact heq
  next heq => exact heq

/-- So it is of one that does not fail. -/
theorem Ensures.mono (h : p.Ensures s done) (hdone : ∀ value t, done value t → done' value t) :
    p.Ensures s done' :=
  Leads.mono h hdone fun _ _ => id

/-- What cannot fail leads to its answer whatever is asked of a fault. -/
theorem Ensures.leads (h : p.Ensures s done) : p.Leads s done failed :=
  Leads.mono h (fun _ _ => id) fun _ _ => False.elim

/-- Where no fault that can be met is possible, nothing fails. -/
theorem Leads.ensures (h : p.Leads s done failed) (hfailed : ∀ fault t, ¬ failed fault t) :
    p.Ensures s done :=
  Leads.mono h (fun _ _ => id) hfailed

/-- What comes of a procedure in two respects comes of it in both. -/
theorem Leads.and (h : p.Leads s done failed) (h' : p.Leads s done' failed') :
    p.Leads s (fun value t => done value t ∧ done' value t)
      fun fault t => failed fault t ∧ failed' fault t := by
  unfold Leads at h h' ⊢
  split
  next heq => rw [heq] at h h'; exact ⟨h, h'⟩
  next heq => rw [heq] at h h'; exact ⟨h, h'⟩

/-- A procedure that ensures something ends, and what it leaves is so. -/
theorem ensures_iff : p.Ensures s done ↔ ∃ value t, p s = .ok value t ∧ done value t := by
  unfold Ensures Leads
  constructor
  · intro h
    split at h
    next value t heq => exact ⟨value, t, heq, h⟩
    next => exact h.elim
  · intro hand
    obtain ⟨value, t, heq, h⟩ := hand
    rw [heq]
    exact h

/-- The outcome is an answer if the procedure ends with it. -/
theorem outcome_ok_iff {value : α} {t : Session σ} :
    p.outcome s = (.ok value, t) ↔ p s = .ok value t := by
  unfold outcome
  cases h : p s with
  | ok value' t' => simp
  | error fault t' => simp

/-- The outcome is a fault if the procedure fails with it. -/
theorem outcome_error_iff {fault : Fault} {t : Session σ} :
    p.outcome s = (.error fault, t) ↔ p s = .error fault t := by
  unfold outcome
  cases h : p s with
  | ok value' t' => simp
  | error fault' t' => simp

/-! An answer may have no decidable equality. What it is can be found out all the same. -/

theorem ok_of_toOption {answer : Except Fault α} {value : α} (h : answer.toOption = some value) :
    answer = .ok value := by
  cases answer with
  | ok => exact congrArg Except.ok (Option.some.inj h)
  | error => cases h

theorem error_of_toOption {answer : Except Fault α} (h : answer.toOption.isNone = true) :
    ∃ fault, answer = .error fault := by
  cases answer with
  | ok => cases h
  | error fault => exact ⟨fault, rfl⟩

/-- Where an answer passes a check there is an answer. -/
theorem exists_ok_of_any {answer : Except Fault α} {p : α → Bool}
    (h : answer.toOption.any p = true) :
    ∃ value, answer = .ok value ∧ p value = true := by
  obtain ⟨value, hvalue, hp⟩ := (Option.any_eq_true _ _).mp h
  exact ⟨value, ok_of_toOption hvalue, hp⟩

/-- What cannot fail has an answer for its outcome. -/
theorem Ensures.outcome (h : p.Ensures s done) :
    ∃ value t, p.outcome s = (.ok value, t) ∧ done value t := by
  obtain ⟨value, t, hrun, hdone⟩ := ensures_iff.mp h
  exact ⟨value, t, outcome_ok_iff.mpr hrun, hdone⟩

/-- What is led to holds of the outcome that there is. -/
theorem Leads.of_ok (h : p.Leads s done failed) {value : α} {t : Session σ}
    (hrun : p.outcome s = (.ok value, t)) : done value t := by
  unfold Leads at h
  rwa [outcome_ok_iff.mp hrun] at h

/-- It holds of a fault likewise. -/
theorem Leads.of_error (h : p.Leads s done failed) {fault : Fault} {t : Session σ}
    (hrun : p.outcome s = (.error fault, t)) : failed fault t := by
  unfold Leads at h
  rwa [outcome_error_iff.mp hrun] at h

/-- What is true whatever comes of a procedure is true of the session that it leaves. -/
theorem Leads.outcome {left : Session σ → Prop}
    (h : p.Leads s (fun _ t => left t) fun _ t => left t) :
    left (p.outcome s).2 := by
  unfold Leads at h
  unfold Procedure.outcome
  generalize p s = answer at h ⊢
  cases answer with
  | ok => exact h
  | error => exact h

/-- The same where it depends on the answer. -/
theorem Leads.answered {left : Except Fault α → Session σ → Prop}
    (h : p.Leads s (fun value t => left (.ok value) t) fun fault t => left (.error fault) t) :
    left (p.outcome s).1 (p.outcome s).2 := by
  unfold Leads at h
  unfold Procedure.outcome
  generalize p s = answer at h ⊢
  cases answer with
  | ok => exact h
  | error => exact h

/-! ## Steps -/

@[simp]
theorem leads_pure (value : α) : Leads (pure value : Procedure σ α) s done failed ↔ done value s :=
  Iff.rfl

@[simp]
theorem leads_throw (fault : Fault) :
    Leads (throw fault : Procedure σ α) s done failed ↔ failed fault s := Iff.rfl

@[simp]
theorem leads_memory {done : σ → Session σ → Prop} : Leads memory s done failed ↔ done s.memory s :=
  Iff.rfl

@[simp]
theorem leads_update (f : σ → σ) {done : Unit → Session σ → Prop} :
    Leads (update f) s done failed ↔ done () ⟨s.host, f s.memory⟩ := Iff.rfl

@[simp]
theorem leads_disk {done : Disk → Session σ → Prop} :
    Leads disk s done failed ↔ done s.host.disk s := Iff.rfl

@[simp]
theorem leads_perform (change : Change) {done : Unit → Session σ → Prop} :
    Leads (perform change) s done failed ↔ done () ⟨s.host.perform change, s.memory⟩ := Iff.rfl

@[simp]
theorem leads_look {done : Int → Session σ → Prop} :
    Leads look s done failed ↔ done s.host.now ⟨s.host.looked, s.memory⟩ := Iff.rfl

@[simp]
theorem leads_ofOption_some (fault : Fault) (value : α) :
    Leads (ofOption fault (some value) : Procedure σ α) s done failed ↔ done value s := Iff.rfl

@[simp]
theorem leads_ofOption_none (fault : Fault) :
    Leads (ofOption fault none : Procedure σ α) s done failed ↔ failed fault s := Iff.rfl

@[simp]
theorem leads_ofExcept_ok (value : α) :
    Leads (ofExcept (.ok value : Except Fault α) : Procedure σ α) s done failed ↔ done value s :=
  Iff.rfl

@[simp]
theorem leads_ofExcept_error (fault : Fault) :
    Leads (ofExcept (.error fault : Except Fault α) : Procedure σ α) s done failed
      ↔ failed fault s := Iff.rfl

/-! ## Compositions -/

/-- One procedure after the other leads to what the second one does from where the first one
leads. -/
@[simp]
theorem leads_bind {done : β → Session σ → Prop} (p : Procedure σ α) (f : α → Procedure σ β) :
    Leads (p >>= f) s done failed
      ↔ p.Leads s (fun value t => (f value).Leads t done failed) failed := by
  simp only [Leads, bind, EStateM.bind]
  cases p s <;> rfl

/-- A function of the answer does not change where a procedure leads. -/
@[simp]
theorem leads_map {done : β → Session σ → Prop} (p : Procedure σ α) (f : α → β) :
    Leads (f <$> p) s done failed ↔ p.Leads s (fun value t => done (f value) t) failed := by
  simp only [Leads, Functor.map, EStateM.map]
  cases p s <;> rfl

/-- An answer that is discarded is not looked at. -/
theorem discard_eq_bind (p : Procedure σ α) : discard p = p >>= fun _ => pure () :=
  map_eq_pure_bind (fun _ => ()) p

/-- So what is done does not depend on it. -/
@[simp]
theorem leads_discard {done : Unit → Session σ → Prop} (p : Procedure σ α) :
    Leads (discard p) s done failed ↔ p.Leads s (fun _ t => done () t) failed :=
  leads_map p fun _ => ()

/-- What is done at last is done after an answer and after a fault. -/
theorem leads_tryFinally (p : Procedure σ α) (last : Procedure σ β) :
    Leads (tryFinally p last) s done failed
      ↔ p.Leads s (fun value t => last.Leads t (fun _ u => done value u) failed)
          fun fault t => last.Leads t (fun _ u => failed fault u) failed := by
  simp only [Leads, tryFinally, MonadFinally.tryFinally', Functor.map, EStateM.map]
  cases p s with
  | ok value t => cases hlast : last t <;> simp only [hlast]
  | error fault t => cases hlast : last t <;> simp only [hlast]

/-- A fault is handled where it occurs, and what was done before stays done. -/
theorem tryCatch_apply (p : Procedure σ α) (handle : Fault → Procedure σ α) (s : Session σ) :
    tryCatch p handle s = match p s with
      | .ok value t => .ok value t
      | .error fault t => handle fault t := by
  simp only [tryCatch, tryCatchThe, MonadExceptOf.tryCatch]
  delta EStateM.tryCatch
  cases p s <;> rfl

/-- A fault leads on to what is done about it. -/
theorem leads_tryCatch (p : Procedure σ α) (handle : Fault → Procedure σ α) :
    Leads (tryCatch p handle) s done failed
      ↔ p.Leads s done fun fault t => (handle fault).Leads t done failed := by
  simp only [Leads, tryCatch_apply]
  cases p s <;> rfl

/-- A procedure on a part leads there on the part, and the rest stays. -/
@[simp]
theorem leads_within (part : τ → σ) (replace : σ → τ → τ) {s : Session τ}
    {done : α → Session τ → Prop} {failed : Fault → Session τ → Prop} :
    Leads (within part replace p) s done failed
      ↔ p.Leads (s.part part) (fun value t => done value ⟨t.host, replace t.memory s.memory⟩)
          fun fault t => failed fault ⟨t.host, replace t.memory s.memory⟩ := by
  simp only [Leads, within, Session.part]
  cases p ⟨s.host, part s.memory⟩ <;> rfl

/-- The outcome on a part is put back into the whole. -/
theorem outcome_within (part : τ → σ) (replace : σ → τ → τ) (p : Procedure σ α) (s : Session τ) :
    (within part replace p).outcome s = ((p.outcome (s.part part)).1,
      ⟨(p.outcome (s.part part)).2.host, replace (p.outcome (s.part part)).2.memory s.memory⟩) := by
  simp only [within, outcome, Session.part]
  cases p ⟨s.host, part s.memory⟩ <;> rfl

/-- A procedure on a memory of its own changes only the host of the one that launches it. -/
@[simp]
theorem leads_launch (initial : τ) (p : Procedure τ α) {done : α × τ → Session σ → Prop} :
    Leads (launch initial p) s done failed
      ↔ p.Leads ⟨s.host, initial⟩ (fun value t => done (value, t.memory) ⟨t.host, s.memory⟩)
          fun fault t => failed fault ⟨t.host, s.memory⟩ := by
  simp only [Leads, launch]
  cases p ⟨s.host, initial⟩ <;> rfl

/-- A choice leads where its branch leads. -/
theorem leads_ite {c : Prop} [Decidable c] (p q : Procedure σ α) :
    Leads (if c then p else q) s done failed
      ↔ if c then p.Leads s done failed else q.Leads s done failed := by
  split <;> rfl

/-- Numbers are gone through in order with an invariant that tells how many are done. -/
theorem leads_foldlM_range (step : β → Nat → Procedure σ β) (inv : Nat → β → Session σ → Prop)
    {b : β} {count : Nat} (hstart : inv 0 b s)
    (hstep : ∀ k b t, k < count → inv k b t → (step b k).Leads t (inv (k + 1)) failed) :
    ((List.range count).foldlM step b).Leads s (inv count) failed := by
  induction count with
  | zero => exact hstart
  | succ count ih =>
    rw [List.range_succ, List.foldlM_append, leads_bind]
    refine (ih fun k b t hk => hstep k b t (by omega)).mono (fun b' t hinv => ?_) fun _ _ => id
    simp only [List.foldlM_cons, List.foldlM_nil, bind_pure]
    exact hstep count b' t (by omega) hinv

end Procedure

end PagedQueue
