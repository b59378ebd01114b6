import Mathlib.Data.List.Induction
import Mathlib.Order.WellFounded
import PagedQueue.Clients
import PagedQueue.Proofs.Outcome

/-!
# Runs of many clients

What is known of every step of a protocol is known of every run: a run is taken apart at any of its
events (`Run.split`), and what each step keeps is kept all the way (`Run.keeps`). What a step does
is told by what the procedure of its stage leads to (`Step.elim`).

The steps of a call make up a procedure, if what is left to do at a stage is the step of the stage
and then what is left to do after it. Then a client that no other one disturbs comes to the answer
and the session that the procedure comes to (`exists_run_alone`).
-/

namespace PagedQueue

/-- What each stage has, if anything, no two clients have at once. -/
def Crowd.Apart {σ κ β : Type} (part? : κ → Option β) (w : Crowd σ κ) : Prop :=
  ∀ client other b, part? (w.stage client) = some b → part? (w.stage other) = some b →
    client = other

/-- A client goes on with what it had, or with what no client had. -/
theorem Crowd.Apart.put {σ κ β : Type} {part? : κ → Option β} {w : Crowd σ κ}
    (h : w.Apart part?) {client : Nat} {k : κ} {t : Session σ}
    (hk : ∀ {b}, part? k = some b → part? (w.stage client) = some b
      ∨ ∀ other, part? (w.stage other) ≠ some b) :
    (w.put client k t).Apart part? := by
  have hfree {other : Nat} {b : β} (hne : other ≠ client) (hother : part? (w.stage other) = some b)
      (hb : part? k = some b) : False := by
    rcases hk hb with hmine | hnone
    · exact hne (h other client b hother hmine)
    · exact hnone other hother
  intro one other b hone hother
  by_cases hne : one = client
  · by_cases hne' : other = client
    · rw [hne, hne']
    · rw [hne, stage_put_self] at hone
      rw [stage_put_of_ne _ hne'] at hother
      exact (hfree hne' hother hone).elim
  · rw [stage_put_of_ne _ hne] at hone
    by_cases hne' : other = client
    · rw [hne', stage_put_self] at hother
      exact (hfree hne hone hother).elim
    · rw [stage_put_of_ne _ hne'] at hother
      exact h one other b hone hother

namespace Protocol

open Procedure

variable {σ ι κ : Type} {P : Protocol σ ι κ} {w v u : Crowd σ κ}
    {trace before after : List (Event κ)}
  {e : Event κ}

/-- The step of a stage is what the procedure of the stage leads to. -/
theorem take_elim (done : Event κ → Crowd σ κ → Prop) {client : Nat}
    (h : (P.advance (w.stage client)).Leads w.session
      (fun k t => done ⟨client, w.stage client, k⟩ (w.put client k t))
      fun fault t => done ⟨client, w.stage client, P.fail fault⟩ (w.put client (P.fail fault) t)) :
    done ⟨client, w.stage client, (P.take w client).stage client⟩ (P.take w client) := by
  unfold Leads at h
  unfold Protocol.take
  split at h
  next k t heq => simpa [heq] using h
  next fault t heq => simpa [heq] using h

/-- A step is a call, or it is what the procedure of a stage leads to. -/
theorem Step.elim (done : Event κ → Crowd σ κ → Prop) (h : P.Step w e u)
    (hcall : ∀ client call, P.isFree (w.stage client) = true →
      done ⟨client, w.stage client, P.start call⟩ (w.put client (P.start call) w.session))
    (htake : ∀ client, (P.advance (w.stage client)).Leads w.session
      (fun k t => done ⟨client, w.stage client, k⟩ (w.put client k t))
      fun fault t => done ⟨client, w.stage client, P.fail fault⟩ (w.put client (P.fail fault) t)) :
    done e u := by
  cases h with
  | call client call hfree => exact hcall client call hfree
  | take client => exact take_elim done (htake client)

theorem Run.append (h : P.Run w before v) (h' : P.Run v after u) : P.Run w (before ++ after) u := by
  induction h' with
  | rest => simpa using h
  | step _ hstep ih =>
    rw [← List.append_assoc]
    exact .step ih hstep

/-- A run goes through a crowd at each of its events. -/
theorem Run.split (h : P.Run w (before ++ e :: after) u) :
    ∃ v v', P.Run w before v ∧ P.Step v e v' ∧ P.Run v' after u := by
  induction after using List.reverseRecOn generalizing u with
  | nil =>
    generalize htrace : before ++ [e] = trace at h
    cases h with
    | rest => simp at htrace
    | step hbefore hstep =>
      obtain ⟨rfl, heq⟩ := List.append_inj' htrace rfl
      cases heq
      exact ⟨_, _, hbefore, hstep, .rest⟩
  | append_singleton after last ih =>
    generalize htrace : before ++ e :: (after ++ [last]) = trace at h
    cases h with
    | rest => simp at htrace
    | step hbefore hstep =>
      rw [← List.cons_append, ← List.append_assoc] at htrace
      obtain ⟨rfl, heq⟩ := List.append_inj' htrace rfl
      cases heq
      obtain ⟨v, v', hrun, hmiddle, hrest⟩ := ih hbefore
      exact ⟨v, v', hrun, hmiddle, .step hrest hstep⟩

/-- What each step keeps holds to the end of a run. -/
theorem Run.keeps (kept : Crowd σ κ → Prop) (h : P.Run w trace u) (hstart : kept w)
    (hstep : ∀ {v e v'}, P.Step v e v' → e ∈ trace → kept v → kept v') : kept u := by
  induction h with
  | rest => exact hstart
  | step _ hlast ih =>
    refine hstep hlast (by simp) (ih fun hbefore hmem => hstep hbefore ?_)
    exact List.mem_append_left _ hmem

theorem Run.cons (hstep : P.Step w e v) (h : P.Run v trace u) : P.Run w (e :: trace) u :=
  (Run.step .rest hstep).append h

/-- What clients do in a given order is a run. -/
theorem run_perform (P : Protocol σ ι κ) (w : Crowd σ κ) (acts : List (Nat × ι)) :
    P.Run w (P.perform w acts).1 (P.perform w acts).2 := by
  induction acts generalizing w with
  | nil => exact .rest
  | cons act rest ih =>
    obtain ⟨client, call⟩ := act
    simp only [perform]
    split
    next hfree =>
      have hstage : (P.call w client call).stage client = P.start call := w.stage_put_self ..
      rw [hstage]
      exact .cons (.call client call hfree) (ih _)
    next => exact .cons (.take client) (ih _)

/-- A client that does not act stays where it is. -/
theorem stage_perform_of_forall_ne {acts : List (Nat × ι)} {client : Nat}
    (h : ∀ act ∈ acts, client ≠ act.1) : (P.perform w acts).2.stage client = w.stage client := by
  induction acts generalizing w with
  | nil => rfl
  | cons act rest ih =>
    rw [List.forall_mem_cons] at h
    simp only [perform]
    rw [ih h.2]
    split
    · exact Crowd.stage_put_of_ne _ h.1 ..
    · unfold Protocol.take
      split <;> exact Crowd.stage_put_of_ne _ h.1 ..

/-- What is true of the stages of all clients that act is true of those of all clients, if it was at
first. -/
theorem forall_stage_perform {p : κ → Bool} {acts : List (Nat × ι)} {n : Nat}
    (hfirst : ∀ client, p (w.stage client) = true) (hacts : ∀ act ∈ acts, act.1 < n)
    (hp : (List.range n).all (fun client => p ((P.perform w acts).2.stage client)) = true)
    (client : Nat) : p ((P.perform w acts).2.stage client) = true := by
  by_cases hclient : client < n
  · exact List.all_eq_true.mp hp client (List.mem_range.mpr hclient)
  · have hne : ∀ act ∈ acts, client ≠ act.1 := fun act hact heq =>
      hclient (heq.trans_lt (hacts act hact))
    rw [stage_perform_of_forall_ne hne]
    exact hfirst client

/-! ## A client that is alone -/

variable {α D : Type}

/-- What a stage has left to do is what a client does that no other one disturbs: the call ends with
the answer and the session of the procedure. Each step comes nearer to the end, and leaves to do
what was left before it. -/
theorem exists_run_alone_of [Preorder D] [WellFoundedLT D] {rest : κ → Procedure σ α}
    {ended : Except Fault α → κ} (fits : κ → Session σ → Prop) (distance : κ → D)
    (hended : ∀ answer s, fits (ended answer) s → (rest (ended answer)).outcome s = (answer, s))
    (hfail : ∀ fault, P.fail fault = ended (.error fault))
    (hgoes : ∀ k s, fits k s → (P.advance k).Leads s
      (fun k' t => (rest k').outcome t = (rest k).outcome s
        ∧ ((∃ answer, k = ended answer) ∨ fits k' t ∧ distance k' < distance k))
      fun fault t => (rest k).outcome s = (.error fault, t))
    (w : Crowd σ κ) (client : Nat) (hfits : fits (w.stage client) w.session) :
    ∃ trace u, P.Run w trace u ∧ (∀ e ∈ trace, e.client = client)
      ∧ u.stage client = ended ((rest (w.stage client)).outcome w.session).1
      ∧ u.session = ((rest (w.stage client)).outcome w.session).2 := by
  induction hd : distance (w.stage client) using WellFoundedLT.induction generalizing w with
  | ind d ih =>
  have hstep := Step.take (P := P) (w := w) client
  have hnear := hgoes (w.stage client) w.session hfits
  unfold Leads at hnear
  rw [Protocol.take] at hstep
  cases hrun : P.advance (w.stage client) w.session with
  | ok k t =>
    simp only [hrun, Crowd.stage_put_self] at hnear hstep
    obtain ⟨hsame, ⟨answer, hanswer⟩ | ⟨hfits', hlt⟩⟩ := hnear
    · rw [hanswer] at hfits
      refine ⟨[], w, .rest, by simp, ?_⟩
      rw [hanswer, hended answer _ hfits]
      exact ⟨rfl, rfl⟩
    · have hk := w.stage_put_self client k t
      obtain ⟨trace, u, hafter, hclient, hends⟩ := ih (distance k) (hd ▸ hlt) (w.put client k t)
        (by rwa [hk]) (by rw [hk])
      rw [hk, Crowd.session_put, hsame] at hends
      exact ⟨_, u, (Run.step .rest hstep).append hafter, by simpa using hclient, hends⟩
  | error fault t =>
    simp only [hrun, Crowd.stage_put_self] at hnear hstep
    refine ⟨_, _, .step .rest hstep, by simp, ?_⟩
    rw [hnear, Crowd.stage_put_self, hfail]
    exact ⟨rfl, rfl⟩

/-- The same, where what is left to do at a stage is its step and then what is left after it. -/
theorem exists_run_alone [Preorder D] [WellFoundedLT D] {rest : κ → Procedure σ α}
    {ended : Except Fault α → κ} (distance : κ → D) (hrest : ∀ k, rest k = P.advance k >>= rest)
    (hended : ∀ answer, rest (ended answer) = ofExcept answer)
    (hfail : ∀ fault, P.fail fault = ended (.error fault))
    (hnears : ∀ k s, (P.advance k).Leads s
      (fun k' _ => (∃ answer, k = ended answer) ∨ distance k' < distance k) fun _ _ => True)
    (w : Crowd σ κ) (client : Nat) :
    ∃ trace u, P.Run w trace u ∧ (∀ e ∈ trace, e.client = client)
      ∧ u.stage client = ended ((rest (w.stage client)).outcome w.session).1
      ∧ u.session = ((rest (w.stage client)).outcome w.session).2 := by
  refine exists_run_alone_of (fun _ _ => True) distance ?_ hfail ?_ w client trivial
  · intro answer s _
    rw [hended]
    cases answer <;> rfl
  · intro k s _
    have hnear := hnears k s
    have hsplit : (rest k).outcome s = (P.advance k >>= rest).outcome s :=
      congrArg (outcome · s) (hrest k)
    unfold Leads outcome at *
    simp only [bind, EStateM.bind] at hsplit
    split at hnear
    next heq =>
      simp only [heq] at hsplit ⊢
      exact ⟨hsplit.symm, hnear.imp_right fun hlt => ⟨trivial, hlt⟩⟩
    next heq => simpa only [heq] using hsplit

end Protocol

end PagedQueue
