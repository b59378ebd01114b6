import PagedQueue.PayloadLog.Clients
import PagedQueue.Proofs.PushStages

/-!
# What the steps of a call on a payload log make up

The steps of a call make up the procedure of the call (`LogStage.rest_advance`): a client that is
alone comes to the answer and the log that the procedure comes to (`LogStage.exists_run_alone`). So
do the steps of an append, which writes its payload page by page.
-/

namespace PagedQueue

open Procedure

/-- The procedure of a call. -/
def LogCall.run : LogCall → Procedure PayloadLog LogAnswer
  | .append payload => return .appended payload (← PayloadLog.append payload)
  | .read offset length => return .bytes (← PayloadLog.read offset length)
  | .flush => do
    PayloadLog.flush
    return .done
  | .close => do
    PayloadLog.close
    return .done

namespace LogStage

/-- What is left to do at a stage. -/
def rest : LogStage → Procedure PayloadLog LogAnswer
  | .reserve payload => (LogCall.append payload).run
  | .write payload offset written => do
    PayloadLog.onFile (PagedFile.writeBytes (offset + written) (payload.drop written))
    return .appended payload offset
  | .read offset length => (LogCall.read offset length).run
  | .flush => LogCall.flush.run
  | .close => LogCall.close.run
  | .ended answer => ofExcept answer

theorem rest_start (call : LogCall) : (start call).rest = call.run := by
  cases call <;> rfl

/-- What is left to do at a stage is its step, and then what is left to do after it. -/
theorem rest_advance (k : LogStage) : k.rest = k.advance >>= rest := by
  cases k with
  | reserve payload =>
    simp only [rest, advance, LogCall.run, PayloadLog.append, bind_assoc, pure_bind, List.drop_zero,
      Nat.add_zero]
  | write payload offset written =>
    simp only [rest, advance]
    split
    next hlt =>
      have hbytes : payload.drop written ≠ [] :=
        List.ne_nil_of_length_pos (by rw [List.length_drop]; exact Nat.sub_pos_of_lt hlt)
      rw [PagedFile.writeBytes_eq _ hbytes, PayloadLog.onFile_bind]
      simp only [bind_assoc, pure_bind, rest, List.drop_drop, Nat.add_assoc]
    next hle =>
      rw [List.drop_eq_nil_of_le (Nat.le_of_not_lt hle), PagedFile.writeBytes_nil]
      simp only [bind_assoc, pure_bind, rest]
      rfl
  | read | flush | close =>
    simp only [rest, advance, LogCall.run, bind_assoc, pure_bind]
    rfl
  | ended answer => cases answer <;> rfl

/-- How many steps are ahead at most. -/
def distance : LogStage → Nat ×ₗ Nat
  | .reserve _ => toLex (2, 0)
  | .write payload _ written => toLex (1, payload.length - written)
  | .read _ _ | .flush | .close => toLex (1, 0)
  | .ended _ => toLex (0, 0)

/-- A step comes nearer to the end of the call, or the call is over. -/
theorem advance_nears (k : LogStage) (s : Session PayloadLog) :
    k.advance.Leads s (fun k' _ => (∃ answer, k = .ended answer) ∨ k'.distance < k.distance)
      fun _ _ => True := by
  cases k with
  | reserve payload =>
    rw [advance, leads_bind]
    refine (keeps_true _ s trivial).mono (fun _ _ _ => .inr ?_) fun _ _ => id
    simp [distance, Prod.Lex.toLex_lt_toLex]
  | write payload offset written =>
    rw [advance, leads_ite]
    split
    next hlt =>
      unfold PayloadLog.onFile
      simp only [leads_bind, leads_within, leads_pure]
      refine (PagedFile.writeFirst_pos _ _ ?_).mono (fun count _ hcount => .inr ?_) fun _ _ => id
      · rw [List.length_drop]
        exact Nat.sub_ne_zero_of_lt hlt
      · refine Prod.Lex.toLex_lt_toLex.mpr (.inr ⟨rfl, ?_⟩)
        dsimp only
        omega
    next =>
      rw [leads_bind]
      refine (keeps_true _ s trivial).mono (fun _ _ _ => .inr ?_) fun _ _ => id
      simp [distance, Prod.Lex.toLex_lt_toLex]
  | read | flush | close =>
    rw [advance, leads_bind]
    refine (keeps_true _ s trivial).mono (fun _ _ _ => .inr ?_) fun _ _ => id
    simp [distance, Prod.Lex.toLex_lt_toLex]
  | ended answer => exact .inl ⟨answer, rfl⟩

/-- A client that no other one disturbs makes its call to the end, and the call answers and leaves
the log as the procedure does. -/
theorem exists_run_alone (w : Crowd PayloadLog LogStage) (client : Nat) :
    ∃ trace u, PayloadLog.sharing.Run w trace u ∧ (∀ e ∈ trace, e.client = client)
      ∧ u.stage client = .ended ((w.stage client).rest.outcome w.session).1
      ∧ u.session = ((w.stage client).rest.outcome w.session).2 :=
  Protocol.exists_run_alone distance rest_advance (fun _ => rfl)
    (fun _ => rfl) advance_nears w client

end LogStage

end PagedQueue
