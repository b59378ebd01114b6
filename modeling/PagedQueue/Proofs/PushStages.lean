import Mathlib.Data.Prod.Lex
import PagedQueue.Proofs.PageCourse
import PagedQueue.Queue.Clients

/-!
# What the steps of a push make up

To write bytes is to write what lies in their first page and then the rest
(`PagedFile.writeBytes_eq`). So the steps of a push make up the push: what a client has left to do
at a stage (`PushStage.rest`) is the step of the stage and then what it has left to do after it
(`rest_advance`), and a client that is alone comes to the answer and the queue that the push comes
to (`push_run_alone`).
-/

namespace PagedQueue

open Procedure

/-! ## Procedures on a part -/

/-- Procedures on a part of the memory follow one another there as they do on the whole. -/
theorem Procedure.within_bind {σ τ α β : Type} {part : τ → σ} {replace : σ → τ → τ}
    (hpart : ∀ v m, part (replace v m) = v)
    (hreplace : ∀ v w m, replace v (replace w m) = replace v m) (p : Procedure σ α)
    (f : α → Procedure σ β) :
    within part replace (p >>= f)
      = within part replace p >>= fun a => within part replace (f a) := by
  funext s
  simp only [within, bind, EStateM.bind]
  cases p ⟨s.host, part s.memory⟩ with
  | error fault t => rfl
  | ok value t =>
    simp only [hpart]
    cases f value ⟨t.host, t.memory⟩ <;> simp only [hreplace]

section Parts

variable {α β : Type}

theorem Queue.onIndex_bind (p : Procedure MessageIndex α) (f : α → Procedure MessageIndex β) :
    Queue.onIndex (p >>= f) = Queue.onIndex p >>= fun a => Queue.onIndex (f a) :=
  within_bind (by intro _ _; rfl) (by intro _ _ _; rfl) p f

theorem Queue.onPayloads_bind (p : Procedure PayloadLog α) (f : α → Procedure PayloadLog β) :
    Queue.onPayloads (p >>= f) = Queue.onPayloads p >>= fun a => Queue.onPayloads (f a) :=
  within_bind (by intro _ _; rfl) (by intro _ _ _; rfl) p f

theorem MessageIndex.onFile_bind (p : Procedure PagedFile α) (f : α → Procedure PagedFile β) :
    MessageIndex.onFile (p >>= f) = MessageIndex.onFile p >>= fun a => MessageIndex.onFile (f a) :=
  within_bind (by intro _ _; rfl) (by intro _ _ _; rfl) p f

theorem PayloadLog.onFile_bind (p : Procedure PagedFile α) (f : α → Procedure PagedFile β) :
    PayloadLog.onFile (p >>= f) = PayloadLog.onFile p >>= fun a => PayloadLog.onFile (f a) :=
  within_bind (by intro _ _; rfl) (by intro _ _ _; rfl) p f

theorem PagedFile.onStore_bind (p : Procedure PageStore α) (f : α → Procedure PageStore β) :
    PagedFile.onStore (p >>= f) = PagedFile.onStore p >>= fun a => PagedFile.onStore (f a) :=
  within_bind (by intro _ _; rfl) (by intro _ _ _; rfl) p f

end Parts

/-! ## The page size of a store -/

namespace PageStore

variable {first : PageStore}

/-- Nothing that happens on the way of an access changes what a store is, whether the cache is in
order or not. -/
theorem course_same (first : PageStore) : Course fun _ _ s => Same first s where
  take h _ _ := h.trans ⟨rfl, rfl, rfl⟩
  grown h _ _ := h.trans ⟨rfl, rfl, rfl⟩
  giveBack h := h.trans ⟨rfl, rfl, rfl⟩
  touch _ _ h := h.trans ⟨rfl, rfl, rfl⟩
  letGo h _ := h.trans (same_letGo _ _)
  shareTicket _ h := h
  takeTicket _ h := h.trans ⟨rfl, rfl, rfl⟩
  withdrawTicket h := h.trans ⟨rfl, rfl, rfl⟩

theorem keeps_same_writeAt (index start : Nat) (bytes : List UInt8) :
    Keeps (Same first) (withPage index fun id => writePage id start bytes) :=
  (course_same first).keeps_writeAt (fun _ h _ => h.trans ⟨rfl, rfl, rfl⟩) index start bytes

end PageStore

/-! ## Bytes page by page -/

namespace PagedFile

theorem writeBytes_nil (start : Nat) : writeBytes start [] = markWritten start := by
  funext s
  have hnone : pieces s.memory.store.pageSize s.memory.store.pageSize_pos start 0 = [] := by
    rw [pieces.eq_def, if_pos rfl]
  show (do
    onStore (writePieces (pieces s.memory.store.pageSize s.memory.store.pageSize_pos start 0) [])
    markWritten start : Procedure PagedFile Unit) s = markWritten start s
  rw [hnone]
  rfl

/-- The pieces are cut for the page size that the store has. -/
private theorem writeBytes_apply {pageSize : Nat} (pageSize_pos : 0 < pageSize) (start : Nat)
    (bytes : List UInt8) {s : Session PagedFile} (h : s.memory.store.pageSize = pageSize) :
    writeBytes start bytes s = (do
      onStore (writePieces (pieces pageSize pageSize_pos start bytes.length) bytes)
      markWritten (start + bytes.length) : Procedure PagedFile Unit) s := by
  subst h
  rfl

private theorem writeFirst_bind_apply {α : Type} (start : Nat) (bytes : List UInt8)
    (f : Nat → Procedure PagedFile α) (s : Session PagedFile) :
    (writeFirst start bytes >>= f) s
      = (onStore (PageStore.withPage (start / s.memory.store.pageSize) fun id =>
        PageStore.writePage id
            start (bytes.take (firstLength s.memory.store.pageSize start bytes.length)))
              >>= fun _ =>
          f (firstLength s.memory.store.pageSize start bytes.length)) s := by
  unfold writeFirst
  simp only [bind_assoc, pure_bind]
  rfl

/-- To write bytes is to write those in their first page, and then the rest. -/
theorem writeBytes_eq (start : Nat) {bytes : List UInt8} (h : bytes ≠ []) :
    writeBytes start bytes
      = writeFirst start bytes >>= fun count => writeBytes (start + count) (bytes.drop count) := by
  funext s
  have hlength : bytes.length ≠ 0 := fun hzero => h (List.length_eq_zero_iff.mp hzero)
  have hle := firstLength_le s.memory.store.pageSize start bytes.length
  rw [writeBytes_apply s.memory.store.pageSize_pos start bytes rfl, pieces.eq_def, if_neg hlength,
    writePieces, onStore_bind, bind_assoc, writeFirst_bind_apply]
  dsimp only
  generalize firstLength s.memory.store.pageSize start bytes.length = first at *
  have hsame : Keeps (fun file => PageStore.Same s.memory.store file.store)
      (onStore (PageStore.withPage (start / s.memory.store.pageSize) fun id =>
        PageStore.writePage id start (bytes.take first))) :=
    .within fun _ hfile => ⟨_, PageStore.keeps_same_writeAt _ _ _, hfile, fun _ hstore => hstore⟩
  have hfirst := hsame s (.refl _)
  unfold Leads at hfirst
  simp only [bind, EStateM.bind]
  cases hrun : onStore (PageStore.withPage (start / s.memory.store.pageSize) fun id =>
      PageStore.writePage id start (bytes.take first)) s with
  | error fault t => rfl
  | ok _ t =>
    -- the rest is cut as it was, since the page size is the same
    rw [hrun] at hfirst
    dsimp only
    rw [writeBytes_apply s.memory.store.pageSize_pos (start + first) (bytes.drop first)
      hfirst.pageSize, List.length_drop, Nat.add_assoc, Nat.add_sub_cancel' hle]
    rfl

/-- Of bytes that are to be written, some are written. -/
theorem writeFirst_pos (t : Session PagedFile) (start : Nat) {bytes : List UInt8}
    (h : bytes.length ≠ 0) :
    (writeFirst start bytes).Leads t (fun count _ => 0 < count) fun _ _ => True := by
  unfold writeFirst
  rw [leads_bind, leads_memory, leads_bind]
  refine (keeps_true _ t trivial).mono (fun _ _ _ => ?_) fun _ _ => id
  exact firstLength_pos t.memory.store.pageSize_pos start h

end PagedFile

/-! ## Pushes as wholes -/

namespace PushStage

open Queue (onIndex onPayloads)

/-- Stores what is left of a message whose UUID is reserved, which ends the reservation, and ends
the push. -/
def storing (uuid : Uuid) (p : Procedure Queue Unit) : Procedure Queue Bool := do
  tryFinally p (onIndex (MessageIndex.withdraw uuid))
  Queue.afterChange
  return true

/-- Takes a position and stores the record of a message whose payload is at an offset. -/
def publishing (m : Message) (offset : Nat) : Procedure Queue Unit :=
  discard (onIndex (MessageIndex.publish m.uuid (.ofNat offset) (.ofNat m.size) m.kind))

/-- What a client has left to do at a stage, if no other client disturbs it. -/
def rest : PushStage → Procedure Queue Bool
  | .check m => Queue.push m
  | .notePending m => do
    if !(← onIndex (MessageIndex.reserve m.uuid)) then return false
    storing m.uuid (Queue.store m)
  | .checkLive m => do
    if (← memory).index.live.contains m.uuid then
      onIndex (MessageIndex.withdraw m.uuid)
      return false
    storing m.uuid (Queue.store m)
  | .refuse uuid => do
    onIndex (MessageIndex.withdraw uuid)
    return false
  | .reservePlace m => storing m.uuid (Queue.store m)
  | .writePayload m offset written => storing m.uuid do
    onPayloads (PayloadLog.onFile
      (PagedFile.writeBytes (offset + written) (m.payload.drop written)))
    publishing m offset
  | .takePosition m offset => storing m.uuid (publishing m offset)
  | .writeRecord e id written => storing e.uuid do
    onIndex (MessageIndex.onFile
      (PagedFile.writeBytes (Record.place e.position + written) (e.toRecord.encode.drop written)))
    onIndex (MessageIndex.raiseCount (e.position + 1))
    onIndex (MessageIndex.enterLive e.uuid id)
    onIndex (MessageIndex.enterOrdered e.position id)
  | .raiseCount e id => storing e.uuid do
    onIndex (MessageIndex.raiseCount (e.position + 1))
    onIndex (MessageIndex.enterLive e.uuid id)
    onIndex (MessageIndex.enterOrdered e.position id)
  | .enterLive e id => storing e.uuid do
    onIndex (MessageIndex.enterLive e.uuid id)
    onIndex (MessageIndex.enterOrdered e.position id)
  | .enterOrdered e id => storing e.uuid (onIndex (MessageIndex.enterOrdered e.position id))
  | .withdraw uuid answer => do
    onIndex (MessageIndex.withdraw uuid)
    ofExcept answer
    Queue.afterChange
    return true
  | .settle => do
    Queue.afterChange
    return true
  | .ended answer => ofExcept answer

/-- A part of storing a message that may fail, and the rest of it. -/
private theorem rest_stored {α : Type} (uuid : Uuid) (p : Procedure Queue α)
    (q : α → Procedure Queue Unit) {next : α → PushStage}
    (hnext : ∀ value, (next value).rest = storing uuid (q value)) :
    storing uuid (p >>= q) = guarded uuid (p >>= fun value => pure (next value)) >>= rest := by
  funext s
  simp only [storing, guarded, tryFinally, MonadFinally.tryFinally', bind, EStateM.bind,
    tryCatch_apply, pure, EStateM.pure, Functor.map, EStateM.map]
  cases p s with
  | ok value t =>
    simp only [hnext, storing, tryFinally, MonadFinally.tryFinally', bind, EStateM.bind, pure,
      EStateM.pure, Functor.map, EStateM.map]
  | error fault t => rfl

private theorem onIndex_memory_bind {α : Type} (f : MessageIndex → Procedure Queue α) :
    (onIndex memory >>= f) = memory >>= fun q => f q.index := rfl

private theorem publishing_eq (m : Message) (offset : Nat) :
    publishing m offset = (do
      let position ← onIndex MessageIndex.takePosition
      let id ← onIndex (MessageIndex.addEntry (entryOf m offset position))
      onIndex (MessageIndex.onFile (PagedFile.writeBytes (Record.place position)
        (entryOf m offset position).toRecord.encode))
      onIndex (MessageIndex.raiseCount (position + 1))
      onIndex (MessageIndex.enterLive m.uuid id)
      onIndex (MessageIndex.enterOrdered position id)) := by
  unfold publishing MessageIndex.publish MessageIndex.writeRecord
  simp only [discard_eq_bind, Queue.onIndex_bind, bind_assoc]
  refine bind_congr fun position => bind_congr fun id => bind_congr fun _ => bind_congr fun _ =>
    bind_congr fun _ => ?_
  rfl

/-- What is left to do is the step of the stage, and then what is left to do after it. -/
theorem rest_advance (k : PushStage) : k.rest = k.advance >>= rest := by
  cases k with
  | check m =>
    simp only [rest, advance, Queue.push, bind_assoc]
    refine bind_congr fun _ => ?_
    split
    · rfl
    split
    · rfl
    simp only [pure_bind, rest]
    refine bind_congr fun reserved => ?_
    cases reserved <;> rfl
  | notePending m =>
    simp only [rest, advance, MessageIndex.reserve, Queue.onIndex_bind, bind_assoc]
    refine bind_congr fun noted => ?_
    cases noted
    · rfl
    simp only [Bool.not_true, Bool.false_eq_true, ↓reduceIte, pure_bind, rest, Queue.onIndex_bind,
      bind_assoc]
    refine (onIndex_memory_bind _).trans (bind_congr fun q => ?_)
    split <;> rfl
  | checkLive m =>
    simp only [rest, advance, bind_assoc]
    refine bind_congr fun q => ?_
    split <;> rfl
  | refuse uuid => rfl
  | reservePlace m =>
    simp only [rest, advance, Queue.store, PayloadLog.append, bind_assoc, Queue.onPayloads_bind,
      pure_bind]
    rfl
  | writePayload m offset written =>
    simp only [rest, advance]
    split
    next hlt =>
      have hbytes : m.payload.drop written ≠ [] :=
        List.ne_nil_of_length_pos (by rw [List.length_drop]; exact Nat.sub_pos_of_lt hlt)
      rw [PagedFile.writeBytes_eq _ hbytes, PayloadLog.onFile_bind, Queue.onPayloads_bind,
        bind_assoc]
      refine rest_stored _ _ _ fun length => ?_
      simp only [rest, List.drop_drop, Nat.add_assoc]
    next hle =>
      rw [List.drop_eq_nil_of_le (Nat.le_of_not_lt hle), PagedFile.writeBytes_nil]
      exact rest_stored _ _ _ fun _ => rfl
  | takePosition m offset =>
    simp only [rest, advance, publishing_eq, bind_assoc, pure_bind]
    rfl
  | writeRecord e id written =>
    simp only [rest, advance]
    split
    next hlt =>
      have hbytes : e.toRecord.encode.drop written ≠ [] := List.ne_nil_of_length_pos (by
        rw [List.length_drop, Record.length_encode]
        exact Nat.sub_pos_of_lt hlt)
      rw [PagedFile.writeBytes_eq _ hbytes, MessageIndex.onFile_bind, Queue.onIndex_bind,
        bind_assoc]
      refine rest_stored _ _ _ fun length => ?_
      simp only [rest, List.drop_drop, Nat.add_assoc]
    next hle =>
      rw [List.drop_eq_nil_of_le ((Record.length_encode _).trans_le (Nat.le_of_not_lt hle)),
        PagedFile.writeBytes_nil]
      exact rest_stored _ _ _ fun _ => rfl
  | raiseCount e id => exact rest_stored e.uuid _ _ fun _ => rfl
  | enterLive e id => rfl
  | enterOrdered e id => rfl
  | withdraw uuid answer => cases answer <;> rfl
  | settle =>
    simp only [rest, advance, bind_assoc, pure_bind]
    rfl
  | ended answer => rfl

/-- How many kinds of steps are ahead at most. -/
def kindsAhead : PushStage → Nat
  | .check _ => 13
  | .notePending _ => 12
  | .checkLive _ => 11
  | .reservePlace _ => 10
  | .writePayload _ _ _ => 9
  | .takePosition _ _ => 8
  | .writeRecord _ _ _ => 7
  | .raiseCount _ _ => 6
  | .enterLive _ _ => 5
  | .enterOrdered _ _ => 4
  | .withdraw _ _ => 3
  | .settle => 2
  | .refuse _ => 1
  | .ended _ => 0

/-- How many bytes are left of what is being written. -/
def bytesAhead : PushStage → Nat
  | .writePayload m _ written => m.size - written
  | .writeRecord _ _ written => Record.size - written
  | _ => 0

/-- How far a push is from its end. -/
def distance (k : PushStage) : Nat ×ₗ Nat := toLex (k.kindsAhead, k.bytesAhead)

/-- A stage comes after another one on the way to the end, or the push is over. -/
def Nears (k k' : PushStage) : Prop := (∃ answer, k = .ended answer) ∨ k'.distance < k.distance

theorem nears_of_kind {k k' : PushStage} (h : k'.kindsAhead < k.kindsAhead) : k.Nears k' :=
  .inr (Prod.Lex.toLex_lt_toLex.mpr (.inl h))

theorem nears_of_bytes {k k' : PushStage} (hkind : k'.kindsAhead = k.kindsAhead)
    (h : k'.bytesAhead < k.bytesAhead) : k.Nears k' :=
  .inr (Prod.Lex.toLex_lt_toLex.mpr (.inr ⟨hkind, h⟩))

variable {s : Session Queue} {k : PushStage}

private theorem nears_bind {α : Type} {p : Procedure Queue α} {f : α → Procedure Queue PushStage}
    (hf : ∀ value t, (f value).Leads t (fun k' _ => k.Nears k') fun _ _ => True) :
    (p >>= f).Leads s (fun k' _ => k.Nears k') fun _ _ => True :=
  (leads_bind p f).mpr ((keeps_true p s trivial).mono (fun value t _ => hf value t) fun _ _ => id)

private theorem nears_guarded {uuid : Uuid} {p : Procedure Queue PushStage}
    (hp : p.Leads s (fun k' _ => k.Nears k') fun _ _ => True)
    (hk : ∀ answer, k.Nears (.withdraw uuid answer)) :
    (guarded uuid p).Leads s (fun k' _ => k.Nears k') fun _ _ => True :=
  (leads_tryCatch p _).mpr (hp.mono (fun _ _ => id) fun fault _ _ => hk (.error fault))

/-- A step comes nearer to the end of the push, or the push is over. -/
theorem advance_nears (k : PushStage) (s : Session Queue) :
    k.advance.Leads s (fun k' _ => k.Nears k') fun _ _ => True := by
  cases k with
  | check m =>
    refine nears_bind fun _ _ => ?_
    rw [leads_ite]
    split
    · exact trivial
    rw [leads_ite]
    split
    · exact trivial
    · exact nears_of_kind (by simp [kindsAhead])
  | notePending m =>
    refine nears_bind fun noted _ => ?_
    cases noted <;> exact nears_of_kind (by simp [kindsAhead])
  | checkLive m =>
    refine nears_bind fun q _ => ?_
    rw [leads_ite]
    split <;> exact nears_of_kind (by simp [kindsAhead])
  | refuse uuid => exact nears_bind fun _ _ => nears_of_kind (by simp [kindsAhead])
  | reservePlace m => exact nears_bind fun _ _ => nears_of_kind (by simp [kindsAhead])
  | writePayload m offset written =>
    refine nears_guarded ?_ fun _ => nears_of_kind (by simp [kindsAhead])
    rw [leads_ite]
    split
    next hlt =>
      unfold Queue.onPayloads PayloadLog.onFile
      simp only [leads_bind, leads_within, leads_pure]
      refine (PagedFile.writeFirst_pos _ _ ?_).mono
        (fun count _ hcount => nears_of_bytes rfl ?_) fun _ _ => id
      · rw [List.length_drop]
        exact Nat.sub_ne_zero_of_lt hlt
      · simp only [bytesAhead]
        omega
    next => exact nears_bind fun _ _ => nears_of_kind (by simp [kindsAhead])
  | takePosition m offset =>
    exact nears_bind fun _ _ => nears_bind fun _ _ => nears_of_kind (by simp [kindsAhead])
  | writeRecord e id written =>
    refine nears_guarded ?_ fun _ => nears_of_kind (by simp [kindsAhead])
    rw [leads_ite]
    split
    next hlt =>
      unfold Queue.onIndex MessageIndex.onFile
      simp only [leads_bind, leads_within, leads_pure]
      refine (PagedFile.writeFirst_pos _ _ ?_).mono
        (fun count _ hcount => nears_of_bytes rfl ?_) fun _ _ h => h
      · rw [List.length_drop, Record.length_encode]
        exact Nat.sub_ne_zero_of_lt hlt
      · simp only [bytesAhead]
        omega
    next => exact nears_bind fun _ _ => nears_of_kind (by simp [kindsAhead])
  | raiseCount e id =>
    exact nears_guarded (nears_bind fun _ _ => nears_of_kind (by simp [kindsAhead])) fun _ =>
      nears_of_kind (by simp [kindsAhead])
  | enterLive e id => exact nears_bind fun _ _ => nears_of_kind (by simp [kindsAhead])
  | enterOrdered e id => exact nears_bind fun _ _ => nears_of_kind (by simp [kindsAhead])
  | withdraw uuid answer =>
    refine nears_bind fun _ _ => ?_
    cases answer <;> exact nears_of_kind (by simp [kindsAhead])
  | settle => exact nears_bind fun _ _ => nears_of_kind (by simp [kindsAhead])
  | ended answer => exact .inl ⟨answer, rfl⟩

end PushStage

/-- A client that no other one disturbs makes its push to the end, and the push answers and leaves
the queue as `Queue.push` does. -/
theorem Queue.push_run_alone {w : Crowd Queue PushStage} {client : Nat} {m : Message}
    (h : w.stage client = .check m) :
    ∃ trace u, pushing.Run w trace u ∧ (∀ e ∈ trace, e.client = client)
      ∧ u.stage client = .ended ((push m).outcome w.session).1
      ∧ u.session = ((push m).outcome w.session).2 := by
  have halone := Protocol.exists_run_alone (P := pushing) PushStage.distance PushStage.rest_advance
    (fun _ => rfl) (fun _ => rfl) PushStage.advance_nears w client
  rwa [h] at halone

end PagedQueue
