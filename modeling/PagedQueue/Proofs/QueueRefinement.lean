import PagedQueue.Proofs.QueueOpening

/-!
# A queue is a ledger

A client of a queue puts messages in, takes them, finishes them or gives them back, asks for what
there is, and opens the queue anew. What is answered is what the same calls answer on a ledger that
was empty at first (`QueueAction.answers`), whatever the settings are and what the clock shows
(`queue_refines_ledger`).

One call keeps the invariant (`QueueCall.run_ensures`): the queue tracks a ledger, and no push is
under way. A queue that is opened anew finds the same messages, and puts the next payload behind the
last page (`Queue.reopen_ensures`).
-/

namespace PagedQueue

open Procedure

/-! ## The calls and the ledger -/

/-- A procedure that takes its fault for an answer. -/
def Procedure.attempt {σ α : Type} (procedure : Procedure σ α) : Procedure σ (Except Fault α) :=
  fun s => .ok (procedure.outcome s).1 (procedure.outcome s).2

/-- What is asked of a queue. -/
inductive QueueCall where
  | push (m : Message)
  | get (uuid : Uuid)
  | lock (uuid : Uuid)
  | pop
  | peek
  | finish (uuid : Uuid)
  | rollback (uuid : Uuid)
  | status (uuid : Uuid)
  | size
  | recordCount
  | flush
  /-- What the queue does by itself after an interval. -/
  | checkpoint
  | recover
  | startEmpty

/-- What is answered. -/
inductive QueueAnswer where
  | done
  | isNew (value : Bool)
  | message (value : Option Message)
  | status (value : Option Status)
  | number (value : Nat)
  | tally (value : Tally)
  deriving DecidableEq

namespace Ledger

/-- There is nothing against the message: it has a UUID that no message in the queue has, and it is
not too long. -/
def Admits (l : Ledger) (m : Message) : Prop :=
  m.uuid ≠ Uuid.nil ∧ m.size ≤ Queue.maxPayload ∧ l.items.find? m.uuid = none

instance (l : Ledger) (m : Message) :
    Decidable (l.Admits m) := inferInstanceAs (Decidable (_ ∧ _ ∧ _))

/-- The next payload goes behind the page in which the last one ends. -/
def reopened (l : Ledger) (pageSize : Nat) : Ledger := { l with stop := pageEnd pageSize l.stop }

end Ledger

namespace QueueCall

/-- What a call does with the queue. -/
def run : QueueCall → Procedure Queue QueueAnswer
  | push m => return .isNew (← Queue.push m)
  | get uuid => return .message (← Queue.get? uuid)
  | lock uuid => return .message (← Queue.lock uuid)
  | pop => return .message (← Queue.pop)
  | peek => return .message (← Queue.peek?)
  | finish uuid => return .message (← Queue.finish uuid)
  | rollback uuid => return .message (← Queue.rollback uuid)
  | status uuid => return .status ((← memory).status? uuid)
  | size => return .number (← memory).size
  | recordCount => return .number (← memory).recordCount
  | flush => do
    Queue.flush
    return .done
  | checkpoint => do
    Queue.checkpoint
    return .done
  | recover => return .tally (← Queue.recover)
  | startEmpty => do
    Queue.startEmpty
    return .done

/-- What a call does with a ledger. -/
def onLedger (pageSize : Nat) (l : Ledger) : QueueCall → Ledger
  | push m => if l.Admits m then l.enter m else l
  | lock uuid => l.move (l.items.at? uuid .new) .locked
  | pop => l.move l.items.oldest? .locked
  | finish uuid => l.move (l.items.at? uuid .locked) .deleted
  | rollback uuid => l.move (l.items.at? uuid .locked) .new
  | recover => l.reopened pageSize
  | startEmpty => {}
  | get _ | peek | status _ | size | recordCount | flush | checkpoint => l

/-- What a call answers on a ledger. -/
def answer (l : Ledger) : QueueCall → Except Fault QueueAnswer
  | push m =>
    if m.uuid = Uuid.nil then .error (.rejected .nilUuid)
    else if Queue.maxPayload < m.size then .error (.rejected (.payloadTooLarge m.size))
    else .ok (.isNew (l.items.find? m.uuid).isNone)
  | get uuid => .ok (.message (l.message? (l.items.find? uuid)))
  | lock uuid => .ok (.message (l.message? (l.items.at? uuid .new)))
  | pop | peek => .ok (.message (l.message? l.items.oldest?))
  | finish uuid | rollback uuid => .ok (.message (l.message? (l.items.at? uuid .locked)))
  | status uuid => .ok (.status ((l.items.find? uuid).bind fun p => l.items[p]?.map Item.status))
  | size => .ok (.number (l.items.countP (·.status.isLive)))
  | recordCount => .ok (.number l.items.length)
  | flush | checkpoint | startEmpty => .ok .done
  | recover => .ok (.tally l.items.tally)

/-- A push is only made while a count can cover another record, and a record can hold the offset of
another payload. -/
def Fits (records stop : Nat) : QueueCall → Prop
  | push _ => records < 0x7FFFFFFF ∧ stop < 0x8000000000000000
  | _ => True

end QueueCall

/-- What may change from one opening of a queue to the next. -/
structure Policy where
  lifetime : UInt64
  durability : Durability
  lifetime_ne_zero : lifetime ≠ 0
  not_everyOperations_zero : durability ≠ .everyOperations 0
  not_interval_zero : durability ≠ .interval 0

/-- Settings with another policy. -/
def Policy.onSettings (policy : Policy) (settings : Settings) : Settings :=
  { settings with lifetime := policy.lifetime, durability := policy.durability }

theorem Policy.validate_onSettings (policy : Policy) {settings : Settings}
    (h : settings.validate = .ok ()) : (policy.onSettings settings).validate = .ok () := by
  obtain ⟨hpos, hdvd, hle, -⟩ := (Settings.validate_eq_ok_iff settings).mp h
  exact (Settings.validate_eq_ok_iff _).mpr ⟨hpos, hdvd, hle, policy.lifetime_ne_zero,
    policy.not_everyOperations_zero, policy.not_interval_zero⟩

/-- What a client does with a queue: it calls it, or opens it anew after it closed it or gave it
up. -/
inductive QueueAction where
  | call (call : QueueCall)
  | reopen (closing : Bool) (policy : Policy)

/-- The queue is closed or given up, and opened anew. -/
def Queue.reopen (closing : Bool) (policy : Policy) : Procedure Queue Unit := do
  if closing then close
  let queue ← load (policy.onSettings (← memory).settings)
  update fun _ => queue

namespace QueueAction

/-- What an action does with the queue. -/
def run : QueueAction → Procedure Queue QueueAnswer
  | call c => c.run
  | reopen closing policy => do
    Queue.reopen closing policy
    return .done

/-- Actions follow one another, also after a fault. -/
def runAll (actions : List QueueAction) : Procedure Queue (List (Except Fault QueueAnswer)) :=
  actions.mapM fun action : QueueAction => action.run.attempt

/-- What an action does with a ledger. -/
def onLedger (pageSize : Nat) (l : Ledger) : QueueAction → Ledger
  | call c => c.onLedger pageSize l
  | reopen _ _ => l.reopened pageSize

/-- What an action answers on a ledger. -/
def answer (l : Ledger) : QueueAction → Except Fault QueueAnswer
  | call c => c.answer l
  | reopen _ _ => .ok .done

/-- A push is only made while there is room. -/
def Fits (records stop : Nat) : QueueAction → Prop
  | call c => c.Fits records stop
  | reopen _ _ => True

/-- What actions that follow one another answer on a ledger. -/
def answers (pageSize : Nat) : Ledger → List QueueAction → List (Except Fault QueueAnswer)
  | _, [] => []
  | l, action :: rest => action.answer l :: answers pageSize (action.onLedger pageSize l) rest

/-- There is room for every push among actions that follow one another. -/
def AllFit (pageSize : Nat) : Ledger → List QueueAction → Prop
  | _, [] => True
  | l, action :: rest =>
    action.Fits l.items.length l.stop ∧ AllFit pageSize (action.onLedger pageSize l) rest

end QueueAction

/-! ## One call -/

theorem Procedure.ensures_attempt_iff_outcome {σ α : Type} (p : Procedure σ α) (s : Session σ)
    {done : Except Fault α → Session σ → Prop} :
    p.attempt.Ensures s done ↔ done (p.outcome s).1 (p.outcome s).2 := Iff.rfl

theorem Procedure.ensures_attempt {σ α : Type} (p : Procedure σ α) (s : Session σ)
    {done : Except Fault α → Session σ → Prop} :
    p.attempt.Ensures s done
      ↔ p.Leads s (fun value t => done (.ok value) t) fun fault t => done (.error fault) t := by
  unfold Ensures Leads attempt outcome
  cases p s <;> rfl

namespace Queue

variable {items : Items} {l l' : Ledger} {layout layout' : Nat → Nat} {s t : Session Queue}

/-- The queue tracks the ledger, and no push is under way. -/
structure AtRest (l : Ledger) (layout : Nat → Nat) (s : Session Queue) : Prop
    extends Tracks l layout s where
  idle : ∀ uuid, s.memory.index.pending.contains uuid = false

theorem Goes.atRest (h : Goes items layout l' layout' s t)
    (hidle : ∀ uuid, s.memory.index.pending.contains uuid = false) : AtRest l' layout' t :=
  ⟨h.tracks, fun uuid => (h.pending uuid).trans (hidle uuid)⟩

theorem Tracks.recordCount_eq (h : Tracks l layout s) : s.memory.recordCount = l.items.length :=
  h.index.count_eq

/-- The count of the records is a number of 32 bits. -/
theorem Tracks.length_lt (h : Tracks l layout s) : l.items.length < 0x80000000 := by
  have hcount := h.kept.records.count
  have hlt := Int32.toInt_lt (s.host.disk.space (rootOf s.memory.settings ++ ["meta"])
    s.memory.settings.pageSize).count
  omega

theorem Tracks.reopened_eq (h : Tracks l layout s) :
    (⟨l.items, payloadReach s⟩ : Ledger) = l.reopened s.memory.settings.pageSize := by
  rw [payloadReach, h.reach]
  rfl

theorem Tracks.status?_eq (h : Tracks l layout s) (uuid : Uuid) :
    s.memory.status? uuid = (l.items.find? uuid).bind fun p => l.items[p]?.map Item.status := by
  rw [Queue.status?, MessageIndex.status?]
  have hholds : MessageIndex.Holds s.memory.index (l.items.held layout) := h.index.holds
  rcases hholds.find?_cases h.kept.wellFormed uuid with
    ⟨p, i, id, hp, hid, -, hstands⟩ | ⟨hnone, hnone'⟩
  · rw [hp, hid, Option.bind_some, hstands.item, Option.map_some, Option.map_some, hstands.entry]
    rfl
  · rw [hnone, hnone']
    rfl

theorem Tracks.size_eq (h : Tracks l layout s) : s.memory.size = l.items.countP (·.status.isLive) :=
  h.index.holds.size_eq_countP

end Queue

namespace QueueCall

open Queue (AtRest Goes Tracks)

variable {l : Ledger} {layout : Nat → Nat} {s : Session Queue}

/-- What cannot fail answers with its value. -/
private theorem answers_of_ensures {α : Type} {p : Procedure Queue α} {value : α}
    {left : Session Queue → Prop} (hp : p.Ensures s fun found t => found = value ∧ left t)
    (wrap : α → QueueAnswer) :
    (do return wrap (← p) : Procedure Queue QueueAnswer).attempt.Ensures s
      fun found t => found = .ok (wrap value) ∧ left t := by
  rw [ensures_attempt, leads_bind]
  refine hp.leads.mono ?_ fun _ _ => False.elim
  intro _ t ht
  obtain ⟨rfl, ht⟩ := ht
  exact ⟨rfl, ht⟩

/-- What cannot fail and has no value answers that it is done. -/
private theorem done_of_ensures {p : Procedure Queue Unit} {left : Session Queue → Prop}
    (hp : p.Ensures s fun _ t => left t) :
    (do p; return .done : Procedure Queue QueueAnswer).attempt.Ensures s
      fun found t => found = .ok .done ∧ left t := by
  rw [ensures_attempt, leads_bind]
  exact hp.leads.mono (fun _ _ ht => ⟨rfl, ht⟩) fun _ _ => False.elim

/-- A push answers as on the ledger. -/
theorem push_ensures (h : AtRest l layout s) (m : Message)
    (hfits : (push m).Fits l.items.length l.stop) (pageSize : Nat) :
    ∃ layout', (push m).run.attempt.Ensures s fun found t => found = (push m).answer l
      ∧ Goes l.items layout ((push m).onLedger pageSize l) layout' s t := by
  obtain ⟨hlength, hstop⟩ := hfits
  rw [answer, onLedger]
  -- the checks come in this order, and the first one that fails answers
  by_cases hnil : m.uuid = Uuid.nil
  · have hnot : ¬ l.Admits m := fun hadmits => hadmits.1 hnil
    rw [if_pos hnil, if_neg hnot]
    refine ⟨layout, (ensures_attempt _ _).mpr ?_⟩
    simp only [run, leads_bind]
    refine (Queue.push_nil h.toTracks hnil).mono (fun _ _ => False.elim) ?_
    intro _ _ hand
    obtain ⟨rfl, rfl⟩ := hand
    exact ⟨rfl, h.refl⟩
  by_cases hlong : Queue.maxPayload < m.size
  · have hnot : ¬ l.Admits m := fun hadmits => Nat.not_le_of_lt hlong hadmits.2.1
    rw [if_neg hnil, if_pos hlong, if_neg hnot]
    refine ⟨layout, (ensures_attempt _ _).mpr ?_⟩
    simp only [run, leads_bind]
    refine (Queue.push_long h.toTracks hnil hlong).mono (fun _ _ => False.elim) ?_
    intro _ _ hand
    obtain ⟨rfl, rfl⟩ := hand
    exact ⟨rfl, h.refl⟩
  have hshort := Nat.le_of_not_lt hlong
  rw [if_neg hnil, if_neg hlong]
  cases hfind : l.items.find? m.uuid with
  | some p =>
    have hknown : l.items.find? m.uuid ≠ none := by
      rw [hfind]
      exact Option.some_ne_none p
    have hnot : ¬ l.Admits m := fun hadmits => hknown hadmits.2.2
    rw [if_neg hnot]
    exact ⟨_, answers_of_ensures (Queue.push_known h.toTracks hnil hshort (h.idle _) hknown) .isNew⟩
  | none =>
    rw [if_pos ⟨hnil, hshort, hfind⟩]
    exact ⟨_, answers_of_ensures
      (Queue.push_new h.toTracks hnil hshort (h.idle _) hfind hstop (by omega)) .isNew⟩

/-- A call answers as on the ledger, and takes the queue where it takes the ledger. -/
theorem run_ensures (h : AtRest l layout s) (call : QueueCall)
    (hfits : call.Fits l.items.length l.stop) :
    ∃ layout', call.run.attempt.Ensures s fun found t => found = call.answer l
      ∧ Goes l.items layout (call.onLedger s.memory.settings.pageSize l) layout' s t := by
  have htracks := h.toTracks
  have hlength := htracks.length_lt
  cases call with
  | push m => exact push_ensures h m hfits _
  | get uuid => exact ⟨layout, answers_of_ensures (Queue.get?_ensures htracks uuid) .message⟩
  | lock uuid =>
    exact ⟨layout, answers_of_ensures (Queue.lock_ensures htracks hlength uuid) .message⟩
  | pop => exact ⟨layout, answers_of_ensures (Queue.pop_ensures htracks hlength) .message⟩
  | peek => exact ⟨layout, answers_of_ensures (Queue.peek?_ensures htracks) .message⟩
  | finish uuid =>
    exact ⟨layout, answers_of_ensures (Queue.finish_ensures htracks hlength uuid) .message⟩
  | rollback uuid =>
    exact ⟨layout, answers_of_ensures (Queue.rollback_ensures htracks hlength uuid) .message⟩
  | status uuid =>
    refine ⟨layout, (ensures_attempt _ _).mpr ?_⟩
    simp only [run, leads_bind, leads_memory, leads_pure]
    exact ⟨by rw [htracks.status?_eq, answer], h.refl⟩
  | size =>
    refine ⟨layout, (ensures_attempt _ _).mpr ?_⟩
    simp only [run, leads_bind, leads_memory, leads_pure]
    exact ⟨by rw [htracks.size_eq, answer], h.refl⟩
  | recordCount =>
    refine ⟨layout, (ensures_attempt _ _).mpr ?_⟩
    simp only [run, leads_bind, leads_memory, leads_pure]
    exact ⟨by rw [htracks.recordCount_eq, answer], h.refl⟩
  | flush => exact ⟨layout, done_of_ensures (Queue.flush_ensures htracks)⟩
  | checkpoint => exact ⟨layout, done_of_ensures (Queue.checkpoint_ensures htracks)⟩
  | recover =>
    have hrecover := Queue.recover_ensures htracks.toOpened htracks.started
    rw [htracks.reopened_eq] at hrecover
    exact ⟨layout, answers_of_ensures hrecover .tally⟩
  | startEmpty => exact ⟨layout, done_of_ensures (Queue.startEmpty_ensures htracks.toOpened)⟩

end QueueCall

/-! ## Opening anew -/

namespace Queue

variable {l : Ledger} {layout : Nat → Nat} {s : Session Queue}

/-- A queue that is loaded where another one was finds the same messages. -/
theorem load_ensures_of_tracks {σ : Type} (h : Tracks l layout s) (policy : Policy) (memory : σ) :
    (load (policy.onSettings s.memory.settings) : Procedure σ Queue).Ensures ⟨s.host, memory⟩
      fun q t => AtRest (l.reopened s.memory.settings.pageSize) layout ⟨t.host, q⟩
        ∧ q.settings = policy.onSettings s.memory.settings
        ∧ Trail (Kept s.memory.settings l.items layout) s.host t.host := by
  have hstarted : s.host.disk.reach (Queue.recordDirectory s.memory.settings)
      s.memory.settings.pageSize ≠ 0 := h.reachOf_eq ▸ h.started
  refine (load_ensures (s := ⟨s.host, memory⟩) (policy.validate_onSettings h.valid) h.kept).mono ?_
  intro q t ht
  obtain ⟨-, hq, htracks, hidle, htrail⟩ := ht
  have hledger : (⟨l.items, if s.host.disk.reach (Queue.recordDirectory s.memory.settings)
        s.memory.settings.pageSize = 0 then 0
      else s.host.disk.reach (Queue.payloadDirectory s.memory.settings)
        s.memory.settings.pageSize⟩ : Ledger) = l.reopened s.memory.settings.pageSize := by
    rw [if_neg hstarted, h.reach]
    rfl
  exact ⟨⟨hledger ▸ htracks, hidle⟩, hq, htrail⟩

/-- A queue that is opened anew finds the same messages. -/
theorem reopen_ensures (h : Tracks l layout s) (closing : Bool) (policy : Policy) :
    (reopen closing policy).Ensures s fun _ t =>
      AtRest (l.reopened s.memory.settings.pageSize) layout t
      ∧ t.memory.settings = policy.onSettings s.memory.settings
      ∧ Trail (Kept s.memory.settings l.items layout) s.host t.host := by
  unfold reopen Ensures
  cases closing with
  | true =>
    simp only [if_true, leads_bind, leads_memory]
    refine (close_ensures s).leads.mono ?_ fun _ _ => False.elim
    intro _ _ ht
    subst ht
    simp only [settings_shut, leads_update]
    exact load_ensures_of_tracks h policy s.memory.shut
  | false =>
    simp only [Bool.false_eq_true, if_false, leads_bind, leads_memory, leads_update]
    exact load_ensures_of_tracks h policy s.memory

end Queue

namespace QueueAction

open Queue (AtRest Passes)

variable {l : Ledger} {layout : Nat → Nat} {s : Session Queue}

/-- An action answers as on the ledger, and takes the queue where it takes the ledger. All the way
the directories hold the messages of before or those of after. -/
theorem run_ensures (h : AtRest l layout s) (action : QueueAction)
    (hfits : action.Fits l.items.length l.stop) :
    ∃ layout', action.run.attempt.Ensures s fun found t => found = action.answer l
      ∧ AtRest (action.onLedger s.memory.settings.pageSize l) layout' t
      ∧ t.memory.settings.pageSize = s.memory.settings.pageSize
      ∧ Passes s.memory.settings l.items layout
          (action.onLedger s.memory.settings.pageSize l).items layout' s.host t.host := by
  cases action with
  | call c =>
    obtain ⟨layout', hcall⟩ := QueueCall.run_ensures h c hfits
    refine ⟨layout', hcall.mono ?_⟩
    intro found t ht
    obtain ⟨hfound, ht⟩ := ht
    refine ⟨hfound, ht.atRest h.idle, ?_, ht.passes⟩
    rw [ht.settings]
  | reopen closing policy =>
    refine ⟨layout, (ensures_attempt _ _).mpr ?_⟩
    simp only [run, leads_bind, leads_pure]
    refine (Queue.reopen_ensures h.toTracks closing policy).leads.mono ?_ fun _ _ => False.elim
    intro _ t ht
    obtain ⟨ht, hsettings, htrail⟩ := ht
    refine ⟨rfl, ht, ?_, htrail.mono fun _ hd => .inl hd⟩
    rw [hsettings]
    rfl

/-- Actions that follow one another answer as on the ledger. -/
theorem runAll_ensures (h : AtRest l layout s) (actions : List QueueAction)
    (hfit : AllFit s.memory.settings.pageSize l actions) :
    (runAll actions).Ensures s fun found _ =>
      found = answers s.memory.settings.pageSize l actions := by
  induction actions generalizing l layout s with
  | nil => exact rfl
  | cons action rest ih =>
    obtain ⟨layout', hrun⟩ := run_ensures h action hfit.1
    unfold runAll Ensures
    simp only [List.mapM_cons, leads_bind, leads_pure]
    refine hrun.leads.mono ?_ fun _ _ => False.elim
    intro _ t ht
    obtain ⟨rfl, ht, hpageSize, -⟩ := ht
    refine (ih ht (hpageSize ▸ hfit.2)).mono fun found u hfound => ?_
    rw [hfound, hpageSize, answers]

end QueueAction

/-- A queue is loaded where nothing is, whatever its settings are, and is called and opened anew in
any order. As long as there is room for the messages, all is answered as on a ledger that was empty
at first. -/
theorem queue_refines_ledger (host : Host) (settings : Settings) (actions : List QueueAction)
    (hvalid : settings.validate = .ok ())
    (hfresh : host.disk.Fresh (Path.ofString settings.directory))
    (hfit : QueueAction.AllFit settings.pageSize {} actions) :
    ∃ queue opened, (Queue.load settings).outcome (⟨host, ()⟩ : Session Unit) = (.ok queue, opened)
      ∧ ∃ left, (QueueAction.runAll actions).outcome ⟨opened.host, queue⟩
        = (.ok (QueueAction.answers settings.pageSize {} actions), left) := by
  obtain ⟨queue, opened, hopened, -, rfl, htracks, hidle⟩ :=
    (Queue.load_of_fresh (s := ⟨host, ()⟩) hvalid hfresh fun _ => 0).outcome
  obtain ⟨_, left, hleft, rfl⟩ :=
    (QueueAction.runAll_ensures ⟨htracks, hidle⟩ actions hfit).outcome
  exact ⟨queue, opened, hopened, left, hleft⟩

/-- Two messages over pages of 40 bytes. One is put in twice and taken, and is still taken after the
queue was opened anew. -/
theorem queue_refines_ledger_reopened :
    ∃ queue opened, (Queue.load { directory := "queue", pageSize := 40 }).outcome
        (⟨⟨{}, ⟨fun _ => 0, 0⟩, []⟩, ()⟩ : Session Unit) = (.ok queue, opened)
      ∧ ∃ left, (QueueAction.runAll [.call (.push ⟨⟨1⟩, .text, [1, 2, 3]⟩),
          .call (.push ⟨⟨2⟩, .json, []⟩), .call (.push ⟨⟨1⟩, .json, [4]⟩),
          .call (.push ⟨.nil, .text, []⟩), .call .pop,
          .reopen true ⟨5, .everyWrite, nofun, nofun, nofun⟩, .call (.status ⟨1⟩), .call .pop,
          .call .pop, .call (.finish ⟨1⟩), .call .size, .call .recordCount]).outcome
            ⟨opened.host, queue⟩
        = (.ok [.ok (.isNew true), .ok (.isNew true), .ok (.isNew false),
          .error (.rejected .nilUuid),
          .ok (.message (some ⟨⟨1⟩, .text, [1, 2, 3]⟩)), .ok .done, .ok (.status (some .locked)),
          .ok (.message (some ⟨⟨2⟩, .json, []⟩)), .ok (.message none),
          .ok (.message (some ⟨⟨1⟩, .text, [1, 2, 3]⟩)), .ok (.number 1), .ok (.number 2)],
          left) := by
  refine queue_refines_ledger ⟨{}, ⟨fun _ => 0, 0⟩, []⟩
    { directory := "queue", pageSize := 40 } _ rfl
    (Disk.fresh_new _) ?_
  simp only [QueueAction.AllFit, QueueAction.Fits, QueueCall.Fits, and_true]
  decide +kernel

end PagedQueue
