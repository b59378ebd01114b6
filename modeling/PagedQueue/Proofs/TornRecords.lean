import PagedQueue.Proofs.Keeping
import PagedQueue.Proofs.PushClients
import PagedQueue.Proofs.QueueInUse

/-!
# Records that a crash tears

Any number of clients push into a queue that was loaded where nothing was, and the process dies
between two of their steps. What is on disk then can always be loaded, and what comes up was pushed
(`crash_amid_pushes`). But a message may come up torn, that is as a text, and perhaps without its
payload: if its client was stopped between the two pages over which the end of its record lies, and
another one has raised the count over it. So recovery does index records that are half written; it
does so at the positions whose records straddle two pages, and at no other ones.
-/

namespace PagedQueue

open Procedure

/-- How a message may come up whose record ends early: as a text, perhaps without its payload. -/
def Message.Torn (m found : Message) : Prop :=
  found = { m with kind := .text } ∨ found = { m with kind := .text, payload := [] }

/-- A torn record shows a torn message. -/
theorem Item.Torn.message {i j : Item} (h : i.Torn j) : i.message.Torn j.message := by
  rcases h with rfl | rfl
  · exact .inl rfl
  · exact .inr rfl

/-- The message that a client begins to push by coming to a stage. -/
def PushStage.called? : PushStage → Option Message
  | .check m => some m
  | _ => none

theorem PushStage.called?_eq_some {k : PushStage} {m : Message} :
    k.called? = some m ↔ k = .check m := by
  cases k <;> simp [called?]

namespace Queue

/-! ## What steps hand out -/

/-- A queue with the settings of another one has handed out at least as many positions, and as many
places for payloads. -/
structure Beyond (first q : Queue) : Prop where
  settings : q.settings = first.settings
  next_le : first.index.next ≤ q.index.next
  cursor_le : first.payloads.cursor ≤ q.payloads.cursor

theorem Beyond.refl (q : Queue) : Beyond q q := ⟨rfl, Nat.le_refl _, Nat.le_refl _⟩

/-- Positions and offsets only go up. -/
theorem Beyond.trans {q q' q'' : Queue} (h : Beyond q q') (h' : Beyond q' q'') : Beyond q q'' :=
  ⟨h'.settings.trans h.settings, Nat.le_trans h.next_le h'.next_le,
    Nat.le_trans h.cursor_le h'.cursor_le⟩

variable {first : Queue} {α : Type}

/-- They do so in every step of the index. -/
theorem keeps_onIndex_beyond {p : Procedure MessageIndex α}
    (h : Keeps (fun m => first.index.next ≤ m.next) p) : Keeps (Beyond first) (onIndex p) :=
  .within fun _ hq => ⟨_, h, hq.next_le, fun _ hm => ⟨hq.settings, hm, hq.cursor_le⟩⟩

/-- They do so in every step of the payload log. -/
theorem keeps_onPayloads_beyond {p : Procedure PayloadLog α}
    (h : Keeps (fun log => first.payloads.cursor ≤ log.cursor) p) :
    Keeps (Beyond first) (onPayloads p) :=
  .within fun _ hq => ⟨_, h, hq.cursor_le, fun _ hlog => ⟨hq.settings, hq.next_le, hlog⟩⟩

theorem keeps_onRecordFile_beyond (p : Procedure PagedFile α) :
    Keeps (Beyond first) (onIndex (MessageIndex.onFile p)) :=
  keeps_onIndex_beyond (.within fun _ hm => ⟨_, keeps_true p, trivial, fun _ _ => hm⟩)

theorem keeps_onPayloadFile_beyond (p : Procedure PagedFile α) :
    Keeps (Beyond first) (onPayloads (PayloadLog.onFile p)) :=
  keeps_onPayloads_beyond (.within fun _ hlog => ⟨_, keeps_true p, trivial, fun _ _ => hlog⟩)

theorem keeps_afterChange_beyond : Keeps (Beyond first) afterChange := by
  have hflush : Keeps (Beyond first) flushFiles :=
    (keeps_onPayloadFile_beyond _).bind fun _ => keeps_onRecordFile_beyond _
  have hchanges (f : Queue → Nat) :
      Keeps (Beyond first) (update fun q => { q with changes := f q }) :=
    keeps_update fun _ h => ⟨h.settings, h.next_le, h.cursor_le⟩
  unfold afterChange
  refine keeps_memory.bind fun q => ?_
  split
  · exact hflush
  · refine (hchanges _).bind fun _ => keeps_memory.bind fun _ => .ite ?_ (keeps_pure _)
    exact (hchanges _).bind fun _ => hflush
  · exact keeps_pure _
  · exact keeps_pure _

/-- No step takes back a place or a position. -/
theorem keeps_advance_beyond (k : PushStage) : Keeps (Beyond first) k.advance := by
  cases k with
  | check m =>
    exact (keeps_memory.bind fun _ => .ite (keeps_throw _) (keeps_pure _)).bind fun _ =>
      .ite (keeps_throw _) (.ite (keeps_throw _) (keeps_pure _))
  | notePending m =>
    refine (keeps_onIndex_beyond ?_).bind fun _ => .ite (keeps_pure _) (keeps_pure _)
    exact keeps_memory.bind fun _ => .ite (keeps_pure _)
      (.bind (keeps_update fun _ h => h) fun _ => keeps_pure _)
  | checkLive m => exact keeps_memory.bind fun _ => .ite (keeps_pure _) (keeps_pure _)
  | refuse uuid =>
    refine (keeps_onIndex_beyond ?_).bind fun _ => keeps_pure _
    exact keeps_update fun _ h => h
  | reservePlace m =>
    refine (keeps_onPayloads_beyond ?_).bind fun _ => keeps_pure _
    exact fun s hs => Nat.le_trans hs (Nat.le_add_right s.memory.cursor m.size)
  | writePayload m offset written =>
    refine .tryCatch (.ite ?_ ?_) fun _ => keeps_pure _
    · exact (keeps_onPayloadFile_beyond _).bind fun _ => keeps_pure _
    · exact (keeps_onPayloadFile_beyond _).bind fun _ => keeps_pure _
  | takePosition m offset =>
    refine (keeps_onIndex_beyond ?_).bind fun _ => ?_
    · exact fun s hs => Nat.le_trans hs (Nat.le_succ s.memory.next)
    · refine (keeps_onIndex_beyond ?_).bind fun _ => keeps_pure _
      exact keeps_memory.bind fun _ => .bind (keeps_update fun _ h => h) fun _ => keeps_pure _
  | writeRecord e id written =>
    refine .tryCatch (.ite ?_ ?_) fun _ => keeps_pure _
    · exact (keeps_onRecordFile_beyond _).bind fun _ => keeps_pure _
    · exact (keeps_onRecordFile_beyond _).bind fun _ => keeps_pure _
  | raiseCount e id =>
    refine .tryCatch (.bind (keeps_onIndex_beyond ?_) fun _ => keeps_pure _) fun _ => keeps_pure _
    refine keeps_memory.bind fun _ => .ite ?_ (keeps_pure _)
    exact .bind (.within fun _ hm => ⟨_, keeps_true _, trivial, fun _ _ => hm⟩) fun _ =>
      keeps_update fun _ h => h
  | enterLive e id =>
    refine (keeps_onIndex_beyond ?_).bind fun _ => keeps_pure _
    exact keeps_update fun _ h => h
  | enterOrdered e id =>
    refine (keeps_onIndex_beyond ?_).bind fun _ => keeps_pure _
    exact keeps_update fun _ h => h
  | withdraw uuid answer =>
    refine (keeps_onIndex_beyond ?_).bind fun _ => ?_
    · exact keeps_update fun _ h => h
    · cases answer with
      | ok => exact keeps_pure _
      | error => exact keeps_pure _
  | settle => exact keeps_afterChange_beyond.bind fun _ => keeps_pure _
  | ended answer => exact keeps_pure _

/-- They do so in every step of a client. -/
theorem beyond_of_step {w u : Crowd Queue PushStage} {e : Event PushStage}
    (h : pushing.Step w e u) :
    Beyond w.session.memory u.session.memory :=
  h.elim (fun _ u => Beyond w.session.memory u.session.memory)
    (fun _ _ _ => .refl _) fun client => keeps_advance_beyond (w.stage client) w.session (.refl _)

/-- They do so in every run. -/
theorem beyond_of_run {w u : Crowd Queue PushStage} {trace : List (Event PushStage)}
    (h : pushing.Run w trace u) : Beyond w.session.memory u.session.memory :=
  h.keeps (fun u => Beyond w.session.memory u.session.memory) (.refl _)
    fun hstep _ hkept => hkept.trans (beyond_of_step hstep)

/-! ## Runs -/

/-- A message was handed to a push. -/
def Pushed (trace : List (Event PushStage)) (m : Message) : Prop :=
  ∃ e ∈ trace, e.after = .check m

instance (trace : List (Event PushStage)) (m : Message) : Decidable (Pushed trace m) :=
  decidable_of_iff (∃ e ∈ trace, e.after.called? = some m) (by
    simp only [PushStage.called?_eq_some, Pushed])

/-- Whatever order the clients act in, the queue keeps to a plan, as long as there is room. -/
theorem pushing_of_run {w u : Crowd Queue PushStage} {trace : List (Event PushStage)}
    (h : ∃ plan : Plan, plan.Pushing (Pushed trace) w) (hrun : pushing.Run w trace u)
    (hroom : u.session.memory.index.next < 0x80000000)
    (hcursor : u.session.memory.payloads.cursor < 0x8000000000000000) :
    ∃ plan : Plan, plan.Pushing (Pushed trace) u := by
  refine hrun.keeps (fun v => v.session.memory.index.next < 0x80000000 →
    v.session.memory.payloads.cursor < 0x8000000000000000 →
    ∃ plan : Plan, plan.Pushing (Pushed trace) v) (fun _ _ => h) ?_ hroom hcursor
  intro v e v' hstep hmem hkept hroom' hcursor'
  -- what is in reach after the step was in reach before it
  obtain ⟨-, hnext, hstop⟩ := beyond_of_step hstep
  have hcursor'' := Nat.lt_of_le_of_lt hstop hcursor'
  obtain ⟨plan, hplan⟩ := hkept (Nat.lt_of_le_of_lt hnext hroom') hcursor''
  have hlength : plan.items.length < 0x80000000 := by
    rw [← hplan.kept.next_eq]
    exact Nat.lt_of_le_of_lt hnext hroom'
  refine hstep.elim (fun e u => e ∈ trace → ∃ plan : Plan, plan.Pushing (Pushed trace) u) ?_ ?_ hmem
  · intro client m _ hin
    exact hplan.quiet hplan.kept.mounted.refl rfl rfl rfl ⟨_, hin, rfl⟩ rfl
  · intro client
    exact (hplan.take hlength hcursor'' client).mono (fun _ _ ht _ => ht) fun _ _ ht _ => ht

/-- A queue that was loaded where nothing was has nothing planned. -/
theorem kept_of_blank {s : Session Queue} {layout : Nat → Nat} (h : Tracks {} layout s)
    (hblank : recordBytes s = ByteSpace.blank) :
    Plan.Kept ⟨payloadBytes s, [], fun _ => 0, fun _ => 0⟩ s := by
  have hmounted := h.toOpened.mounted
  have htidy := h.recordTidy
  have hcount : s.memory.index.count = 0 := h.index.count_eq
  have hpage : ∃ o, Record.place 0 ≤ o + 1 ∧ RecordPage s o := by
    rcases htidy.reach_cases s.memory.index.file.store.pageSize with ⟨-, hzero⟩ | ⟨index, hindex, -⟩
    · exact absurd hzero h.started
    · -- the last byte of any page will do
      rw [h.recordDirectory] at hindex
      have hpos := hmounted.pageSize_pos
      have hfits := hmounted.count_fits
      refine ⟨index * s.memory.settings.pageSize + (s.memory.settings.pageSize - 1), ?_, ?_⟩
      · simp only [Record.place, Record.countSize]
        omega
      · have hdiv : (index * s.memory.settings.pageSize + (s.memory.settings.pageSize - 1))
            / s.memory.settings.pageSize = index :=
          Nat.div_eq_of_lt_le (Nat.le_add_right _ _) (by rw [Nat.add_mul, Nat.one_mul]; omega)
        rw [RecordPage, hdiv]
        exact hindex
  exact {
    mounted := hmounted
    next_eq := h.index.next_eq
    named := fun _ hi => absurd hi List.not_mem_nil
    short := fun _ hi => absurd hi List.not_mem_nil
    placed := fun hp => by cases hp
    begun := fun hp => by cases hp
    breaks := fun hp => absurd hp (Nat.not_lt_zero _)
    blank := fun o _ => by rw [hblank]; rfl
    count := by rw [hblank, hcount]; rfl
    count_le := Nat.le_of_eq hcount
    page := hcount ▸ hpage }

/-- A queue that was loaded where nothing was, and clients that push nothing yet. -/
theorem pushing_unused {settings : Settings} {s : Session Queue} {layout : Nat → Nat}
    (h : Tracks {} layout s) (hsettings : s.memory.settings = settings)
    (hblank : s.host.disk.space (Queue.recordDirectory settings) settings.pageSize
      = ByteSpace.blank)
    (sent : Message → Prop) :
    ∃ plan : Plan, plan.Pushing sent (unused s) := by
  subst hsettings
  exact ⟨_, kept_of_blank h hblank, h.kept.clear, fun _ hi => absurd hi List.not_mem_nil, fun _ =>
    trivial, fun _ _ _ hp => by cases hp⟩

end Queue

/-- Clients push into a queue that was loaded where nothing was, and after any of their steps the
process dies. What is on disk then can be loaded, and each message that comes up waits and was
handed to a push. It comes up as it was pushed, unless its record straddles two pages: then it may
be torn. -/
theorem crash_amid_pushes {settings : Settings} {first : Host} {queue : Queue}
    {opened : Session Unit} (hvalid : settings.validate = .ok ())
    (hfresh : first.disk.Fresh (Path.ofString settings.directory))
    (hload : (Queue.load settings).outcome ⟨first, ()⟩ = (.ok queue, opened))
    {trace : List (Event PushStage)} {w : Crowd Queue PushStage}
    (hrun : Queue.pushing.Run (Queue.unused ⟨opened.host, queue⟩) trace w)
    (hroom : w.session.memory.index.next < 0x80000000)
    (hcursor : w.session.memory.payloads.cursor < 0x8000000000000000)
    (policy : Policy) {host : Host} (hdisk : host.disk = w.session.host.disk) :
    ∃ queue' opened' found,
      (Queue.load (policy.onSettings settings)).outcome (⟨host, ()⟩ : Session Unit)
        = (.ok queue', opened')
      ∧ (Queue.contents.outcome ⟨opened'.host, queue'⟩).1 = .ok found
      ∧ ∀ m status, (m, status) ∈ found → status = .new
        ∧ ∃ p < w.session.memory.index.count, ∃ pushed, Queue.Pushed trace pushed
          ∧ (m = pushed ∨ Record.Straddles settings.pageSize p ∧ pushed.Torn m) := by
  obtain ⟨queue₀, opened₀, hopened, ⟨-, hsettings, htracks, -⟩, hblank⟩ :=
    (Queue.load_blank (s := ⟨first, ()⟩) hvalid hfresh fun _ => 0).outcome
  cases hload.symm.trans hopened
  obtain ⟨plan, hplan⟩ :=
    Queue.pushing_of_run (Queue.pushing_unused htracks hsettings hblank _) hrun
    hroom hcursor
  have hkept := hplan.kept
  have hsettings' : w.session.memory.settings = settings :=
    (Queue.beyond_of_run hrun).settings.trans hsettings
  rw [hkept.next_eq] at hroom
  have hlayout := fun p hp => hkept.layout_lt hcursor (p := p) hp
  obtain ⟨queue', opened', hloaded, hfound⟩ :=
    (hkept.load_contents hroom hlayout
    (hkept.place_count_le hplan.clear) hplan.clear.records.toOpenable
      (fun _ => .inl hplan.clear) policy hdisk).outcome
  rw [hsettings'] at hloaded
  refine ⟨queue', opened', _, hloaded, hfound, ?_⟩
  intro m status hmem
  obtain ⟨p, hp, heq⟩ := List.mem_filterMap.mp hmem
  obtain ⟨e, he, heq⟩ := Option.map_eq_some_iff.mp heq
  obtain ⟨rfl, rfl⟩ := Prod.mk.inj heq
  obtain ⟨i, j, hi, rfl, hj⟩ := hkept.of_liveAt? he
  obtain ⟨pushed, hpushed, rfl⟩ := hplan.pushed i (List.mem_of_getElem? hi)
  rw [hkept.messageOf_eq hlayout hi hj]
  refine ⟨?_, p, List.mem_range.mp hp, pushed, hpushed, ?_⟩
  · show j.status = .new
    rcases hj with rfl | ⟨-, htorn⟩
    · rfl
    · exact htorn.status_eq
  · rcases hj with rfl | ⟨hstraddles, htorn⟩
    · exact .inl rfl
    · exact .inr ⟨hsettings' ▸ hstraddles, htorn.message⟩

/-! ## A record that is overtaken -/

namespace Queue

/-- A message of which the record is half written when its client is stopped. -/
def stopped : Message := ⟨⟨1⟩, .json, [1, 2]⟩

/-- A message that is pushed to the end then. -/
def finished : Message := ⟨⟨2⟩, .text, [3]⟩

/-- How `stopped` comes up. -/
def torn : Message := { stopped with kind := .text, payload := [] }

/-- Pages that are shorter than a record. -/
def narrow : Settings :=
  { directory := "queue", pageSize := 8, lifetime := 1, durability := .manual }

/-- A host on which nothing is. -/
def bareHost : Host := ⟨{}, ⟨fun _ => 0, 0⟩, []⟩

/-- A client goes on until the status in its record is written, and then another one makes its
push. -/
def overtaking (s : Session Queue) : List (Event PushStage) × Crowd Queue PushStage :=
  pushing.perform (unused s) (List.replicate 12 (0, stopped) ++ List.replicate 20 (1, finished))

/-- The queue is loaded that is on disk then. -/
def reloaded? (s : Session Queue) : Option (Session Queue) :=
  loaded? narrow (overtaking s).2.session.host

/-- There is room for both messages, and the one that was stopped comes up torn. -/
def Overtaken (s t : Session Queue) : Prop :=
  ((overtaking s).2.session.memory.index.next < 0x80000000
      ∧ (overtaking s).2.session.memory.payloads.cursor < 0x8000000000000000)
    ∧ (contents.outcome t).1.toOption = some [(torn, .new), (finished, .new)]
    ∧ ¬ Pushed (overtaking s).1 torn

instance (s t : Session Queue) : Decidable (Overtaken s t) := by
  unfold Overtaken
  infer_instance

/-- A push that is overtaken can happen. -/
theorem exists_overtaken : ∃ s t, loaded? narrow bareHost = some s ∧ reloaded? s = some t
    ∧ Overtaken s t := by
  have hdecide : (loaded? narrow bareHost).any (fun s =>
      (reloaded? s).any fun t => decide (Overtaken s t)) = true := by decide +kernel
  obtain ⟨s, hs, hdecide⟩ := (Option.any_eq_true _ _).mp hdecide
  obtain ⟨t, ht, hdecide⟩ := (Option.any_eq_true _ _).mp hdecide
  exact ⟨s, t, hs, ht, of_decide_eq_true hdecide⟩

/-- What was read was read without failure. -/
theorem contents_of_toOption {t : Session Queue} {found : List (Message × Status)}
    (h : (contents.outcome t).1.toOption = some found) : (contents.outcome t).1 = .ok found :=
  ok_of_toOption h

end Queue

open Queue in
/-- Clients push into a queue that was loaded where nothing was, the process dies after one of their
steps, and a message comes up that none of them pushed. -/
theorem half_written_records_come_up : ∃ s trace w t found, loaded? narrow bareHost = some s
    ∧ pushing.Run (unused s) trace w
    ∧ loaded? narrow w.session.host = some t
    ∧ (contents.outcome t).1 = .ok found
    ∧ ∃ m, (m, .new) ∈ found ∧ ¬ Pushed trace m := by
  obtain ⟨s, t, hs, ht, -, hfound, hnot⟩ := exists_overtaken
  exact ⟨s, (overtaking s).1, (overtaking s).2, t, _, hs, pushing.run_perform .., ht,
    contents_of_toOption hfound, torn, by simp, hnot⟩

open Queue in
/-- The record of the first message that is pushed over short pages straddles two of them. -/
theorem crash_amid_pushes_overtaken : ∃ s t found, loaded? narrow bareHost = some s
    ∧ reloaded? s = some t ∧ (contents.outcome t).1 = .ok found ∧ (torn, .new) ∈ found
    ∧ ∃ p pushed, Pushed (overtaking s).1 pushed ∧ Record.Straddles narrow.pageSize p
      ∧ pushed.Torn torn := by
  obtain ⟨s, t, hs, ht, ⟨hroom, hcursor⟩, hfound, hnot⟩ := exists_overtaken
  obtain ⟨queue, opened, hload, rfl⟩ := load_of_loaded? hs
  obtain ⟨queue', opened', hload', rfl⟩ := load_of_loaded? ht
  have hfound' := contents_of_toOption hfound
  obtain ⟨queue'', opened'', found, hload'', hcontents, hall⟩ :=
    crash_amid_pushes (by rfl) (Disk.fresh_new _) hload
      (pushing.run_perform ..) hroom hcursor ⟨1, .manual, by decide, by decide, by decide⟩ rfl
  cases hload'.symm.trans hload''
  cases hfound'.symm.trans hcontents
  obtain ⟨-, p, -, pushed, hpushed, hm⟩ := hall torn .new (by simp)
  refine ⟨_, _, _, hs, ht, hfound', by simp, p, pushed, hpushed, ?_⟩
  rcases hm with rfl | hm
  · exact absurd hpushed hnot
  · exact hm

end PagedQueue
