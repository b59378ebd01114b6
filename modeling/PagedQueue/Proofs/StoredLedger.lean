import PagedQueue.Proofs.Ledger

/-!
# A ledger on disk

`Disk.Records` says that the pages of a directory hold the records of a list of messages, and
`Disk.Payloads` that those of another hold their payloads. Neither says anything about what lies
behind the count or beside the payloads, so both hold all the way while a record or a payload is
written there (`Records.confined`, `Payloads.confined`). What moves the list on is one copy: the
count is raised over a record that is complete (`Records.commit`), or a status is replaced
(`Records.setStatus`).
-/

namespace PagedQueue

open ByteSpace (recordAt_congr count_congr)

/-! ## The record of a message -/

namespace Item

variable {i : Item} {p offset : Nat}

/-- The record of an item bears its UUID. -/
theorem uuid_toRecord (i : Item) (p offset : Nat) : (i.toEntry p offset).toRecord.uuid = i.uuid :=
  Uuid.ofHalves_high_low i.uuid

/-- The record of a message makes sense whatever the status is. -/
theorem not_faulty (hoffset : offset < 0x8000000000000000)
    (hshort : i.payload.length ≤ Queue.maxPayload) :
    ¬ (i.toEntry p offset).toRecord.Faulty := by
  have hshort' : i.payload.length < 0x80000000 := Nat.lt_of_le_of_lt hshort (by decide)
  intro hand
  obtain ⟨-, hstatus | ⟨-, hnegative | hnegative | hkind⟩⟩ := hand
  · refine hstatus ?_
    show i.status.tag ∈ [0, 1, 2, 3]
    cases i.status <;> decide
  · have hlt := Int64.lt_iff_toInt_lt.mp hnegative
    have heq : (i.toEntry p offset).toRecord.offset = Int64.ofNat offset := UInt64.toInt64_ofNat'
    rw [heq, Int64.toInt_ofNat_of_lt hoffset, Int64.toInt_zero] at hlt
    omega
  · have hlt := Int32.lt_iff_toInt_lt.mp hnegative
    have heq : (i.toEntry p offset).toRecord.length = Int32.ofNat i.payload.length :=
      UInt32.toInt32_ofNat'
    rw [heq, Int32.toInt_ofNat_of_lt hshort', Int32.toInt_zero] at hlt
    omega
  · refine hkind ?_
    show i.kind.tag ∈ [0, 1]
    cases i.kind <;> decide

/-- It is live exactly if the item is. -/
theorem isLive_toRecord_iff (hnamed : i.uuid ≠ Uuid.nil) :
    (i.toEntry p offset).toRecord.IsLive ↔ i.status.isLive = true := by
  rw [Entry.isLive_toRecord_iff]
  exact and_iff_right hnamed

/-- It bears the tag of a status exactly if the item has that status. -/
theorem status_toRecord_iff (i : Item) (p offset : Nat) (status : Status) :
    (i.toEntry p offset).toRecord.status = status.tag ↔ i.status = status := by
  show i.status.tag = status.tag ↔ i.status = status
  cases i.status <;> cases status <;> decide

end Item

namespace Disk

variable {d d' d'' : Disk} {directory made : Path} {pageSize : Nat} {items : Items}
    {layout : Nat → Nat}
  {touched written : Nat → Prop} {p : Nat} {i : Item}

/-- Offsets below `2 ^ 64` lie in pages with an index. -/
theorem div_le_maxIndex {o : Nat} (h : o < 0x10000000000000000) :
    o / pageSize ≤ PageName.maxIndex :=
  Nat.le_trans (Nat.div_le_self o pageSize) (Nat.le_of_lt_succ h)

/-- Outside of a directory nothing changed, as far as names and bytes go, and no file shrank. -/
structure Apart (made : Path) (d d' : Disk) : Prop where
  sound : d'.Sound
  refused : d'.refused = d.refused
  node? : ∀ path : Path, path.dropLast ≠ made → d'.node? path = d.node? path
  space : ∀ (other : Path) (size : Nat), other ≠ made → d'.space other size = d.space other size
  sizeOf_le : ∀ id, d.sizeOf (.file id) ≤ d'.sizeOf (.file id)

namespace Apart

/-- Two changes apart from a directory are one. -/
theorem trans (h : Apart made d d') (h' : Apart made d' d'') : Apart made d d'' where
  sound := h'.sound
  refused := h'.refused.trans h.refused
  node? path hpath := (h'.node? path hpath).trans (h.node? path hpath)
  space other size hother := (h'.space other size hother).trans (h.space other size hother)
  sizeOf_le id := Nat.le_trans (h.sizeOf_le id) (h'.sizeOf_le id)

/-- What is confined to one directory is apart from the others. -/
theorem of_confined (hc : Confined made pageSize touched written d d') : Apart made d d' where
  sound := hc.sound
  refused := hc.refused
  node? _ := hc.node?_elsewhere
  space _ size hother := hc.space_elsewhere hother size
  sizeOf_le := hc.sizeOf_le

/-- So is the removal of its pages. -/
theorem of_pruned {gone : List Nat} (hp : Pruned made gone d d') (hsound : d.Sound) :
    Apart made d d' where
  sound := hp.sound hsound
  refused := hp.refused
  node? _ := hp.node?_elsewhere
  space _ size hother := hp.space_elsewhere hother size
  sizeOf_le id := by
    have hfile : d'.file? id = d.file? id := by rw [file?, hp.files, file?]
    show _ ≤ ((d'.file? id).map File.size).getD 0
    rw [hfile]
    exact Nat.le_refl _

/-- The cache over another directory stays coherent. -/
theorem coherent (h : Apart made d d') {store : PageStore} (hother : store.directory ≠ made)
    (hcoherent : store.Coherent d) : store.Coherent d' where
  lt_size := hcoherent.lt_size
  shows hid := by
    obtain ⟨hbase, hsize, hopen, hnode, hle⟩ := hcoherent.shows hid
    refine ⟨hbase, hsize, hopen, ?_, Nat.le_trans hle (h.sizeOf_le _)⟩
    rw [h.node? _ (by rwa [dropLast_pagePath])]
    exact hnode

/-- The pages of another directory that is not inside keep their names. -/
theorem named (h : Apart made d d') (hother : directory ≠ made) (hup : directory.dropLast ≠ made)
    (hnamed : d.Named directory) : d'.Named directory := by
  have hnode (name : String) : d'.node? (directory ++ [name]) = d.node? (directory ++ [name]) :=
    h.node? _ (by rwa [List.dropLast_concat])
  exact {
    isDirectory := (h.node? directory hup).trans hnamed.isDirectory
    plain := fun hsome hindex => hnamed.plain ((hnode _).symm.trans hsome) hindex
    le_maxIndex := fun ⟨id, hsome⟩ => hnamed.le_maxIndex ⟨id, (hnode _).symm.trans hsome⟩ }

/-- Where a page could be opened in another directory, it can be opened. -/
theorem openable (h : Apart made d d') (hother : directory ≠ made) (hup : directory.dropLast ≠ made)
    (hopenable : d.Openable directory) : d'.Openable directory where
  isDirectory := (h.node? directory hup).trans hopenable.isDirectory
  not_directory index hdirectory := by
    rw [h.node? _ (by rwa [dropLast_pagePath])] at hdirectory
    exact hopenable.not_directory index hdirectory
  not_refused := h.refused ▸ hopenable.not_refused

/-- Another directory that is not inside holds the same pages. -/
theorem other (h : Apart made d d') (hother : directory ≠ made) (hup : directory.dropLast ≠ made)
    (htidy : d.Tidy directory) :
    d'.Tidy directory ∧ d'.reach directory pageSize = d.reach directory pageSize := by
  have hnode (name : String) : d'.node? (directory ++ [name]) = d.node? (directory ++ [name]) :=
    h.node? _ (by rwa [List.dropLast_concat])
  have htidy' : d'.Tidy directory :=
    (h.named hother hup htidy.named).tidy (h.openable hother hup htidy.toOpenable)
  refine ⟨htidy', htidy.reach_congr htidy' fun index => ?_⟩
  have hpage : d'.node? (pagePath directory index) = d.node? (pagePath directory index) := hnode _
  simp only [HasPage, hpage]

end Apart

/-- Every byte of a page lies within the reach of a tidy directory. -/
theorem Tidy.lt_reach (h : d.Tidy directory) (hpos : 0 < pageSize) {o : Nat}
    (hpage : d.HasPage directory (o / pageSize)) : o < d.reach directory pageSize := by
  have hlt := Nat.lt_mul_div_succ o hpos
  rw [Nat.mul_comm] at hlt
  exact Nat.lt_of_lt_of_le hlt (h.le_reach hpage pageSize)

/-! ## The pages of the records -/

/-- The pages of a directory hold the records of the messages, under a count of them. -/
structure Records (d : Disk) (directory : Path) (pageSize : Nat) (items : Items)
    (layout : Nat → Nat) : Prop where
  tidy : d.Tidy directory
  count : (d.space directory pageSize).count.toInt = items.length
  fits : items ≠ [] → Record.place items.length ≤ d.reach directory pageSize
  record : ∀ {p : Nat} {i : Item}, items[p]? = some i →
    (d.space directory pageSize).recordAt p = (i.toEntry p (layout p)).toRecord
  placed : ∀ {p : Nat}, p < items.length → layout p < 0x8000000000000000

namespace Records

/-- Nothing but the space and the reach of the pages counts. -/
theorem congr (h : d.Records directory pageSize items layout) (htidy : d'.Tidy directory)
    (hreach : d'.reach directory pageSize = d.reach directory pageSize)
    (hspace : d'.space directory pageSize = d.space directory pageSize) :
    d'.Records directory pageSize items layout where
  tidy := htidy
  count := hspace ▸ h.count
  fits hne := hreach ▸ h.fits hne
  record hp := hspace ▸ h.record hp
  placed := h.placed

/-- Dates do not matter to the records. -/
theorem alike (h : d.Records directory pageSize items layout) (hd : Alike d d') :
    d'.Records directory pageSize items layout :=
  h.congr (hd.tidy h.tidy) hd.reach hd.space.symm

/-- What changes apart from the records leaves them. -/
theorem elsewhere (h : d.Records directory pageSize items layout) (ha : Apart made d d')
    (hother : directory ≠ made) (hup : directory.dropLast ≠ made) :
    d'.Records directory pageSize items layout := by
  obtain ⟨htidy, hreach⟩ := ha.other hother hup h.tidy
  exact h.congr htidy hreach (ha.space directory pageSize hother)

/-- The records stay as long as no byte before their end changes. -/
theorem confined (h : d.Records directory pageSize items layout)
    (hc : Confined directory pageSize touched written d d')
    (htouched : ∀ o, touched o → o < 0x10000000000000000)
    (hbefore : ∀ o < Record.place items.length,
      d'.space directory pageSize o = d.space directory pageSize o) :
    d'.Records directory pageSize items layout := by
  have htidy := hc.tidy (fun o ho => div_le_maxIndex (htouched o ho)) h.tidy
  refine ⟨htidy, ?_, fun hne => ?_, fun {p i} hp => ?_, h.placed⟩
  · rw [count_congr fun o ho => hbefore o (Nat.lt_of_lt_of_le ho (Nat.le_add_right _ _))]
    exact h.count
  · exact Nat.le_trans (h.fits hne) (h.tidy.reach_le htidy fun _ => hc.hasPage)
  · rw [← h.record hp]
    refine recordAt_congr fun o _ hlt => hbefore o (Nat.lt_of_lt_of_le hlt ?_)
    exact ByteSpace.place_add_size_le (Items.lt_length hp)

/-- A count of zero covers no record. -/
theorem of_count_zero (htidy : d.Tidy directory)
    (hcount : (d.space directory pageSize).count = 0) (layout : Nat → Nat) :
    d.Records directory pageSize [] layout where
  tidy := htidy
  count := by rw [hcount]; rfl
  fits hne := absurd rfl hne
  record hp := nomatch hp
  placed hp := absurd hp (Nat.not_lt_zero _)

/-- The count is raised over one record more, which is complete. -/
theorem commit (h : d.Records directory pageSize items layout) {offset : Nat}
    (hrecord : (d.space directory pageSize).recordAt items.length
      = (i.toEntry items.length offset).toRecord)
    (hfits : Record.place (items.length + 1) ≤ d.reach directory pageSize)
    (hoffset : offset < 0x8000000000000000) (hroom : items.length + 1 < 0x80000000)
    (hc : Confined directory pageSize touched written d d')
    (htouched : ∀ o, touched o → o < 0x10000000000000000)
    (hspace : d'.space directory pageSize
      = (d.space directory pageSize).write 0 (encodeInt32 (.ofNat (items.length + 1)))) :
    d'.Records directory pageSize (items ++ [i]) (Function.update layout items.length offset) := by
  have htidy := hc.tidy (fun o ho => div_le_maxIndex (htouched o ho)) h.tidy
  have hlength : (items ++ [i]).length = items.length + 1 := by simp
  refine ⟨htidy, ?_, fun _ => ?_, fun {p j} hp => ?_, fun {p} hp => ?_⟩
  · rw [hspace, ByteSpace.count_write_count, Int32.toInt_ofNat_of_lt hroom, hlength]
  · rw [hlength]
    exact Nat.le_trans hfits (h.tidy.reach_le htidy fun _ => hc.hasPage)
  · -- the count lies before all records
    rw [hspace, ByteSpace.recordAt_write_count]
    rcases getElem?_concat_eq_some_iff.mp hp with hold | ⟨rfl, rfl⟩
    · have hne : p ≠ items.length := Nat.ne_of_lt (Items.lt_length hold)
      rw [Function.update_of_ne hne]
      exact h.record hold
    · rw [Function.update_self]
      exact hrecord
  · by_cases hlast : p = items.length
    · rw [hlast, Function.update_self]
      exact hoffset
    · rw [Function.update_of_ne hlast]
      exact h.placed (by omega)

/-- The status of a record is replaced. -/
theorem setStatus (h : d.Records directory pageSize items layout) (hp : items[p]? = some i)
    {status : Status} (hc : Confined directory pageSize touched written d d')
    (htouched : ∀ o, touched o → o < 0x10000000000000000)
    (hspace : d'.space directory pageSize = (d.space directory pageSize).write
      (Record.place p + Record.statusOffset) (encodeInt32 status.tag)) :
    d'.Records directory pageSize (items.setStatus p status) layout := by
  have htidy := hc.tidy (fun o ho => div_le_maxIndex (htouched o ho)) h.tidy
  have hlength := Items.length_setStatus items p status
  refine ⟨htidy, ?_, fun _ => ?_, fun {q j} hq => ?_, fun {q} hq => ?_⟩
  · rw [hspace, ByteSpace.count_write_status, hlength]
    exact h.count
  · have hne : items ≠ [] := by
      intro heq
      subst heq
      exact absurd (Items.lt_length hp) (Nat.not_lt_zero p)
    rw [hlength]
    exact Nat.le_trans (h.fits hne) (h.tidy.reach_le htidy fun _ => hc.hasPage)
  · rw [Items.getElem?_setStatus, Option.map_eq_some_iff] at hq
    obtain ⟨j₀, hj₀, rfl⟩ := hq
    rw [hspace]
    -- the status of one record lies in no other one
    by_cases hpq : p = q
    · subst hpq
      rw [ByteSpace.recordAt_write_status, h.record hj₀, if_pos rfl]
      rfl
    · rw [ByteSpace.recordAt_write_status_of_ne hpq, if_neg hpq]
      exact h.record hj₀
  · rw [hlength] at hq
    exact h.placed hq

/-- Once the page of the count is deleted, no message is left. -/
theorem pruned (h : d.Records directory pageSize items layout) (hpos : 4 ≤ pageSize)
    {all gone : List Nat} (hsorted : all.Pairwise (· < ·))
    (hall : ∀ index, index ∈ all ↔ d.HasPage directory index) (hgone : gone <+: all)
    (hp : Pruned directory gone d d') :
    d'.Records directory pageSize items layout ∨ d'.Records directory pageSize [] layout := by
  have htidy := hp.tidy h.tidy
  by_cases hnil : gone = []
  · -- nothing is deleted yet
    subst hnil
    have hpages (index : Nat) : d'.HasPage directory index ↔ d.HasPage directory index := by
      rw [hp.hasPage_iff]
      simp
    refine .inl (h.congr htidy (h.tidy.reach_congr htidy hpages) (funext fun o => ?_))
    have hnode (path : Path) : d'.node? path = d.node? path := by simp [hp.node?]
    have hfile (id : FileId) : d'.file? id = d.file? id := by rw [file?, hp.files, file?]
    simp only [space, fileAt?, hnode, hfile]
  · refine .inr (of_count_zero htidy ?_ layout)
    have hzero (o : Nat) (ho : o < Record.countSize) : d'.space directory pageSize o = 0 := by
      refine space_of_no_page fun hpage => ?_
      have hdiv : o / pageSize = 0 := Nat.div_eq_of_lt (Nat.lt_of_lt_of_le ho hpos)
      rw [hdiv, hp.hasPage_iff, ← hall] at hpage
      obtain ⟨hmem, hkept⟩ := hpage
      -- the pages are deleted in ascending order, so the page of the count was the first
      obtain ⟨rest, rfl⟩ := hgone
      obtain ⟨first, gone, rfl⟩ := List.exists_cons_of_ne_nil hnil
      rw [List.cons_append] at hsorted hmem
      rcases List.mem_cons.mp hmem with hfirst | hlater
      · exact hkept (hfirst ▸ List.mem_cons_self)
      · exact Nat.not_lt_zero first ((List.pairwise_cons.mp hsorted).1 0 hlater)
    have hblank : (d'.space directory pageSize).count = ByteSpace.blank.count := count_congr hzero
    rw [hblank]
    rfl

/-! ## What recovery finds -/

/-- The count stored with the records is the number of items. -/
theorem recordCount_eq (h : d.Records directory pageSize items layout) :
    (d.space directory pageSize).recordCount (d.reach directory pageSize) = items.length := by
  unfold ByteSpace.recordCount
  split
  next hzero =>
    by_cases hnil : items = []
    · rw [hnil]
      rfl
    · have hfits := h.fits hnil
      rw [hzero] at hfits
      exact absurd hfits (by simp [Record.place, Record.countSize])
  next =>
    rw [ByteSpace.covered, h.count]
    rfl

/-- Recovery has nothing to refuse in them. -/
theorem not_unsound (h : d.Records directory pageSize items layout) (hwell : items.WellFormed)
    (hpos : 4 ≤ pageSize) :
    ¬ (d.space directory pageSize).Unsound (d.reach directory pageSize) := by
  have hcovered : (d.space directory pageSize).covered = items.length := by
    rw [ByteSpace.covered, h.count]
    rfl
  intro hand
  obtain ⟨hne, hnegative | hbeyond | ⟨p, hp, hfaulty⟩⟩ := hand
  · have hlt := Int32.lt_iff_toInt_lt.mp hnegative
    rw [h.count, Int32.toInt_zero] at hlt
    omega
  · rw [hcovered] at hbeyond
    by_cases hnil : items = []
    · rcases h.tidy.reach_cases pageSize with ⟨-, hzero⟩ | ⟨index, -, hreach⟩
      · exact hne hzero
      · rw [hnil, hreach, Nat.add_mul] at hbeyond
        simp only [List.length_nil, Record.place, Record.countSize] at hbeyond
        omega
    · exact Nat.not_lt_of_le (h.fits hnil) hbeyond
  · rw [hcovered] at hp
    have hitem := List.getElem?_eq_getElem hp
    rw [h.record hitem] at hfaulty
    exact Item.not_faulty (h.placed hp) (hwell.short _ (List.getElem_mem hp)) hfaulty

/-- A record is the first live one of its UUID exactly if its message is in the queue. -/
theorem firstLive_iff (h : d.Records directory pageSize items layout) (hwell : items.WellFormed)
    (hp : items[p]? = some i) :
    (d.space directory pageSize).FirstLive p ↔ i.status.isLive = true := by
  have hlive {q : Nat} {j : Item} (hq : items[q]? = some j) :
      ((d.space directory pageSize).recordAt q).IsLive ↔ j.status.isLive = true := by
    rw [h.record hq]
    exact Item.isLive_toRecord_iff (hwell.named j (List.mem_of_getElem? hq))
  rw [ByteSpace.FirstLive, hlive hp]
  refine and_iff_left_of_imp fun hi q hq hearlier huuid => ?_
  have hlt := Items.lt_length hp
  have hitem := List.getElem?_eq_getElem (Nat.lt_trans hq hlt)
  rw [h.record hitem, h.record hp, Item.uuid_toRecord, Item.uuid_toRecord] at huuid
  exact absurd (hwell.unique hitem hp ((hlive hitem).mp hearlier) hi huuid) (Nat.ne_of_lt hq)

/-- The live records are the live items. -/
theorem liveAt?_eq (h : d.Records directory pageSize items layout) (hwell : items.WellFormed) :
    (d.space directory pageSize).liveAt? items.length = items.held layout := by
  funext p
  by_cases hp : p < items.length
  · have hitem := List.getElem?_eq_getElem hp
    have hfirst := h.firstLive_iff hwell hitem
    by_cases hlive : items[p].status.isLive = true
    · rw [ByteSpace.liveAt?, if_pos ⟨hp, hfirst.mpr hlive⟩, Items.held_of_live hitem hlive,
        h.record hitem]
      exact congrArg some (Entry.toEntry_toRecord hlive)
    · rw [ByteSpace.liveAt?, if_neg fun hand => hlive (hfirst.mp hand.2), Items.held, hitem,
        Option.filter_some, if_neg hlive, Option.map_none]
  · rw [ByteSpace.liveAt?, if_neg fun hand => hp hand.1, Items.held_eq_none (Nat.le_of_not_lt hp)]

/-- They are counted as the items are. -/
theorem tallyOf_eq (h : d.Records directory pageSize items layout) (hwell : items.WellFormed) :
    (d.space directory pageSize).tallyOf items.length = items.tally := by
  -- each of the numbers counts the positions of one kind of message
  have hcount {f : Nat → Prop} [DecidablePred f] {g : Item → Bool}
      (hfg : ∀ {p : Nat} {i : Item}, items[p]? = some i → (f p ↔ g i = true)) :
      (List.range items.length).countP (fun p => f p) = items.countP g := by
    rw [Items.countP_eq_countP_range]
    refine List.countP_congr fun p hp => ?_
    have hitem := List.getElem?_eq_getElem (List.mem_range.mp hp)
    rw [hitem, decide_eq_true_iff, hfg hitem]
    rfl
  have hstatus {p : Nat} {i : Item} (hp : items[p]? = some i) (status : Status) :
      ((d.space directory pageSize).recordAt p).status = status.tag ↔ i.status = status := by
    rw [h.record hp]
    exact i.status_toRecord_iff p (layout p) status
  have huuid {p : Nat} {i : Item} (hp : items[p]? = some i) :
      ((d.space directory pageSize).recordAt p).uuid ≠ Uuid.nil := by
    rw [h.record hp, Item.uuid_toRecord]
    exact hwell.named i (List.mem_of_getElem? hp)
  have hnone {f : Nat → Prop} [DecidablePred f] (hf : ∀ p < items.length, ¬ f p) :
      (List.range items.length).countP (fun p => f p) = 0 := by
    refine List.countP_eq_zero.mpr fun p hp => ?_
    rw [decide_eq_true_iff]
    exact hf p (List.mem_range.mp hp)
  have hnew := hcount (f := fun p => (d.space directory pageSize).FirstLive p
      ∧ ((d.space directory pageSize).recordAt p).status = Status.new.tag)
    (g := fun i => i.status = .new) fun {p i} hp => by
      rw [h.firstLive_iff hwell hp, hstatus hp, decide_eq_true_iff]
      exact and_iff_right_of_imp fun heq => by rw [heq]; rfl
  have hlocked := hcount (f := fun p => (d.space directory pageSize).FirstLive p
      ∧ ((d.space directory pageSize).recordAt p).status = Status.locked.tag)
    (g := fun i => i.status = .locked) fun {p i} hp => by
      rw [h.firstLive_iff hwell hp, hstatus hp, decide_eq_true_iff]
      exact and_iff_right_of_imp fun heq => by rw [heq]; rfl
  have hdeleted := hcount (f := fun p => ((d.space directory pageSize).recordAt p).IsTombstone)
    (g := fun i => i.status = .deleted) fun {p i} hp => by
      rw [Record.IsTombstone, hstatus hp, decide_eq_true_iff]
      exact and_iff_right (huuid hp)
  have hvacant := hnone (f := fun p => ((d.space directory pageSize).recordAt p).IsVacant)
    fun p hp => by
      have hitem := List.getElem?_eq_getElem hp
      intro heither
      rcases heither with hnil | hempty
      · exact huuid hitem hnil
      · exact hwell.entered _ (List.getElem_mem hp) ((hstatus hitem .vacant).mp hempty)
  have hduplicates := hnone (f := fun p => ((d.space directory pageSize).recordAt p).IsLive
      ∧ ¬ (d.space directory pageSize).FirstLive p) fun p hp => by
      have hitem := List.getElem?_eq_getElem hp
      intro hand
      obtain ⟨hlive, hfirst⟩ := hand
      rw [h.record hitem, Item.isLive_toRecord_iff (hwell.named _ (List.getElem_mem hp))] at hlive
      exact hfirst ((h.firstLive_iff hwell hitem).mpr hlive)
  rw [ByteSpace.tallyOf, Items.tally, hnew, hlocked, hdeleted, hvacant, hduplicates]

end Records

/-! ## The pages of the payloads -/

/-- The pages of a directory hold the payloads, each where it was put. -/
structure Payloads (d : Disk) (directory : Path) (pageSize : Nat) (payloads : List (List UInt8))
    (layout : Nat → Nat) : Prop where
  tidy : d.Tidy directory
  payload : ∀ {p : Nat} {bytes : List UInt8}, payloads[p]? = some bytes →
    (d.space directory pageSize).read (layout p) bytes.length = bytes
  below : ∀ {p : Nat} {bytes : List UInt8} {o : Nat}, payloads[p]? = some bytes →
    InRange (layout p) bytes.length o → o < d.reach directory pageSize

variable {payloads : List (List UInt8)} {start length : Nat}

namespace Payloads

/-- The payloads are told by the pages and their bytes. -/
theorem congr (h : d.Payloads directory pageSize payloads layout) (htidy : d'.Tidy directory)
    (hreach : d'.reach directory pageSize = d.reach directory pageSize)
    (hspace : d'.space directory pageSize = d.space directory pageSize) :
    d'.Payloads directory pageSize payloads layout where
  tidy := htidy
  payload hp := hspace ▸ h.payload hp
  below hp ho := hreach ▸ h.below hp ho

/-- Dates do not matter to the payloads. -/
theorem alike (h : d.Payloads directory pageSize payloads layout) (hd : Alike d d') :
    d'.Payloads directory pageSize payloads layout :=
  h.congr (hd.tidy h.tidy) hd.reach hd.space.symm

/-- What changes apart from the payloads leaves them. -/
theorem elsewhere (h : d.Payloads directory pageSize payloads layout) (ha : Apart made d d')
    (hother : directory ≠ made) (hup : directory.dropLast ≠ made) :
    d'.Payloads directory pageSize payloads layout := by
  obtain ⟨htidy, hreach⟩ := ha.other hother hup h.tidy
  exact h.congr htidy hreach (ha.space directory pageSize hother)

theorem nil (htidy : d.Tidy directory) (layout : Nat → Nat) :
    d.Payloads directory pageSize [] layout := ⟨htidy, nofun, nofun⟩

/-- The payloads stay while anything is written beside them. -/
theorem confined (h : d.Payloads directory pageSize payloads layout)
    (hc : Confined directory pageSize touched written d d')
    (htouched : ∀ o, touched o → o < 0x10000000000000000)
    (hwritten : ∀ {p : Nat} {bytes : List UInt8} {o : Nat}, payloads[p]? = some bytes →
      InRange (layout p) bytes.length o → ¬ written o) :
    d'.Payloads directory pageSize payloads layout := by
  have htidy := hc.tidy (fun o ho => div_le_maxIndex (htouched o ho)) h.tidy
  refine ⟨htidy, fun {p bytes} hp => ?_, fun hp ho => ?_⟩
  · rw [ByteSpace.read_congr fun o hle hlt => hc.space_eq o (hwritten hp ⟨hle, hlt⟩)]
    exact h.payload hp
  · exact Nat.lt_of_lt_of_le (h.below hp ho) (h.tidy.reach_le htidy fun _ => hc.hasPage)

/-- A payload is written behind the others. -/
theorem append (h : d.Payloads directory pageSize payloads layout) (hpos : 0 < pageSize)
    {bytes : List UInt8}
    (hc : Confined directory pageSize touched (InRange start bytes.length) d d')
    (htouched : ∀ o, touched o → o < 0x10000000000000000)
    (hbehind : ∀ {p : Nat} {other : List UInt8} {o : Nat}, payloads[p]? = some other →
      InRange (layout p) other.length o → o < start)
    (hspace : d'.space directory pageSize = (d.space directory pageSize).write start bytes)
    (hpages : d'.HasPages directory pageSize start bytes.length) :
    d'.Payloads directory pageSize (payloads ++ [bytes])
      (Function.update layout payloads.length start) := by
  -- the others are behind the range that is written
  have hold : d'.Payloads directory pageSize payloads layout :=
    h.confined hc htouched fun hp ho hin => Nat.not_lt_of_le hin.1 (hbehind hp ho)
  refine ⟨hold.tidy, fun {p other} hp => ?_, fun {p other o} hp ho => ?_⟩
  · rcases getElem?_concat_eq_some_iff.mp hp with hp | ⟨rfl, rfl⟩
    · have hne : p ≠ payloads.length := Nat.ne_of_lt (List.getElem?_eq_some_iff.mp hp).1
      rw [Function.update_of_ne hne]
      exact hold.payload hp
    · rw [Function.update_self, hspace]
      exact ByteSpace.read_write ..
  · rcases getElem?_concat_eq_some_iff.mp hp with hp | ⟨rfl, rfl⟩
    · have hne : p ≠ payloads.length := Nat.ne_of_lt (List.getElem?_eq_some_iff.mp hp).1
      rw [Function.update_of_ne hne] at ho
      exact hold.below hp ho
    · rw [Function.update_self] at ho
      exact hold.tidy.lt_reach hpos (hpages o ho)

end Payloads

/-! ## Where the next payload goes -/

/-- Where the last page of a nonempty log ends. -/
theorem pageEnd_of_pos (hpos : 0 < pageSize) {stop : Nat} (hstop : 0 < stop) :
    pageEnd pageSize stop = ((stop - 1) / pageSize + 1) * pageSize := by
  have hsplit : stop + pageSize - 1 = stop - 1 + pageSize := by omega
  rw [pageEnd, hsplit, Nat.add_div_right _ hpos]

/-- A longer log ends in no earlier page. -/
theorem pageEnd_mono {stop stop' : Nat} (h : stop ≤ stop') :
    pageEnd pageSize stop ≤ pageEnd pageSize stop' :=
  Nat.mul_le_mul_right _ (Nat.div_le_div_right (by omega))

theorem pageEnd_mul (hpos : 0 < pageSize) (n : Nat) :
    pageEnd pageSize (n * pageSize) = n * pageSize := by
  have hsplit : n * pageSize + pageSize - 1 = pageSize - 1 + n * pageSize := by omega
  rw [pageEnd, hsplit, Nat.add_mul_div_right _ _ hpos, Nat.div_eq_of_lt (by omega), Nat.zero_add]

/-- The reach of the pages is the end of a page. -/
theorem Tidy.pageEnd_reach (h : d.Tidy directory) (hpos : 0 < pageSize) :
    pageEnd pageSize (d.reach directory pageSize) = d.reach directory pageSize := by
  rcases h.reach_cases pageSize with ⟨-, hzero⟩ | ⟨index, -, hreach⟩
  · rw [hzero]
    simpa using pageEnd_mul hpos 0
  · rw [hreach]
    exact pageEnd_mul hpos (index + 1)

/-- Pages that reach to the end of the last payload reach to the end of the next one when it is
written. -/
theorem Tidy.reach_append (h : d.Tidy directory) (hpos : 0 < pageSize)
    (hc : Confined directory pageSize (InRange start length) written d d')
    (hbound : ∀ o, InRange start length o → o < 0x10000000000000000)
    (hpages : d'.HasPages directory pageSize start length)
    (hreach : d.reach directory pageSize = pageEnd pageSize start) :
    d'.reach directory pageSize = pageEnd pageSize (start + length) := by
  have htidy := hc.tidy (fun o ho => div_le_maxIndex (hbound o ho)) h
  by_cases hzero : length = 0
  · subst hzero
    have hnone (o : Nat) (ho : InRange start 0 o) : o < d.reach directory pageSize :=
      absurd ho.1 (Nat.not_le_of_lt ho.2)
    rw [(h.confined hpos hc hnone).2, hreach, Nat.add_zero]
  · have hend : pageEnd pageSize (start + length)
        = ((start + length - 1) / pageSize + 1) * pageSize :=
      pageEnd_of_pos hpos (by omega)
    -- the page of the last byte is there, and none behind it is made
    have hlast : InRange start length (start + length - 1) := ⟨by omega, by omega⟩
    refine Nat.le_antisymm ?_ ?_
    · rcases htidy.reach_cases pageSize with ⟨-, hnone⟩ | ⟨index, hpage, hreach'⟩
      · rw [hnone]
        exact Nat.zero_le _
      · rw [hreach']
        rcases hc.hasPage_or hpage with hold | ⟨o, ho, rfl⟩
        · refine Nat.le_trans (h.le_reach hold pageSize) ?_
          rw [hreach]
          exact pageEnd_mono (Nat.le_add_right _ _)
        · rw [hend]
          refine Nat.mul_le_mul_right _ (Nat.succ_le_succ (Nat.div_le_div_right ?_))
          have hlt := ho.2
          omega
    · rw [hend]
      exact htidy.le_reach (hpages _ hlast) pageSize

end Disk

end PagedQueue
