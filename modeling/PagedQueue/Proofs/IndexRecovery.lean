import PagedQueue.Proofs.LiveRecords
import PagedQueue.Proofs.PageCatalog

/-!
# Recovery of the index

Recovery reads the count and then the records that it covers, in order. The loop keeps an invariant
that says what the records passed so far amount to (`Passed`): what was counted is `tallyOf`, what
the indexes hold is `liveAt?`, and no record passed was faulty. So recovery stops exactly at a
faulty record, a count below zero or one that covers more than the pages reach (`recover_leads`),
and else the indexes hold the first live record of each UUID.
-/

namespace PagedQueue

open Procedure
open PageStore (Ready Touches Nowhere)

namespace MessageIndex

/-- The bytes of the file of an index. -/
abbrev bytesOf (s : Session MessageIndex) : ByteSpace := PagedFile.bytesOf (s.part file)

/-- The pages of the file of an index. -/
abbrev pagesOf (s : Session MessageIndex) : Session PageStore := (s.part file).part PagedFile.store

/-- How far the pages of the file of an index reach. -/
def reachOf (s : Session MessageIndex) : Nat :=
  s.host.disk.reach s.memory.file.store.directory s.memory.file.store.pageSize

/-- Every page of the file of an index can be opened. -/
abbrev IsOpenable (s : Session MessageIndex) : Prop :=
  s.host.disk.Openable s.memory.file.store.directory

variable {s t u : Session MessageIndex} {touched : Nat → Prop}

/-- What a read of the file leaves of an index: the rest of the memory, and every byte. -/
structure Reads (touched : Nat → Prop) (s t : Session MessageIndex) : Prop where
  touches : Touches touched Nowhere (pagesOf s) (pagesOf t)
  length_eq : t.memory.file.length = s.memory.file.length

namespace Reads

/-- A read changes no byte. -/
theorem bytesOf_eq (h : Reads touched s t) : bytesOf t = bytesOf s := h.touches.contents_eq

/-- One read after another is one. -/
theorem trans (h : Reads touched s t) (h' : Reads touched t u) : Reads touched s u :=
  ⟨h.touches.comp h'.touches (fun _ => id) fun _ => id, h'.length_eq.trans h.length_eq⟩

/-- Nothing but the file of an index counts. -/
theorem memory (h : Reads touched s t) {memory : MessageIndex}
    (hfile : memory.file = t.memory.file) : Reads touched s ⟨t.host, memory⟩ := by
  obtain ⟨htouches, hlength⟩ := h
  constructor
  · show Touches touched Nowhere (pagesOf s) ⟨t.host, memory.file.store⟩
    rw [hfile]
    exact htouches
  · show memory.file.length = _
    rw [hfile]
    exact hlength

end Reads

/-! ## One record -/

/-- The page of some of these offsets cannot be mapped. -/
def Unreadable (wanted : Nat → Prop) (s : Session MessageIndex) : Prop :=
  ∃ o, wanted o ∧ ¬ s.host.disk.Mappable s.memory.file.store.directory
    (o / s.memory.file.store.pageSize)

/-- Bytes are unreadable only where a page cannot be opened. -/
theorem Unreadable.not_openable {wanted : Nat → Prop} (h : Unreadable wanted s) :
    ¬ IsOpenable s := by
  obtain ⟨o, -, hunmappable⟩ := h
  exact fun hopenable => hunmappable (hopenable.mappable _)

/-- The pages of these offsets are there. -/
def HasPagesFor (wanted : Nat → Prop) (s : Session MessageIndex) : Prop :=
  ∀ o, wanted o → s.host.disk.HasPage s.memory.file.store.directory
  (o / s.memory.file.store.pageSize)

/-- A read takes away no page. -/
theorem Reads.hasPagesFor {wanted : Nat → Prop} (h : Reads touched s t)
    (hpages : HasPagesFor wanted s) :
    HasPagesFor wanted t := by
  intro o ho
  show t.host.disk.HasPage (pagesOf t).memory.directory (o / (pagesOf t).memory.pageSize)
  rw [h.touches.same.directory, h.touches.same.pageSize]
  exact h.touches.hasPage (hpages o ho)

theorem hasPagesFor_of_lookedAt {start length : Nat} {u : Session PagedFile}
    (h : PagedFile.LookedAt start length (s.part file) u) :
    HasPagesFor (InRange start length) ⟨u.host, { s.memory with file := u.memory }⟩ := by
  have hdirectory : u.memory.store.directory = s.memory.file.store.directory :=
    h.touches.same.directory
  have hpageSize : u.memory.store.pageSize = s.memory.file.store.pageSize := h.touches.same.pageSize
  intro o ho
  show u.host.disk.HasPage u.memory.store.directory (o / u.memory.store.pageSize)
  rw [hdirectory, hpageSize]
  exact h.hasPages o ho

/-- What cannot be read after other reads could not be read before them. -/
theorem Reads.unreadable {wanted : Nat → Prop} (h : Reads touched s t) (ht : Unreadable wanted t) :
    Unreadable wanted s := by
  obtain ⟨o, ho, hunmappable⟩ := ht
  refine ⟨o, ho, fun hmappable => hunmappable ?_⟩
  show t.host.disk.Mappable (pagesOf t).memory.directory (o / (pagesOf t).memory.pageSize)
  rw [h.touches.same.directory, h.touches.same.pageSize]
  exact h.touches.last.mappable hmappable

/-- A record is read as it stands, or its page cannot be opened. -/
theorem readRecord_leads (hready : Ready (pagesOf s)) (position : Nat) :
    (readRecord position).Leads s
      (fun record u => record = (bytesOf s).recordAt position
        ∧ Reads (InRange (Record.place position) Record.size) s u
        ∧ HasPagesFor (InRange (Record.place position) Record.size) u
        ∧ u.memory = { s.memory with file := u.memory.file })
      fun _ _ => Unreadable (InRange (Record.place position) Record.size) s := by
  unfold readRecord onFile
  simp only [leads_bind, leads_within]
  refine (PagedFile.readBytes_leads (s := s.part file) hready _ _).mono ?_ ?_
  · intro _ u hu
    obtain ⟨hu, rfl⟩ := hu
    rw [ByteSpace.decode_read, leads_ofExcept_ok]
    exact ⟨rfl, ⟨hu.touches, hu.length_eq⟩, hasPagesFor_of_lookedAt hu, rfl⟩
  · intro _ _ hfailed
    obtain ⟨-, ⟨o, ho, hunmappable, -⟩, -⟩ := hfailed
    exact ⟨o, ho, hunmappable⟩

/-- The offsets of the count and of the first records, if there are pages at all. -/
def Wanted (s : Session MessageIndex) (records o : Nat) : Prop :=
  reachOf s ≠ 0 ∧ o < Record.place records

theorem wanted_zero {o : Nat} (h : Wanted s 0 o) : InRange 0 Record.countSize o :=
  ⟨Nat.zero_le _, h.2⟩

/-- The records go on where the ones before end. -/
theorem wanted_succ {k o : Nat} (h : Wanted s (k + 1) o) :
    Wanted s k o ∨ InRange (Record.place k) Record.size o := by
  obtain ⟨hne, hlt⟩ := h
  simp only [Wanted, InRange, Record.place, Record.size] at hlt ⊢
  omega

theorem wanted_record {k n o : Nat} (hne : reachOf s ≠ 0) (hk : k < n)
    (ho : InRange (Record.place k) Record.size o) : Wanted s n o := by
  refine ⟨hne, ?_⟩
  obtain ⟨-, hlt⟩ := ho
  simp only [Record.place, Record.size] at hlt ⊢
  omega

/-- How far a recovery came: `k` records of the file were passed. -/
structure Passed (s : Session MessageIndex) (touched : Nat → Prop) (n k : Nat)
    (found : Tally × Std.TreeMap Nat EntryId) (t : Session MessageIndex) : Prop where
  reads : Reads touched s t
  holds : Holds { t.memory with ordered := found.2 } ((bytesOf s).liveAt? k)
  tally : found.1 = { (bytesOf s).tallyOf k with records := n }
  sense : ∀ p < k, ¬ ((bytesOf s).recordAt p).Faulty
  pending : t.memory.pending = s.memory.pending
  pages : HasPagesFor (Wanted s k) t

theorem passed_zero (hreads : Reads touched s t) (hlive : t.memory.live = {})
    (hpending : t.memory.pending = s.memory.pending) (hpages : HasPagesFor (Wanted s 0) t)
    (n : Nat) : Passed s touched n 0 ({ records := n }, {}) t := by
  refine ⟨hreads, ?_, rfl, fun p hp => absurd hp (Nat.not_lt_zero p), hpending, hpages⟩
  have hnone : (bytesOf s).liveAt? 0 = fun _ => none :=
    funext fun p => if_neg fun hand => Nat.not_lt_zero p hand.1
  rw [hnone]
  exact holds_empty hlive rfl

/-- Recovery passes one more record, or finds it faulty or unreadable. -/
theorem recoverRecord_leads {n k : Nat} {found : Tally × Std.TreeMap Nat EntryId}
    (htouched : ∀ o, InRange (Record.place k) Record.size o → touched o)
    (h : Passed s touched n k found t) :
    (recoverRecord found k).Leads t (Passed s touched n (k + 1))
      fun _ _ => ((bytesOf s).recordAt k).Faulty
        ∨ Unreadable (InRange (Record.place k) Record.size) s := by
  obtain ⟨tally, ordered⟩ := found
  unfold recoverRecord
  simp only [leads_bind]
  refine (readRecord_leads h.reads.touches.ready k).mono ?_ fun _ _ hunreadable =>
    .inr (h.reads.unreadable hunreadable)
  intro record u hu
  obtain ⟨rfl, hu, hpages, hmemory⟩ := hu
  rw [h.reads.bytesOf_eq]
  have hreads : Reads touched s u :=
    h.reads.trans ⟨hu.touches.mono htouched fun _ => id, hu.length_eq⟩
  have htally : tally = { (bytesOf s).tallyOf k with records := n } := h.tally
  have hpending : u.memory.pending = s.memory.pending := by
    rw [hmemory]
    exact h.pending
  have hholds : Holds { u.memory with ordered } ((bytesOf s).liveAt? k) :=
    h.holds.congr (by rw [hmemory]) (by rw [hmemory]) rfl
  have hsense (hfine : ¬ ((bytesOf s).recordAt k).Faulty) :
      ∀ p < k + 1, ¬ ((bytesOf s).recordAt p).Faulty := by
    intro p hp
    by_cases heq : p = k
    · rwa [heq]
    · exact h.sense p (by omega)
  have hpassed : HasPagesFor (Wanted s (k + 1)) u := fun o ho =>
    (wanted_succ ho).elim (hu.hasPagesFor h.pages o) (hpages o)
  have hskip {tally' : Tally} (hfine : ¬ ((bytesOf s).recordAt k).Faulty)
      (hfirst : ¬ (bytesOf s).FirstLive k)
      (htally' : tally' = { (bytesOf s).tallyOf (k + 1) with records := n }) :
      Passed s touched n (k + 1) (tally', ordered) u := by
    refine ⟨hreads, ?_, htally', hsense hfine, hpending, hpassed⟩
    rw [ByteSpace.liveAt?_succ_of_not_first hfirst]
    exact hholds
  -- one case for each meaning of the record; only the first live one of a UUID enters the indexes
  rcases Slot.ofRecord_cases ((bytesOf s).recordAt k) k with ⟨hvacant, hfine, heq⟩
    | ⟨htombstone, hfine, heq⟩ | ⟨hlive, hfine, heq⟩ | ⟨hfaulty, fault, heq⟩
  · have hfirst : ¬ (bytesOf s).FirstLive k := fun hfirst => hvacant.not_isLive hfirst.1
    rw [heq, leads_ofExcept_ok]
    exact hskip hfine hfirst (by rw [ByteSpace.tallyOf_succ_of_isVacant hvacant, htally])
  · have hfirst : ¬ (bytesOf s).FirstLive k := fun hfirst => htombstone.not_isLive hfirst.1
    rw [heq, leads_ofExcept_ok]
    exact hskip hfine hfirst (by rw [ByteSpace.tallyOf_succ_of_isTombstone htombstone, htally])
  · have hcontains : u.memory.live.contains ((bytesOf s).recordAt k).uuid = true
        ↔ ¬ (bytesOf s).FirstLive k := by
      rw [ByteSpace.firstLive_iff hlive]
      push Not
      exact hholds.contains_iff
    rw [heq, leads_ofExcept_ok]
    simp only [leads_bind, leads_memory, leads_ite]
    split
    next hdup =>
      have hfirst := hcontains.mp hdup
      exact hskip hfine hfirst (by rw [ByteSpace.tallyOf_succ_of_duplicate hlive hfirst, htally])
    next hnew =>
      have hfirst : (bytesOf s).FirstLive k := not_not.mp (mt hcontains.mpr hnew)
      have hfree : (bytesOf s).liveAt? k k = none := by
        rw [ByteSpace.liveAt?, if_neg fun hand => Nat.lt_irrefl k hand.1]
      simp only [addEntry, enterLive, leads_bind, leads_memory, leads_update, leads_pure]
      refine ⟨hreads.memory rfl, ?_, ?_, hsense hfine, hpending, hpassed⟩
      · rw [ByteSpace.liveAt?_succ_of_first hfirst]
        exact hholds.enter (e := ((bytesOf s).recordAt k).toEntry k) hfree
          (Record.isLive_toEntry _ _) ((ByteSpace.firstLive_iff hlive).mp hfirst) rfl rfl rfl
      · rw [ByteSpace.tallyOf_succ_of_firstLive hfirst, htally]
        have hentry : (((bytesOf s).recordAt k).toEntry k).status
            = if ((bytesOf s).recordAt k).status = Status.new.tag then .new else .locked := rfl
        by_cases hstatus : ((bytesOf s).recordAt k).status = Status.new.tag
        · rw [if_pos hstatus] at hentry ⊢
          rw [hentry, if_neg (by decide)]
        · rw [if_neg hstatus] at hentry ⊢
          rw [hentry, if_pos rfl]
  · rw [heq, leads_ofExcept_error]
    exact .inl hfaulty

/-! ## The whole recovery -/

end MessageIndex

namespace ByteSpace

/-- The number of records that the count covers, if it is not negative. -/
def covered (b : ByteSpace) : Nat := b.count.toInt.toNat

/-- Whether the pages that reach so far hold what cannot be recovered: a count below zero or beyond
the pages, or a record below the count that makes no sense. -/
def Unsound (b : ByteSpace) (reach : Nat) : Prop :=
  reach ≠ 0 ∧ (b.count < 0 ∨ reach < Record.place b.covered
    ∨ ∃ p < b.covered, (b.recordAt p).Faulty)

/-- The number of records there are in pages that reach so far. -/
def recordCount (b : ByteSpace) (reach : Nat) : Nat := if reach = 0 then 0 else b.covered

/-- Once the count and all records below it were looked at, nothing is left that could be
unsound. -/
theorem not_unsound {b : ByteSpace} {reach n : Nat} (hn : n = b.recordCount reach)
    (hwithin : reach ≠ 0 → ¬ b.count < 0 ∧ Record.place n ≤ reach)
    (hsense : ∀ p < n, ¬ (b.recordAt p).Faulty) : ¬ b.Unsound reach := by
  intro hunsound
  obtain ⟨hne, hcause⟩ := hunsound
  have hcovered : n = b.covered := hn.trans (if_neg hne)
  obtain ⟨hnonnegative, hle⟩ := hwithin hne
  rw [← hcovered] at hcause
  rcases hcause with hnegative | hbeyond | ⟨p, hp, hfaulty⟩
  · exact hnonnegative hnegative
  · exact Nat.not_lt_of_le hle hbeyond
  · exact hsense p hp hfaulty

end ByteSpace

namespace MessageIndex

variable {s t u : Session MessageIndex}

/-- The count is read and checked against the pages. -/
theorem readCount_leads (hready : Ready (pagesOf s)) (hlength : s.memory.file.length = reachOf s) :
    readCount.Leads s
      (fun n u => n = (bytesOf s).recordCount (reachOf s)
        ∧ (reachOf s ≠ 0 → ¬ (bytesOf s).count < 0 ∧ Record.place n ≤ reachOf s)
        ∧ Reads (Wanted s 0) s u ∧ HasPagesFor (Wanted s 0) u
        ∧ u.memory = { s.memory with file := u.memory.file })
      fun _ _ => (bytesOf s).Unsound (reachOf s) ∨ Unreadable (Wanted s 0) s := by
  unfold readCount onFile
  simp only [leads_bind, leads_memory, leads_ite, leads_within, leads_pure, leads_throw, hlength]
  split
  next hzero =>
    have hcount : (bytesOf s).recordCount (reachOf s) = 0 := if_pos hzero
    exact ⟨hcount.symm, fun hne => absurd hzero hne, ⟨.refl hready, rfl⟩, fun _ ho =>
      absurd hzero ho.1,
      trivial⟩
  next hne =>
    have hcount : (bytesOf s).recordCount (reachOf s) = (bytesOf s).covered := if_neg hne
    refine (PagedFile.readInt32_leads (s := s.part file) hready 0).mono ?_ ?_
    · intro _ u hu
      obtain ⟨hu, rfl⟩ := hu
      split
      next hnegative => exact .inl ⟨hne, .inl hnegative⟩
      next hnonnegative =>
        split
        next hbeyond => exact .inl ⟨hne, .inr (.inl hbeyond)⟩
        next hwithin =>
          exact ⟨hcount.symm, fun _ => ⟨hnonnegative, Nat.le_of_not_lt hwithin⟩,
            ⟨hu.touches.mono (fun _ ho => ⟨hne, ho.2⟩) fun _ => id, hu.length_eq⟩,
            fun o ho => hasPagesFor_of_lookedAt hu o (wanted_zero ho), trivial⟩
    · intro _ _ hfailed
      obtain ⟨-, ⟨o, ho, hunmappable, -⟩, -⟩ := hfailed
      exact .inr ⟨o, ⟨hne, ho.2⟩, hunmappable⟩

/-- What a recovery leaves when it succeeds. -/
structure Recovered (s : Session MessageIndex) (tally : Tally) (u : Session MessageIndex) :
    Prop where
  tally_eq : tally = (bytesOf s).tallyOf ((bytesOf s).recordCount (reachOf s))
  sense : ∀ p < (bytesOf s).recordCount (reachOf s), ¬ ((bytesOf s).recordAt p).Faulty
  holds : Holds u.memory ((bytesOf s).liveAt? ((bytesOf s).recordCount (reachOf s)))
  count_eq : u.memory.count = (bytesOf s).recordCount (reachOf s)
  next_eq : u.memory.next = (bytesOf s).recordCount (reachOf s)
  length_eq : u.memory.file.length = reachOf s
  pending : u.memory.pending = s.memory.pending
  touches : Touches (fun o => o < reachOf s) Nowhere (pagesOf s) (pagesOf u)

/-- The recovery of an index whose length is known, and whose memory was cleared. -/
private theorem recoverRecords_leads (hready : Ready (pagesOf s)) (hlive : s.memory.live = {})
    (hlength : s.memory.file.length = reachOf s) {n : Nat}
    (hn : n = (bytesOf s).recordCount (reachOf s)) :
    (do
      let count ← readCount
      let (tally, ordered) ← (List.range count).foldlM recoverRecord ({ records := count }, {})
      update fun s => { s with ordered, count, next := count }
      return tally : Procedure MessageIndex Tally).Leads s
      (fun tally u => ¬ (bytesOf s).Unsound (reachOf s) ∧ Recovered s tally u
        ∧ HasPagesFor (Wanted s n) u)
      fun _ _ => (bytesOf s).Unsound (reachOf s) ∨ Unreadable (Wanted s n) s := by
  have hcountWanted (o : Nat) (ho : Wanted s 0 o) : Wanted s n o := by
    refine ⟨ho.1, Nat.lt_of_lt_of_le ho.2 ?_⟩
    simp only [Record.place]
    omega
  simp only [leads_bind]
  refine (readCount_leads hready hlength).mono ?_ fun _ _ => Or.imp_right fun hunreadable =>
    hunreadable.imp fun o ho => ⟨hcountWanted o ho.1, ho.2⟩
  intro count t ht
  obtain ⟨hcount, hwithin, ht, hpages, hmemory⟩ := ht
  obtain rfl : count = n := hcount.trans hn.symm
  have hreads : Reads (Wanted s count) s t :=
    ⟨ht.touches.mono hcountWanted fun _ => id, ht.length_eq⟩
  have hstart : Passed s (Wanted s count) count 0 ({ records := count }, {}) t :=
    passed_zero hreads (by rw [hmemory]; exact hlive) (by rw [hmemory]) hpages count
  have hstep (k : Nat) (found : Tally × Std.TreeMap Nat EntryId) (u : Session MessageIndex)
      (hk : k < count) (hu : Passed s (Wanted s count) count k found u) :
      (recoverRecord found k).Leads u (Passed s (Wanted s count) count (k + 1))
        fun _ _ => (bytesOf s).Unsound (reachOf s) ∨ Unreadable (Wanted s count) s := by
    -- some record is covered, so there are pages, and the count is the one in the file
    have hne : reachOf s ≠ 0 := by
      intro hzero
      rw [hn, ByteSpace.recordCount, if_pos hzero] at hk
      exact Nat.not_lt_zero k hk
    have hcovered : count = (bytesOf s).covered := hn.trans (if_neg hne)
    refine (recoverRecord_leads (fun o ho => wanted_record hne hk ho) hu).mono (fun _ _ => id) ?_
    intro _ _ hcause
    rcases hcause with hfaulty | ⟨o, ho, hunmappable⟩
    · exact .inl ⟨hne, .inr (.inr ⟨k, hcovered ▸ hk, hfaulty⟩)⟩
    · exact .inr ⟨o, wanted_record hne hk ho, hunmappable⟩
  refine (leads_foldlM_range recoverRecord (Passed s _ count) hstart hstep).mono ?_ fun _ _ => id
  intro hand u hu
  obtain ⟨tally, ordered⟩ := hand
  simp only [leads_update, leads_pure]
  have hsense := hu.sense
  have htally : tally = (bytesOf s).tallyOf count := hu.tally
  have hbelow (o : Nat) (ho : Wanted s count o) : o < reachOf s :=
    Nat.lt_of_lt_of_le ho.2 (hwithin ho.1).2
  refine ⟨ByteSpace.not_unsound hn hwithin hsense, ?_, hu.pages⟩
  exact {
    tally_eq := hn ▸ htally
    sense := hn ▸ hsense
    holds := hn ▸ hu.holds.congr rfl rfl rfl
    count_eq := hn
    next_eq := hn
    length_eq := hu.reads.length_eq.trans hlength
    pending := hu.pending
    touches := hu.reads.touches.mono hbelow fun _ => id }

/-- Recovery fails only if what is stored is unsound, or a page of what is to be read cannot be
mapped. -/
theorem recover_leads_of_ready (hready : Ready (pagesOf s))
    (hdirectory : s.host.disk.node? s.memory.file.store.directory = some .directory) :
    recover.Leads s
      (fun tally u => ¬ (bytesOf s).Unsound (reachOf s) ∧ Recovered s tally u
        ∧ HasPagesFor (Wanted s ((bytesOf s).recordCount (reachOf s))) u)
      fun _ _ => (bytesOf s).Unsound (reachOf s)
        ∨ Unreadable (Wanted s ((bytesOf s).recordCount (reachOf s))) s := by
  have hlength := PagedFile.recoverLength_ensures (s := ⟨s.host, s.memory.file⟩) hdirectory
  unfold recover onFile
  rw [leads_bind, leads_update, leads_bind, leads_discard, leads_within]
  refine hlength.leads.mono ?_ fun _ _ => False.elim
  intro length t ht
  obtain ⟨rfl, rfl⟩ := ht
  have hrest := recoverRecords_leads (s := ⟨s.host, { s.memory with
    live := {}, ordered := {}, file := { s.memory.file with length := reachOf s } }⟩) hready
      rfl rfl rfl
  refine hrest.mono (fun _ _ hu => ?_) fun _ _ => id
  obtain ⟨hsound, hrecovered, hpages⟩ := hu
  exact ⟨hsound, ⟨hrecovered.tally_eq, hrecovered.sense, hrecovered.holds, hrecovered.count_eq,
    hrecovered.next_eq, hrecovered.length_eq, hrecovered.pending, hrecovered.touches⟩, hpages⟩

/-- Where every page can be opened, recovery succeeds exactly if what is stored is sound. -/
theorem recover_leads (hready : Ready (pagesOf s)) (hopenable : IsOpenable s) :
    recover.Leads s (fun tally u => ¬ (bytesOf s).Unsound (reachOf s) ∧ Recovered s tally u)
      fun _ _ => (bytesOf s).Unsound (reachOf s) :=
  (recover_leads_of_ready hready hopenable.isDirectory).mono (fun _ _ hu => ⟨hu.1, hu.2.1⟩)
    fun _ _ hcause => hcause.resolve_right fun hunreadable => hunreadable.not_openable hopenable

/-! ## What recovery comes to -/

/-- Where every page can be opened, a message that enters takes the next position. -/
theorem push_ensures (hready : Ready (pagesOf s)) (hopenable : IsOpenable s) (uuid : Uuid)
    (offset : UInt64) (length : UInt32) (kind : Kind) :
    (push uuid offset length kind).Ensures s fun id u =>
      (u.memory.entry id).position = s.memory.next := by
  have hpublish : (publish uuid offset length kind).Ensures s fun id u =>
      (u.memory.entry id).position = s.memory.next := by
    unfold publish takePosition addEntry writeRecord raiseCount enterLive enterOrdered
      onFile Ensures
    simp only [leads_bind, leads_memory, leads_update, leads_within, leads_pure, leads_ite]
    -- the entry is in the table before its record is written, and nothing takes it out again
    have hentry : ({ s.memory with
        entries := s.memory.entries.push ⟨uuid, offset, length, kind, s.memory.next, .new⟩ } :
          MessageIndex).entry s.memory.entries.size
        = ⟨uuid, offset, length, kind, s.memory.next, .new⟩ := entry_of_push_self rfl
    have hposition := congrArg Entry.position hentry
    have hbytes : encodeInt32 (Int32.ofNat (s.memory.next + 1)) ≠ [] :=
      List.ne_nil_of_length_pos (by simp)
    refine (PagedFile.writeBytes_leads (s := s.part file) hready _ _).mono ?_
      fun _ _ hfailed => PagedFile.not_failed (s := s.part file) hopenable hfailed
    intro _ t ht
    split
    · refine (PagedFile.writeWord_leads (s := t) ht.touches.ready 0 hbytes).mono
        (fun _ _ _ => hposition) fun _ _ hfailed => ?_
      -- the pages can still be opened once the record is written
      have hdirectory : t.memory.store.directory = s.memory.file.store.directory :=
        ht.touches.same.directory
      exact PagedFile.not_failed (s := t) (hdirectory ▸ ht.touches.last.openable hopenable) hfailed
    · exact hposition
  unfold push Ensures
  rw [leads_tryFinally]
  exact hpublish

/-- The indexes lead to the first live record of each UUID among the first `n` records: under its
own position, and with every field as it is stored. -/
structure LeadsToFirst (m : MessageIndex) (b : ByteSpace) (n : Nat) : Prop where
  live : ∀ u e, (∃ id, m.live[u]? = some id ∧ m.entry id = e)
    ↔ ∃ p < n, b.FirstLive p ∧ (b.recordAt p).uuid = u
      ∧ e.toRecord = b.recordAt p ∧ e.position = p
  ordered : ∀ (p : Nat) e, (∃ id, m.ordered[p]? = some id ∧ m.entry id = e)
    ↔ p < n ∧ b.FirstLive p ∧ e.toRecord = b.recordAt p ∧ e.position = p

/-- An index that holds the live records leads to the first of each UUID. -/
theorem Holds.leadsToFirst {m : MessageIndex} {b : ByteSpace} {n : Nat}
    (h : Holds m (b.liveAt? n)) (hsense : ∀ p < n, ¬ (b.recordAt p).Faulty) :
    LeadsToFirst m b n := by
  constructor
  · intro u e
    rw [h.exists_live_iff]
    constructor
    · intro hand
      obtain ⟨p, hp, rfl⟩ := hand
      obtain ⟨hlt, hfirst, heq⟩ := ByteSpace.liveAt?_eq_some_iff.mp hp
      obtain ⟨hrecord, hposition⟩ := (Record.toEntry_eq_iff hfirst.1 (hsense p hlt)).mp heq
      refine ⟨p, hlt, hfirst, ?_, hrecord, hposition⟩
      rw [← heq]
      rfl
    · intro hand
      obtain ⟨p, hlt, hfirst, rfl, hrecord, hposition⟩ := hand
      have heq := (Record.toEntry_eq_iff hfirst.1 (hsense p hlt)).mpr ⟨hrecord, hposition⟩
      refine ⟨p, ByteSpace.liveAt?_eq_some_iff.mpr ⟨hlt, hfirst, heq⟩, ?_⟩
      rw [← heq]
      rfl
  · intro p e
    constructor
    · intro hand
      obtain ⟨id, hid, rfl⟩ := hand
      obtain ⟨hlt, hfirst, heq⟩ := ByteSpace.liveAt?_eq_some_iff.mp (h.held_of_ordered hid)
      exact ⟨hlt, hfirst, (Record.toEntry_eq_iff hfirst.1 (hsense p hlt)).mp heq⟩
    · intro hand
      obtain ⟨hlt, hfirst, heq⟩ := hand
      refine h.exists_id (ByteSpace.liveAt?_eq_some_iff.mpr ⟨hlt, hfirst, ?_⟩)
      exact (Record.toEntry_eq_iff hfirst.1 (hsense p hlt)).mpr heq

variable {tally : Tally}

/-- It holds as many messages as were counted new or locked. -/
theorem Recovered.size_eq (h : Recovered s tally u) : u.memory.size = tally.new + tally.locked := by
  have hsize := h.holds.size_eq (n := (bytesOf s).recordCount (reachOf s))
    fun he => (ByteSpace.liveAt?_eq_some_iff.mp he).1
  rw [hsize, ByteSpace.countP_liveAt?, h.tally_eq]

/-- Pages that could be opened can still be. -/
theorem Recovered.openable (h : Recovered s tally t) (hs : IsOpenable s) : IsOpenable t := by
  have hdirectory : t.memory.file.store.directory = s.memory.file.store.directory :=
    h.touches.same.directory
  rw [IsOpenable, hdirectory]
  exact h.touches.last.openable hs

/-- A second recovery finds what the first one found. -/
theorem Recovered.again (h : Recovered s tally t)
    (htidy : s.host.disk.Tidy s.memory.file.store.directory)
    (hsound : ¬ (bytesOf s).Unsound (reachOf s)) :
    ∃ u, recover.outcome t = (.ok tally, u) ∧ Recovered s tally u := by
  have hbytes : bytesOf t = bytesOf s := h.touches.contents_eq
  have hdirectory : t.memory.file.store.directory = s.memory.file.store.directory :=
    h.touches.same.directory
  have hpageSize : t.memory.file.store.pageSize = s.memory.file.store.pageSize :=
    h.touches.same.pageSize
  obtain ⟨-, hreach⟩ := htidy.confined s.memory.file.store.pageSize_pos h.touches.last fun _ => id
  have hreach' : reachOf t = reachOf s := by
    rw [reachOf, hdirectory, hpageSize]
    exact hreach
  have hagain := recover_leads h.touches.ready (h.openable htidy.toOpenable)
  rw [hbytes, hreach'] at hagain
  obtain ⟨tally', u, hrun, -, hu⟩ := (hagain.ensures fun _ _ => hsound).outcome
  have htally : tally' = tally := by
    rw [hu.tally_eq, hbytes, hreach', h.tally_eq]
  subst htally
  refine ⟨u, hrun, ?_⟩
  have hcomp := h.touches.comp hu.touches (fun o ho => hreach' ▸ ho) fun _ => id
  exact ⟨h.tally_eq, h.sense, by rw [← hbytes, ← hreach']; exact hu.holds,
    by rw [← hbytes, ← hreach']; exact hu.count_eq, by rw [← hbytes, ← hreach']; exact hu.next_eq,
    hu.length_eq.trans hreach', hu.pending.trans h.pending, hcomp⟩

/-- What a recovery finds among the first `n` records: each is counted once, and the indexes lead to
the first live record of each UUID and to nothing else. The next message takes the position
behind. -/
structure Finds (b : ByteSpace) (n : Nat) (tally : Tally) (t : Session MessageIndex) : Prop where
  tally_eq : tally = b.tallyOf n
  sum : tally.records
    = tally.new + tally.locked + tally.deleted + tally.vacant + tally.duplicates
  leads : LeadsToFirst t.memory b n
  size : t.memory.size = tally.new + tally.locked
  count : t.memory.count = n
  push : ∀ uuid offset length kind, ∃ id u,
    (MessageIndex.push uuid offset length kind).outcome t = (.ok id, u)
      ∧ (u.memory.entry id).position = n

theorem Recovered.found (h : Recovered s tally t) (hopenable : IsOpenable s) :
    Finds (bytesOf s) ((bytesOf s).recordCount (reachOf s)) tally t where
  tally_eq := h.tally_eq
  sum := by
    have hsum := ByteSpace.tallyOf_sum h.sense
    rw [h.tally_eq]
    exact hsum.symm
  leads := h.holds.leadsToFirst h.sense
  size := h.size_eq
  count := h.count_eq
  push uuid offset length kind := by
    have hpush := push_ensures h.touches.ready (h.openable hopenable) uuid offset length kind
    obtain ⟨id, u, hrun, hposition⟩ := hpush.outcome
    exact ⟨id, u, hrun, hposition.trans h.next_eq⟩

end MessageIndex

open MessageIndex in
/-- Recovery over a directory of page files with any contents. It fails exactly if the count is
below zero or covers more than the pages reach, or if a record that it covers makes no sense; a
second recovery finds the same as the first. -/
theorem recovery_exact (s : Session MessageIndex) (hready : PageStore.Ready (pagesOf s))
    (htidy : s.host.disk.Tidy s.memory.file.store.directory) :
    ((∃ fault t, recover.outcome s = (.error fault, t)) ↔ (bytesOf s).Unsound (reachOf s))
    ∧ ∀ tally t, recover.outcome s = (.ok tally, t) →
      Finds (bytesOf s) ((bytesOf s).recordCount (reachOf s)) tally t
      ∧ ∃ u, recover.outcome t = (.ok tally, u)
        ∧ Finds (bytesOf s) ((bytesOf s).recordCount (reachOf s)) tally u := by
  have hleads := recover_leads hready htidy.toOpenable
  refine ⟨⟨?_, fun hunsound => ?_⟩, fun tally t hrun => ?_⟩
  · intro hand
    obtain ⟨fault, t, hrun⟩ := hand
    unfold Leads at hleads
    rw [outcome_error_iff.mp hrun] at hleads
    exact hleads
  · unfold Leads at hleads
    cases hrun : recover s with
    | ok tally t =>
      rw [hrun] at hleads
      exact absurd hunsound hleads.1
    | error fault t => exact ⟨fault, t, outcome_error_iff.mpr hrun⟩
  · unfold Leads at hleads
    rw [outcome_ok_iff.mp hrun] at hleads
    obtain ⟨hsound, hrecovered⟩ := hleads
    obtain ⟨u, hagain, hu⟩ := hrecovered.again htidy hsound
    have hopenable := htidy.toOpenable
    exact ⟨hrecovered.found hopenable, u, hagain, hu.found hopenable⟩

/-- A directory with one page, of 64 zeros. -/
def blankPage : Disk :=
  (Change.extend 0 64).apply 0 ((Change.create (Disk.pagePath ["meta"] (0 / 64))).apply 0
    ((Change.makeDirectory ["meta"]).apply 0 {}))

theorem blankPage_tidy : blankPage.Sound ∧ blankPage.Tidy ["meta"] := by
  have hfresh := Disk.fresh_new ["meta"]
  have hmade := (Disk.MadeWay.refl {} ["meta"]).make List.prefix_rfl (by decide +kernel) 0
  obtain ⟨htidy, -⟩ := hmade.tidy hfresh (by decide +kernel)
  have hcreated : Disk.Confined ["meta"] 64 (· < 64) (· < 64) _
      ((Change.create (Disk.pagePath ["meta"] (0 / 64))).apply 0 _) :=
    Disk.confined_create (hmade.sound hfresh.sound) (by decide) (by decide +kernel)
  have hextended : Disk.Confined ["meta"] 64 (· < 64) (· < 64) _ blankPage :=
    Disk.confined_extend hcreated.sound (show Disk.node? _ (Disk.pagePath ["meta"] 0) = _ by
      decide +kernel)
  refine ⟨hextended.sound, (hcreated.trans hextended).tidy (fun o ho => ?_) htidy⟩
  rw [Nat.div_eq_of_lt ho]
  exact Nat.zero_le _

/-- The page has a count of one, and a record whose status is none. -/
def strayStatus : Disk :=
  (Change.copy 0 (0 - 0 * 64) (encodeInt32 1 ++ (Record.mk 1 2 0 9 0 0).encode)).apply 0 blankPage

theorem strayStatus_tidy : strayStatus.Sound ∧ strayStatus.Tidy ["meta"] := by
  obtain ⟨hsound, htidy⟩ := blankPage_tidy
  have hnode : blankPage.node? (Disk.pagePath ["meta"] 0) = some (.file 0) := by decide +kernel
  have hwritten : Disk.Confined ["meta"] 64 (· < 64) (· < 64) blankPage strayStatus := by
    refine Disk.confined_copy hsound hnode (by decide +kernel) (Nat.le_refl _) (by decide +kernel)
      (fun o ho => ?_) 0
    obtain ⟨-, hlt⟩ := ho
    exact Nat.lt_trans hlt (by decide +kernel)
  refine ⟨hwritten.sound, hwritten.tidy (fun o ho => ?_) htidy⟩
  rw [Nat.div_eq_of_lt ho]
  exact Nat.zero_le _

open MessageIndex in
theorem recovery_exact_strayStatus :
    ∃ fault t, recover.outcome ⟨⟨strayStatus, ⟨fun _ => 0, 0⟩, []⟩,
      { file := { store := PageStore.opened ["meta"] 64 (by decide) 0 } }⟩ = (.error fault, t) := by
  obtain ⟨hsound, htidy⟩ := strayStatus_tidy
  have hexact := recovery_exact ⟨⟨strayStatus, ⟨fun _ => 0, 0⟩, []⟩,
    { file := { store := PageStore.opened ["meta"] 64 (by decide) 0 } }⟩
    ⟨hsound, .of_cached_empty rfl⟩ htidy
  refine hexact.1.mpr ⟨by decide +kernel, ?_⟩
  exact .inr (.inr ⟨0, by decide +kernel, by decide +kernel⟩)

end PagedQueue
