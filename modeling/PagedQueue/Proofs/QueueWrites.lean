import PagedQueue.Proofs.BegunRecords
import PagedQueue.Proofs.QueueReloading
import PagedQueue.Proofs.StatusCalls

/-!
# What the operations of a queue write

Three operations write: a payload is appended behind all others (`append_writes`), a record is
written into the next slot and the count raised over it (`publish_writes`), and the status of an
entry is written over the one in its record (`persistStatus_writes`). Each replaces the bytes of its
ranges and no other byte of any file. They can only fail if a page cannot be mapped. Then a part of
the payload was written, or all of it and a beginning of the record (`Queue.Broken`).
-/

namespace PagedQueue

open Procedure
open PageStore (Ready Touches Nowhere)
open Record (place countSize statusOffset BreaksAt)

/-- The offsets of a record and of the count. -/
def Record.Slot (position o : Nat) : Prop := InRange (place position) Record.size o
    ∨ InRange 0 countSize o

/-! ## The file of an index -/

namespace MessageIndex

variable {s t u : Session MessageIndex}

/-- The entry of a message that enters. -/
def entryOf (m : MessageIndex) (uuid : Uuid) (offset : UInt64) (length : UInt32) (kind : Kind) :
    Entry :=
  ⟨uuid, offset, length, kind, m.next, .new⟩

/-- What a message that enters leaves: its entry under the next position, its record, and the count
raised over it. -/
structure Published (e : Entry) (s : Session MessageIndex) (id : EntryId)
    (u : Session MessageIndex) :
    Prop where
  id_eq : id = s.memory.entries.size
  touches : Touches (Record.Slot s.memory.next) (Record.Slot s.memory.next) (pagesOf s) (pagesOf u)
  bytesOf_eq : bytesOf u = ((bytesOf s).write (place s.memory.next) e.toRecord.encode).write 0
    (encodeInt32 (.ofNat (s.memory.next + 1)))
  pages : ∀ o, Record.Slot s.memory.next o →
    u.host.disk.HasPage s.memory.file.store.directory (o / s.memory.file.store.pageSize)
  memory : u.memory = { s.memory with
    file := u.memory.file
    entries := s.memory.entries.push e
    live := s.memory.live.insert e.uuid id
    ordered := s.memory.ordered.insert s.memory.next id
    next := s.memory.next + 1
    count := s.memory.next + 1 }

/-- What a message leaves that could not be entered: its position is taken, a beginning of its
record is written or all of it, and nothing leads to its entry. -/
structure Begins (e : Entry) (written : Nat) (s u : Session MessageIndex) : Prop where
  breaks : BreaksAt s.memory.file.store.pageSize s.memory.next written
  touches : Touches (Record.Slot s.memory.next) (InRange (place s.memory.next) written)
    (pagesOf s) (pagesOf u)
  bytesOf_eq : bytesOf u = (bytesOf s).write (place s.memory.next) (e.toRecord.encode.take written)
  memory : u.memory = { s.memory with
    file := u.memory.file
    entries := s.memory.entries.push e
    next := s.memory.next + 1 }

/-- A message is entered, or its record breaks off, or the count is not raised over it: then the
page that was refused is the one of the count. -/
theorem publish_writes (hready : Ready (pagesOf s)) (hfits : 4 ≤ s.memory.file.store.pageSize)
    (hcount : s.memory.count ≤ s.memory.next) (uuid : Uuid) (offset : UInt64) (length : UInt32)
    (kind : Kind) :
    (publish uuid offset length kind).Leads s
      (Published (s.memory.entryOf uuid offset length kind) s)
      fun fault u => Unreadable (Record.Slot s.memory.next) s
        ∧ ∃ written, Begins (s.memory.entryOf uuid offset length kind) written s u
          ∧ (written = Record.size →
            fault = .pageMap (Disk.pagePath s.memory.file.store.directory 0)) := by
  have hbytes : encodeInt32 (Int32.ofNat (s.memory.next + 1)) ≠ [] :=
    List.ne_nil_of_length_pos (by simp)
  unfold publish takePosition addEntry writeRecord raiseCount enterLive enterOrdered onFile
    PagedFile.writeInt32
  simp only [leads_bind, leads_memory, leads_update, leads_within, leads_pure, leads_ite]
  refine (PagedFile.writeBytes_breaks (s := s.part file) hready _ _).mono ?_ ?_
  · intro _ t ht
    have hrecord := ht.touches
    rw [Record.length_encode] at hrecord
    have hdirectory : t.memory.store.directory = s.memory.file.store.directory :=
      hrecord.same.directory
    have hpageSize : t.memory.store.pageSize = s.memory.file.store.pageSize := hrecord.same.pageSize
    rw [if_pos (Nat.lt_succ_of_le hcount)]
    refine (PagedFile.writeWord_breaks (s := t) hrecord.ready 0 hbytes).mono ?_ ?_
    · intro _ u hu
      obtain ⟨hu, -⟩ := hu
      have hraised := hu.touches
      rw [length_encodeInt32] at hraised
      refine ⟨rfl, ?_, ?_, fun o ho => ?_, rfl⟩
      · exact (hrecord.mono (fun _ => .inl) fun _ => .inl).comp hraised
          (fun _ => .inr) fun _ => .inr
      · exact hu.bytesOf_eq.trans (congrArg (ByteSpace.write · 0 _) ht.bytesOf_eq)
      · rcases ho with ho | ho
        · exact hraised.last.hasPage (ht.hasPages o (by rwa [Record.length_encode]))
        · have hpage := hu.hasPages o (by rwa [length_encodeInt32])
          rwa [hdirectory, hpageSize] at hpage
    · intro _ u hbroke
      obtain ⟨written, hbroke⟩ := hbroke
      have hwritten := hbroke.eq_zero (by rw [length_encodeInt32, hpageSize]; exact hfits)
      obtain ⟨⟨htouches, ⟨o, ho, hunmappable, hfault⟩, -⟩, -, -, hsame⟩ := hbroke
      rw [hwritten, List.take_zero, ByteSpace.write_nil] at hsame
      rw [length_encodeInt32] at ho htouches
      have hbefore : ¬ s.host.disk.Mappable s.memory.file.store.directory
          (o / s.memory.file.store.pageSize) := fun hmappable => hunmappable (by
        show t.host.disk.Mappable t.memory.store.directory (o / t.memory.store.pageSize)
        rw [hdirectory, hpageSize]
        exact hrecord.last.mappable hmappable)
      have hpage : o / t.memory.store.pageSize = 0 := Nat.div_eq_of_lt (by
        have hlt := ho.2
        omega)
      refine ⟨⟨o, .inr ho, hbefore⟩, Record.size, ⟨.inr (.inl rfl), ?_, ?_, rfl⟩, fun _ => ?_⟩
      · refine (hrecord.mono (fun _ => .inl) fun _ => id).comp htouches
          (fun _ => .inr) fun o ho => ?_
        obtain ⟨hle, hlt⟩ := ho
        omega
      · rw [List.take_of_length_le (Nat.le_of_eq (Record.length_encode _))]
        exact hsame.trans ht.bytesOf_eq
      · rw [hfault, ← hdirectory, ← hpage]
        rfl
  · intro _ u hbroke
    obtain ⟨written, ⟨htouches, ⟨o, ho, hunmappable, -⟩, -⟩, hlt, hborder, hbytes⟩ := hbroke
    rw [Record.length_encode] at ho hlt htouches
    refine ⟨⟨o, .inl ho, hunmappable⟩, written,
      ⟨?_, htouches.mono (fun _ => .inl) fun _ => id, hbytes, rfl⟩, fun hwhole => ?_⟩
    · exact hborder.imp_right fun hdvd => .inr ⟨hlt, hdvd⟩
    · exact absurd hwhole (Nat.ne_of_lt hlt)

/-- The place of the status of an entry. -/
def statusPlace (m : MessageIndex) (id : EntryId) : Nat :=
  place (m.entry id).position + statusOffset

theorem persistStatus_writes (hready : Ready (pagesOf s)) (id : EntryId) :
    (persistStatus id).Leads s
      (fun _ u => Touches (InRange (s.memory.statusPlace id) 4)
        (InRange (s.memory.statusPlace id) 4)
          (pagesOf s) (pagesOf u)
        ∧ bytesOf u = (bytesOf s).write (s.memory.statusPlace id)
            (encodeInt32 (s.memory.entry id).status.tag)
        ∧ u.memory = { s.memory with file := u.memory.file })
      fun _ _ => Unreadable (InRange (s.memory.statusPlace id) 4) s := by
  have hbytes : encodeInt32 (s.memory.entry id).status.tag ≠ [] :=
    List.ne_nil_of_length_pos (by simp)
  unfold persistStatus onFile PagedFile.writeInt32
  simp only [leads_bind, leads_memory, leads_within]
  refine (PagedFile.writeWord_leads (s := s.part file) hready _ hbytes).mono ?_ ?_
  · intro _ u hu
    obtain ⟨hu, -⟩ := hu
    have htouches := hu.touches
    rw [length_encodeInt32] at htouches
    exact ⟨htouches, hu.bytesOf_eq, trivial⟩
  · intro _ _ hfailed
    obtain ⟨-, ⟨o, ho, hunmappable, -⟩, -⟩ := hfailed
    rw [length_encodeInt32] at ho
    exact ⟨o, ho, hunmappable⟩

end MessageIndex

namespace Queue

open MessageIndex (HasPagesFor Unreadable pagesOf)

/-- The entry of a message that enters. -/
def entryOf (q : Queue) (m : Message) : Entry :=
  q.index.entryOf m.uuid (.ofNat q.payloads.cursor) (.ofNat m.size) m.kind

variable {s t : Session Queue}

theorem append_writes (h : Mounted s) (payload : List UInt8)
    (hbelow : s.memory.payloads.cursor + payload.length ≤ 0x10000000000000000) :
    (onPayloads (PayloadLog.append payload)).Leads s
      (fun offset t => offset = s.memory.payloads.cursor
        ∧ Changes Nowhere (InRange offset payload.length) s t
        ∧ payloadBytes t = (payloadBytes s).write offset payload
        ∧ (∀ o, InRange offset payload.length o → PayloadPage t o)
        ∧ t.memory.index = s.memory.index
        ∧ t.memory.payloads.cursor = offset + payload.length)
      fun _ t => ¬ s.host.disk.Clear (rootOf s.memory.settings)
        ∧ Changes Nowhere (InRange s.memory.payloads.cursor payload.length) s t
        ∧ t.memory.index = s.memory.index
        ∧ t.memory.payloads.cursor = s.memory.payloads.cursor + payload.length := by
  unfold onPayloads PayloadLog.append PayloadLog.reserve PayloadLog.onFile
  simp only [leads_within, leads_bind, leads_memory, leads_update, leads_pure]
  have hindex {o : Nat} (ho : InRange s.memory.payloads.cursor payload.length o) :
      o / s.memory.settings.pageSize ≤ PageName.maxIndex :=
    Disk.div_le_maxIndex (Nat.lt_of_lt_of_le ho.2 hbelow)
  refine (PagedFile.writeBytes_leads (s := ⟨s.host, s.memory.payloads.file⟩) h.payloadReady
    _ _).mono ?_ ?_
  · intro _ u hu
    have hchanges := h.onPayloads
      (l := ⟨u.memory, s.memory.payloads.cursor + payload.length⟩) hu.touches fun _ => hindex
    have hafter := hchanges.mounted.contents_payloads
    have hbefore : PagedFile.bytesOf ⟨s.host, s.memory.payloads.file⟩ = payloadBytes s :=
      h.contents_payloads
    refine ⟨rfl, hchanges, hafter.symm.trans (hu.bytesOf_eq.trans
      (congrArg (ByteSpace.write · _ payload) hbefore)), fun o ho => ?_, trivial, trivial⟩
    have hpage := hu.hasPages o ho
    simp only [h.payloadDirectory, h.payloadSize] at hpage
    exact hpage
  · intro _ u hfailed
    refine ⟨fun hclear => PagedFile.not_failed (s := ⟨s.host, s.memory.payloads.file⟩) ?_ hfailed,
      h.onPayloads (l := ⟨u.memory, s.memory.payloads.cursor + payload.length⟩) hfailed.touches
        fun _ => hindex, trivial, rfl⟩
    show s.host.disk.Openable s.memory.payloads.file.store.directory
    rw [h.payloadDirectory]
    exact hclear.payloads.toOpenable

/-- What a message that was put into the queue leaves: its payload behind all others, its record in
the next slot, the count raised over it, and its entry in the index. -/
structure Put (m : Message) (s t : Session Queue) : Prop where
  changes : Changes (Record.Slot s.memory.index.next) (InRange s.memory.payloads.cursor m.size) s t
  recordBytes_eq : recordBytes t = ((recordBytes s).write (place s.memory.index.next)
    (s.memory.entryOf m).toRecord.encode).write 0 (encodeInt32 (.ofNat (s.memory.index.next + 1)))
  payloadBytes_eq : payloadBytes t = (payloadBytes s).write s.memory.payloads.cursor m.payload
  recordPage : ∀ o, Record.Slot s.memory.index.next o → RecordPage t o
  payloadPage : ∀ o, InRange s.memory.payloads.cursor m.size o → PayloadPage t o
  cursor_eq : t.memory.payloads.cursor = s.memory.payloads.cursor + m.size
  index_eq : t.memory.index = { s.memory.index with
    file := t.memory.index.file
    pending := t.memory.index.pending
    entries := s.memory.index.entries.push (s.memory.entryOf m)
    live := s.memory.index.live.insert m.uuid s.memory.index.entries.size
    ordered := s.memory.index.ordered.insert s.memory.index.next s.memory.index.entries.size
    next := s.memory.index.next + 1
    count := s.memory.index.next + 1 }

/-- What shows nowhere leaves what was written. -/
theorem Put.aside {m : Message} {u : Session Queue} (h : Put m s t)
    (hc : Changes Nowhere Nowhere t u)
    (hindex : u.memory.index
      = { t.memory.index with file := u.memory.index.file, pending := u.memory.index.pending })
    (hcursor : u.memory.payloads.cursor = t.memory.payloads.cursor) : Put m s u where
  changes := h.changes.trans (hc.mono (fun _ => False.elim) fun _ => False.elim)
  recordBytes_eq := hc.recordBytes_eq.trans h.recordBytes_eq
  payloadBytes_eq := hc.payloadBytes_eq.trans h.payloadBytes_eq
  recordPage o ho := hc.recordPage o (h.recordPage o ho)
  payloadPage o ho := hc.payloadPage o (h.payloadPage o ho)
  cursor_eq := hcursor.trans h.cursor_eq
  index_eq := by rw [hindex, h.index_eq]

/-- What a message leaves that could not be entered: its payload behind all others, a beginning of
its record in the next slot or all of it, and its position taken. -/
structure Begins (m : Message) (written : Nat) (s t : Session Queue) : Prop where
  breaks : BreaksAt s.memory.settings.pageSize s.memory.index.next written
  changes : Changes (InRange (place s.memory.index.next) written)
    (InRange s.memory.payloads.cursor m.size)
    s t
  recordBytes_eq : recordBytes t = (recordBytes s).write (place s.memory.index.next)
    ((s.memory.entryOf m).toRecord.encode.take written)
  payloadBytes_eq : payloadBytes t = (payloadBytes s).write s.memory.payloads.cursor m.payload
  payloadPage : ∀ o, InRange s.memory.payloads.cursor m.size o → PayloadPage t o
  cursor_eq : t.memory.payloads.cursor = s.memory.payloads.cursor + m.size
  index_eq : t.memory.index = { s.memory.index with
    file := t.memory.index.file
    pending := t.memory.index.pending
    entries := s.memory.index.entries.push (s.memory.entryOf m)
    next := s.memory.index.next + 1 }

/-- What a message leaves that could not be put in for this fault: its payload has a place, where
some of it may be written, or all of it is and its record begins, which takes pages of which one is
barred. The record is whole only if that is the page of the count. -/
inductive Broken (m : Message) (fault : Fault) (s t : Session Queue) : Prop
  | payload (changes : Changes Nowhere (InRange s.memory.payloads.cursor m.size) s t)
      (cursor_eq : t.memory.payloads.cursor = s.memory.payloads.cursor + m.size)
      (index_eq : t.memory.index = { s.memory.index with
        file := t.memory.index.file, pending := t.memory.index.pending })
  | record (written : Nat) (begins : Begins m written s t)
      (barred : ∃ o, Record.Slot s.memory.index.next o ∧ RecordBarred t o)
      (whole : written = Record.size →
        fault = .pageMap (Disk.pagePath (recordDirectory s.memory.settings) 0))

/-- What shows nowhere leaves what was written. -/
theorem Broken.aside {m : Message} {fault : Fault} {u : Session Queue} (h : Broken m fault s t)
    (hc : Changes Nowhere Nowhere t u)
    (hindex : u.memory.index
      = { t.memory.index with file := u.memory.index.file, pending := u.memory.index.pending })
    (hcursor : u.memory.payloads.cursor = t.memory.payloads.cursor) : Broken m fault s u := by
  cases h with
  | payload hchanges hstop hmemory =>
    refine .payload (hchanges.trans (hc.mono (fun _ => id) fun _ => False.elim))
      (hcursor.trans hstop) ?_
    rw [hindex, hmemory]
  | record written h hbarred hwhole =>
    refine .record written ?_ (hbarred.imp fun o ho => ⟨ho.1, hc.recordBarred ho.2⟩) hwhole
    exact {
      breaks := h.breaks
      changes := h.changes.trans (hc.mono (fun _ => False.elim) fun _ => False.elim)
      recordBytes_eq := hc.recordBytes_eq.trans h.recordBytes_eq
      payloadBytes_eq := hc.payloadBytes_eq.trans h.payloadBytes_eq
      payloadPage := fun o ho => hc.payloadPage o (h.payloadPage o ho)
      cursor_eq := hcursor.trans h.cursor_eq
      index_eq := by rw [hindex, h.index_eq] }

theorem Broken.mounted {m : Message} {fault : Fault} (h : Broken m fault s t) : Mounted t := by
  cases h with
  | payload hchanges _ _ => exact hchanges.mounted
  | record _ hbegins _ _ => exact hbegins.changes.mounted

/-- A reservation is no part of what is left. -/
theorem Broken.of_reserved {m : Message} {fault : Fault} {pending : Std.TreeSet Uuid}
    (hs : Mounted s)
    (h : Broken m fault ⟨s.host, { s.memory with index := { s.memory.index with pending } }⟩ t) :
    Broken m fault s t := by
  have hreserved : Changes Nowhere Nowhere s ⟨s.host, { s.memory with
      index := { s.memory.index with pending } }⟩ := hs.withIndex rfl
  cases h with
  | payload hchanges hcursor hindex =>
    exact .payload ((hreserved.mono (fun _ => id) fun _ => False.elim).trans hchanges)
      hcursor hindex
  | record written h hbarred hwhole =>
    exact .record written ⟨h.breaks,
      (hreserved.mono (fun _ => False.elim) fun _ => False.elim).trans h.changes, h.recordBytes_eq,
      h.payloadBytes_eq, h.payloadPage, h.cursor_eq, h.index_eq⟩ hbarred hwhole

/-- The page of the count is there. -/
def CountPage (s : Session Queue) : Prop := ∀ o, InRange 0 countSize o → RecordPage s o

theorem store_writes (h : Mounted s) (m : Message)
    (hcount : s.memory.index.count ≤ s.memory.index.next) (hroom : s.memory.index.next < 0x80000000)
    (hbelow : s.memory.payloads.cursor + m.size ≤ 0x10000000000000000) :
    (store m).Leads s (fun _ t => Put m s t)
      fun fault t => ¬ s.host.disk.Clear (rootOf s.memory.settings) ∧ Broken m fault s t := by
  unfold store
  simp only [leads_bind, leads_discard]
  refine (append_writes h m.payload hbelow).mono ?_ ?_
  rotate_left
  · intro _ t ht
    obtain ⟨hblocked, hchanges, hindex, hcursor⟩ := ht
    refine ⟨hblocked, .payload hchanges hcursor ?_⟩
    rw [hindex]
  intro offset t ht
  obtain ⟨rfl, hpayload, hbytes, hpage, hindex, hcursor⟩ := ht
  have hnext : (indexOf t).memory.next = s.memory.index.next := by
    rw [← hindex]
    rfl
  have hentry : (indexOf t).memory.entryOf m.uuid (.ofNat s.memory.payloads.cursor) (.ofNat m.size)
      m.kind = s.memory.entryOf m := by
    rw [Session.memory_part, hindex]
    rfl
  have hbefore : MessageIndex.bytesOf (indexOf t) = recordBytes s :=
    hpayload.mounted.contents_records.trans hpayload.recordBytes_eq
  have hdirectory : (indexOf t).memory.file.store.directory = recordDirectory t.memory.settings :=
    hpayload.mounted.recordDirectory
  have hsize : (indexOf t).memory.file.store.pageSize = t.memory.settings.pageSize :=
    hpayload.mounted.recordSize
  have hreached {o : Nat} (ho : InRange (place s.memory.index.next) Record.size o) :
      o / t.memory.settings.pageSize ≤ PageName.maxIndex := Disk.div_le_maxIndex (by
    have hlt := ho.2
    simp only [place, countSize, Record.size] at hlt
    omega)
  unfold onIndex
  rw [leads_within]
  have hslot (o : Nat) (ho : Record.Slot s.memory.index.next o) :
      o / t.memory.settings.pageSize ≤ PageName.maxIndex :=
    ho.elim hreached fun ho => Disk.div_le_maxIndex (Nat.lt_trans ho.2 (by decide))
  refine (MessageIndex.publish_writes (s := indexOf t) hpayload.mounted.recordReady
    (hsize ▸ hpayload.mounted.count_fits) (by rw [Session.memory_part, hindex]; exact hcount) _ _
    _ _).mono ?_ ?_
  · intro id u hu
    obtain ⟨rfl, htouches, hrecord, hpages, hmemory⟩ := hu
    rw [hnext] at htouches
    have hrecords := hpayload.mounted.onRecords htouches hslot
    have hboth : Changes (Record.Slot s.memory.index.next)
        (InRange s.memory.payloads.cursor m.size) s
        ⟨u.host, { t.memory with index := u.memory }⟩ :=
      (hpayload.mono (fun _ => False.elim) fun _ ho => ho).trans
        (hrecords.mono (fun _ ho => ho) fun _ => False.elim)
    have hafter : MessageIndex.bytesOf u = recordBytes
        ⟨u.host, { t.memory with index := u.memory }⟩ :=
      hrecords.mounted.contents_records
    rw [hnext, hbefore, hafter, hentry] at hrecord
    rw [hentry] at hmemory
    exact {
      changes := hboth
      recordBytes_eq := hrecord
      payloadBytes_eq := hrecords.payloadBytes_eq.trans hbytes
      recordPage := fun o ho => by
        have hpage := hpages o (hnext ▸ ho)
        rw [hdirectory, hsize] at hpage
        exact hpage
      payloadPage := fun o ho => hrecords.payloadPage o (hpage o ho)
      cursor_eq := hcursor
      index_eq := by
        show u.memory = _
        rw [hmemory]
        simp only [Session.memory_part, hindex]
        rfl }
  · intro fault u hfailed
    obtain ⟨hunreadable, written, ⟨hbreaks, htouches, hrecord, hmemory⟩, hwhole⟩ := hfailed
    refine ⟨fun hclear => hpayload.mounted.not_clear_of_unreadable hunreadable ?_, ?_⟩
    · rw [hpayload.settings]
      exact hpayload.clear hclear
    · rw [hnext] at hbreaks htouches
      rw [hsize, hpayload.settings] at hbreaks
      rw [hdirectory, hpayload.settings] at hwhole
      have hrecords := hpayload.mounted.onRecords htouches hslot
      have hafter : MessageIndex.bytesOf u = recordBytes
          ⟨u.host, { t.memory with index := u.memory }⟩ :=
        hrecords.mounted.contents_records
      rw [hnext, hbefore, hafter, hentry] at hrecord
      rw [hentry] at hmemory
      have hbarred : ∃ o, Record.Slot s.memory.index.next o ∧ RecordBarred
          ⟨u.host, { t.memory with index := u.memory }⟩ o := by
        obtain ⟨o, ho, hunmappable⟩ := hunreadable
        rw [hdirectory, hsize] at hunmappable
        refine ⟨o, hnext ▸ ho, hrecords.recordBarred ?_⟩
        exact Disk.barred_of_not_mappable hpayload.mounted.grounds.records hunmappable
      refine .record written ?_ hbarred hwhole
      exact {
        breaks := hbreaks
        changes := (hpayload.mono (fun _ => False.elim) fun _ ho => ho).trans
          (hrecords.mono (fun _ ho => ho) fun _ => False.elim)
        recordBytes_eq := hrecord
        payloadBytes_eq := hrecords.payloadBytes_eq.trans hbytes
        payloadPage := fun o ho => hrecords.payloadPage o (hpage o ho)
        cursor_eq := hcursor
        index_eq := by
          show u.memory = _
          rw [hmemory]
          simp only [Session.memory_part, hindex] }

/-- Reservations are kept in memory only, and a message in the queue stands against one. -/
theorem reserve_ensures (s : Session Queue) (uuid : Uuid) :
    (onIndex (MessageIndex.reserve uuid)).Ensures s fun answer t => t.host = s.host
      ∧ t.memory = { s.memory with
          index := { s.memory.index with pending := t.memory.index.pending } }
      ∧ (answer = true → s.memory.index.live.contains uuid = false) := by
  unfold MessageIndex.reserve MessageIndex.notePending MessageIndex.withdraw onIndex Ensures
  simp only [leads_within, leads_bind, leads_memory, leads_ite, leads_update, leads_pure]
  by_cases hpending : (indexOf s).memory.pending.contains uuid
  · simp only [hpending, if_true, Bool.not_false]
    exact ⟨rfl, rfl, fun h => absurd h Bool.false_ne_true⟩
  · by_cases hlive : (indexOf s).memory.live.contains uuid
    · simp only [hpending, hlive, if_true, if_false, Bool.not_true, Bool.false_eq_true]
      exact ⟨rfl, rfl, False.elim⟩
    · simp only [hpending, hlive, if_false, Bool.not_true, Bool.false_eq_true]
      exact ⟨rfl, rfl, fun _ => Bool.eq_false_iff.mpr hlive⟩

/-- A push puts the message into the queue, or answers that it is there already and leaves the disk
as it is. It fails if the message is refused, which leaves everything as it is, or else because of a
page, and then it breaks off. -/
theorem push_writes (h : Mounted s) (m : Message)
    (hcount : s.memory.index.count ≤ s.memory.index.next) (hroom : s.memory.index.next < 0x80000000)
    (hbelow : m.size ≤ maxPayload → s.memory.payloads.cursor + m.size ≤ 0x10000000000000000) :
    (push m).Leads s
      (fun answer t => answer = true ∧ m.uuid ≠ Uuid.nil ∧ m.size ≤ maxPayload
          ∧ s.memory.index.live.contains m.uuid = false ∧ Put m s t
        ∨ answer = false ∧ t.host = s.host
          ∧ t.memory = { s.memory with
              index := { s.memory.index with pending := t.memory.index.pending } })
      fun fault t => t = s ∨ m.uuid ≠ Uuid.nil ∧ m.size ≤ maxPayload
        ∧ ¬ s.host.disk.Clear (rootOf s.memory.settings) ∧ Broken m fault s t := by
  unfold push
  simp only [leads_bind]
  rw [leads_ensureOpen h.isOpen]
  simp only [leads_ite, leads_bind, leads_throw, leads_pure]
  split
  next => exact .inl trivial
  next hnamed =>
    split
    next => exact .inl trivial
    next hshort =>
      refine (reserve_ensures s m.uuid).leads.mono ?_ fun _ _ => False.elim
      intro reserved t ht
      obtain ⟨hhost, hmemory, hnew⟩ := ht
      obtain ⟨host, memory⟩ := t
      simp only at hhost hmemory
      subst hhost
      cases reserved with
      | false => exact .inr ⟨trivial, rfl, hmemory⟩
      | true =>
        obtain ⟨pending, rfl⟩ : ∃ pending, memory = { s.memory with
          index := { s.memory.index with pending } } := ⟨_, hmemory⟩
        have hreserved : Changes Nowhere Nowhere s ⟨s.host, { s.memory with
            index := { s.memory.index with pending } }⟩ := h.withIndex rfl
        simp only [Bool.not_true, Bool.false_eq_true, if_false]
        rw [leads_tryFinally]
        refine (store_writes hreserved.mounted m hcount hroom
          (hbelow (Nat.le_of_not_lt hshort))).mono ?_ ?_
        · intro _ u hu
          unfold onIndex MessageIndex.withdraw
          simp only [leads_within, leads_update]
          have hstored : Put m s u :=
            ⟨(hreserved.mono (fun _ => False.elim) fun _ => False.elim).trans
            hu.changes, hu.recordBytes_eq, hu.payloadBytes_eq, hu.recordPage,
            hu.payloadPage, hu.cursor_eq, hu.index_eq⟩
          have hwithdrawn := hstored.aside (hu.changes.mounted.withIndex (m := { u.memory.index with
            pending := u.memory.index.pending.erase m.uuid }) rfl) rfl rfl
          have hmounted := hwithdrawn.changes.mounted
          refine (afterChange_quiet hmounted.recordCoherent hmounted.payloadCoherent).leads.mono ?_
            fun _ _ => False.elim
          intro _ v hv
          have hindex := hv.index
          refine .inl ⟨trivial, mt Uuid.isNil_iff.mpr hnamed, Nat.le_of_not_lt hshort, hnew rfl,
            hwithdrawn.aside (hmounted.quiet hv) ?_ (by rw [hv.payloads])⟩
          rw [hindex]
        · intro _ u hu
          unfold onIndex MessageIndex.withdraw
          simp only [leads_within, leads_update]
          refine .inr ⟨mt Uuid.isNil_iff.mpr hnamed, Nat.le_of_not_lt hshort, hu.1, ?_⟩
          have hbroken := hu.2.of_reserved h
          refine hbroken.aside (hbroken.mounted.withIndex (m := { u.memory.index with
            pending := u.memory.index.pending.erase m.uuid }) rfl) rfl rfl

/-! ## Statuses -/

/-- The status of the selected entry is written over the one in its record. -/
theorem onIndex_writes (h : Mounted s) (c : StatusCall) (hindexed : s.memory.index.Indexed)
    (hbelow : ∀ id, c.selected? s.memory.index = some id →
      (s.memory.index.entry id).position < 0x80000000) :
    (onIndex c.onIndex).Leads s
      (fun found t => found = none ∧ t = s ∧ c.selected? s.memory.index = none
        ∨ ∃ id, found = some id ∧ c.selected? s.memory.index = some id
          ∧ Changes (InRange (s.memory.index.statusPlace id) 4) Nowhere s t
          ∧ recordBytes t = (recordBytes s).write (s.memory.index.statusPlace id)
              (encodeInt32 c.kind.target.tag)
          ∧ t.memory.index = { c.done s.memory.index id with file := t.memory.index.file }
          ∧ t.memory.payloads = s.memory.payloads)
      fun _ _ => ∃ id, c.selected? s.memory.index = some id
        ∧ Unreadable (InRange (s.memory.index.statusPlace id) 4) (indexOf s) := by
  have hpersist (id : EntryId) (hselected : c.selected? s.memory.index = some id) :
      (MessageIndex.persistStatus id).Leads ⟨s.host, c.moved s.memory.index id⟩
        (fun _ t => t.memory = { c.moved s.memory.index id with file := t.memory.file }
          ∧ Touches (InRange (s.memory.index.statusPlace id) 4)
            (InRange (s.memory.index.statusPlace id) 4)
              (pagesOf (indexOf s)) ⟨t.host, t.memory.file.store⟩
          ∧ PageStore.contents ⟨t.host, t.memory.file.store⟩ = (recordBytes s).write
              (s.memory.index.statusPlace id) (encodeInt32 c.kind.target.tag))
        fun _ _ => Unreadable (InRange (s.memory.index.statusPlace id) 4) (indexOf s) := by
    have hentry := StatusCall.entry_moved hselected
    have hplace : (c.moved s.memory.index id).statusPlace id = s.memory.index.statusPlace id := by
      rw [MessageIndex.statusPlace, hentry, MessageIndex.statusPlace]
    have hwrites := MessageIndex.persistStatus_writes (s := ⟨s.host, c.moved s.memory.index id⟩)
      h.recordReady id
    simp only [hplace, hentry] at hwrites
    refine hwrites.mono ?_ fun _ _ hunreadable => hunreadable
    intro _ t ht
    obtain ⟨htouches, hbytes, hmemory⟩ := ht
    exact ⟨hmemory, htouches, hbytes.trans (congrArg (ByteSpace.write · _ _) h.contents_records)⟩
  unfold onIndex
  rw [leads_within]
  refine (c.onIndex_selects (s := indexOf s) hindexed (fun id host file =>
    Touches (InRange (s.memory.index.statusPlace id) 4) (InRange (s.memory.index.statusPlace id) 4)
        (pagesOf (indexOf s)) ⟨host, file.store⟩
      ∧ PageStore.contents ⟨host, file.store⟩ = (recordBytes s).write
          (s.memory.index.statusPlace id) (encodeInt32 c.kind.target.tag))
    (fun id _ _ => Unreadable (InRange (s.memory.index.statusPlace id) 4) (indexOf s))
      hpersist).mono ?_ fun _ _ => id
  · intro found t ht
    rcases ht with ⟨hnone, rfl, hselected⟩ | ⟨id, hsome, hselected, hmemory, htouches, hbytes⟩
    · exact .inl ⟨hnone, rfl, hselected⟩
    · have hchanges := h.onRecords (u := t) htouches fun o ho => Disk.div_le_maxIndex (by
        have hposition := hbelow id hselected
        have hlt := ho.2
        simp only [MessageIndex.statusPlace, place, countSize, Record.size, statusOffset] at hlt
        omega)
      exact .inr ⟨id, hsome, hselected, hchanges,
        hchanges.mounted.contents_records.symm.trans hbytes, hmemory, rfl⟩

/-- What a call has done that found a message: it has written the status over the one in the record,
and the message has moved in the index. -/
structure HasMoved (c : StatusCall) (id : EntryId) (s t : Session Queue) : Prop where
  selected : c.selected? s.memory.index = some id
  changes : Changes (InRange (s.memory.index.statusPlace id) 4) Nowhere s t
  recordBytes_eq : recordBytes t = (recordBytes s).write (s.memory.index.statusPlace id)
    (encodeInt32 c.kind.target.tag)
  index_eq : t.memory.index = { c.done s.memory.index id with file := t.memory.index.file }
  cursor_eq : t.memory.payloads.cursor = s.memory.payloads.cursor

/-- What a call has done that answered: nothing if it found no message to move. -/
def HasAnswered (c : StatusCall) (s : Session Queue) (answer : Option Message) (t : Session Queue) :
    Prop :=
  answer = none ∧ t = s ∧ c.selected? s.memory.index = none
    ∨ ∃ id m, answer = some m ∧ m.uuid = (s.memory.index.entry id).uuid ∧ HasMoved c id s t

/-- A call that answers has moved the message that it found. It can only fail if the record of the
message cannot be written, or if its payload cannot be read, and then the message has moved. -/
theorem move_leads (h : Mounted s) (c : StatusCall) (hindexed : s.memory.index.Indexed)
    (hbelow : ∀ id, c.selected? s.memory.index = some id →
      (s.memory.index.entry id).position < 0x80000000)
    (hextent : ∀ id, c.selected? s.memory.index = some id → (s.memory.index.entry id).offset.toNat
      + (s.memory.index.entry id).length.toNat ≤ 0x10000000000000000) :
    c.run.Leads s (HasAnswered c s) fun _ t => ∃ id, c.selected? s.memory.index = some id
      ∧ (Unreadable (InRange (s.memory.index.statusPlace id) 4) (indexOf s)
        ∨ ¬ Readable s (s.memory.index.entry id) ∧ HasMoved c id s t) := by
  rw [c.run_eq]
  unfold change
  simp only [leads_bind]
  rw [leads_ensureOpen h.isOpen]
  refine (onIndex_writes h c hindexed hbelow).mono ?_ fun _ _ hfailed =>
    hfailed.imp fun id hid => ⟨hid.1, .inl hid.2⟩
  intro found t ht
  rcases ht with ⟨rfl, rfl, hnone⟩ | ⟨id, rfl, hselected, hc, hbytes, hindex, hpayloads⟩
  · exact .inl ⟨rfl, rfl, hnone⟩
  · simp only [leads_bind, leads_pure]
    refine (afterChange_quiet hc.mounted.recordCoherent hc.mounted.payloadCoherent).leads.mono ?_
      fun _ _ => False.elim
    intro _ u hu
    have hforced := hc.trans ((hc.mounted.quiet hu).mono (fun _ => False.elim) fun _ => False.elim)
    have hentry : u.memory.index.entry id
        = { s.memory.index.entry id with status := c.kind.target } := by
      rw [← StatusCall.entry_done hselected, hu.index, hindex]
      rfl
    -- reading the payload shows nowhere
    have hmoved {v : Session Queue} (hv : Changes Nowhere Nowhere u v)
        (hindex' : v.memory.index = u.memory.index)
        (hcursor : v.memory.payloads.cursor = u.memory.payloads.cursor) : HasMoved c id s v :=
      { selected := hselected
        changes := hforced.trans (hv.mono (fun _ => False.elim) fun _ => False.elim)
        recordBytes_eq :=
          hv.recordBytes_eq.trans ((hc.mounted.quiet hu).recordBytes_eq.trans hbytes)
        index_eq := by rw [hindex', hu.index, hindex]
        cursor_eq := by rw [hcursor, hu.payloads, hpayloads] }
    have hread : (readMessage id).Leads u
        (fun m v => m.uuid = (s.memory.index.entry id).uuid ∧ HasMoved c id s v)
        fun _ v => ¬ Readable s (s.memory.index.entry id) ∧ HasMoved c id s v := by
      by_cases hreadable : Readable s (s.memory.index.entry id)
      · refine (readMessage_of_mounted hforced.mounted id ?_).leads.mono ?_ fun _ _ => False.elim
        · rw [hentry]
          exact { hreadable.changes hforced with }
        · intro _ _ hv
          obtain ⟨rfl, hv, hindex', hcursor⟩ := hv
          exact ⟨by rw [messageOf, hentry], hmoved hv hindex' hcursor⟩
      · refine (readMessage_leads hforced.mounted id ?_).mono ?_ ?_
        · rw [hentry]
          exact hextent id hselected
        · intro _ _ hv
          obtain ⟨rfl, hv, hindex', hcursor⟩ := hv
          exact ⟨by rw [messageOf, hentry], hmoved hv hindex' hcursor⟩
        · intro _ _ hv
          obtain ⟨⟨hv, hindex', hcursor⟩, -⟩ := hv
          exact ⟨hreadable, hmoved hv hindex' hcursor⟩
    exact hread.mono (fun m _ hv => .inr ⟨id, m, rfl, hv⟩)
      fun _ _ hv => ⟨id, hselected, .inr hv⟩

/-- A call does not fail if the record of the message that it finds can be written and its payload
read. -/
theorem move_writes (h : Mounted s) (c : StatusCall) (hindexed : s.memory.index.Indexed)
    (hbelow : ∀ id, c.selected? s.memory.index = some id →
      (s.memory.index.entry id).position < 0x80000000)
    (hwritable : ∀ id, c.selected? s.memory.index = some id →
      ¬ Unreadable (InRange (s.memory.index.statusPlace id) 4) (indexOf s))
    (hreadable : ∀ id, c.selected? s.memory.index = some id →
      Readable s (s.memory.index.entry id)) :
    c.run.Ensures s (HasAnswered c s) := by
  refine (move_leads h c hindexed hbelow fun id hid => (hreadable id hid).below).ensures ?_
  intro _ _ hfailed
  obtain ⟨id, hselected, hunwritable | hunreadable⟩ := hfailed
  · exact hwritable id hselected hunwritable
  · exact hunreadable.1 (hreadable id hselected)

end Queue

/-- The call asks for something, or moves a message. -/
def QueueCall.asksOrMoves : QueueCall → Bool
  | push _ | recover | startEmpty => false
  | get _ | lock _ | pop | peek | finish _ | rollback _ | status _ | size | recordCount | flush
  | checkpoint => true

end PagedQueue
