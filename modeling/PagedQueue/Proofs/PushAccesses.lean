import PagedQueue.Proofs.QueuePlans
import PagedQueue.Queue.Clients

/-!
# What the steps of a push do to the files

A step of a push writes at most to one page: what of a payload or of a record lies in one page
(`writeFirst_payloads`, `writeFirst_records`), or the count (`raiseCount_ensures`). Each of them
replaces its bytes and no others.
-/

namespace PagedQueue

open Procedure
open PageStore (Touches Nowhere Access WritesAtOnce Unmappable)

namespace PagedFile

variable {s : Session PagedFile}

/-- What lies in the first page is written, and the file is no longer for it. -/
theorem writeFirst_leads (hready : IsReady s) (start : Nat) {bytes : List UInt8}
    (hbytes : bytes ≠ []) :
    (writeFirst start bytes).Leads s
      (fun count u => count = firstLength s.memory.store.pageSize start bytes.length
        ∧ Touches (InRange start count) (InRange start count) (s.part store) (u.part store)
        ∧ bytesOf u = (bytesOf s).write start (bytes.take count)
        ∧ u.host.disk.HasPages s.memory.store.directory s.memory.store.pageSize start count)
      (Failed start (firstLength s.memory.store.pageSize start bytes.length) Nowhere s) := by
  have hpos := firstLength_pos s.memory.store.pageSize_pos start
    (Nat.ne_of_gt (List.length_pos_iff.mpr hbytes))
  have hle := firstLength_le s.memory.store.pageSize start bytes.length
  have hone := inOnePage_firstLength s.memory.store.pageSize_pos start bytes.length
  have hin {o : Nat}
      (ho : InRange start (firstLength s.memory.store.pageSize start bytes.length) o) :=
    div_of_firstLength ho
  unfold writeFirst onStore
  simp only [leads_bind, leads_memory, leads_within, leads_pure]
  generalize firstLength s.memory.store.pageSize start bytes.length = count at *
  have htake : (bytes.take count).length = count := by
    rw [List.length_take, Nat.min_eq_left hle]
  have hstart : InRange start count start := ⟨Nat.le_refl _, Nat.lt_add_of_pos_right hpos⟩
  refine (PageStore.writeAt_leads hready hstart (htake.symm ▸ hone)).mono ?_ ?_
  · intro _ u hu
    obtain ⟨hu, hcontents, hpage⟩ := hu
    have htouches := hu.touches
    rw [htake] at htouches
    refine ⟨trivial, htouches, hcontents, fun o ho => ?_⟩
    rw [hin ho]
    exact hpage
  · intro fault u hu
    obtain ⟨hu, hfault⟩ := hu
    exact ⟨hu, hfault, rfl⟩

end PagedFile

namespace Queue

variable {s : Session Queue}

/-- A part of a payload is written. -/
theorem writeFirst_payloads (h : Mounted s) (hclear : s.host.disk.Clear (rootOf s.memory.settings))
    (start : Nat) {bytes : List UInt8} (hbytes : bytes ≠ [])
    (hbelow : start + bytes.length ≤ 0x10000000000000000) :
    (onPayloads (PayloadLog.onFile (PagedFile.writeFirst start bytes))).Ensures s fun count t =>
      count = firstLength s.memory.settings.pageSize start bytes.length
        ∧ Changes Nowhere (InRange start count) s t
        ∧ payloadBytes t = (payloadBytes s).write start (bytes.take count)
        ∧ t.memory.index = s.memory.index
        ∧ t.memory.payloads.cursor = s.memory.payloads.cursor := by
  have hopenable : s.host.disk.Openable s.memory.payloads.file.store.directory := by
    rw [h.payloadDirectory]
    exact hclear.payloads.toOpenable
  unfold onPayloads PayloadLog.onFile Ensures
  simp only [leads_within]
  refine (PagedFile.writeFirst_leads (s := ⟨s.host, s.memory.payloads.file⟩) h.payloadReady start
    hbytes).mono ?_ fun _ _ hfailed =>
      PagedFile.not_failed (s := ⟨s.host, s.memory.payloads.file⟩) hopenable hfailed
  intro count u hu
  obtain ⟨hcount, htouches, hcontents, -⟩ := hu
  have hle := PagedFile.firstLength_le s.memory.payloads.file.store.pageSize start bytes.length
  have hchanges := h.onPayloads (l := { s.memory.payloads with file := u.memory }) htouches
    fun o ho => Disk.div_le_maxIndex (by
      have hlt := ho.2
      simp only [hcount] at hlt
      omega)
  have hafter := hchanges.mounted.contents_payloads
  have hbefore : PagedFile.bytesOf ⟨s.host, s.memory.payloads.file⟩ = payloadBytes s :=
    h.contents_payloads
  exact ⟨hcount.trans (congrArg (firstLength · start bytes.length) h.payloadSize), hchanges,
    hafter.symm.trans (hcontents.trans (congrArg (·.write start (bytes.take count)) hbefore)),
    trivial, rfl⟩

/-- A part of a record is written, and its page is there. -/
theorem writeFirst_records (h : Mounted s) (hclear : s.host.disk.Clear (rootOf s.memory.settings))
    (start : Nat) {bytes : List UInt8} (hbytes : bytes ≠ [])
    (hbelow : start + bytes.length ≤ 0x10000000000000000) :
    (onIndex (MessageIndex.onFile (PagedFile.writeFirst start bytes))).Ensures s fun count t =>
      count = firstLength s.memory.settings.pageSize start bytes.length
        ∧ Changes (InRange start count) Nowhere s t
        ∧ recordBytes t = (recordBytes s).write start (bytes.take count)
        ∧ (∀ o, InRange start count o → RecordPage t o)
        ∧ t.memory.index = { s.memory.index with file := t.memory.index.file }
        ∧ t.memory.payloads = s.memory.payloads := by
  have hopenable : s.host.disk.Openable s.memory.index.file.store.directory := by
    rw [h.recordDirectory]
    exact hclear.records.toOpenable
  unfold onIndex MessageIndex.onFile Ensures
  simp only [leads_within]
  refine (PagedFile.writeFirst_leads (s := ⟨s.host, s.memory.index.file⟩) h.recordReady start
    hbytes).mono ?_ fun _ _ hfailed =>
      PagedFile.not_failed (s := ⟨s.host, s.memory.index.file⟩) hopenable hfailed
  intro count u hu
  obtain ⟨hcount, htouches, hcontents, hpages⟩ := hu
  have hle := PagedFile.firstLength_le s.memory.index.file.store.pageSize start bytes.length
  have hchanges := h.onRecords (u := ⟨u.host, { s.memory.index with file := u.memory }⟩) htouches
    fun o ho => Disk.div_le_maxIndex (by
      have hlt := ho.2
      simp only [hcount] at hlt
      omega)
  have hafter := hchanges.mounted.contents_records
  have hbefore : PagedFile.bytesOf ⟨s.host, s.memory.index.file⟩ = recordBytes s :=
    h.contents_records
  refine ⟨hcount.trans (congrArg (firstLength · start bytes.length) h.recordSize), hchanges,
    hafter.symm.trans (hcontents.trans (congrArg (·.write start (bytes.take count)) hbefore)),
    fun o ho => ?_,
    rfl, trivial⟩
  have hpage := hpages o ho
  simp only [h.recordDirectory, h.recordSize] at hpage
  exact hpage

/-- The count is raised over a position, unless it already covers it. -/
theorem raiseCount_ensures (h : Mounted s) (hclear : s.host.disk.Clear (rootOf s.memory.settings))
    (count : Nat) :
    (onIndex (MessageIndex.raiseCount count)).Ensures s fun _ t =>
      Changes (InRange 0 4) Nowhere s t
        ∧ t.memory.payloads = s.memory.payloads
        ∧ (count ≤ s.memory.index.count ∧ t = s
          ∨ s.memory.index.count < count
            ∧ t.memory.index = { s.memory.index with file := t.memory.index.file, count }
            ∧ recordBytes t = (recordBytes s).write 0 (encodeInt32 (.ofNat count))) := by
  have hopenable : s.host.disk.Openable s.memory.index.file.store.directory := by
    rw [h.recordDirectory]
    exact hclear.records.toOpenable
  have hbytes : encodeInt32 (.ofNat count) ≠ [] := List.ne_nil_of_length_pos (by simp)
  unfold onIndex MessageIndex.raiseCount MessageIndex.onFile PagedFile.writeInt32 Ensures
  simp only [leads_within, leads_bind, leads_memory, leads_ite, leads_update, leads_pure]
  split
  next hlt =>
    refine (PagedFile.writeWord_leads (s := ⟨s.host, s.memory.index.file⟩) h.recordReady 0
      hbytes).mono ?_ fun _ _ hfailed =>
        PagedFile.not_failed (s := ⟨s.host, s.memory.index.file⟩) hopenable hfailed
    intro _ u hu
    obtain ⟨⟨htouches, hcontents, -, -⟩, -⟩ := hu
    rw [length_encodeInt32] at htouches
    have hchanges := h.onRecords (u := ⟨u.host, { s.memory.index with file := u.memory, count }⟩)
      htouches fun o ho => Disk.div_le_maxIndex (Nat.lt_trans ho.2 (by decide))
    have hafter := hchanges.mounted.contents_records
    have hbefore : PagedFile.bytesOf ⟨s.host, s.memory.index.file⟩ = recordBytes s :=
      h.contents_records
    exact ⟨hchanges, trivial, .inr ⟨hlt, rfl, hafter.symm.trans
      (hcontents.trans (congrArg (·.write 0 (encodeInt32 (.ofNat count))) hbefore))⟩⟩
  next hle => exact ⟨h.refl, trivial, .inl ⟨Nat.le_of_not_lt hle, rfl⟩⟩

end Queue

end PagedQueue
