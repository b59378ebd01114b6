import PagedQueue.PagedFile
import PagedQueue.Proofs.PageAccess

/-!
# Reading and writing a paged file

A write of any length at any offset replaces its range of the contents and nothing else
(`writePieces_leads`), and a read answers with its range (`readPieces_leads`), however the range is
cut at the borders of pages: the induction is on the pieces, and each step is one access to one
page. Words are written and read like any other bytes; a word that lies inside one page is moreover
written in one change (`Wrote.once`).
-/

namespace PagedQueue

open Procedure
open Disk (Confined HasPage pagePath)
open PageStore (Ready Touches Nowhere Access WritesAtOnce Unmappable)

namespace PageStore

variable {touched touched' written written' : Nat → Prop} {s t u : Session PageStore}

/-- Accesses that follow one another are one access. -/
theorem Touches.comp (h : Touches touched written s t) (h' : Touches touched' written' t u)
    (htouched : ∀ o, touched' o → touched o) (hwritten : ∀ o, written' o → written o) :
    Touches touched written s u := by
  refine ⟨h.same.trans h'.same, h'.sound, h'.coherent, h.trail.trans ?_⟩
  refine h'.trail.mono fun d hd => h.last.trans ?_
  rw [h.same.directory, h.same.pageSize] at hd
  exact hd.mono htouched hwritten

/-- A change within some bytes is one within more of them. -/
theorem Touches.mono (h : Touches touched written s t) (htouched : ∀ o, touched o → touched' o)
    (hwritten : ∀ o, written o → written' o) : Touches touched' written' s t :=
  Access.mono h fun _ hd => hd.mono htouched hwritten

/-- What cannot be mapped after an access could not be mapped before it. -/
theorem Unmappable.before {fault : Fault} (h : Touches touched written s t)
    (hfault : Unmappable touched' t fault) (htouched : ∀ o, touched' o → touched o) :
    Unmappable touched s fault := by
  obtain ⟨o, ho, hunmappable, rfl⟩ := hfault
  rw [h.same.directory, h.same.pageSize] at hunmappable ⊢
  exact ⟨o, htouched o ho, fun hmappable => hunmappable (h.last.mappable hmappable), rfl⟩

/-- An access at once touches the bytes it writes. -/
theorem Access.touches {start : Nat} {bytes : List UInt8}
    (h : Access (WritesAtOnce touched start bytes s) s t) :
    Touches touched (InRange start bytes.length) s t := Access.mono h fun _ hd => hd.1

/-- No page is lost. -/
theorem Touches.hasPage (h : Touches touched written s t) {index : Nat}
    (hpage : s.host.disk.HasPage s.memory.directory index) :
    t.host.disk.HasPage s.memory.directory index := h.last.hasPage hpage

end PageStore

/-- The files of the pages of a range are there. -/
def Disk.HasPages (d : Disk) (directory : Path) (pageSize start length : Nat) : Prop :=
  ∀ o, InRange start length o → d.HasPage directory (o / pageSize)

namespace PagedFile

variable {s t u : Session PageStore} {pageSize start length : Nat}

/-- The first part of a range lies inside the page of its first byte. -/
theorem inOnePage_firstLength (pageSize_pos : 0 < pageSize) (start length : Nat) :
    InOnePage pageSize start (firstLength pageSize start length) := by
  have hmod := Nat.mod_lt start pageSize_pos
  unfold InOnePage firstLength
  omega

/-- All of the first part of a range lies in the page of its first byte. -/
theorem div_of_firstLength {o : Nat} (h : InRange start (firstLength pageSize start length) o) :
    o / pageSize = start / pageSize := by
  obtain ⟨hle, hlt⟩ := h
  have hdiv := Nat.div_add_mod start pageSize
  rw [Nat.mul_comm] at hdiv
  unfold firstLength at hlt
  refine Nat.div_eq_of_lt_le (by omega) ?_
  rw [Nat.add_mul, Nat.one_mul]
  omega

theorem firstLength_le (pageSize start length : Nat) : firstLength pageSize start length ≤ length :=
  Nat.min_le_right ..

theorem firstLength_pos (pageSize_pos : 0 < pageSize) (start : Nat) (hlength : length ≠ 0) :
    0 < firstLength pageSize start length := by
  have hmod := Nat.mod_lt start pageSize_pos
  unfold firstLength
  omega

/-- A part that ends early ends with its page. -/
theorem dvd_of_firstLength_lt (pageSize_pos : 0 < pageSize)
    (h : firstLength pageSize start length < length) :
    pageSize ∣ start + firstLength pageSize start length := by
  have hmod := Nat.mod_lt start pageSize_pos
  have hdiv := Nat.div_add_mod start pageSize
  refine ⟨start / pageSize + 1, ?_⟩
  rw [Nat.mul_add, Nat.mul_one]
  unfold firstLength at h ⊢
  omega

/-- A range is its first part and the rest. -/
theorem inRange_split {first o : Nat} (hfirst : first ≤ length) (h : InRange start length o) :
    InRange start first o ∨ InRange (start + first) (length - first) o := by
  unfold InRange at *
  omega

theorem inRange_of_first {first o : Nat} (hfirst : first ≤ length) (h : InRange start first o) :
    InRange start length o := by
  unfold InRange at *
  omega

theorem inRange_of_rest {first o : Nat} (hfirst : first ≤ length)
    (h : InRange (start + first) (length - first) o) : InRange start length o := by
  unfold InRange at *
  omega

/-- Written piece by piece, the whole range is written. A page that cannot be mapped breaks this off
where the page before it ends. -/
theorem writePieces_leads (pageSize_pos : 0 < pageSize) (start length : Nat) {bytes : List UInt8}
    (hlength : bytes.length = length) (hready : Ready s) (hsize : s.memory.pageSize = pageSize) :
    (writePieces (pieces pageSize pageSize_pos start length) bytes).Leads s
      (fun _ u => Touches (InRange start length) (InRange start length) s u
        ∧ PageStore.contents u = (PageStore.contents s).write start bytes
        ∧ u.host.disk.HasPages s.memory.directory pageSize start length)
      fun fault u => Unmappable (InRange start length) s fault
        ∧ ∃ count < length, (count = 0 ∨ pageSize ∣ start + count)
          ∧ Touches (InRange start length) (InRange start count) s u
          ∧ PageStore.contents u = (PageStore.contents s).write start (bytes.take count) := by
  fun_induction pieces pageSize pageSize_pos start length generalizing s bytes with
  | case1 =>
    obtain rfl : bytes = [] := List.length_eq_zero_iff.mp hlength
    rw [ByteSpace.write_nil]
    refine ⟨.refl hready, rfl, ?_⟩
    intro o ho
    exact absurd (Nat.lt_of_le_of_lt ho.1 ho.2) (Nat.lt_irrefl _)
  | case2 start length hlength' ih =>
    have hle := firstLength_le pageSize start length
    have hpos := firstLength_pos pageSize_pos start hlength'
    have hborder : firstLength pageSize start length < length → _ :=
      dvd_of_firstLength_lt pageSize_pos
    generalize hfirst : firstLength pageSize start length = first at *
    have htake : (bytes.take first).length = first := by
      rw [List.length_take]
      omega
    have hdrop : (bytes.drop first).length = length - first := by
      rw [List.length_drop]
      omega
    -- the first piece is one access to one page, the rest follows by induction
    have hone : InOnePage s.memory.pageSize start (bytes.take first).length := by
      rw [htake, hsize, ← hfirst]
      exact inOnePage_firstLength pageSize_pos start length
    have hstart : InRange start length start := ⟨Nat.le_refl _, by omega⟩
    subst hsize
    rw [writePieces, leads_bind]
    refine (PageStore.writeAt_leads hready hstart hone).mono ?_ ?_
    · intro _ t ht
      obtain ⟨ht, hcontents, hpage⟩ := ht
      have hwrote := ht.touches
      rw [htake] at hwrote
      refine (ih hdrop ht.ready ht.same.pageSize).mono ?_ ?_
      · intro _ u hu
        obtain ⟨hu, hrest, hpages⟩ := hu
        refine ⟨(hwrote.mono (fun _ => id) fun _ => inRange_of_first hle).comp hu
          (fun _ => inRange_of_rest hle) fun _ => inRange_of_rest hle, ?_, ?_⟩
        · rw [hrest, hcontents]
          conv_rhs => rw [← List.take_append_drop first bytes, ByteSpace.write_append, htake]
        · intro o ho
          rw [ht.same.directory] at hpages
          rcases inRange_split hle ho with hin | hin
          · rw [div_of_firstLength (hfirst.symm ▸ hin)]
            exact ht.same.directory ▸ hu.hasPage (ht.same.directory.symm ▸ hpage)
          · exact hpages o hin
      · intro fault u hu
        obtain ⟨hfault, count, hlt, hcount, hu, hrest⟩ := hu
        refine ⟨hfault.before hwrote fun _ => inRange_of_rest hle, first + count,
          by omega, .inr ?_, ?_, ?_⟩
        · rcases hcount with rfl | hdvd
          · exact hborder (by omega)
          · rwa [← Nat.add_assoc]
        · refine (hwrote.mono (fun _ => id) fun _ => inRange_of_first (Nat.le_add_right ..)).comp hu
            (fun _ => inRange_of_rest hle) fun _ ho =>
            inRange_of_rest (Nat.le_add_right first count) ?_
          rwa [Nat.add_sub_cancel_left]
        · rw [hrest, hcontents, List.take_add, ByteSpace.write_append, htake]
    · intro fault t ht
      obtain ⟨ht, hfault⟩ := ht
      refine ⟨hfault, 0, by omega, .inl rfl, ht.mono (fun _ => id) fun _ => False.elim, ?_⟩
      rw [List.take_zero, ByteSpace.write_nil, ht.contents_eq]

/-- Read piece by piece, the whole range is read. -/
theorem readPieces_leads (pageSize_pos : 0 < pageSize) (start length : Nat) (hready : Ready s)
    (hsize : s.memory.pageSize = pageSize) :
    (readPieces (pieces pageSize pageSize_pos start length)).Leads s
      (fun bytes u => Touches (InRange start length) Nowhere s u
        ∧ bytes = (PageStore.contents s).read start length
        ∧ u.host.disk.HasPages s.memory.directory pageSize start length)
      fun fault u => Touches (InRange start length) Nowhere s u
        ∧ Unmappable (InRange start length) s fault := by
  fun_induction pieces pageSize pageSize_pos start length generalizing s with
  | case1 =>
    refine ⟨.refl hready, rfl, ?_⟩
    intro o ho
    exact absurd (Nat.lt_of_le_of_lt ho.1 ho.2) (Nat.lt_irrefl _)
  | case2 start length hlength ih =>
    have hle := firstLength_le pageSize start length
    have hpos := firstLength_pos pageSize_pos start hlength
    have hone := inOnePage_firstLength pageSize_pos start length
    generalize hfirst : firstLength pageSize start length = first at *
    have hstart : InRange start length start := ⟨Nat.le_refl _, by omega⟩
    subst hsize
    simp only [readPieces, leads_bind, leads_pure]
    refine (PageStore.readAt_leads hready hstart hone).mono ?_ fun _ _ => id
    intro _ t ht
    obtain ⟨ht, rfl, hpage⟩ := ht
    refine (ih ht.ready ht.same.pageSize).mono ?_ ?_
    · intro _ u hu
      obtain ⟨hu, rfl, hpages⟩ := hu
      refine ⟨ht.comp hu (fun _ => inRange_of_rest hle) fun _ => id, ?_, ?_⟩
      · rw [ht.contents_eq, ← ByteSpace.read_add, Nat.add_sub_cancel' hle]
      · intro o ho
        rw [ht.same.directory] at hpages
        rcases inRange_split hle ho with hin | hin
        · rw [div_of_firstLength (hfirst.symm ▸ hin)]
          exact ht.same.directory ▸ hu.hasPage (ht.same.directory.symm ▸ hpage)
        · exact hpages o hin
    · intro fault u hu
      obtain ⟨hu, hfault⟩ := hu
      exact ⟨ht.comp hu (fun _ => inRange_of_rest hle) fun _ => id,
        hfault.before ht fun _ => inRange_of_rest hle⟩

/-! ## The file -/

/-- What is asked of a file for an access. -/
abbrev IsReady (s : Session PagedFile) : Prop := Ready (s.part store)

/-- The bytes of a file. -/
abbrev bytesOf (s : Session PagedFile) : ByteSpace := PageStore.contents (s.part store)

/-- The bytes were written at an offset, and nothing else was. -/
structure Wrote (start : Nat) (bytes : List UInt8) (s u : Session PagedFile) : Prop where
  touches : Touches (InRange start bytes.length) (InRange start bytes.length) (s.part store)
    (u.part store)
  bytesOf_eq : bytesOf u = (bytesOf s).write start bytes
  hasPages : u.host.disk.HasPages s.memory.store.directory s.memory.store.pageSize start
    bytes.length
  length_eq : u.memory.length = max s.memory.length (start + bytes.length)

/-- A range was read, and nothing was written. -/
structure LookedAt (start length : Nat) (s u : Session PagedFile) : Prop where
  touches : Touches (InRange start length) Nowhere (s.part store) (u.part store)
  hasPages : u.host.disk.HasPages s.memory.store.directory s.memory.store.pageSize start length
  length_eq : u.memory.length = s.memory.length

/-- An access to a range failed because of a page that could not be mapped; some of the bytes at the
offsets `written` may be replaced. -/
structure Failed (start length : Nat) (written : Nat → Prop) (s : Session PagedFile) (fault : Fault)
    (u : Session PagedFile) : Prop where
  touches : Touches (InRange start length) written (s.part store) (u.part store)
  unmappable : Unmappable (InRange start length) (s.part store) fault
  length_eq : u.memory.length = s.memory.length

/-- A write of bytes failed, and so many of them were written before. -/
structure BrokeOff (count start : Nat) (bytes : List UInt8) (s : Session PagedFile) (fault : Fault)
    (u : Session PagedFile) : Prop
      extends Failed start bytes.length (InRange start count) s fault u where
  lt_length : count < bytes.length
  border : count = 0 ∨ s.memory.store.pageSize ∣ start + count
  bytesOf_eq : bytesOf u = (bytesOf s).write start (bytes.take count)

section

variable {s u : Session PagedFile}

/-- Whatever was written before a write failed is of the range that was to be written. -/
theorem BrokeOff.failed {count start : Nat} {bytes : List UInt8} {fault : Fault}
    (h : BrokeOff count start bytes s fault u) :
    Failed start bytes.length (InRange start bytes.length) s fault u where
  touches := h.touches.mono (fun _ => id) fun _ => inRange_of_first (Nat.le_of_lt h.lt_length)
  unmappable := h.unmappable
  length_eq := h.length_eq

theorem LookedAt.bytesOf_eq (h : LookedAt start length s u) : bytesOf u = bytesOf s :=
  h.touches.contents_eq

/-- Where every page can be opened, no access fails. -/
theorem not_failed {written : Nat → Prop} {fault : Fault}
    (h : s.host.disk.Openable s.memory.store.directory) :
    ¬ Failed start length written s fault u := by
  intro hand
  obtain ⟨-, ⟨o, -, hunmappable, -⟩, -⟩ := hand
  exact hunmappable (h.mappable _)

/-- Bytes are written, or as many of them as lie before the end of some page. -/
theorem writeBytes_breaks (hready : IsReady s) (start : Nat) (bytes : List UInt8) :
    (writeBytes start bytes).Leads s (fun _ u => Wrote start bytes s u)
      fun fault u => ∃ count, BrokeOff count start bytes s fault u := by
  unfold writeBytes onStore markWritten
  simp only [leads_bind, leads_memory, leads_within, leads_update]
  refine (writePieces_leads s.memory.store.pageSize_pos start bytes.length rfl hready rfl).mono ?_
    ?_
  · intro _ u hu
    obtain ⟨hu, hcontents, hpages⟩ := hu
    exact ⟨hu, hcontents, hpages, rfl⟩
  · intro fault u hu
    obtain ⟨hfault, count, hlt, hborder, hu, hcontents⟩ := hu
    exact ⟨count, ⟨hu, hfault, rfl⟩, hlt, hborder, hcontents⟩

/-- Bytes are written as one range over the pages, or a part of it and then refused. -/
theorem writeBytes_leads (hready : IsReady s) (start : Nat) (bytes : List UInt8) :
    (writeBytes start bytes).Leads s (fun _ u => Wrote start bytes s u)
      (Failed start bytes.length (InRange start bytes.length) s) :=
  (writeBytes_breaks hready start bytes).mono (fun _ _ => id) fun _ _ hbroke =>
    hbroke.elim fun _ h => h.failed

/-- Bytes are read as one range over the pages. -/
theorem readBytes_leads (hready : IsReady s) (start length : Nat) :
    (readBytes start length).Leads s
      (fun bytes u => LookedAt start length s u ∧ bytes = (bytesOf s).read start length)
      (Failed start length Nowhere s) := by
  unfold readBytes onStore
  simp only [leads_bind, leads_memory, leads_within]
  refine (readPieces_leads s.memory.store.pageSize_pos start length hready rfl).mono ?_ ?_
  · intro _ u hu
    obtain ⟨hu, rfl, hpages⟩ := hu
    exact ⟨⟨hu, hpages, rfl⟩, rfl⟩
  · intro fault u hu
    obtain ⟨hu, hfault⟩ := hu
    exact ⟨hu, hfault, rfl⟩

/-! ## Words -/

theorem div_of_inOnePage {o : Nat} (hone : InOnePage pageSize start length)
    (h : InRange start length o) : o / pageSize = start / pageSize := by
  have hfirst : InRange start (firstLength pageSize start length) o := by
    unfold InOnePage at hone
    unfold InRange firstLength at *
    omega
  exact div_of_firstLength hfirst

/-- A word is written like other bytes, and in one change if it lies inside one page. -/
theorem writeWord_breaks (hready : IsReady s) (start : Nat) {bytes : List UInt8}
    (hbytes : bytes ≠ []) : (writeWord start bytes).Leads s
      (fun _ u => Wrote start bytes s u
        ∧ (InOnePage s.memory.store.pageSize start bytes.length →
          Access (WritesAtOnce (InRange start bytes.length) start bytes (s.part store))
            (s.part store) (u.part store)))
      fun fault u => ∃ count, BrokeOff count start bytes s fault u := by
  have hlength : 0 < bytes.length := List.length_pos_iff.mpr hbytes
  have hstart : InRange start bytes.length start :=
    ⟨Nat.le_refl _, Nat.lt_add_of_pos_right hlength⟩
  unfold writeWord onStore markWritten
  simp only [leads_bind, leads_memory, leads_ite, leads_within, leads_update]
  split
  next hone =>
    refine (PageStore.writeAt_leads hready hstart hone).mono ?_ ?_
    · intro _ u hu
      obtain ⟨hu, hcontents, hpage⟩ := hu
      refine ⟨⟨hu.touches, hcontents, fun o ho => ?_, rfl⟩, fun _ => hu⟩
      rw [div_of_inOnePage hone ho]
      exact hpage
    · intro fault u hu
      obtain ⟨hu, hfault⟩ := hu
      refine ⟨0, ⟨hu.mono (fun _ => id) fun _ => False.elim, hfault, rfl⟩, hlength, .inl rfl, ?_⟩
      rw [List.take_zero, ByteSpace.write_nil]
      exact hu.contents_eq
  next hmany =>
    exact (writeBytes_breaks hready start bytes).mono
      (fun _ u hu => ⟨hu, fun hone => absurd hone hmany⟩) fun _ _ => id

/-- A word within one page is written at once. -/
theorem writeWord_leads (hready : IsReady s) (start : Nat) {bytes : List UInt8}
    (hbytes : bytes ≠ []) : (writeWord start bytes).Leads s
      (fun _ u => Wrote start bytes s u
        ∧ (InOnePage s.memory.store.pageSize start bytes.length →
          Access (WritesAtOnce (InRange start bytes.length) start bytes (s.part store))
            (s.part store) (u.part store)))
      (Failed start bytes.length (InRange start bytes.length) s) :=
  (writeWord_breaks hready start hbytes).mono (fun _ _ => id) fun _ _ hbroke =>
    hbroke.elim fun _ h => h.failed

/-- A word at the very beginning that is no longer than a page is written at once or not at all. -/
theorem BrokeOff.eq_zero {count : Nat} {bytes : List UInt8} {fault : Fault}
    (h : BrokeOff count 0 bytes s fault u) (hfits : bytes.length ≤ s.memory.store.pageSize) :
    count = 0 := by
  have hlt := h.lt_length
  rcases h.border with hzero | hdvd
  · exact hzero
  · rw [Nat.zero_add] at hdvd
    exact Nat.eq_zero_of_dvd_of_lt hdvd (by omega)

/-- A word is read as bytes are. -/
theorem readWord_leads (hready : IsReady s) (start : Nat) (hlength : 0 < length) :
    (readWord start length).Leads s
      (fun bytes u => LookedAt start length s u ∧ bytes = (bytesOf s).read start length)
      (Failed start length Nowhere s) := by
  have hstart : InRange start length start := ⟨Nat.le_refl _, Nat.lt_add_of_pos_right hlength⟩
  unfold readWord onStore
  simp only [leads_bind, leads_memory, leads_ite, leads_within]
  split
  next hone =>
    refine (PageStore.readAt_leads hready hstart hone).mono ?_ ?_
    · intro _ u hu
      obtain ⟨hu, rfl, hpage⟩ := hu
      refine ⟨⟨hu, fun o ho => ?_, rfl⟩, rfl⟩
      rw [div_of_inOnePage hone ho]
      exact hpage
    · intro fault u hu
      obtain ⟨hu, hfault⟩ := hu
      exact ⟨hu, hfault, rfl⟩
  next => exact readBytes_leads hready start length

theorem readInt32_leads (hready : IsReady s) (start : Nat) :
    (readInt32 start).Leads s
      (fun value u => LookedAt start 4 s u ∧ value = decodeInt32 ((bytesOf s).read start 4))
      (Failed start 4 Nowhere s) := by
  unfold readInt32
  simp only [leads_bind, leads_pure]
  exact (readWord_leads hready start (by decide)).mono
    (fun _ u hu => ⟨hu.1, congrArg decodeInt32 hu.2⟩) fun _ _ => id

theorem readInt64_leads (hready : IsReady s) (start : Nat) :
    (readInt64 start).Leads s
      (fun value u => LookedAt start 8 s u ∧ value = decodeInt64 ((bytesOf s).read start 8))
      (Failed start 8 Nowhere s) := by
  unfold readInt64
  simp only [leads_bind, leads_pure]
  exact (readWord_leads hready start (by decide)).mono
    (fun _ u hu => ⟨hu.1, congrArg decodeInt64 hu.2⟩) fun _ _ => id

end

end PagedFile

end PagedQueue
