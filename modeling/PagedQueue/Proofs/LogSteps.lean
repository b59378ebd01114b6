import PagedQueue.PayloadLog.Clients
import PagedQueue.Proofs.FoundDirectories
import PagedQueue.Proofs.PushAccesses

/-!
# What the steps of an append do to the files

A step writes at most what of a payload lies in one page (`writeFirst_leads`), and a page that is
refused changes no byte (`refuse_leads`). A log that is recovered goes on behind all its pages
(`recover_ensures`), also if it is opened anew (`reopen_ensures`).
-/

namespace PagedQueue

open Procedure
open PageStore (Ready Touches Nowhere Same)

namespace PageStore

variable {touched : Nat → Prop} {s : Session PageStore} {o : Nat}

/-- A page that is refused is not handed out, and no byte changes. -/
theorem refuse_leads (hready : Ready s) (ho : touched o) (reached : Refusal) :
    (refuse (o / s.memory.pageSize) reached).Leads s (fun _ _ => False)
      fun _ t => Touches touched Nowhere s t := by
  have hstart : Touches touched Nowhere s s := .refl hready
  have hpath : s.memory.pathOf (o / s.memory.pageSize)
      = Disk.pagePath s.memory.directory (o / s.memory.pageSize) := rfl
  unfold refuse
  rw [leads_bind, leads_memory, hpath]
  cases reached with
  | untouched => exact hstart
  | obtained =>
    simp only [leads_bind, leads_discard, leads_throw]
    refine (obtainFile_leads hready.sound ho Nowhere).mono ?_ ?_
    · intro _ t ht
      exact hstart.goOn ht.1 ht.2.2
    · intro _ t ht
      rw [ht.1]
      exact hstart
  | filled =>
    simp only [leads_bind, leads_discard, leads_throw]
    exact (map_leads hstart ho).mono (fun _ _ ht => ht.1) fun _ _ ht => ht.1

end PageStore

namespace PayloadLog

variable {directory : Path} {pageSize : Nat} {s t : Session PayloadLog}
    {touched written : Nat → Prop}

/-- The pages of a log. -/
abbrev pagesOf (s : Session PayloadLog) : Session PageStore := (s.part file).part PagedFile.store

/-- The log is over a directory that is there, and its cache shows what is on disk. -/
structure Mounted (directory : Path) (pageSize : Nat) (s : Session PayloadLog) : Prop where
  directory_eq : s.memory.file.store.directory = directory
  pageSize_eq : s.memory.file.store.pageSize = pageSize
  ready : Ready (pagesOf s)
  ways : ∀ p, p <+: directory → s.host.disk.node? p = some .directory

/-- The log goes on, and bytes are replaced only at the offsets `written`. -/
structure Alters (directory : Path) (pageSize : Nat) (written : Nat → Prop)
    (s t : Session PayloadLog) :
    Prop where
  mounted : Mounted directory pageSize t
  bytes : ∀ o, ¬ written o →
    t.host.disk.space directory pageSize o = s.host.disk.space directory pageSize o
  hasPage : ∀ index, s.host.disk.HasPage directory index → t.host.disk.HasPage directory index

theorem Mounted.contents (h : Mounted directory pageSize s) :
    PageStore.contents (pagesOf s) = s.host.disk.space directory pageSize := by
  rw [PageStore.contents, Session.memory_part, Session.memory_part, h.directory_eq, h.pageSize_eq]
  rfl

/-- An access to the pages, whatever else changes in memory. -/
theorem Mounted.alters (h : Mounted directory pageSize s)
    (ha : Touches touched written (pagesOf s) (pagesOf t)) :
    Alters directory pageSize written s t := by
  have hlast := ha.last
  rw [Session.memory_part, Session.memory_part, h.directory_eq, h.pageSize_eq] at hlast
  exact {
    mounted :=
    ⟨ha.same.directory.trans h.directory_eq, ha.same.pageSize.trans h.pageSize_eq, ha.ready,
      fun p hp => hlast.kept (h.ways p hp)⟩
    bytes := hlast.space_eq
    hasPage := fun _ => hlast.hasPage }

/-- Nothing happens to the files, and the cache goes on showing them. -/
theorem Mounted.still (h : Mounted directory pageSize s) {log : PayloadLog}
    (hsame : Same s.memory.file.store log.file.store)
    (hcoherent : log.file.store.Coherent s.host.disk) :
    Alters directory pageSize Nowhere s ⟨s.host, log⟩ where
  mounted := ⟨hsame.directory.trans h.directory_eq, hsame.pageSize.trans h.pageSize_eq,
    ⟨h.ready.sound, hcoherent⟩, h.ways⟩
  bytes _ _ := rfl
  hasPage _ := id

theorem Mounted.still_of_store (h : Mounted directory pageSize s) {log : PayloadLog}
    (hstore : log.file.store = s.memory.file.store) :
    Alters directory pageSize Nowhere s ⟨s.host, log⟩ :=
  h.still (hstore ▸ .refl _) (hstore ▸ h.ready.coherent)

/-! ## The steps -/

theorem writeFirst_leads (h : Mounted directory pageSize s) (start : Nat) {bytes : List UInt8}
    (hbytes : bytes ≠ []) :
    (onFile (PagedFile.writeFirst start bytes)).Leads s
      (fun count t => count ≤ bytes.length
        ∧ Alters directory pageSize (InRange start count) s t
        ∧ t.host.disk.space directory pageSize
          = (s.host.disk.space directory pageSize).write start (bytes.take count)
        ∧ t.host.disk.HasPages directory pageSize start count
        ∧ t.memory.cursor = s.memory.cursor)
      fun _ t => Alters directory pageSize Nowhere s t ∧ t.memory.cursor = s.memory.cursor := by
  unfold onFile
  rw [leads_within]
  refine (PagedFile.writeFirst_leads (s := s.part file) h.ready start hbytes).mono ?_ ?_
  · intro count t ht
    obtain ⟨rfl, htouches, hcontents, hpages⟩ := ht
    have halters := h.alters (t := ⟨t.host, { s.memory with file := t.memory }⟩) htouches
    have hbefore := h.contents
    have hafter := halters.mounted.contents
    refine ⟨PagedFile.firstLength_le .., halters, ?_, ?_, rfl⟩
    · rw [← hbefore, ← hafter]
      exact hcontents
    · rw [Session.memory_part, h.directory_eq, h.pageSize_eq] at hpages
      rwa [Session.memory_part, h.pageSize_eq]
  · intro _ t ht
    exact ⟨h.alters (t := ⟨t.host, { s.memory with file := t.memory }⟩) ht.touches, rfl⟩

/-- What is read is what is there. -/
theorem read_leads (h : Mounted directory pageSize s) (offset length : Nat) :
    (read offset length).Leads s
      (fun bytes t => bytes = (s.host.disk.space directory pageSize).read offset length
        ∧ Alters directory pageSize Nowhere s t ∧ t.memory.cursor = s.memory.cursor)
      fun _ t => (Alters directory pageSize Nowhere s t ∧ t.memory.cursor = s.memory.cursor)
        ∧ ∃ o, InRange offset length o ∧ ¬ s.host.disk.Mappable directory (o / pageSize) := by
  unfold read onFile
  rw [leads_within]
  refine (PagedFile.readBytes_leads (s := s.part file) h.ready offset length).mono ?_ ?_
  · intro _ t ht
    obtain ⟨ht, rfl⟩ := ht
    refine ⟨?_, h.alters (t := ⟨t.host, { s.memory with file := t.memory }⟩) ht.touches, rfl⟩
    exact congrArg (ByteSpace.read · offset length) h.contents
  · intro _ t ht
    obtain ⟨htouches, ⟨o, ho, hunmappable, -⟩, -⟩ := ht
    refine ⟨⟨h.alters (t := ⟨t.host, { s.memory with file := t.memory }⟩) htouches, rfl⟩, o, ho, ?_⟩
    rwa [Session.memory_part, Session.memory_part, h.directory_eq, h.pageSize_eq] at hunmappable

theorem refuse_leads (h : Mounted directory pageSize s) (o : Nat) (reached : PageStore.Refusal) :
    (onFile (PagedFile.onStore (PageStore.refuse (o / s.memory.file.store.pageSize) reached))).Leads
      s (fun _ _ => False)
      fun _ t => Alters directory pageSize Nowhere s t ∧ t.memory.cursor = s.memory.cursor := by
  unfold onFile PagedFile.onStore
  rw [leads_within, leads_within]
  have ho : InRange o 1 o := ⟨Nat.le_refl _, Nat.lt_succ_self _⟩
  refine (PageStore.refuse_leads (s := pagesOf s) h.ready ho reached).mono (fun _ _ => id) ?_
  intro _ t ht
  exact ⟨h.alters
    (t := ⟨t.host, { s.memory with file := { s.memory.file with store := t.memory } }⟩) ht,
    rfl⟩

theorem flush_ensures (h : Mounted directory pageSize s) :
    flush.Ensures s fun _ t => Alters directory pageSize Nowhere s t
      ∧ t.memory.cursor = s.memory.cursor := by
  unfold flush onFile PagedFile.flush Ensures
  rw [leads_within, leads_update]
  exact ⟨h.still (PageStore.same_flush _) h.ready.coherent.flush, rfl⟩

theorem close_ensures (h : Mounted directory pageSize s) :
    close.Ensures s fun _ t => Alters directory pageSize Nowhere s t
      ∧ t.memory.cursor = s.memory.cursor := by
  unfold close onFile PagedFile.close PagedFile.flush Ensures
  simp only [leads_within, leads_bind, leads_update]
  exact ⟨h.still ((PageStore.same_flush _).trans (PageStore.same_dropAll _))
    (PageStore.coherent_dropAll _ _), trivial⟩

/-- A log that is recovered goes on behind all pages there are. -/
theorem recover_ensures (h : Mounted directory pageSize s) :
    recover.Ensures s fun length t => Alters directory pageSize Nowhere s t
      ∧ length = s.host.disk.reach directory pageSize ∧ t.memory.cursor = length := by
  unfold recover onFile Ensures
  simp only [leads_bind, leads_within, leads_update, leads_pure]
  refine (PagedFile.recoverLength_ensures (s := s.part file) ?_).leads.mono ?_ fun _ _ => False.elim
  · rw [Session.memory_part, h.directory_eq]
    exact h.ways directory List.prefix_rfl
  · intro _ t ht
    obtain ⟨rfl, rfl⟩ := ht
    refine ⟨h.still_of_store rfl, ?_, trivial⟩
    rw [Session.memory_part, h.directory_eq, h.pageSize_eq]
    rfl

/-- What is opened over a directory that is there. -/
theorem openIn_ensures {σ : Type} {s : Session σ} {directory : Path} {pageSize : Nat}
    (hpos : 0 < pageSize) (lifetime : UInt64) (hsound : s.host.disk.Sound)
    (hways : ∀ p, p <+: directory → s.host.disk.node? p = some .directory) :
    (openIn directory pageSize lifetime : Procedure σ PayloadLog).Ensures s fun log t =>
      t = s ∧ Mounted directory pageSize ⟨s.host, log⟩ := by
  unfold openIn Ensures
  simp only [leads_bind, leads_pure]
  refine (PageStore.create_of_directories hpos lifetime hways).leads.mono ?_ fun _ _ => False.elim
  intro _ t ht
  obtain ⟨rfl, rfl⟩ := ht
  refine (PagedFile.ofStore_ensures (hways directory List.prefix_rfl)).leads.mono ?_ fun _ _ =>
    False.elim
  intro _ t ht
  obtain ⟨rfl, rfl⟩ := ht
  exact ⟨rfl, rfl, rfl, ⟨hsound, .of_cached_empty rfl⟩, hways⟩

/-- Whatever is on disk, a log that is opened without a fault is over a directory that is there. -/
theorem openIn_leads {σ : Type} {s : Session σ} (directory : Path) (pageSize : Nat)
    (lifetime : UInt64) (hsound : s.host.disk.Sound) :
    (openIn directory pageSize lifetime : Procedure σ PayloadLog).Leads s
      (fun log t => Mounted directory pageSize ⟨t.host, log⟩) fun _ _ => True := by
  unfold openIn
  simp only [leads_bind, leads_pure]
  by_cases hpos : 0 < pageSize
  · refine (PageStore.create_leads directory hpos lifetime).mono ?_ fun _ _ _ => trivial
    intro _ t ht
    obtain ⟨rfl, hmade, hways⟩ := ht
    refine (PagedFile.ofStore_ensures (hways directory List.prefix_rfl)).leads.mono ?_ fun _ _ =>
      False.elim
    intro _ u hu
    obtain ⟨rfl, rfl⟩ := hu
    exact ⟨rfl, rfl, ⟨hmade.sound hsound, .of_cached_empty rfl⟩, hways⟩
  · rw [PageStore.create, dif_neg hpos, leads_throw]
    trivial

/-- Started from nothing, a log is over its directory. -/
theorem startEmpty_ensures (h : Mounted directory pageSize s) :
    startEmpty.Ensures s fun _ t => Mounted directory pageSize t := by
  unfold startEmpty onFile Ensures
  simp only [leads_bind, leads_within, leads_update]
  refine (PagedFile.reset_prunes (s := s.part file) ?_).leads.mono ?_ fun _ _ => False.elim
  · rw [Session.memory_part, h.directory_eq]
    exact h.ways directory List.prefix_rfl
  · intro _ t ht
    obtain ⟨hsame, hcoherent, gone, hpruned⟩ := ht
    rw [Session.memory_part, h.directory_eq] at hpruned
    exact {
      directory_eq := hsame.directory.trans h.directory_eq
      pageSize_eq := hsame.pageSize.trans h.pageSize_eq
      ready := ⟨hpruned.sound h.ready.sound, hcoherent⟩
      ways := fun p hp => (hpruned.node?_of_prefix hp).trans (h.ways p hp) }

/-- A log that is opened anew goes on behind all pages there are. -/
theorem reopen_ensures (h : Mounted directory pageSize s) (lifetime : UInt64) :
    (reopen lifetime).Ensures s fun length t => Alters directory pageSize Nowhere s t
      ∧ length = s.host.disk.reach directory pageSize ∧ t.memory.cursor = length := by
  have hpos : 0 < pageSize := h.pageSize_eq ▸ s.memory.file.store.pageSize_pos
  unfold reopen Ensures
  simp only [leads_bind, leads_memory, leads_update, h.directory_eq, h.pageSize_eq]
  refine (openIn_ensures (s := s) hpos lifetime h.ready.sound h.ways).leads.mono ?_ fun _ _ =>
    False.elim
  intro log t ht
  obtain ⟨rfl, hopened⟩ := ht
  refine (recover_ensures hopened).leads.mono ?_ fun _ _ => False.elim
  intro _ u hu
  obtain ⟨halters, hlength, hcursor⟩ := hu
  exact ⟨⟨halters.mounted, halters.bytes, halters.hasPage⟩, hlength, hcursor⟩

end PayloadLog

end PagedQueue
