import PagedQueue.Proofs.IndexSteps

/-!
# How an index comes to carry a list

Recovery of pages that hold the records of a list carries that list again (`recover_holding`). A
start from nothing deletes the pages in ascending order, so the page of the count goes first: at any
time the pages hold all records as before, or none (`startEmpty_ensures`).
-/

namespace PagedQueue

open Procedure
open Disk (Apart Confined Records)
open PageStore (Ready Access Touches Nowhere WritesAtOnce Turns)

namespace MessageIndex

variable {s t : Session MessageIndex} {items : Items} {layout : Nat → Nat}

/-! ## Recovery -/

/-- Recovery finds the list whose records the pages hold, and changes nothing on disk but that pages
which are read are filled up. -/
theorem recover_holding (hready : Ready (pagesOf s)) (hrecords : Holding s items layout s.host.disk)
    (hwell : items.WellFormed) (hpage : 4 ≤ s.memory.file.store.pageSize) :
    recover.Ensures s fun tally t => tally = items.tally
      ∧ Turns (Holding s items layout) (Holding s items layout) (pagesOf s) (pagesOf t)
      ∧ Carries items layout t ∧ t.memory.pending = s.memory.pending ∧ reachOf t = reachOf s := by
  have hpos := s.memory.file.store.pageSize_pos
  have hcount : (bytesOf s).recordCount (reachOf s) = items.length := hrecords.recordCount_eq
  have hsound : ¬ (bytesOf s).Unsound (reachOf s) := hrecords.not_unsound hwell hpage
  have hleads := recover_leads hready hrecords.tidy.toOpenable
  refine (hleads.ensures fun _ _ => hsound).mono ?_
  intro tally t ht
  obtain ⟨-, ht⟩ := ht
  have htouches := ht.touches
  obtain ⟨htidy, hreach⟩ := hrecords.tidy.confined hpos htouches.last fun _ => id
  -- recovery only reads, and only what the pages reach
  have hrecords' (d : Disk) (hd : Confined s.memory.file.store.directory
      s.memory.file.store.pageSize (· < reachOf s) Nowhere s.host.disk d) :
      Holding s items layout d := by
    obtain ⟨htidy', hreach'⟩ := hrecords.tidy.confined hpos hd fun _ => id
    exact hrecords.congr htidy' hreach' (funext fun o => hd.space_eq o id)
  have hdirectory : t.memory.file.store.directory = s.memory.file.store.directory :=
    htouches.same.directory
  have hsize : t.memory.file.store.pageSize = s.memory.file.store.pageSize := htouches.same.pageSize
  refine ⟨?_, htouches.turns fun d hd => .inl (hrecords' d hd), ⟨htouches.ready, ?_, ?_, ?_, ?_⟩,
    ht.pending, ?_⟩
  · rw [ht.tally_eq, hcount]
    exact hrecords.tallyOf_eq hwell
  · show t.host.disk.Records t.memory.file.store.directory t.memory.file.store.pageSize items layout
    rw [hdirectory, hsize]
    exact hrecords' t.host.disk htouches.last
  · have hholds := ht.holds
    rw [hcount] at hholds
    exact (hrecords.liveAt?_eq hwell) ▸ hholds
  · exact ht.count_eq.trans hcount
  · exact ht.next_eq.trans hcount
  · rw [reachOf, hdirectory, hsize]
    exact hreach

/-! ## Starting from nothing -/

/-- A count of zero is written over one, and then the page of the count is there. -/
private theorem writeZero_ensures {s : Session PagedFile} (layout : Nat → Nat)
    (hready : Ready (s.part PagedFile.store)) (htidy : s.host.disk.Tidy s.memory.store.directory)
    (hpage : 4 ≤ s.memory.store.pageSize)
    (hblank : s.host.disk.space s.memory.store.directory s.memory.store.pageSize
      = ByteSpace.blank) :
    (PagedFile.writeInt32 0 0).Ensures s fun _ t =>
      Turns (fun d => d.Records s.memory.store.directory s.memory.store.pageSize [] layout)
          (fun d => d.Records s.memory.store.directory s.memory.store.pageSize [] layout)
          (s.part PagedFile.store) (t.part PagedFile.store)
        ∧ t.host.disk.reach s.memory.store.directory s.memory.store.pageSize ≠ 0
        ∧ t.host.disk.space s.memory.store.directory s.memory.store.pageSize = ByteSpace.blank := by
  have hbytes : encodeInt32 0 ≠ [] := List.ne_nil_of_length_pos (by simp)
  have hzero : (s.host.disk.space s.memory.store.directory s.memory.store.pageSize).count = 0 := by
    rw [hblank]
    rfl
  refine (PagedFile.writeWord_leads hready 0 hbytes).mono ?_
    fun _ _ hfailed => PagedFile.not_failed htidy.toOpenable hfailed
  intro _ t ht
  obtain ⟨⟨-, hspace, hpages, -⟩, hatOnce⟩ := ht
  rw [length_encodeInt32] at hpages hatOnce
  -- whatever else happened, a count of zero means no record
  have hempty (d : Disk) (hc : Confined s.memory.store.directory s.memory.store.pageSize
      (InRange 0 4) (InRange 0 4) s.host.disk d)
      (hcount : (d.space s.memory.store.directory s.memory.store.pageSize).count = 0) :
      d.Records s.memory.store.directory s.memory.store.pageSize [] layout := by
    refine .of_count_zero (hc.tidy (fun o ho => Disk.div_le_maxIndex ?_) htidy) hcount _
    exact Nat.lt_trans ho.2 (by decide)
  have hturns : Turns
      (fun d => d.Records s.memory.store.directory s.memory.store.pageSize [] layout)
      (fun d => d.Records s.memory.store.directory s.memory.store.pageSize [] layout)
      (s.part PagedFile.store) (t.part PagedFile.store) := by
    refine .of_atOnce (hatOnce (ByteSpace.count_inOnePage hpage)) ?_ ?_
    · intro d hc hold
      rw [length_encodeInt32] at hc
      exact hempty d hc ((congrArg ByteSpace.count hold).trans hzero)
    · intro d hc hnew
      rw [length_encodeInt32] at hc
      exact hempty d hc ((congrArg ByteSpace.count hnew).trans (ByteSpace.count_write_count _ _))
  have hlast : t.host.disk.Records s.memory.store.directory s.memory.store.pageSize [] layout :=
    hturns.last.2.elim id id
  have hspace' : t.host.disk.space s.memory.store.directory s.memory.store.pageSize
      = ByteSpace.blank.write 0 (List.replicate 4 0) := by
    have hsame := hturns.same
    have hzeros : encodeInt32 0 = List.replicate 4 0 := by decide
    rw [PagedFile.bytesOf, PageStore.contents, hsame.directory, hsame.pageSize] at hspace
    rw [← hzeros, ← hblank]
    exact hspace
  refine ⟨hturns, ?_, hspace'.trans (ByteSpace.write_blank 0 4)⟩
  exact Nat.ne_of_gt (hlast.tidy.lt_reach s.memory.store.pageSize_pos
    (hpages 0 ⟨Nat.le_refl 0, by decide⟩))

/-- The pages are deleted, and a count of zero is written to the first one. -/
theorem startEmpty_ensures (hready : Ready (pagesOf s))
    (hrecords : Holding s items layout s.host.disk) (hpage : 4 ≤ s.memory.file.store.pageSize) :
    startEmpty.Ensures s fun _ t =>
      Turns (Holding s items layout) (Holding s [] layout) (pagesOf s) (pagesOf t)
      ∧ Carries [] layout t ∧ t.memory.pending = s.memory.pending ∧ reachOf t ≠ 0
      ∧ bytesOf t = ByteSpace.blank := by
  have hreset := PagedFile.reset_ensures (s := s.part file) hready hrecords.tidy
  unfold startEmpty onFile Ensures
  simp only [leads_bind, leads_update, leads_within]
  refine hreset.leads.mono ?_ fun _ _ => False.elim
  intro _ t ht
  obtain ⟨all, hsorted, hall, haccess, htidy, hnone⟩ := ht
  have hdirectory : t.memory.store.directory = s.memory.file.store.directory :=
    haccess.same.directory
  have hsize : t.memory.store.pageSize = s.memory.file.store.pageSize := haccess.same.pageSize
  have hdeleted : Turns (Holding s items layout) (Holding s [] layout) (pagesOf s)
      (t.part PagedFile.store) := by
    refine Access.mono haccess ?_
    intro d hd
    obtain ⟨gone, hgone, hd⟩ := hd
    exact ⟨.of_pruned hd hready.sound, hrecords.pruned hpage hsorted hall hgone hd⟩
  -- no page is left, so there are only zeros before the count is written
  have hblank : t.host.disk.space t.memory.store.directory t.memory.store.pageSize
      = ByteSpace.blank := by
    rw [hdirectory]
    exact funext fun o => Disk.space_of_no_page (hnone _)
  refine (writeZero_ensures layout haccess.ready (hdirectory ▸ htidy) (hsize ▸ hpage)
    hblank).leads.mono ?_ fun _ _ => False.elim
  intro _ u hu
  obtain ⟨hwritten, hreach, hspace⟩ := hu
  have hdirectory' : u.memory.store.directory = t.memory.store.directory := hwritten.same.directory
  have hsize' : u.memory.store.pageSize = t.memory.store.pageSize := hwritten.same.pageSize
  have hlast : u.host.disk.Records u.memory.store.directory u.memory.store.pageSize [] layout := by
    rw [hdirectory', hsize']
    exact hwritten.last.2.elim id id
  have hheld : Items.held [] layout = fun _ => none := rfl
  refine ⟨?_, ⟨hwritten.ready, hlast, ?_, rfl, rfl⟩, trivial, ?_, ?_⟩
  · refine hdeleted.comp hwritten fun d hd => .inr ?_
    rw [hdirectory, hsize] at hd
    exact hd.elim id id
  · rw [hheld]
    exact holds_empty rfl rfl
  · show u.host.disk.reach u.memory.store.directory u.memory.store.pageSize ≠ 0
    rw [hdirectory', hsize']
    exact hreach
  · show u.host.disk.space u.memory.store.directory u.memory.store.pageSize = _
    rw [hdirectory', hsize']
    exact hspace

end MessageIndex

end PagedQueue
