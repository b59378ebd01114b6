import PagedQueue.Proofs.FlatFile
import PagedQueue.Proofs.FoundDirectories

/-!
# How far a file was written

The length of a file is kept apart from its pages. It is read off their names when the file is
opened or told to find it out, it is zero when all pages are deleted, and between such times
(`Measured`) it moves to the end of each write that goes beyond it (`Measured.length_eq`).

The last byte that a write stores lies in a page, and pages stay, so the pages reach as far as bytes
were stored (`Measured.furthest_le`). A write of no bytes moves the length like any other, although
it stores nothing: so the length is how far bytes were stored as long as no write is empty
(`lengths_follow_writes`), and not otherwise (`empty_write_moves_length`).

Lengths and offsets are words of 64 bits. Only files are followed whose lengths fit in one, and
calls whose ranges end before the last number that does.
-/

namespace PagedQueue

open Procedure
open PageStore (Same Touches Nowhere)

namespace Disk

variable {d d' : Disk} {directory : Path}

/-- The pages of a directory reach no less far after names were added. -/
theorem reach_le_of_kept (h : d.node? directory = some .directory)
    (hkept : ∀ {path : Path} {node : Node}, d.node? path = some node → d'.node? path = some node)
    (pageSize : Nat) : d.reach directory pageSize ≤ d'.reach directory pageSize := by
  rw [reach]
  split
  next last hlast =>
    obtain ⟨name, node, hnode, hindex⟩ := (mem_pageNumbers h last).mp (List.max?_mem hlast)
    have hmem := (mem_pageNumbers (hkept h) last).mpr ⟨name, node, hkept hnode, hindex⟩
    exact le_reach_of_mem hmem pageSize
  next => exact Nat.zero_le _

end Disk

namespace FileCall

/-- The range that a call writes: where it begins, and its number of bytes. -/
def range? : FileCall → Option (Nat × Nat)
  | putBytes start bytes => some (start, bytes.length)
  | putInt32 start _ => some (start, 4)
  | putInt64 start _ => some (start, 8)
  | _ => none

/-- Where the range ends that a call reads or writes. -/
def extent : FileCall → Nat
  | putBytes start bytes => start + bytes.length
  | putInt32 start _ => start + 4
  | putInt64 start _ => start + 8
  | getBytes start length => start + length
  | getInt32 start => start + 4
  | getInt64 start => start + 8
  | _ => 0

/-- Where the range ends that a call writes. -/
def stop? (c : FileCall) : Option Nat := c.range?.map fun (start, width) => start + width

/-- Where the range ends that a call writes, if there are bytes in it. -/
def storedStop? (c : FileCall) : Option Nat :=
  (c.range?.filter fun range => 0 < range.2).map fun (start, width) => start + width

/-- The furthest of an offset and the ends of all ranges that calls store bytes in. -/
def furthest (base : Nat) (calls : List FileCall) : Nat :=
  (calls.filterMap storedStop?).foldl max base

theorem foldl_max_le_iff {base bound : Nat} {stops : List Nat} :
    stops.foldl max base ≤ bound ↔ base ≤ bound ∧ ∀ stop ∈ stops, stop ≤ bound := by
  induction stops generalizing base with
  | nil => simp
  | cons stop rest ih => rw [List.foldl_cons, ih, Nat.max_le, List.forall_mem_cons, and_assoc]

/-- A call that raises the length writes up to its extent. -/
theorem eq_extent_of_stop? {c : FileCall} {stop : Nat} (h : c.stop? = some stop) :
    stop = c.extent := by
  cases c with
  | putBytes | putInt32 | putInt64 => exact (Option.some.inj h).symm
  | _ => cases h

/-- A write that stores nothing is one of no bytes. -/
theorem storedStop?_or {c : FileCall} {stop : Nat} (h : c.stop? = some stop) :
    c.storedStop? = some stop ∨ c = putBytes stop [] := by
  cases c with
  | putBytes start bytes =>
    cases bytes with
    | nil => exact .inr (congrArg (putBytes · []) (Option.some.inj h))
    | cons => exact .inl h
  | putInt32 | putInt64 => exact .inl h
  | _ => cases h

theorem stop?_of_storedStop? {c : FileCall} {stop : Nat} (h : c.storedStop? = some stop) :
    c.stop? = some stop := by
  obtain ⟨range, hrange, rfl⟩ := Option.map_eq_some_iff.mp h
  rw [stop?, (Option.filter_eq_some_iff.mp hrange).1]
  rfl

/-- The furthest end of all writes is that of those that store bytes, unless one of no bytes lies
beyond. -/
theorem foldl_max_eq_furthest_iff {base : Nat} {calls : List FileCall} :
    (calls.filterMap stop?).foldl max base = furthest base calls
      ↔ ∀ start, putBytes start [] ∈ calls → start ≤ furthest base calls := by
  obtain ⟨hbase, hstored⟩ := foldl_max_le_iff.mp (Nat.le_refl (furthest base calls))
  have hle : furthest base calls ≤ (calls.filterMap stop?).foldl max base := by
    obtain ⟨hbase, hstops⟩ :=
      foldl_max_le_iff.mp (Nat.le_refl ((calls.filterMap stop?).foldl max base))
    refine foldl_max_le_iff.mpr ⟨hbase, fun stop hstop => hstops stop ?_⟩
    obtain ⟨c, hc, hsome⟩ := List.mem_filterMap.mp hstop
    exact List.mem_filterMap.mpr ⟨c, hc, stop?_of_storedStop? hsome⟩
  rw [Nat.le_antisymm_iff, and_iff_left hle, foldl_max_le_iff, and_iff_right hbase]
  constructor
  · intro hstops start hmem
    exact hstops start (List.mem_filterMap.mpr ⟨_, hmem, rfl⟩)
  · intro hempty stop hstop
    obtain ⟨c, hc, hsome⟩ := List.mem_filterMap.mp hstop
    rcases storedStop?_or hsome with hsome | rfl
    · exact hstored stop (List.mem_filterMap.mpr ⟨c, hc, hsome⟩)
    · exact hempty stop hc

/-- One call more is taken into account last. -/
theorem foldl_max_concat (f : FileCall → Option Nat) (base : Nat) (calls : List FileCall)
    (c : FileCall) :
    ((calls ++ [c]).filterMap f).foldl max base
      = (f c).toList.foldl max ((calls.filterMap f).foldl max base) := by
  rw [List.filterMap_append, List.foldl_append]
  cases hstop : f c <;> simp [hstop]

end FileCall

namespace PagedFile

/-! ## Files in use -/

/-- The file can be used. -/
structure Usable (s : Session PagedFile) : Prop where
  ready : IsReady s
  isDirectory : s.host.disk.node? s.memory.store.directory = some .directory

/-- How far the pages of a file reach. -/
def pagesEnd (s : Session PagedFile) : Nat :=
  s.host.disk.reach s.memory.store.directory s.memory.store.pageSize

/-- The pages of some offsets were touched. -/
def Passed (s t : Session PagedFile) : Prop :=
  ∃ touched written, Touches touched written (s.part store) (t.part store)

variable {base : Nat} {calls : List FileCall} {c : FileCall} {s t f : Session PagedFile}

/-- A file stays usable. -/
theorem Usable.passed (h : Usable s) (ht : Passed s t) : Usable t := by
  obtain ⟨touched, written, ht⟩ := ht
  have hdirectory : t.memory.store.directory = s.memory.store.directory := ht.same.directory
  exact ⟨ht.ready, hdirectory ▸ ht.last.kept h.isDirectory⟩

/-- Pages stay, so they reach no less far than before. -/
theorem Passed.pagesEnd_le (ht : Passed s t) (h : Usable s) : pagesEnd s ≤ pagesEnd t := by
  obtain ⟨touched, written, ht⟩ := ht
  have hdirectory : t.memory.store.directory = s.memory.store.directory := ht.same.directory
  have hsize : t.memory.store.pageSize = s.memory.store.pageSize := ht.same.pageSize
  rw [pagesEnd, pagesEnd, hdirectory, hsize]
  exact Disk.reach_le_of_kept h.isDirectory ht.last.kept _

/-- Where the page of the last byte of a range is there, the pages reach to its end. -/
theorem stop_le_pagesEnd (h : Usable s) {start width : Nat} (hwidth : 0 < width)
    (hpages : s.host.disk.HasPages s.memory.store.directory s.memory.store.pageSize start width)
    (hstop : start + width ≤ 0x10000000000000000) : start + width ≤ pagesEnd s := by
  have hpos := s.memory.store.pageSize_pos
  have hpage := hpages (start + width - 1) ⟨by omega, by omega⟩
  have hle : (start + width - 1) / s.memory.store.pageSize ≤ PageName.maxIndex :=
    Nat.le_trans (Nat.div_le_self _ _) (Nat.sub_le_sub_right hstop 1)
  have hmem := hpage.mem_pageNumbers h.isDirectory hle
  have hlt := Nat.lt_mul_div_succ (start + width - 1) hpos
  rw [Nat.mul_comm] at hlt
  have hreach := Disk.le_reach_of_mem hmem s.memory.store.pageSize
  unfold pagesEnd
  omega

/-- So far the bytes reach that a call stored. -/
theorem storedStop?_le_pagesEnd (h : Usable s)
    (hpages : ∀ {start width : Nat}, c.range? = some (start, width) →
      s.host.disk.HasPages s.memory.store.directory s.memory.store.pageSize start width)
    (hextent : c.extent < UInt64.size) {stop : Nat} (hstop : c.storedStop? = some stop) :
    stop ≤ pagesEnd s := by
  rw [← FileCall.eq_extent_of_stop? (FileCall.stop?_of_storedStop? hstop)] at hextent
  obtain ⟨⟨start, width⟩, hstored, rfl⟩ := Option.map_eq_some_iff.mp hstop
  obtain ⟨hrange, hwidth⟩ := Option.filter_eq_some_iff.mp hstored
  exact stop_le_pagesEnd h (of_decide_eq_true hwidth) (hpages hrange)
    (Nat.le_of_lt hextent)

/-! ## One call -/

/-- What a call leaves that succeeds: the length has moved to the end of what was written, and the
pages of the bytes are there. -/
structure Grown (c : FileCall) (s t : Session PagedFile) : Prop where
  passed : Passed s t
  length_eq : t.memory.length = c.stop?.toList.foldl max s.memory.length
  hasPages : ∀ {start width : Nat}, c.range? = some (start, width) →
    t.host.disk.HasPages t.memory.store.directory t.memory.store.pageSize start width

/-- A file grows by what was written. -/
theorem Wrote.grown {start : Nat} {bytes : List UInt8} (h : Wrote start bytes s t)
    (hrange : c.range? = some (start, bytes.length)) : Grown c s t where
  passed := ⟨_, _, h.touches⟩
  length_eq := by
    rw [FileCall.stop?, hrange]
    exact h.length_eq
  hasPages hsome := by
    obtain ⟨rfl, rfl⟩ := Prod.mk.inj (Option.some.inj (hrange.symm.trans hsome))
    have hdirectory : t.memory.store.directory = s.memory.store.directory :=
      h.touches.same.directory
    have hsize : t.memory.store.pageSize = s.memory.store.pageSize := h.touches.same.pageSize
    rw [hdirectory, hsize]
    exact h.hasPages

/-- It keeps its length if nothing was to be written. -/
theorem Grown.of_nothing (hrange : c.range? = none) (ht : Passed s t)
    (hlength : t.memory.length = s.memory.length) : Grown c s t where
  passed := ht
  length_eq := by
    rw [FileCall.stop?, hrange]
    exact hlength
  hasPages hsome := by
    rw [hrange] at hsome
    cases hsome

/-- A read leaves the length. -/
theorem LookedAt.passed {start length : Nat} (h : LookedAt start length s t) : Passed s t :=
  ⟨_, _, h.touches⟩

/-- The store may change as long as it is coherent. -/
theorem passed_store (h : Usable s) {store : PageStore} (hsame : Same s.memory.store store)
    (hcoherent : store.Coherent s.host.disk) : Passed s ⟨s.host, { s.memory with store }⟩ :=
  ⟨Nowhere, Nowhere, (Touches.refl h.ready).memory hsame hcoherent⟩

/-- So does an access that fails. -/
theorem Failed.passed {start length : Nat} {written : Nat → Prop} {fault : Fault}
    (h : Failed start length written s fault t) : Passed s t ∧ t.memory.length = s.memory.length :=
  ⟨⟨_, _, h.touches⟩, h.length_eq⟩

end PagedFile

namespace FileCall

open PagedFile (Usable Passed Grown)

/-- A call that fails may have touched pages, and leaves the length as it was. -/
theorem run_leads {s : Session PagedFile} (h : Usable s) {c : FileCall}
    (hc : ∀ lifetime, c ≠ reopen lifetime) :
    c.run.Leads s (fun _ t => Grown c s t) fun _ t => Passed s t
      ∧ t.memory.length = s.memory.length := by
  cases c with
  | putBytes start bytes =>
    simp only [run, leads_bind, leads_pure]
    exact (PagedFile.writeBytes_leads h.ready start bytes).mono (fun _ _ ht => ht.grown rfl)
      fun _ _ => (·.passed)
  | putInt32 start value =>
    simp only [run, leads_bind, leads_pure]
    exact (PagedFile.writeWord_leads h.ready start (List.ne_nil_of_length_pos (by simp))).mono
      (fun _ _ ht => ht.1.grown (by simp [range?])) fun _ _ => (·.passed)
  | putInt64 start value =>
    simp only [run, leads_bind, leads_pure]
    exact (PagedFile.writeWord_leads h.ready start (List.ne_nil_of_length_pos (by simp))).mono
      (fun _ _ ht => ht.1.grown (by simp [range?])) fun _ _ => (·.passed)
  | getBytes start length =>
    simp only [run, leads_bind, leads_pure]
    exact (PagedFile.readBytes_leads h.ready start length).mono
      (fun _ _ ht => .of_nothing rfl ht.1.passed ht.1.length_eq) fun _ _ => (·.passed)
  | getInt32 start =>
    simp only [run, leads_bind, leads_pure]
    exact (PagedFile.readInt32_leads h.ready start).mono
      (fun _ _ ht => .of_nothing rfl ht.1.passed ht.1.length_eq) fun _ _ => (·.passed)
  | getInt64 start =>
    simp only [run, leads_bind, leads_pure]
    exact (PagedFile.readInt64_leads h.ready start).mono
      (fun _ _ ht => .of_nothing rfl ht.1.passed ht.1.length_eq) fun _ _ => (·.passed)
  | flush =>
    simp only [run, PagedFile.flush, leads_bind, leads_update, leads_pure]
    exact .of_nothing rfl
      (PagedFile.passed_store h (PageStore.same_flush _) h.ready.coherent.flush) rfl
  | evict =>
    simp only [run, PagedFile.onStore, leads_bind, leads_discard, leads_within, leads_pure]
    have hstart : Touches Nowhere Nowhere (s.part PagedFile.store) (s.part PagedFile.store) :=
      .refl h.ready
    exact (PageStore.sweep_ensures hstart).leads.mono
      (fun _ _ ht => .of_nothing rfl ⟨_, _, ht.1⟩ rfl) fun _ _ => False.elim
  | release =>
    simp only [run, PagedFile.onStore, leads_bind, leads_within, leads_update, leads_pure]
    exact .of_nothing rfl
      (PagedFile.passed_store h (PageStore.same_dropAll _) (PageStore.coherent_dropAll _ _)) rfl
  | close =>
    simp only [run, PagedFile.close, PagedFile.flush, leads_bind, leads_update, leads_pure]
    exact .of_nothing rfl
      (PagedFile.passed_store h ((PageStore.same_flush _).trans (PageStore.same_dropAll _))
      (PageStore.coherent_dropAll _ _)) rfl
  | reopen lifetime => exact absurd rfl (hc lifetime)

end FileCall

namespace PagedFile

variable {base : Nat} {calls : List FileCall} {f : Session PagedFile}

/-! ## From one measurement to the next -/

/-- The file is one whose length was so far when it was last set anew, and these calls succeeded
since. Each length that was found fits in a word of 64 bits, and so does the end of the range of
each call. -/
inductive Measured : Nat → List FileCall → Session PagedFile → Prop where
  /-- The file was opened, whatever there was on the disk. -/
  | opened {σ : Type} {s t : Session σ} {directory : Path} {pageSize : Nat} {lifetime : UInt64}
    {file : PagedFile} (hsound : s.host.disk.Sound)
    (hopened : (openAt directory pageSize lifetime).outcome s = (.ok file, t))
    (hlength : file.length < UInt64.size) : Measured file.length [] ⟨t.host, file⟩
  /-- All pages were deleted. -/
  | reset {base : Nat} {calls : List FileCall} {s t : Session PagedFile} (h : Measured base calls s)
    (hreset : reset.outcome s = (.ok (), t)) : Measured t.memory.length [] t
  /-- The length was read off the pages on disk. -/
  | recovered {base : Nat} {calls : List FileCall} {s t : Session PagedFile} {length : Nat}
    (h : Measured base calls s) (hrecovered : recoverLength.outcome s = (.ok length, t))
    (hlength : length < UInt64.size) : Measured t.memory.length [] t
  /-- A call succeeded. -/
  | called {base : Nat} {calls : List FileCall} {s t : Session PagedFile} {c : FileCall}
    {answer : FileAnswer} (h : Measured base calls s) (hc : ∀ lifetime, c ≠ .reopen lifetime)
    (hextent : c.extent < UInt64.size)
    (hrun : c.run.outcome s = (.ok answer, t)) : Measured base (calls ++ [c]) t
  /-- A call failed. -/
  | failed {base : Nat} {calls : List FileCall} {s t : Session PagedFile} {c : FileCall}
    {fault : Fault} (h : Measured base calls s) (hc : ∀ lifetime, c ≠ .reopen lifetime)
    (hextent : c.extent < UInt64.size)
    (hrun : c.run.outcome s = (.error fault, t)) : Measured base calls t

/-- A file that is opened is as long as its pages reach. -/
theorem openAt_leads {σ : Type} {s : Session σ} (hsound : s.host.disk.Sound) (directory : Path)
    (pageSize : Nat) (lifetime : UInt64) :
    (openAt directory pageSize lifetime : Procedure σ PagedFile).Leads s
      (fun file t => Usable ⟨t.host, file⟩ ∧ file.length = pagesEnd ⟨t.host, file⟩) fun _ _ =>
        True := by
  unfold openAt
  rw [leads_bind]
  by_cases hpos : 0 < pageSize
  · refine (PageStore.create_leads directory hpos lifetime).mono
      (fun store t ht => ?_) fun _ _ _ => trivial
    obtain ⟨rfl, hmade, hways⟩ := ht
    have hdirectory := hways directory List.prefix_rfl
    refine (ofStore_ensures hdirectory).leads.mono (fun file u hu => ?_) fun _ _ => False.elim
    obtain ⟨rfl, rfl⟩ := hu
    exact ⟨⟨⟨hmade.sound hsound, .of_cached_empty rfl⟩, hdirectory⟩, rfl⟩
  · simp only [PageStore.create, dif_neg hpos, leads_throw]

/-- A file that is reset has length zero. -/
theorem reset_leads {s : Session PagedFile} (h : Usable s) :
    reset.Leads s (fun _ t => Usable t ∧ t.memory.length = 0) fun _ _ => False := by
  have hlength : reset.Leads s (fun _ t => t.memory.length = 0) fun _ _ => True := by
    simp only [reset, leads_bind, leads_update]
    unfold Leads
    split <;> trivial
  refine (Leads.and (reset_prunes h.isDirectory) hlength).mono ?_ fun _ _ => And.left
  intro _ t ht
  obtain ⟨⟨hsame, hcoherent, _, hpruned⟩, hlength⟩ := ht
  refine ⟨⟨⟨hpruned.sound h.ready.sound, hcoherent⟩, ?_⟩, hlength⟩
  rw [hsame.directory, hpruned.node?_of_prefix List.prefix_rfl]
  exact h.isDirectory

namespace Measured

/-- A file under measure is usable. -/
theorem usable (h : Measured base calls f) : Usable f := by
  induction h with
  | opened hsound hopened _ => exact ((openAt_leads hsound _ _ _).of_ok hopened).1
  | reset _ hreset ih => exact ((reset_leads ih).of_ok hreset).1
  | recovered _ hrecovered _ ih =>
    obtain ⟨-, rfl⟩ := Leads.of_ok (recoverLength_ensures ih.isDirectory) hrecovered
    exact ⟨ih.ready, ih.isDirectory⟩
  | called _ hc _ hrun ih => exact ih.passed ((FileCall.run_leads ih hc).of_ok hrun).passed
  | failed _ hc _ hrun ih => exact ih.passed ((FileCall.run_leads ih hc).of_error hrun).1

/-- The length is the furthest end of what was asked to be written. -/
theorem length_eq (h : Measured base calls f) :
    f.memory.length = (calls.filterMap FileCall.stop?).foldl max base := by
  induction h with
  | opened | reset | recovered => rfl
  | called h hc _ hrun ih =>
    rw [FileCall.foldl_max_concat, ← ih]
    exact ((FileCall.run_leads h.usable hc).of_ok hrun).length_eq
  | failed h hc _ hrun ih => rw [← ih, ((FileCall.run_leads h.usable hc).of_error hrun).2]

/-- The pages reach as far as bytes were stored. -/
theorem furthest_le (h : Measured base calls f) : FileCall.furthest base calls ≤ pagesEnd f := by
  induction h with
  | opened hsound hopened _ => exact Nat.le_of_eq ((openAt_leads hsound _ _ _).of_ok hopened).2
  | reset h hreset =>
    rw [((reset_leads h.usable).of_ok hreset).2]
    exact Nat.zero_le _
  | recovered h hrecovered _ =>
    obtain ⟨rfl, rfl⟩ := Leads.of_ok (recoverLength_ensures h.usable.isDirectory) hrecovered
    exact Nat.le_refl _
  | @called _ calls s t c _ h hc hextent hrun ih =>
    have hgrown := (FileCall.run_leads h.usable hc).of_ok hrun
    have hbefore := Nat.le_trans ih (hgrown.passed.pagesEnd_le h.usable)
    rw [FileCall.furthest, FileCall.foldl_max_concat]
    cases hstop : c.storedStop? with
    | none => exact hbefore
    | some stop =>
      have husable := h.usable.passed hgrown.passed
      exact Nat.max_le.mpr ⟨hbefore, storedStop?_le_pagesEnd husable hgrown.hasPages hextent hstop⟩
  | failed h hc _ hrun ih =>
    exact Nat.le_trans ih (((FileCall.run_leads h.usable hc).of_error hrun).1.pagesEnd_le h.usable)

end Measured

end PagedFile

open PagedFile (Measured pagesEnd recoverLength)

/-- A file is opened over whatever there is on the disk, emptied or measured anew, and calls follow
of which some fail, where all lengths and ends of ranges fit in words of 64 bits. The length is then
the furthest of the length at that time and of the ends of all writes that succeeded. These are as
far as bytes were stored, unless a write of no bytes lies beyond. As far as bytes were stored there
are pages, so measuring the file anew does not bring the length below that, if the end of the pages
fits in a word. -/
theorem lengths_follow_writes {base : Nat} {calls : List FileCall} {f : Session PagedFile}
    (h : Measured base calls f) :
    f.memory.length = (calls.filterMap FileCall.stop?).foldl max base
    ∧ (f.memory.length = FileCall.furthest base calls
      ↔ ∀ start, .putBytes start [] ∈ calls → start ≤ FileCall.furthest base calls)
    ∧ FileCall.furthest base calls ≤ pagesEnd f
    ∧ (pagesEnd f < UInt64.size → recoverLength.Ensures f fun length g => g.memory.length = length
      ∧ FileCall.furthest base calls ≤ length) := by
  have hwithin := h.furthest_le
  refine ⟨h.length_eq, h.length_eq ▸ FileCall.foldl_max_eq_furthest_iff, hwithin, fun _ => ?_⟩
  refine (PagedFile.recoverLength_ensures h.usable.isDirectory).mono fun length g hg => ?_
  obtain ⟨rfl, rfl⟩ := hg
  exact ⟨rfl, hwithin⟩

/-! ## Lengths of a few files -/

/-- A disk with a directory for pages, and a clock that stands still. -/
def stillHost : Host := ⟨(Change.makeDirectory ["pages"]).apply 0 {}, ⟨fun _ => 0, 0⟩, []⟩

/-- The file with pages of eight bytes in this directory. -/
def eightByteFile : Session PagedFile :=
  ⟨stillHost, { store := .opened ["pages"] 8 PageStore.eightBytes_pos 1 }⟩

theorem measured_eightByteFile : Measured 0 [] eightByteFile :=
  have hsound : stillHost.disk.Sound := (Disk.fresh_new []).sound.apply (.makeDirectory ["pages"]) 0
  have hopened : (PagedFile.openAt ["pages"] 8 1).outcome (⟨stillHost, ()⟩ : Session Unit)
      = (.ok eightByteFile.memory, ⟨stillHost, ()⟩) := rfl
  .opened hsound hopened (by decide)

/-- A word over the border of the first two pages: ten bytes are written, and sixteen are
measured. -/
theorem lengths_follow_writes_over_border :
    ∃ f, Measured 0 [.putInt32 6 7] f ∧ f.memory.length = 10
      ∧ FileCall.furthest 0 [.putInt32 6 7] ≤ pagesEnd f
      ∧ (recoverLength.outcome f).1 = .ok 16 := by
  have hrun : (FileCall.putInt32 6 7).run.outcome eightByteFile
      = (.ok .done, ((FileCall.putInt32 6 7).run.outcome eightByteFile).2) :=
      Prod.ext (by decide +kernel) rfl
  have hmeasured := measured_eightByteFile.called (fun _ => by simp) (by decide) hrun
  obtain ⟨hlength, -, hwithin, -⟩ := lengths_follow_writes hmeasured
  exact ⟨_, hmeasured, hlength, hwithin, by decide +kernel⟩

/-- A write of no bytes moves the length, though no byte is stored and no page is made. -/
theorem empty_write_moves_length :
    ∃ f, Measured 0 [.putBytes 100 []] f ∧ FileCall.furthest 0 [.putBytes 100 []] = 0
      ∧ f.memory.length = 100 ∧ pagesEnd f = 0 ∧ (recoverLength.outcome f).1 = .ok 0 := by
  have hrun : (FileCall.putBytes 100 []).run.outcome eightByteFile
      = (.ok .done, ((FileCall.putBytes 100 []).run.outcome eightByteFile).2) :=
      Prod.ext (by decide +kernel) rfl
  exact ⟨_, measured_eightByteFile.called
    (fun _ => by simp) (by decide) hrun, rfl, by decide +kernel, by decide +kernel,
    by decide +kernel⟩

end PagedQueue
