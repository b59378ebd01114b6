import PagedQueue.Proofs.PageCatalog

/-!
# A paged file is one space of bytes

A client of a paged file writes and reads bytes and words at any offset, forces bytes out, lets idle
pages go, closes all pages, and opens the file anew. What is read is what the same calls read from a
space of bytes that was blank at first (`FileCall.answers`), whatever the page size is, how long
idle pages live and what the clock shows, and no call fails (`flat_file`).

The invariant (`Flat`) says that the disk is sound, the cache coherent, no directory bears the name
of a page, and the pages hold the bytes of the space; one call keeps it (`FileCall.run_ensures`).
-/

namespace PagedQueue

open Procedure
open Disk (MadeWay)
open PageStore (Ready Touches Nowhere Access)

/-- What a client asks of a paged file. -/
inductive FileCall where
  | putBytes (start : Nat) (bytes : List UInt8)
  | putInt32 (start : Nat) (value : Int32)
  | putInt64 (start : Nat) (value : Int64)
  | getBytes (start length : Nat)
  | getInt32 (start : Nat)
  | getInt64 (start : Nat)
  | flush
  /-- Idle pages are let go. -/
  | evict
  /-- All pages are closed and leave the cache. -/
  | release
  | close
  /-- The file is given up and opened anew, with pages of the same size. -/
  | reopen (lifetime : UInt64)
  deriving DecidableEq

/-- What is answered. -/
inductive FileAnswer where
  | done
  | bytes (value : List UInt8)
  | int32 (value : Int32)
  | int64 (value : Int64)
  deriving DecidableEq

namespace PagedFile

/-- Opens the file over the pages of a directory. -/
def openAt {σ : Type} (directory : Path) (pageSize : Nat) (lifetime : UInt64) :
    Procedure σ PagedFile := do
  ofStore (← PageStore.create directory pageSize lifetime)

end PagedFile

namespace FileCall

/-- What a call does with the file. -/
def run : FileCall → Procedure PagedFile FileAnswer
  | putBytes start bytes => do
    PagedFile.writeBytes start bytes
    return .done
  | putInt32 start value => do
    PagedFile.writeInt32 start value
    return .done
  | putInt64 start value => do
    PagedFile.writeInt64 start value
    return .done
  | getBytes start length => return .bytes (← PagedFile.readBytes start length)
  | getInt32 start => return .int32 (← PagedFile.readInt32 start)
  | getInt64 start => return .int64 (← PagedFile.readInt64 start)
  | flush => do
    PagedFile.flush
    return .done
  | evict => do
    discard (PagedFile.onStore PageStore.sweep)
    return .done
  | release => do
    PagedFile.onStore (update PageStore.dropAll)
    return .done
  | close => do
    PagedFile.close
    return .done
  | reopen lifetime => do
    let store := (← memory).store
    let file ← PagedFile.openAt store.directory store.pageSize lifetime
    update fun _ => file
    return .done

/-- What a call does with a space of bytes. -/
def onSpace (b : ByteSpace) : FileCall → ByteSpace
  | putBytes start bytes => b.write start bytes
  | putInt32 start value => b.write start (encodeInt32 value)
  | putInt64 start value => b.write start (encodeInt64 value)
  | _ => b

/-- What a call answers over a space of bytes. -/
def answer (b : ByteSpace) : FileCall → FileAnswer
  | getBytes start length => .bytes (b.read start length)
  | getInt32 start => .int32 (decodeInt32 (b.read start 4))
  | getInt64 start => .int64 (decodeInt64 (b.read start 8))
  | _ => .done

/-- What calls that follow one another answer over a space of bytes. -/
def answers : ByteSpace → List FileCall → List FileAnswer
  | _, [] => []
  | b, call :: rest => call.answer b :: answers (call.onSpace b) rest

end FileCall

namespace PagedFile

/-- The pages of a file hold the bytes of a space, and every page can be opened. -/
structure Flat (b : ByteSpace) (s : Session PagedFile) : Prop where
  ready : IsReady s
  openable : s.host.disk.Openable s.memory.store.directory
  directories : ∀ p, p <+: s.memory.store.directory → s.host.disk.node? p = some .directory
  bytesOf_eq : bytesOf s = b

variable {b : ByteSpace} {s t u : Session PagedFile} {start length : Nat}

namespace Flat

/-- An access keeps everything but the bytes that it writes. -/
theorem touches (h : Flat b s) {touched written : Nat → Prop} {b' : ByteSpace}
    (ht : Touches touched written (s.part store) (t.part store)) (hb : bytesOf t = b') :
    Flat b' t where
  ready := ht.ready
  openable := by
    have hopenable := ht.last.openable h.openable
    exact ht.same.directory.symm ▸ hopenable
  directories p hp := ht.last.kept (h.directories p (ht.same.directory ▸ hp))
  bytesOf_eq := hb

theorem lookedAt (h : Flat b s) (ht : LookedAt start length s t) : Flat b t :=
  h.touches ht.touches (ht.bytesOf_eq.trans h.bytesOf_eq)

theorem wrote (h : Flat b s) {bytes : List UInt8} (ht : Wrote start bytes s t) :
    Flat (b.write start bytes) t :=
  h.touches ht.touches (ht.bytesOf_eq.trans (congrArg (·.write start bytes) h.bytesOf_eq))

/-- The cache may change as long as it is coherent. -/
theorem store (h : Flat b s) {store : PageStore} (hsame : PageStore.Same s.memory.store store)
    (hcoherent : store.Coherent s.host.disk) (host : Host) (hhost : host.disk = s.host.disk) :
    Flat b ⟨host, { s.memory with store }⟩ where
  ready := ⟨hhost ▸ h.ready.sound, hhost ▸ hcoherent⟩
  openable := by
    have hopenable := h.openable
    rw [← hsame.directory] at hopenable
    exact hhost ▸ hopenable
  directories p hp := hhost ▸ h.directories p (hsame.directory ▸ hp)
  bytesOf_eq := by
    rw [← h.bytesOf_eq]
    simp only [bytesOf, PageStore.contents, Session.part, hhost, hsame.directory, hsame.pageSize]

end Flat

/-- A file that is opened over directories that are there shows the bytes of its pages. -/
theorem openAt_of_directories {σ : Type} {s : Session σ} {directory : Path} {pageSize : Nat}
    (pageSize_pos : 0 < pageSize) (lifetime : UInt64) (hsound : s.host.disk.Sound)
    (hopenable : s.host.disk.Openable directory)
    (hdirectories : ∀ p, p <+: directory → s.host.disk.node? p = some .directory) :
    (openAt directory pageSize lifetime : Procedure σ PagedFile).Ensures s fun file u =>
      u = s ∧ Flat (s.host.disk.space directory pageSize) ⟨s.host, file⟩ := by
  unfold openAt Ensures
  rw [leads_bind]
  refine (PageStore.create_of_directories pageSize_pos lifetime hdirectories).leads.mono
    (fun store t ht => ?_) fun _ _ => False.elim
  obtain ⟨rfl, rfl⟩ := ht
  refine (ofStore_ensures hopenable.isDirectory).mono fun file u hu => ?_
  obtain ⟨rfl, rfl⟩ := hu
  exact ⟨rfl, ⟨hsound, .of_cached_empty rfl⟩, hopenable, hdirectories, rfl⟩

/-- A file that is opened where nothing is has no byte but zeros. -/
theorem openAt_of_fresh {σ : Type} {s : Session σ} {directory : Path} {pageSize : Nat}
    (pageSize_pos : 0 < pageSize) (lifetime : UInt64) (hfresh : s.host.disk.Fresh directory) :
    (openAt directory pageSize lifetime : Procedure σ PagedFile).Ensures s fun file u =>
      u.memory = s.memory ∧ Flat .blank ⟨u.host, file⟩ := by
  unfold openAt Ensures
  rw [leads_bind]
  refine (PageStore.create_ensures pageSize_pos lifetime hfresh.passable).leads.mono
    (fun store t ht => ?_) fun _ _ => False.elim
  obtain ⟨rfl, hmemory, htrail, hdirectories⟩ := ht
  have hmade := htrail.last
  have hnone (index : Nat) : t.host.disk.node? (Disk.pagePath directory index) = none := by
    have hne : Disk.pagePath directory index ≠ directory := by simp [Disk.pagePath]
    have hbelow : directory <+: Disk.pagePath directory index := List.prefix_append ..
    rw [hmade.below hbelow hne]
    exact hfresh.below _ hbelow hne
  have hdirectory := hdirectories directory List.prefix_rfl
  refine (ofStore_ensures hdirectory).mono fun file u hu => ?_
  obtain ⟨rfl, rfl⟩ := hu
  refine ⟨hmemory, ⟨hmade.sound hfresh.sound, .of_cached_empty rfl⟩,
    ⟨hdirectory, fun index hnode => ?_, fun index => ?_⟩, hdirectories, ?_⟩
  · exact absurd ((hnone index).symm.trans hnode) (by simp)
  · rw [hmade.refused]
    exact hfresh.not_refused _ (List.prefix_append ..)
  · funext o
    refine Disk.space_of_no_page ?_
    intro hand
    obtain ⟨id, hnode⟩ := hand
    exact absurd ((hnone _).symm.trans hnode) (by simp)

end PagedFile

namespace FileCall

open PagedFile (Flat)

variable {b : ByteSpace} {s : Session PagedFile}

/-- A call answers as over the space of bytes, and leaves the pages as it leaves the space. -/
theorem run_ensures (h : Flat b s) (call : FileCall) :
    call.run.Ensures s fun answer u => answer = call.answer b ∧ Flat (call.onSpace b) u := by
  have hbytes := h.bytesOf_eq
  have hcoherent := h.ready.coherent
  unfold Ensures
  cases call with
  | putBytes start bytes =>
    simp only [run, leads_bind, leads_pure]
    exact (PagedFile.writeBytes_leads h.ready start bytes).mono
      (fun _ u hu => ⟨rfl, h.wrote hu⟩) fun _ _ => PagedFile.not_failed h.openable
  | putInt32 start value =>
    have hne : encodeInt32 value ≠ [] := List.ne_nil_of_length_pos (by simp)
    simp only [run, leads_bind, leads_pure]
    exact (PagedFile.writeWord_leads h.ready start hne).mono
      (fun _ u hu => ⟨rfl, h.wrote hu.1⟩) fun _ _ => PagedFile.not_failed h.openable
  | putInt64 start value =>
    have hne : encodeInt64 value ≠ [] := List.ne_nil_of_length_pos (by simp)
    simp only [run, leads_bind, leads_pure]
    exact (PagedFile.writeWord_leads h.ready start hne).mono
      (fun _ u hu => ⟨rfl, h.wrote hu.1⟩) fun _ _ => PagedFile.not_failed h.openable
  | getBytes start length =>
    simp only [run, leads_bind, leads_pure]
    refine (PagedFile.readBytes_leads h.ready start length).mono ?_
      fun _ _ => PagedFile.not_failed h.openable
    intro _ u hu
    obtain ⟨hu, rfl⟩ := hu
    exact ⟨congrArg (answer · (getBytes start length)) hbytes, h.lookedAt hu⟩
  | getInt32 start =>
    simp only [run, leads_bind, leads_pure]
    refine (PagedFile.readInt32_leads h.ready start).mono ?_
      fun _ _ => PagedFile.not_failed h.openable
    intro _ u hu
    obtain ⟨hu, rfl⟩ := hu
    exact ⟨congrArg (answer · (getInt32 start)) hbytes, h.lookedAt hu⟩
  | getInt64 start =>
    simp only [run, leads_bind, leads_pure]
    refine (PagedFile.readInt64_leads h.ready start).mono ?_
      fun _ _ => PagedFile.not_failed h.openable
    intro _ u hu
    obtain ⟨hu, rfl⟩ := hu
    exact ⟨congrArg (answer · (getInt64 start)) hbytes, h.lookedAt hu⟩
  | flush =>
    simp only [run, PagedFile.flush, leads_bind, leads_update, leads_pure]
    exact ⟨rfl, h.store (PageStore.same_flush _) hcoherent.flush _ rfl⟩
  | evict =>
    have hstart : Touches Nowhere Nowhere (s.part PagedFile.store) (s.part PagedFile.store) :=
      .refl h.ready
    simp only [run, PagedFile.onStore, leads_bind, leads_discard, leads_within, leads_pure]
    refine (PageStore.sweep_ensures hstart).leads.mono ?_
      fun _ _ => False.elim
    intro _ u hu
    obtain ⟨hu, hdisk, _⟩ := hu
    exact ⟨rfl, h.store hu.same (hdisk ▸ hu.coherent) _ hdisk⟩
  | release =>
    simp only [run, PagedFile.onStore, leads_bind, leads_within, leads_update, leads_pure]
    exact ⟨rfl, h.store (PageStore.same_dropAll _) (PageStore.coherent_dropAll _ _) _ rfl⟩
  | close =>
    simp only [run, PagedFile.close, PagedFile.flush, leads_bind, leads_update, leads_pure]
    exact ⟨rfl, h.store ((PageStore.same_flush _).trans (PageStore.same_dropAll _))
      (PageStore.coherent_dropAll _ _) _ rfl⟩
  | reopen lifetime =>
    simp only [run, leads_bind, leads_memory, leads_update, leads_pure]
    refine (PagedFile.openAt_of_directories (s := s) s.memory.store.pageSize_pos lifetime
      h.ready.sound h.openable h.directories).leads.mono ?_ fun _ _ => False.elim
    intro file u hu
    obtain ⟨rfl, hfile⟩ := hu
    exact ⟨rfl, hbytes ▸ hfile⟩

/-- Calls that follow one another answer as over the space of bytes. -/
theorem mapM_run_ensures (h : Flat b s) (calls : List FileCall) :
    (calls.mapM run).Ensures s fun found _ => found = answers b calls := by
  induction calls generalizing b s with
  | nil => exact rfl
  | cons call rest ih =>
    unfold Ensures
    simp only [List.mapM_cons, leads_bind, leads_pure]
    refine (run_ensures h call).leads.mono ?_ fun _ _ => False.elim
    intro answer t ht
    obtain ⟨hanswer, ht⟩ := ht
    refine (ih ht).mono fun found u hfound => ?_
    rw [hanswer, hfound, answers]

end FileCall

/-- A file is opened where nothing is, whatever the page size and the lifetime of pages are, and
calls follow one another in any order: each answers as over one space of bytes, blank at first, and
none fails. -/
theorem flat_file (host : Host) (directory : Path) (pageSize : Nat) (lifetime : UInt64)
    (calls : List FileCall) (hpageSize : 0 < pageSize) (hfresh : host.disk.Fresh directory) :
    ∃ file opened, (PagedFile.openAt directory pageSize lifetime).outcome
      (⟨host, ()⟩ : Session Unit)
        = (.ok file, opened)
      ∧ ∃ left, (calls.mapM FileCall.run).outcome ⟨opened.host, file⟩
        = (.ok (FileCall.answers .blank calls), left) := by
  obtain ⟨file, opened, hopened, -, hshape⟩ :=
    (PagedFile.openAt_of_fresh (s := ⟨host, ()⟩) hpageSize lifetime hfresh).outcome
  obtain ⟨_, left, hleft, rfl⟩ := (FileCall.mapM_run_ensures hshape calls).outcome
  exact ⟨file, opened, hopened, left, hleft⟩

/-- A word that lies over the border of two pages of four bytes, which are let go in between. -/
theorem flat_file_over_border :
    ∃ file opened, (PagedFile.openAt ["pages"] 4 0).outcome
        (⟨⟨{}, ⟨fun _ => 0, 0⟩, []⟩, ()⟩ : Session Unit) = (.ok file, opened)
      ∧ ∃ left, ([.putInt32 2 7, .putBytes 3 [1, 2], .evict, .getInt32 2, .reopen 1,
        .getBytes 2 5].mapM FileCall.run).outcome ⟨opened.host, file⟩
        = (.ok [.done, .done, .done, .int32 0x00010207, .done, .bytes [0, 1, 2, 7, 0]], left) := by
  have hanswers : FileCall.answers .blank
      [.putInt32 2 7, .putBytes 3 [1, 2], .evict, .getInt32 2, .reopen 1, .getBytes 2 5]
      = [.done, .done, .done, .int32 0x00010207, .done, .bytes [0, 1, 2, 7, 0]] := by
    decide +kernel
  rw [← hanswers]
  exact flat_file ⟨{}, ⟨fun _ => 0, 0⟩, []⟩ ["pages"] 4 0 _ (by decide) (Disk.fresh_new _)

end PagedQueue
