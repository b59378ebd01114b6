import PagedQueue.Proofs.Keeping
import PagedQueue.Proofs.PagedBytes

/-!
# The sizes of page files

A page file is made empty and filled up to the size of a page before its page is handed out, and
nothing else that is done with pages changes the size of a file. So page files that have the size of
a page keep it, and those that are made get it (`PageStore.Full.maintains_withPage`,
`PagedFile.Full.maintains_writeBytes`).
-/

namespace PagedQueue

open Procedure
open Disk (pagePath)
open PageStore (Same)

namespace Disk

variable {d : Disk} {directory : Path} {pageSize : Nat} {now : Int}

/-- All page files of a directory have the size of a page. -/
structure Sized (d : Disk) (directory : Path) (pageSize : Nat) : Prop where
  sizeOf_eq : ∀ {index : Nat} {id : FileId}, d.node? (pagePath directory index) = some (.file id) →
    d.sizeOf (.file id) = pageSize

/-- A write into a page changes no size. -/
theorem sizeOf_copy (d : Disk) (id other : FileId) (start : Nat) (bytes : List UInt8) (now : Int) :
    ((Change.copy id start bytes).apply now d).sizeOf (.file other) = d.sizeOf (.file other) := by
  simp only [sizeOf, Change.file?_copy]
  split
  · cases d.file? other <;> simp
  · rfl

/-- Only the file that is extended changes its size. -/
theorem sizeOf_extend_of_ne (d : Disk) {id other : FileId} (hne : id ≠ other) (size : Nat)
    (now : Int) :
    ((Change.extend id size).apply now d).sizeOf (.file other) = d.sizeOf (.file other) := by
  simp only [sizeOf, Change.file?_extend, if_neg hne]

/-- A file that is no larger than a page is filled up to the size of a page. -/
theorem sizeOf_extend (hsound : d.Sound) {path : Path} {id : FileId}
    (hnode : d.node? path = some (.file id)) (hle : d.sizeOf (.file id) ≤ pageSize) :
    ((Change.extend id pageSize).apply now d).sizeOf (.file id) = pageSize := by
  obtain ⟨f, hf⟩ := exists_file hsound hnode
  simp only [sizeOf, hf, Option.map_some, Option.getD_some] at hle
  simp only [sizeOf, Change.file?_extend, hf, if_true, Option.map_some, Option.getD_some,
    File.size_extend]
  exact Nat.max_eq_right hle

/-- Pages of full size are so after a write. -/
theorem Sized.copy (h : d.Sized directory pageSize) (id : FileId) (start : Nat) (bytes : List UInt8)
    (now : Int) : ((Change.copy id start bytes).apply now d).Sized directory pageSize := by
  refine ⟨fun {index other} hnode => ?_⟩
  rw [sizeOf_copy]
  exact h.sizeOf_eq hnode

/-- A page file that has not the size of a page is filled up, and all others have it. -/
theorem Sized.of_extend (hsound : d.Sound) {index : Nat} {id : FileId}
    (hnode : d.node? (pagePath directory index) = some (.file id))
    (hle : d.sizeOf (.file id) ≤ pageSize)
    (hothers : ∀ {other : Nat} {file : FileId}, other ≠ index →
      d.node? (pagePath directory other) = some (.file file) → d.sizeOf (.file file) = pageSize) :
    ((Change.extend id pageSize).apply now d).Sized directory pageSize := by
  refine ⟨fun {other file} hfile => ?_⟩
  rw [Change.node?_extend] at hfile
  by_cases hindex : other = index
  · subst hindex
    cases hnode.symm.trans hfile
    exact sizeOf_extend hsound hnode hle
  · have hne : id ≠ file := fun heq =>
      hindex (pagePath_inj.mp (hsound.injective (heq ▸ hfile) hnode))
    rw [sizeOf_extend_of_ne d hne]
    exact hothers hindex hfile

/-- A file that was just made has no bytes. -/
theorem sizeOf_create_self (d : Disk) (path : Path) (now : Int) :
    ((Change.create path).apply now d).sizeOf (.file d.files.size) = 0 := by
  simp only [sizeOf, Change.file?_create, if_true]
  rfl

/-- No other file changes its size when one is created. -/
theorem sizeOf_create_of_ne (d : Disk) {id : FileId} (hne : id ≠ d.files.size) (path : Path)
    (now : Int) :
    ((Change.create path).apply now d).sizeOf (.file id) = d.sizeOf (.file id) := by
  simp only [sizeOf, Change.file?_create, if_neg hne]

/-- A page file is made and filled up. -/
theorem Sized.create (h : d.Sized directory pageSize) (hsound : d.Sound) (index : Nat)
    (now now' : Int) :
    ((Change.extend d.files.size pageSize).apply now'
      ((Change.create (pagePath directory index)).apply now d)).Sized directory pageSize := by
  have hnode : ((Change.create (pagePath directory index)).apply now d).node?
      (pagePath directory index)
      = some (.file d.files.size) := (Change.node?_create ..).trans (if_pos rfl)
  refine .of_extend (hsound.apply _ _) hnode ?_ fun {other file} hother hfile => ?_
  · rw [sizeOf_create_self]
    exact Nat.zero_le _
  · rw [Change.node?_create, if_neg fun heq => hother (pagePath_inj.mp heq).symm] at hfile
    rw [sizeOf_create_of_ne d (Nat.ne_of_lt (hsound.lt_size hfile))]
    exact h.sizeOf_eq hfile

end Disk

namespace PageStore

variable {first : PageStore} {α : Type}

/-- The store lies over the directory of another one, and all page files there have the size of a
page. -/
structure Full (first : PageStore) (s : Session PageStore) : Prop where
  same : Same first s.memory
  sound : s.host.disk.Sound
  sized : s.host.disk.Sized first.directory first.pageSize

namespace Full

theorem maintains_update {f : PageStore → PageStore} (hf : ∀ m, Same m (f m)) :
    Maintains (Full first) (update f) :=
  fun s hs => ⟨hs.same.trans (hf s.memory), hs.sound, hs.sized⟩

theorem maintains_look : Maintains (Full first) (look : Procedure PageStore Int) :=
  fun _ hs => ⟨hs.same, hs.sound, hs.sized⟩

theorem maintains_updatePage (id : PageId) (f : Page → Page) :
    Maintains (Full first) (update (·.updatePage id f)) := maintains_update fun _ => ⟨rfl, rfl, rfl⟩

/-- A sweep leaves every page file its size. -/
theorem maintains_sweep : Maintains (Full first) sweep :=
  maintains_look.bind fun _ => maintains_memory.bind fun _ =>
  (maintains_update fun m => same_letGo m _).bind
    fun _ => maintains_pure _

theorem maintains_lookup (index : Nat) : Maintains (Full first) (lookup index) := by
  refine maintains_memory.bind fun s => ?_
  split
  · exact maintains_look.bind fun _ => (maintains_updatePage _ _).bind fun _ => maintains_pure _
  · exact maintains_pure _

/-- The file of a page is made empty if it is missing, and filled up. -/
theorem maintains_map (index : Nat) : Maintains (Full first) (map index) := by
  intro s hs
  have hpath : s.memory.pathOf index = pagePath first.directory index := by
    rw [pathOf, hs.same.directory, pagePath]
  unfold map obtainFile
  simp only [leads_bind, leads_memory, leads_disk, leads_ite, leads_throw, hpath, hs.same.pageSize]
  split
  · exact hs
  split
  next id hnode =>
    simp only [leads_pure, leads_perform, leads_look]
    rw [if_neg (Nat.not_lt_of_le (Nat.le_of_eq (hs.sized.sizeOf_eq hnode).symm))]
    exact ⟨hs.same, hs.sound, hs.sized⟩
  next => exact hs
  next hnone =>
    rw [leads_ite]
    split
    · simp only [leads_bind, leads_perform, leads_pure, leads_look, Host.perform,
        Disk.sizeOf_create_self, if_pos first.pageSize_pos]
      have hmade := hs.sound.apply (.create (pagePath first.directory index)) s.host.now
      exact ⟨hs.same, hmade.apply (.extend _ _) _, hs.sized.create hs.sound index _ _⟩
    · exact hs

theorem maintains_insert (index : Nat) (page : Page) :
    Maintains (Full first) (insert index page) := by
  refine maintains_memory.bind fun s => ?_
  split
  · exact (maintains_updatePage _ _).bind fun _ => maintains_sweep.discard.bind fun _ =>
      maintains_pure _
  · exact .bind (maintains_update fun _ => ⟨rfl, rfl, rfl⟩) fun _ =>
      maintains_sweep.discard.bind fun _ => maintains_pure _

/-- A page that is acquired has a file of full size. -/
theorem maintains_acquire (index : Nat) : Maintains (Full first) (acquire index) := by
  have hcreate : Maintains (Full first) (createPage index) := by
    refine (maintains_lookup index).bind fun found => ?_
    cases found with
    | some id => exact maintains_pure _
    | none => exact (maintains_map index).bind fun _ => maintains_insert index _
  have hticket : Maintains (Full first) (takeTicket index) := by
    refine maintains_memory.bind fun s => ?_
    split
    · exact maintains_pure _
    · exact .bind (maintains_update fun _ => ⟨rfl, rfl, rfl⟩) fun _ => maintains_pure _
  refine (maintains_lookup index).bind fun found => ?_
  cases found with
  | some id => exact maintains_pure _
  | none =>
    exact hticket.discard.bind fun _ => hcreate.tryFinally
      (maintains_update fun _ => ⟨rfl, rfl, rfl⟩)

/-- The use of a page leaves the sizes if its steps do. -/
theorem maintains_withPage (index : Nat) {use : PageId → Procedure PageStore α}
    (huse : ∀ id, Maintains (Full first) (use id)) : Maintains (Full first) (withPage index use) :=
  (maintains_acquire index).bind fun id => (huse id).tryFinally <|
    (maintains_updatePage id _).bind fun _ => maintains_look.bind fun _ => maintains_updatePage id _

theorem maintains_writePage (id : PageId) (start : Nat) (bytes : List UInt8) :
    Maintains (Full first) (writePage id start bytes) := by
  intro s hs
  have hcopied : Full first
      ⟨s.host.perform (.copy (s.memory.page id).file (start - (s.memory.page id).base) bytes),
      s.memory⟩ := ⟨hs.same, hs.sound.apply (.copy _ _ _) _, hs.sized.copy _ _ _ _⟩
  unfold writePage
  simp only [leads_bind, leads_memory, leads_ite, leads_throw, leads_perform, leads_update]
  split
  · exact hs
  · split
    · exact hs
    · split
      · exact maintains_updatePage id (·.written start bytes) _ hcopied
      · exact maintains_updatePage id (·.written start bytes) s hs

end Full

end PageStore

namespace PagedFile

variable {first : PageStore} {α : Type}

/-- The file lies over the directory of a store, and all page files there have the size of a
page. -/
def Full (first : PageStore) (s : Session PagedFile) : Prop := PageStore.Full first (s.part store)

namespace Full

open PageStore.Full (maintains_withPage maintains_writePage)

theorem maintains_onStore {p : Procedure PageStore α} (h : Maintains (PageStore.Full first) p) :
    Maintains (Full first) (onStore p) := .within fun _ hs => ⟨_, h, hs, fun _ ht => ht⟩

/-- Pieces are written into pages of full size. -/
theorem maintains_writePieces (pieces : List Piece) (bytes : List UInt8) :
    Maintains (PageStore.Full first) (writePieces pieces bytes) := by
  induction pieces generalizing bytes with
  | nil => exact maintains_pure _
  | cons piece rest ih =>
    exact (maintains_withPage _ fun id => maintains_writePage id _ _).bind fun _ => ih _

/-- Pieces are read from such. -/
theorem maintains_readPieces (pieces : List Piece) :
    Maintains (PageStore.Full first) (readPieces pieces) := by
  induction pieces with
  | nil => exact maintains_pure _
  | cons piece rest ih =>
    exact (maintains_withPage _ fun id => PageStore.maintains_readPage id _ _).bind fun _ =>
      ih.bind fun _ => maintains_pure _

theorem maintains_markWritten (stop : Nat) : Maintains (Full first) (markWritten stop) :=
  fun _ hs => hs

/-- A write into the file leaves its pages full. -/
theorem maintains_writeBytes (start : Nat) (bytes : List UInt8) :
    Maintains (Full first) (writeBytes start bytes) :=
  maintains_memory.bind fun _ => (maintains_onStore (maintains_writePieces _ _)).bind fun _ =>
    maintains_markWritten _

/-- So does a read. -/
theorem maintains_readBytes (start length : Nat) :
    Maintains (Full first) (readBytes start length) :=
  maintains_memory.bind fun _ => maintains_onStore (maintains_readPieces _)

theorem maintains_writeWord (start : Nat) (bytes : List UInt8) :
    Maintains (Full first) (writeWord start bytes) :=
  maintains_memory.bind fun _ => .ite
    ((maintains_onStore (maintains_withPage _ fun id => maintains_writePage id _ _)).bind
      fun _ => maintains_markWritten _) (maintains_writeBytes _ _)

theorem maintains_readWord (start length : Nat) : Maintains (Full first) (readWord start length) :=
  maintains_memory.bind fun _ => .ite
    (maintains_onStore (maintains_withPage _ fun id => PageStore.maintains_readPage id _ _))
    (maintains_readBytes _ _)

end Full

end PagedFile

end PagedQueue
