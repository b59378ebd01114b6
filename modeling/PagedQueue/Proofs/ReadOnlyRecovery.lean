import Mathlib.Data.List.Infix
import PagedQueue.Proofs.FoundDirectories
import PagedQueue.Proofs.Keeping
import PagedQueue.Proofs.QueueOpening

/-!
# Recovery only reads

Records are read through the same pages as they are written through, and a page that is asked for is
made if its file is missing and filled up if its file is too short. So a queue that is loaded from
whatever was found on disk changes the disk, but it only fills it up (`Disk.Filled`): everything
that was there is there still, and what is new is zeros in the place of missing pages.

Which pages are asked for is bounded by the length of the file, and that is read off the names found
in its directory: a count that covers more than the pages hold is refused before any record is read.
The pages made on the way are not behind the last one found, so the length stays within the same
bound when it is read again (`PagedFile.Within`). Nothing is assumed of the records, and whatever
stops the recovery stops it with the disk filled up that far.

The one thing made besides pages is the directory of the payloads, if it is missing.
-/

namespace PagedQueue

open Procedure
open Disk (MadeWay pagePath)
open PageStore (Same)

namespace File

theorem size_zeros (size : Nat) : (zeros size).size = size := Array.size_replicate

/-- An empty file that is extended holds zeros. -/
theorem extendBytes_empty (size : Nat) : extendBytes .empty size = zeros size := by
  have hsize : ByteArray.empty.size = 0 := rfl
  unfold extendBytes
  split
  · rw [hsize, Nat.sub_zero, ByteArray.empty_append]
  next hle =>
    obtain rfl : size = 0 := by omega
    rfl

/-- A file of the size that is asked for is left alone. -/
theorem extendBytes_of_le {bytes : ByteArray} {size : Nat} (h : size ≤ bytes.size) :
    extendBytes bytes size = bytes := if_neg (Nat.not_lt.mpr h)

/-- Bytes are extended at least to the size asked for. -/
theorem le_size_extendBytes (bytes : ByteArray) (size : Nat) :
    size ≤ (extendBytes bytes size).size := by
  have hsize := size_extend ⟨bytes, 0⟩ size 0
  have hle := Nat.le_max_right (File.size ⟨bytes, 0⟩) size
  rw [← hsize] at hle
  exact hle

end File

/-! ## Disks that are filled up -/

namespace Disk

/-- What was on a disk is there still: every name, and the bytes of every file, with zeros added up
to a size at most. New names are those of directories that may be made, and of files of zeros that
may be created. -/
structure Filled (size : Nat) (made created : Path → Prop) (d d' : Disk) : Prop where
  kept : ∀ {path node}, d.node? path = some node → d'.node? path = some node
  fresh : ∀ {path node}, d.node? path = none → d'.node? path = some node →
    node = .directory ∧ made path
      ∨ created path ∧ ∃ id f, node = .file id ∧ d.file? id = none ∧ d'.file? id = some f
        ∧ f.bytes = File.zeros size
  files : ∀ {id f}, d.file? id = some f → ∃ f', d'.file? id = some f'
    ∧ (f'.bytes = f.bytes ∨ f'.bytes = File.extendBytes f.bytes size)

variable {size : Nat} {made created : Path → Prop} {d d' d'' : Disk} {path : Path} {now : Int}

namespace Filled

theorem refl (d : Disk) : d.Filled size made created d :=
  ⟨id, fun hnone hsome => absurd (hnone.symm.trans hsome) (by simp), fun hf => ⟨_, hf, .inl rfl⟩⟩

/-- A file that is not there afterwards was not there before. -/
theorem none_of_none (h : d.Filled size made created d') {id : FileId}
    (hnone : d'.file? id = none) :
    d.file? id = none := by
  cases hf : d.file? id with
  | none => rfl
  | some f =>
    obtain ⟨f', hf', -⟩ := h.files hf
    rw [hnone] at hf'
    cases hf'

/-- Files filled up twice are files filled up. -/
theorem trans (h : d.Filled size made created d') (h' : d'.Filled size made created d'') :
    d.Filled size made created d'' where
  kept hnode := h'.kept (h.kept hnode)
  fresh {path node} hnone hnode := by
    cases hbetween : d'.node? path with
    | none =>
      rcases h'.fresh hbetween hnode with hmade | ⟨hcreated, id, f, heq, hfile, hrest⟩
      · exact .inl hmade
      · exact .inr ⟨hcreated, id, f, heq, h.none_of_none hfile, hrest⟩
    | some between =>
      obtain rfl : between = node := Option.some.inj ((h'.kept hbetween).symm.trans hnode)
      rcases h.fresh hnone hbetween with hmade | ⟨hcreated, id, f, heq, hfile, hf, hzeros⟩
      · exact .inl hmade
      · -- a file of zeros is as large as it may get
        obtain ⟨f', hf', hbytes⟩ := h'.files hf
        refine .inr ⟨hcreated, id, f', heq, hfile, hf', ?_⟩
        rw [hzeros, File.extendBytes_of_le (Nat.le_of_eq (File.size_zeros size).symm),
          or_self] at hbytes
        exact hbytes
  files {id f} hf := by
    obtain ⟨f', hf', hbytes⟩ := h.files hf
    obtain ⟨f'', hf'', hbytes'⟩ := h'.files hf'
    refine ⟨f'', hf'', ?_⟩
    rcases hbytes with heq | heq
    · rwa [heq] at hbytes'
    · rw [heq, File.extendBytes_of_le (File.le_size_extendBytes ..), or_self] at hbytes'
      exact .inr hbytes'

/-- Every page file that was there is there still. -/
theorem mem_pageNumbers {directory : Path} {index : Nat} (h : d.Filled size made created d')
    (hdirectory : d.node? directory = some .directory) (hindex : index ∈ d.pageNumbers directory) :
    index ∈ d'.pageNumbers directory := by
  obtain ⟨name, node, hnode, hname⟩ := (Disk.mem_pageNumbers hdirectory index).mp hindex
  exact (Disk.mem_pageNumbers (h.kept hdirectory) index).mpr ⟨name, node, h.kept hnode, hname⟩

/-- The numbers read off the names in a directory are no new ones behind the last one. -/
theorem le_of_mem_pageNumbers {directory : Path} {last index : Nat}
    (h : d.Filled size made created d') (hdirectory : d.node? directory = some .directory)
    (hmade : ∀ name, ¬ made (directory ++ [name]))
    (hcreated : ∀ {path}, created path → ∃ i ≤ last, path = pagePath directory i)
    (hlast : ∀ i ∈ d.pageNumbers directory, i ≤ last) (hindex : index ∈ d'.pageNumbers directory) :
    index ≤ last := by
  obtain ⟨name, node, hnode, hname⟩ := (Disk.mem_pageNumbers (h.kept hdirectory) index).mp hindex
  cases hold : d.node? (directory ++ [name]) with
  | some node' =>
    exact hlast index ((Disk.mem_pageNumbers hdirectory index).mpr ⟨name, node', hold, hname⟩)
  | none =>
    rcases h.fresh hold hnode with ⟨-, hpath⟩ | ⟨hpath, -⟩
    · exact absurd hpath (hmade name)
    · -- the name of a page that was made is read as its number
      obtain ⟨i, hle, heq⟩ := hcreated hpath
      rw [pagePath, List.append_cancel_left_eq, List.cons.injEq] at heq
      obtain ⟨rfl, -⟩ := PageName.index?_ofIndex_eq_some_iff.mp (heq.1 ▸ hname)
      exact hle

/-- So the pages reach no further than before. -/
theorem reach_le {directory : Path} {last pageSize : Nat} (h : d.Filled size made created d')
    (hdirectory : d.node? directory = some .directory)
    (hmade : ∀ name, ¬ made (directory ++ [name]))
    (hcreated : ∀ {path}, created path → ∃ i ≤ last, path = pagePath directory i)
    (hlast : ∀ i ∈ d.pageNumbers directory, i ≤ last) :
    d'.reach directory pageSize ≤ (last + 1) * pageSize := by
  unfold reach
  split
  next found hfound =>
    have hle := h.le_of_mem_pageNumbers hdirectory hmade hcreated hlast (List.max?_mem hfound)
    exact Nat.mul_le_mul_right _ (Nat.succ_le_succ hle)
  next => exact Nat.zero_le _

end Filled

/-- Directories that are made on the way to a path were missing, and nothing else happens. -/
theorem MadeWay.filled (h : MadeWay path d d') (hmade : ∀ p, p <+: path → d.node? p = none →
    made p) :
    d.Filled size made created d' where
  kept := h.kept
  fresh {p node} hnone hnode := by
    rcases h.node? p with heq | ⟨hpre, -, hdirectory⟩
    · rw [heq, hnone] at hnode
      cases hnode
    · exact .inl ⟨Option.some.inj (hnode.symm.trans hdirectory), hmade p hpre hnone⟩
  files {id f} hf := ⟨f, (congrArg (·[id]?) h.files).trans hf, .inl rfl⟩

/-- To extend a file only fills it up. -/
theorem filled_extend (d : Disk) (file : FileId) :
    d.Filled size made created ((Change.extend file size).apply now d) where
  kept := id
  fresh hnone hsome := absurd (hnone.symm.trans hsome) (by simp)
  files {id f} hf := by
    rw [Change.file?_extend, hf]
    split
    · exact ⟨_, rfl, .inr rfl⟩
    · exact ⟨_, rfl, .inl rfl⟩

/-- A file that is made and filled up at once. -/
theorem filled_create {now' : Int} (hnone : d.node? path = none) (hpath : created path) :
    d.Filled size made created
      ((Change.extend d.files.size size).apply now' ((Change.create path).apply now d)) where
  kept {p node} hnode := by
    rw [Change.node?_extend, Change.node?_create, if_neg]
    · exact hnode
    · intro heq
      subst heq
      rw [hnone] at hnode
      cases hnode
  fresh {p node} hmissing hnode := by
    rw [Change.node?_extend, Change.node?_create] at hnode
    split at hnode
    next heq =>
      subst heq
      refine .inr ⟨hpath, d.files.size, (File.mk .empty now).extend size now', ?_, ?_, ?_, ?_⟩
      · exact (Option.some.inj hnode).symm
      · exact file?_eq_none (Nat.le_refl _)
      · rw [Change.file?_extend, if_pos rfl, Change.file?_create, if_pos rfl, Option.map_some]
      · exact File.extendBytes_empty size
    next => exact absurd (hmissing.symm.trans hnode) (by simp)
  files {id f} hf := by
    have hne : id ≠ d.files.size := by
      intro heq
      rw [file?_eq_none (Nat.le_of_eq heq.symm)] at hf
      cases hf
    rw [Change.file?_extend, if_neg hne.symm, Change.file?_create, if_neg hne]
    exact ⟨f, hf, .inl rfl⟩

end Disk

/-! ## Pages that are asked for -/

/-- The files of the pages of a directory up to one. -/
def Disk.PagesUpTo (directory : Path) (last : Nat) (path : Path) : Prop :=
  ∃ index ≤ last, path = pagePath directory index

namespace PageStore

variable {first : PageStore} {d : Disk} {made : Path → Prop} {last index : Nat} {α : Type}

/-- So far the disk was filled up with pages of a store up to one. -/
structure FilledUp (d : Disk) (made : Path → Prop) (last : Nat) (first : PageStore)
    (t : Session PageStore) : Prop where
  same : Same first t.memory
  filled : d.Filled first.pageSize made (Disk.PagesUpTo first.directory last) t.host.disk

theorem maintains_update_same {f : PageStore → PageStore} (h : ∀ m, Same m (f m)) :
    Maintains (FilledUp d made last first) (update f) :=
  fun _ ht => ⟨ht.same.trans (h _), ht.filled⟩

/-- A change of a page in memory leaves the disk alone. -/
theorem maintains_updatePage (id : PageId) (f : Page → Page) :
    Maintains (FilledUp d made last first) (update (·.updatePage id f)) :=
  maintains_update_same fun _ => ⟨rfl, rfl, rfl⟩

theorem maintains_look : Maintains (FilledUp d made last first) look :=
  fun _ ht => ⟨ht.same, ht.filled⟩

theorem maintains_lookup (index : Nat) : Maintains (FilledUp d made last first) (lookup index) := by
  refine maintains_memory.bind fun s => ?_
  split
  · exact maintains_look.bind fun _ => (maintains_updatePage _ _).bind fun _ => maintains_pure _
  · exact maintains_pure _

theorem maintains_sweep : Maintains (FilledUp d made last first) sweep :=
  maintains_look.bind fun _ => maintains_memory.bind fun _ =>
    (maintains_update_same fun m => same_letGo m _).bind fun _ => maintains_pure _

/-- A page up to the last one is made or filled up, or something is in the way of it. -/
theorem maintains_map (h : index ≤ last) : Maintains (FilledUp d made last first) (map index) := by
  intro t ht
  have hpath : t.memory.pathOf index = pagePath first.directory index := by
    rw [pathOf, ht.same.directory, pagePath]
  unfold map obtainFile
  simp only [leads_bind, leads_memory, leads_disk, leads_ite, leads_throw, hpath, ht.same.pageSize]
  split
  · exact ht
  split
  next file hnode =>
    simp only [leads_pure]
    split
    · exact ⟨ht.same, ht.filled.trans (Disk.filled_extend t.host.disk file)⟩
    · exact ⟨ht.same, ht.filled⟩
  next => exact ht
  next hnone =>
    rw [leads_ite]
    split
    · -- what was just made is empty, so it is filled up
      have hshort : ((Change.create (pagePath first.directory index)).apply t.host.now
          t.host.disk).sizeOf (.file t.host.disk.files.size) < first.pageSize := by
        simp only [Disk.sizeOf, Change.file?_create, if_true, Option.map_some, Option.getD_some]
        exact first.pageSize_pos
      simp only [leads_bind, leads_perform, leads_pure, leads_look]
      refine (if_pos hshort).mpr
        ⟨ht.same, ht.filled.trans (Disk.filled_create hnone ⟨index, h, rfl⟩)⟩
    · exact ht

theorem maintains_insert (index : Nat) (page : Page) :
    Maintains (FilledUp d made last first) (insert index page) := by
  refine maintains_memory.bind fun s => ?_
  split
  · exact (maintains_updatePage _ _).bind fun _ => maintains_sweep.discard.bind fun _ =>
      maintains_pure _
  · refine .bind (maintains_update_same fun _ => ?_) fun _ =>
      maintains_sweep.discard.bind fun _ => maintains_pure _
    exact ⟨rfl, rfl, rfl⟩

/-- A page within the range is created, or its file is filled up. -/
theorem maintains_createPage (h : index ≤ last) :
    Maintains (FilledUp d made last first) (createPage index) := by
  refine (maintains_lookup index).bind fun found => ?_
  split
  · exact maintains_pure _
  · exact (maintains_map h).bind fun page => maintains_insert index page

theorem maintains_takeTicket (index : Nat) :
    Maintains (FilledUp d made last first) (takeTicket index) := by
  refine maintains_memory.bind fun s => ?_
  split
  · exact maintains_pure _
  · refine .bind (maintains_update_same fun _ => ?_) fun _ => maintains_pure _
    exact ⟨rfl, rfl, rfl⟩

/-- A page within the range is acquired, and no other file is made. -/
theorem maintains_acquire (h : index ≤ last) :
    Maintains (FilledUp d made last first) (acquire index) := by
  refine (maintains_lookup index).bind fun found => ?_
  split
  · exact maintains_pure _
  · exact (maintains_takeTicket index).discard.bind fun _ =>
      (maintains_createPage h).tryFinally (maintains_update_same fun _ => ⟨rfl, rfl, rfl⟩)

/-- A range of a page up to the last one is read, or not. -/
theorem maintains_readAt (h : index ≤ last) (start length : Nat) :
    Maintains (FilledUp d made last first) (withPage index fun id => readPage id start length) :=
  (maintains_acquire h).bind fun id => (maintains_readPage id start length).tryFinally <|
    (maintains_updatePage id _).bind fun _ => maintains_look.bind fun _ => maintains_updatePage id _

end PageStore

/-! ## Bytes that are read -/

namespace PagedFile

open PageStore (FilledUp)

variable {first : PageStore} {d : Disk} {made : Path → Prop} {last : Nat}

/-- So far the disk was filled up, and the file is no longer than the pages up to the last one. -/
structure Within (d : Disk) (made : Path → Prop) (last : Nat) (first : PageStore)
    (t : Session PagedFile) : Prop where
  filledUp : FilledUp d made last first (t.part store)
  length_le : t.memory.length ≤ (last + 1) * first.pageSize

/-- An offset in the bytes of the pages up to the last one lies in one of them. -/
theorem div_le_of_lt {pageSize o : Nat} (hpos : 0 < pageSize) (h : o < (last + 1) * pageSize) :
    o / pageSize ≤ last := Nat.le_of_lt_succ ((Nat.div_lt_iff_lt_mul hpos).mpr h)

theorem maintains_onStore {α : Type} {p : Procedure PageStore α}
    (h : Maintains (FilledUp d made last first) p) : Maintains (Within d made last first)
      (onStore p) :=
  .within fun _ hs => ⟨_, h, hs.filledUp, fun _ ht => ⟨ht, hs.length_le⟩⟩

/-- Pieces within the range make no file beyond it. -/
theorem maintains_readPieces (pageSize_pos : 0 < first.pageSize) (start length : Nat)
    (h : start + length ≤ (last + 1) * first.pageSize) :
    Maintains (FilledUp d made last first)
      (readPieces (pieces first.pageSize pageSize_pos start length)) := by
  -- every piece lies in a page up to the last one
  have hpieces (piece : Piece) (hpiece : piece ∈ pieces first.pageSize pageSize_pos start length) :
      piece.index ≤ last := by
    obtain ⟨hpos, hstart, hstop⟩ :=
      piece_within first.pageSize pageSize_pos start length piece hpiece
    have hlast : piece.start + (piece.length - 1) ∈ List.range' start length := by
      rw [← flatMap_pieces first.pageSize pageSize_pos, List.mem_flatMap]
      exact ⟨piece, hpiece, List.mem_range'_1.mpr (by omega)⟩
    have hlt := (List.mem_range'_1.mp hlast).2
    have hmul : piece.index * first.pageSize < (last + 1) * first.pageSize := by omega
    exact Nat.le_of_lt_succ (Nat.lt_of_mul_lt_mul_right hmul)
  generalize pieces first.pageSize pageSize_pos start length = list at hpieces
  induction list with
  | nil => exact maintains_pure _
  | cons piece rest ih =>
    obtain ⟨hpiece, hrest⟩ := List.forall_mem_cons.mp hpieces
    exact (PageStore.maintains_readAt hpiece _ _).bind fun _ =>
      (ih hrest).bind fun _ => maintains_pure _

/-- Bytes of the pages up to the last one are read, or not. -/
theorem maintains_readBytes {start length : Nat}
    (h : start + length ≤ (last + 1) * first.pageSize) :
    Maintains (Within d made last first) (readBytes start length) := by
  intro t ht
  have hsize : t.memory.store.pageSize = first.pageSize := ht.filledUp.same.pageSize
  unfold readBytes
  rw [leads_bind, leads_memory]
  refine maintains_onStore ?_ t ht
  have hread : Maintains (FilledUp d made last first)
      (readPieces (pieces first.pageSize first.pageSize_pos start length)) :=
    maintains_readPieces first.pageSize_pos start length h
  simpa only [hsize] using hread

/-- Neither does a word. -/
theorem maintains_readWord {start length : Nat} (hlength : 0 < length)
    (h : start + length ≤ (last + 1) * first.pageSize) :
    Maintains (Within d made last first) (readWord start length) := by
  intro t ht
  have hsize : t.memory.store.pageSize = first.pageSize := ht.filledUp.same.pageSize
  have hindex : start / first.pageSize ≤ last := div_le_of_lt first.pageSize_pos (by omega)
  unfold readWord
  simp only [leads_bind, leads_memory, leads_ite, hsize]
  split
  · exact maintains_onStore (PageStore.maintains_readAt hindex start length) t ht
  · exact maintains_readBytes h t ht

/-- The length that the names tell is no more than before. -/
theorem maintains_recoverLength (hdirectory : d.node? first.directory = some .directory)
    (hmade : ∀ name, ¬ made (first.directory ++ [name]))
    (hlast : ∀ i ∈ d.pageNumbers first.directory, i ≤ last) :
    Maintains (Within d made last first) recoverLength := by
  intro t ht
  have hsame := ht.filledUp.same
  have hfilled := ht.filledUp.filled
  refine (recoverLength_ensures (s := t) ?_).leads.mono
    (fun length u hu => ?_) fun _ _ => False.elim
  · show t.host.disk.node? (t.part store).memory.directory = some .directory
    rw [hsame.directory]
    exact hfilled.kept hdirectory
  · obtain ⟨hlength, rfl⟩ := hu
    refine ⟨ht.filledUp, ?_⟩
    have hdir : t.memory.store.directory = first.directory := hsame.directory
    have hsize : t.memory.store.pageSize = first.pageSize := hsame.pageSize
    show length ≤ _
    rw [hlength, hdir, hsize]
    exact hfilled.reach_le hdirectory hmade id hlast

end PagedFile

/-! ## Records that are recovered -/

namespace MessageIndex

open PagedFile (Within)

variable {first : PageStore} {d : Disk} {made : Path → Prop} {last : Nat}

/-- So far the file of an index was only read. -/
abbrev OnlyReads (d : Disk) (made : Path → Prop) (last : Nat) (first : PageStore)
    (t : Session MessageIndex) : Prop := Within d made last first (t.part file)

/-- A read of the record files is a read of the index. -/
theorem maintains_onFile {α : Type} {p : Procedure PagedFile α}
    (h : Maintains (Within d made last first) p) : Maintains (OnlyReads d made last first)
      (onFile p) :=
  .within fun _ hs => ⟨_, h, hs, fun _ ht => ht⟩

theorem maintains_update_file {f : MessageIndex → MessageIndex} (h : ∀ m, (f m).file = m.file) :
    Maintains (OnlyReads d made last first) (update f) := by
  intro t ht
  rw [leads_update]
  show Within d made last first ⟨t.host, (f t.memory).file⟩
  rw [h]
  exact ht

/-- The count covers no more than the pages hold, or it is refused. -/
theorem readCount_reads (hpageSize : 4 ≤ first.pageSize) {t : Session MessageIndex}
    (ht : OnlyReads d made last first t) :
    readCount.Leads t (fun count u => OnlyReads d made last first u
        ∧ (count ≠ 0 → Record.place count ≤ (last + 1) * first.pageSize))
      fun _ u => OnlyReads d made last first u := by
  have hroom : 0 + 4 ≤ (last + 1) * first.pageSize := by
    have hle : 1 * first.pageSize ≤ (last + 1) * first.pageSize := Nat.mul_le_mul_right _ (by omega)
    omega
  unfold readCount PagedFile.readInt32
  simp only [leads_bind, leads_memory, leads_ite]
  split
  · exact ⟨ht, fun hne => absurd rfl hne⟩
  · refine (maintains_onFile ((PagedFile.maintains_readWord (by decide) hroom).bind fun _ =>
      maintains_pure _) t ht).mono (fun count u hu => ?_) fun _ _ => id
    simp only [leads_throw, leads_pure]
    split
    · exact hu
    split
    · exact hu
    next henough =>
      exact ⟨hu, fun _ => Nat.le_trans (Nat.le_of_not_lt henough) ht.length_le⟩

/-- The record of a position that the pages hold is read and counted, or it makes no sense. -/
theorem maintains_recoverRecord {position : Nat}
    (h : Record.place (position + 1) ≤ (last + 1) * first.pageSize)
    (found : Tally × Std.TreeMap Nat EntryId) :
    Maintains (OnlyReads d made last first) (recoverRecord found position) := by
  have hend : Record.place position + Record.size ≤ (last + 1) * first.pageSize := by
    simp only [Record.place, Record.size] at h ⊢
    omega
  have hread : Maintains (OnlyReads d made last first) (readRecord position) :=
    (maintains_onFile (PagedFile.maintains_readBytes hend)).bind fun _ => maintains_ofExcept _
  have hadd (entry : Entry) : Maintains (OnlyReads d made last first) (addEntry entry) := by
    refine maintains_memory.bind fun _ => .bind (maintains_update_file fun _ => ?_) fun _ =>
      maintains_pure _
    rfl
  have henter (uuid : Uuid) (id : EntryId) : Maintains (OnlyReads d made last first)
      (enterLive uuid id) := by
    refine maintains_update_file fun _ => ?_
    rfl
  refine hread.bind fun record => (maintains_ofExcept _).bind fun slot => ?_
  split
  · exact maintains_pure _
  · exact maintains_pure _
  · refine maintains_memory.bind fun m => ?_
    dsimp only
    split
    · exact maintains_pure _
    · exact (hadd _).bind fun id => (henter _ id).bind fun _ => maintains_pure _

/-- Whatever the records say and wherever it stops, a recovery only reads. -/
theorem maintains_recover (hpageSize : 4 ≤ first.pageSize)
    (hdirectory : d.node? first.directory = some .directory)
    (hmade : ∀ name, ¬ made (first.directory ++ [name]))
    (hlast : ∀ i ∈ d.pageNumbers first.directory, i ≤ last) :
    Maintains (OnlyReads d made last first) recover := by
  refine .bind (maintains_update_file fun _ => ?_) fun _ => ?_
  · rfl
  refine (maintains_onFile (PagedFile.maintains_recoverLength hdirectory hmade hlast)).discard.bind
    fun _ => ?_
  intro t ht
  simp only [leads_bind, leads_update, leads_pure]
  refine (readCount_reads hpageSize ht).mono (fun count u hu => ?_) fun _ _ => id
  obtain ⟨hu, hcount⟩ := hu
  refine (leads_foldlM_range recoverRecord (fun _ _ => OnlyReads d made last first) hu ?_).mono
    (fun _ _ hv => hv) fun _ _ => id
  intro position found v hposition hv
  refine maintains_recoverRecord (Nat.le_trans ?_ (hcount (by omega))) found v hv
  simp only [Record.place, Record.size]
  omega

end MessageIndex

/-! ## Queues that are loaded -/

namespace Queue

open MessageIndex (OnlyReads)

variable {first : PageStore} {d : Disk} {made : Path → Prop} {last : Nat}

theorem maintains_onIndex {α : Type} {p : Procedure MessageIndex α}
    (h : Maintains (OnlyReads d made last first) p) :
    Maintains (fun t => OnlyReads d made last first (indexOf t)) (onIndex p) :=
  .within fun _ hs => ⟨_, h, hs, fun _ ht => ht⟩

/-- The payloads are passed by: only the names of their pages are read. -/
theorem maintains_recoverPayloads :
    Maintains (fun t => OnlyReads d made last first (indexOf t))
      (onPayloads PayloadLog.recover) := by
  have hlength (inv : Host → Prop) : Maintains (fun t => inv t.host) PagedFile.recoverLength := by
    refine .bind (.within fun s hs => ⟨fun t => inv t.host, PageStore.maintains_pageIndexes, hs,
      fun _ ht => ht⟩) fun _ => maintains_memory.bind fun _ => ?_
    exact .bind (fun _ ht => ht) fun _ => maintains_pure _
  have hrecover (inv : Host → Prop) : Maintains (fun t => inv t.host) PayloadLog.recover :=
    .bind (.within fun s hs => ⟨fun t => inv t.host, hlength inv, hs, fun _ ht => ht⟩) fun _ =>
      .bind (fun _ ht => ht) fun _ => maintains_pure _
  exact .within fun s hs => ⟨fun t => OnlyReads d made last first ⟨t.host, s.memory.index⟩,
    hrecover fun host => OnlyReads d made last first ⟨host, s.memory.index⟩, hs, fun _ ht => ht⟩

/-- The directory of the payloads is not in the one of the records. -/
theorem payloads_not_below (settings : Settings) (name : String) :
    recordDirectory settings ++ [name] ≠ payloadDirectory settings := by
  intro heq
  have hdropped := congrArg List.dropLast heq
  rw [List.dropLast_concat] at hdropped
  exact (record_ne_payload settings).2.2 hdropped.symm

/-- Opening a queue over pages of records makes the directory of the payloads, if it is missing. -/
theorem openFiles_reads {σ : Type} {s : Session σ} {settings : Settings}
    (hpos : 0 < settings.pageSize)
    (hway : ∀ p, p <+: recordDirectory settings → s.host.disk.node? p = some .directory)
    (hlast : ∀ i ∈ s.host.disk.pageNumbers (recordDirectory settings), i ≤ last) :
    (openFiles settings : Procedure σ Queue).Leads s
      (fun q t => OnlyReads s.host.disk (· = payloadDirectory settings) last
        (.opened (recordDirectory settings) settings.pageSize hpos settings.lifetime)
        (indexOf ⟨t.host, q⟩))
      fun _ t => s.host.disk.Filled settings.pageSize (· = payloadDirectory settings)
        (Disk.PagesUpTo (recordDirectory settings) last) t.host.disk := by
  -- the directories on the way to the records are there, so only the one of the payloads is made
  have hmade {path : Path} {d d' : Disk} (hpath : path <+: recordDirectory settings
        ∨ path <+: payloadDirectory settings)
      (hd : s.host.disk.Filled settings.pageSize (· = payloadDirectory settings)
        (Disk.PagesUpTo (recordDirectory settings) last) d) (hmade : MadeWay path d d') :
      s.host.disk.Filled settings.pageSize (· = payloadDirectory settings)
        (Disk.PagesUpTo (recordDirectory settings) last) d' := by
    refine hd.trans (hmade.filled fun p hp hnone => ?_)
    have hmissing (hway' : p <+: recordDirectory settings) : False := by
      have hthere := hd.kept (hway p hway')
      rw [hnone] at hthere
      cases hthere
    rcases hpath with hpath | hpath
    · exact (hmissing (hp.trans hpath)).elim
    · rcases List.prefix_concat_iff.mp (hp.trans hpath) with heq | hroot
      · exact heq
      · exact (hmissing (hroot.trans (List.prefix_append ..))).elim
  unfold openFiles
  simp only [leads_bind, leads_pure]
  cases hvalid : settings.validate with
  | error fault => exact .refl _
  | ok =>
    rw [leads_ofExcept_ok]
    refine (PageStore.makeDirectories_leads _).mono
      (fun _ t₁ ht₁ => ?_) fun _ _ heq => heq ▸ .refl _
    have hfilled₁ := hmade (.inl (List.prefix_append ..)) (.refl _) ht₁.1
    refine (PageStore.create_leads _ hpos _).mono (fun _ t₂ ht₂ => ?_) fun _ _ heq => heq ▸ hfilled₁
    obtain ⟨rfl, hmade₂, -⟩ := ht₂
    have hfilled₂ := hmade (.inl List.prefix_rfl) hfilled₁ hmade₂
    refine (PageStore.create_leads _ hpos _).mono (fun _ t₃ ht₃ => ?_) fun _ _ heq => heq ▸ hfilled₂
    obtain ⟨rfl, hmade₃, hways₃⟩ := ht₃
    have hfilled₃ := hmade (.inr List.prefix_rfl) hfilled₂ hmade₃
    have hrecords := hway _ List.prefix_rfl
    refine (PagedFile.ofStore_ensures (hfilled₃.kept hrecords)).leads.mono ?_ fun _ _ => False.elim
    intro _ t ht
    obtain ⟨rfl, rfl⟩ := ht
    refine (PagedFile.ofStore_ensures (hways₃ _ List.prefix_rfl)).leads.mono ?_ fun _ _ =>
      False.elim
    intro _ t ht
    obtain ⟨rfl, rfl⟩ := ht
    exact ⟨⟨.refl _, hfilled₃⟩, hfilled₃.reach_le hrecords (payloads_not_below settings) id hlast⟩

/-- Where there is a page of records, the messages are recovered and nothing is deleted. -/
theorem recoverOrStart_reads {s : Session Queue} (hs : OnlyReads d made last first (indexOf s))
    (hpageSize : 4 ≤ first.pageSize) (hdirectory : d.node? first.directory = some .directory)
    (hmade : ∀ name, ¬ made (first.directory ++ [name]))
    (hmem : last ∈ d.pageNumbers first.directory)
    (hlast : ∀ i ∈ d.pageNumbers first.directory, i ≤ last) :
    recoverOrStart.Leads s (fun _ t => OnlyReads d made last first (indexOf t))
      fun _ t => OnlyReads d made last first (indexOf t) := by
  have hsame : s.memory.index.file.store.directory = first.directory := hs.filledUp.same.directory
  have hfilled := hs.filledUp.filled
  have hopen : Maintains (fun t => OnlyReads d made last first (indexOf t)) ensureOpen :=
    maintains_memory.bind fun _ => .ite (maintains_throw _) (maintains_pure _)
  have hrecover : Maintains (fun t => OnlyReads d made last first (indexOf t)) recover :=
    hopen.bind fun _ =>
    (maintains_onIndex (MessageIndex.maintains_recover hpageSize hdirectory hmade
      hlast)).bind fun _ => maintains_recoverPayloads.discard.bind fun _ => maintains_pure _
  unfold recoverOrStart
  rw [leads_bind]
  refine (recordPages_ensures (hsame ▸ hfilled.kept hdirectory)).leads.mono ?_ fun _ _ => False.elim
  intro indexes t hand
  obtain ⟨rfl, hempty⟩ := hand
  -- the page that was found is there still
  have hsome : ¬ indexes.isEmpty = true := by
    intro hnone
    have hzero := hempty.mp hnone
    rw [MessageIndex.reachOf, Disk.reach_eq_zero_iff (PageStore.pageSize_pos _)] at hzero
    have hnil : t.host.disk.pageNumbers first.directory = [] := hsame ▸ hzero
    have hthere : last ∈ t.host.disk.pageNumbers first.directory :=
      hfilled.mem_pageNumbers hdirectory hmem
    rw [hnil] at hthere
    exact absurd hthere List.not_mem_nil
  rw [leads_ite, if_neg hsome]
  exact hrecover.discard t hs

/-- If there is a page of records, loading a queue only fills up the disk, whether it succeeds or
fails: pages of records are made up to the last one there is, and the directory of the payloads is
made if it is missing. -/
theorem load_fills {σ : Type} {s : Session σ} {settings : Settings} {last : Nat}
    (hvalid : settings.validate = .ok ())
    (hway : ∀ p, p <+: recordDirectory settings → s.host.disk.node? p = some .directory)
    (hlast : (s.host.disk.pageNumbers (recordDirectory settings)).max? = some last) :
    s.host.disk.Filled settings.pageSize (· = payloadDirectory settings)
      (Disk.PagesUpTo (recordDirectory settings) last)
      ((load settings : Procedure σ Queue).outcome s).2.host.disk := by
  obtain ⟨hpos, hdvd, -⟩ := (Settings.validate_eq_ok_iff settings).mp hvalid
  obtain ⟨hmem, hle⟩ := List.max?_eq_some_iff.mp hlast
  have hrecords := hway _ List.prefix_rfl
  let left (t : Session σ) : Prop :=
    s.host.disk.Filled settings.pageSize (· = payloadDirectory settings)
    (Disk.PagesUpTo (recordDirectory settings) last) t.host.disk
  have hleads :
      (load settings : Procedure σ Queue).Leads s (fun _ t => left t) fun _ t => left t := by
    unfold load
    simp only [leads_bind, leads_launch, leads_pure]
    refine (openFiles_reads hpos hway hle).mono (fun q t ht => ?_) fun _ _ => id
    have hpageSize : 4 ≤ settings.pageSize := by omega
    exact (recoverOrStart_reads ht hpageSize hrecords (payloads_not_below settings) hmem hle).mono
      (fun _ _ hu => hu.filledUp.filled) fun _ _ hu => hu.filledUp.filled
  exact hleads.outcome

/-- A disk with a second page of records, which is empty, and nothing else of a queue. -/
def secondPageOnly : Disk :=
  ({} : Disk).replay [(0, .makeDirectory ["queue"]), (0, .makeDirectory ["queue", "meta"]),
    (0, .create ["queue", "meta", "page-1.dat"])]

/-- The settings of the queue of `secondPageOnly`. -/
def secondPageSettings : Settings := { directory := "queue", pageSize := 8 }

/-- The directory of the records stands on this disk. -/
private theorem way_secondPageOnly (p : Path) (hp : p <+: recordDirectory secondPageSettings) :
    secondPageOnly.node? p = some .directory := by
  have hways : ∀ p ∈ (recordDirectory secondPageSettings).inits,
      secondPageOnly.node? p = some .directory := by decide +kernel
  exact hways p ((List.mem_inits _ _).mpr hp)

private theorem last_secondPageOnly :
    (secondPageOnly.pageNumbers (recordDirectory secondPageSettings)).max? = some 1 := by
      decide +kernel

/-- Over an empty second page the first page is made, with no message in it. -/
theorem load_fills_second_page : secondPageSettings.validate = .ok ()
    ∧ (∀ p, p <+: recordDirectory secondPageSettings → secondPageOnly.node? p = some .directory)
    ∧ (secondPageOnly.pageNumbers (recordDirectory secondPageSettings)).max? = some 1
    ∧ secondPageOnly.Filled 8 (· = payloadDirectory secondPageSettings)
      (Disk.PagesUpTo (recordDirectory secondPageSettings) 1)
      ((load secondPageSettings).outcome
        (⟨⟨secondPageOnly, ⟨fun _ => 0, 0⟩, []⟩, ()⟩ : Session Unit)).2.host.disk :=
  ⟨rfl, way_secondPageOnly, last_secondPageOnly,
    load_fills (s := ⟨⟨secondPageOnly, ⟨fun _ => 0, 0⟩, []⟩, ()⟩)
    rfl way_secondPageOnly last_secondPageOnly⟩

/-- Pages of records are not all that is made: the directory of the payloads is, too, if it is
missing. -/
theorem load_makes_payload_directory : ¬ ∀ (settings : Settings) (host : Host) (last : Nat),
    settings.validate = .ok () →
    (∀ p, p <+: recordDirectory settings → host.disk.node? p = some .directory) →
    (host.disk.pageNumbers (recordDirectory settings)).max? = some last →
    host.disk.Filled settings.pageSize
      (fun _ => False) (Disk.PagesUpTo (recordDirectory settings) last)
      ((load settings).outcome (⟨host, ()⟩ : Session Unit)).2.host.disk := by
  intro hall
  have hfilled :=
    hall secondPageSettings ⟨secondPageOnly, ⟨fun _ => 0, 0⟩, []⟩ 1 rfl way_secondPageOnly
    last_secondPageOnly
  have hmissing : secondPageOnly.node? (payloadDirectory secondPageSettings) = none := by
    decide +kernel
  have hmade : ((load secondPageSettings).outcome
      (⟨⟨secondPageOnly, ⟨fun _ => 0, 0⟩, []⟩, ()⟩ : Session Unit)).2.host.disk.node?
      (payloadDirectory secondPageSettings) = some .directory := by decide +kernel
  rcases hfilled.fresh hmissing hmade with ⟨-, hnever⟩ | ⟨-, _, _, hfile, -⟩
  · exact hnever
  · cases hfile

end Queue

end PagedQueue
