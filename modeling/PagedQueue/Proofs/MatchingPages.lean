import PagedQueue.Proofs.PageSizes
import PagedQueue.Proofs.StoredLedger

/-!
# Directories with the same pages

Two disks match in a directory if it has the same pages on both, with the same bytes in them
(`Disk.Matches`). Then all that is read off the names and sizes of the page files is the same: how
far the pages reach, how many there are, and how many bytes they have together. When all pages are
deleted those stay whose number no name is read as, so of directories that are to match afterwards
only these need match before (`Disk.Matches.pruned`).
-/

namespace PagedQueue

open Procedure
open Disk (pagePath)

namespace Disk

variable {d d' d'' e e' : Disk} {directory other made : Path} {pageSize low : Nat}
  {touched written : Nat → Prop}

/-! ## Directories in order -/

/-- Every page of the directory can be opened, every page file bears the name written for it, and
from a number on the page files have the size of a page. -/
structure Orderly (d : Disk) (directory : Path) (pageSize low : Nat) : Prop
    extends d.Openable directory where
  sound : d.Sound
  plain : ∀ {name : String} {node : Node} {index : Nat},
    d.node? (directory ++ [name]) = some node → PageName.index? name = some index →
      name = PageName.ofIndex index
  sizeOf_eq : ∀ {index : Nat} {id : FileId}, low ≤ index →
    d.node? (pagePath directory index) = some (.file id) → d.sizeOf (.file id) = pageSize

/-- In a tidy directory no page has a number that no name is read as. -/
theorem Tidy.orderly (h : d.Tidy directory) (hsound : d.Sound) (pageSize : Nat) :
    d.Orderly directory pageSize (PageName.maxIndex + 1) where
  toOpenable := h.toOpenable
  sound := hsound
  plain := h.plain
  sizeOf_eq hlow hnode := absurd (h.le_maxIndex ⟨_, hnode⟩) (Nat.not_le_of_lt hlow)

namespace Orderly

theorem sized (h : d.Orderly directory pageSize 0) : d.Sized directory pageSize :=
  ⟨h.sizeOf_eq (Nat.zero_le _)⟩

/-- An access to the pages leaves a directory in order. -/
theorem confined (h : d.Orderly directory pageSize 0)
    (hc : Confined directory pageSize touched written d d') (hsized : d'.Sized directory pageSize) :
    d'.Orderly directory pageSize 0 where
  toOpenable := hc.openable h.toOpenable
  sound := hc.sound
  plain hnode hindex := by
    rcases hc.fresh hnode with hold | ⟨o, -, hpath, -⟩
    · exact h.plain hold hindex
    · -- a page file that is new was made under the name of its number
      obtain ⟨-, hname⟩ := List.append_inj' hpath rfl
      obtain rfl := List.singleton_inj.mp hname
      rw [(PageName.index?_ofIndex_eq_some_iff.mp hindex).1]
  sizeOf_eq _ := hsized.sizeOf_eq

/-- The numbers read off the names are those of the pages, as far as names are read. -/
theorem mem_pageNumbers_iff (h : d.Orderly directory pageSize low) (index : Nat) :
    index ∈ d.pageNumbers directory ↔ d.HasPage directory index ∧ index ≤ PageName.maxIndex := by
  constructor
  · intro hmem
    obtain ⟨name, node, hnode, hindex⟩ := (mem_pageNumbers h.isDirectory index).mp hmem
    obtain rfl := h.plain hnode hindex
    refine ⟨?_, PageName.le_maxIndex_of_index? hindex⟩
    cases node with
    | directory => exact absurd hnode (h.not_directory index)
    | file id => exact ⟨id, hnode⟩
  · exact fun hand => hand.1.mem_pageNumbers h.isDirectory hand.2

/-- No number is read off two names. -/
theorem nodup_pageNumbers (h : d.Orderly directory pageSize low) :
    (d.pageNumbers directory).Nodup := by
  unfold pageNumbers children?
  rw [h.isDirectory, Option.getD_some, List.filterMap_filterMap, List.Nodup,
    List.pairwise_filterMap]
  refine d.nodes.distinct_keys_toList.imp_of_mem ?_
  rintro ⟨path, node⟩ ⟨path', node'⟩ hmem hmem' hne index hindex index' hindex' rfl
  rw [Std.TreeMap.mem_toList_iff_getElem?_eq_some] at hmem hmem'
  -- both are the file of one number, under the name that is written for it
  have hpath {p : Path} {n : Node} (hnode : d.node? p = some n)
      (hsome : ((if p.dropLast = directory then p.getLast?.map (·, n) else none).bind
        fun child => PageName.index? child.1) = some index) : p = pagePath directory index := by
    obtain ⟨⟨name, n'⟩, hchild, hname⟩ := Option.bind_eq_some_iff.mp hsome
    split at hchild
    next hparent =>
      obtain ⟨last, hlast, heq⟩ := Option.map_eq_some_iff.mp hchild
      cases heq
      have hwhole := List.dropLast_append_getLast? _ hlast
      rw [hparent] at hwhole
      rw [← hwhole] at hnode ⊢
      rw [pagePath, h.plain hnode hname]
    next => cases hchild
  exact hne (Std.LawfulEqCmp.compare_eq_iff_eq.mpr
    ((hpath hmem hindex).trans (hpath hmem' hindex').symm))

/-- What is left when pages were deleted, among them those whose size is not known. -/
theorem pruned {gone : List Nat} (h : d.Orderly directory pageSize low)
    (hp : Pruned directory gone d d') (hgone : ∀ index < low, d.HasPage directory index →
      index ∈ gone) :
    d'.Orderly directory pageSize 0 where
  isDirectory := (hp.node?_of_prefix List.prefix_rfl).trans h.isDirectory
  not_directory index hnode := h.not_directory index (hp.node?_some hnode)
  not_refused := hp.refused ▸ h.not_refused
  sound := hp.sound h.sound
  plain hnode hindex := h.plain (hp.node?_some hnode) hindex
  sizeOf_eq {index id} _ hnode := by
    have hold := hp.node?_some hnode
    have hkept := ((hp.hasPage_iff index).mp ⟨id, hnode⟩).2
    have hlow : low ≤ index := Nat.le_of_not_lt fun hlt => hkept (hgone index hlt ⟨id, hold⟩)
    have hfile : d'.file? id = d.file? id := by rw [file?, hp.files, file?]
    rw [← h.sizeOf_eq hlow hold, sizeOf, sizeOf, hfile]

end Orderly

/-- Where a page is gone, zeros are read. -/
theorem Pruned.space {gone : List Nat} (h : Pruned directory gone d d') (pageSize o : Nat) :
    d'.space directory pageSize o
      = if o / pageSize ∈ gone then 0 else d.space directory pageSize o := by
  split
  next hgone => exact space_of_no_page fun hpage => ((h.hasPage_iff _).mp hpage).2 hgone
  next hkept =>
    have hfile (id : FileId) : d'.file? id = d.file? id := by rw [file?, h.files, file?]
    have hnode : d'.node? (pagePath directory (o / pageSize)) = d.node?
        (pagePath directory (o / pageSize)) := by
      rw [h.node?, if_neg]
      intro hand
      obtain ⟨index, hmem, hpath⟩ := hand
      exact hkept (pagePath_inj.mp hpath ▸ hmem)
    rw [Disk.space, Disk.space, fileAt?, fileAt?, hnode]
    simp only [hfile]

/-! ## Directories that match -/

/-- From a number on a directory of two disks has the same pages, and they hold the same bytes. -/
structure Matches (d d' : Disk) (directory : Path) (pageSize low : Nat) : Prop where
  left : d.Orderly directory pageSize low
  right : d'.Orderly directory pageSize low
  hasPage_iff : ∀ {index : Nat}, low ≤ index →
    (d.HasPage directory index ↔ d'.HasPage directory index)
  space_eq : ∀ {o : Nat}, low ≤ o / pageSize →
    d.space directory pageSize o = d'.space directory pageSize o

/-- Two tidy directories match from where no page is. -/
theorem Matches.of_tidy (h : d.Tidy directory) (hsound : d.Sound) (h' : d'.Tidy directory)
    (hsound' : d'.Sound) (pageSize : Nat) : d.Matches d' directory pageSize
      (PageName.maxIndex + 1) := by
  have hnone {d : Disk} (htidy : d.Tidy directory) {index : Nat}
      (hlow : PageName.maxIndex + 1 ≤ index) :
      ¬ d.HasPage directory index := fun hpage => Nat.not_le_of_lt hlow (htidy.le_maxIndex hpage)
  refine ⟨h.orderly hsound pageSize, h'.orderly hsound' pageSize, fun hlow => ?_, fun hlow => ?_⟩
  · exact iff_of_false (hnone h hlow) (hnone h' hlow)
  · rw [space_of_no_page (hnone h hlow), space_of_no_page (hnone h' hlow)]

namespace Matches

variable (h : d.Matches d' directory pageSize 0)
include h

theorem space : d.space directory pageSize = d'.space directory pageSize :=
  funext fun _ => h.space_eq (Nat.zero_le _)

theorem mem_pageNumbers_iff (index : Nat) :
    index ∈ d.pageNumbers directory ↔ index ∈ d'.pageNumbers directory := by
  rw [h.left.mem_pageNumbers_iff, h.right.mem_pageNumbers_iff, h.hasPage_iff (Nat.zero_le _)]

/-- As many pages are listed. -/
theorem length_pageNumbers : (d.pageNumbers directory).length = (d'.pageNumbers directory).length :=
  ((List.perm_ext_iff_of_nodup h.left.nodup_pageNumbers h.right.nodup_pageNumbers).mpr
    h.mem_pageNumbers_iff).length_eq

theorem reach_eq : d.reach directory pageSize = d'.reach directory pageSize := by
  have hleft :=
    IndexSet.greatest_eq_max? fun index => IndexSet.mem_ofList (d.pageNumbers directory) index
  have hright := IndexSet.greatest_eq_max? fun index =>
    (IndexSet.mem_ofList (d.pageNumbers directory) index).trans (h.mem_pageNumbers_iff index)
  rw [reach, reach, ← hleft, ← hright]

end Matches

/-- Directories go on to match when the pages of one range were opened on both disks, and the bytes
in them are the same again. -/
theorem Matches.confined {start length : Nat} {written' : Nat → Prop}
    (h : d.Matches e directory pageSize 0)
    (hd : Confined directory pageSize (InRange start length) written d d')
    (he : Confined directory pageSize (InRange start length) written' e e')
    (hdpages : d'.HasPages directory pageSize start length)
    (hepages : e'.HasPages directory pageSize start length) (hdsized : d'.Sized directory pageSize)
    (hesized : e'.Sized directory pageSize)
    (hspace : d'.space directory pageSize = e'.space directory pageSize) :
    d'.Matches e' directory pageSize 0 where
  left := h.left.confined hd hdsized
  right := h.right.confined he hesized
  hasPage_iff {index} hlow := by
    constructor
    · intro hpage
      rcases hd.hasPage_or hpage with hold | ⟨o, ho, rfl⟩
      · exact he.hasPage ((h.hasPage_iff hlow).mp hold)
      · exact hepages o ho
    · intro hpage
      rcases he.hasPage_or hpage with hold | ⟨o, ho, rfl⟩
      · exact hd.hasPage ((h.hasPage_iff hlow).mpr hold)
      · exact hdpages o ho
  space_eq {o} _ := congrFun hspace o

theorem Matches.symm (h : d.Matches d' directory pageSize low) :
    d'.Matches d directory pageSize low :=
  ⟨h.right, h.left, fun hlow => (h.hasPage_iff hlow).symm, fun hlow => (h.space_eq hlow).symm⟩

/-- Directories from which all pages were deleted that are listed match, if they matched from where
none is. -/
theorem Matches.pruned {gone gone' : List Nat}
    (h : d.Matches e directory pageSize (PageName.maxIndex + 1))
    (hp : Pruned directory gone d d') (hp' : Pruned directory gone' e e')
    (hgone : ∀ index, index ∈ gone ↔ index ∈ d.pageNumbers directory)
    (hgone' : ∀ index, index ∈ gone' ↔ index ∈ e.pageNumbers directory) :
    d'.Matches e' directory pageSize 0 := by
  have hlisted {index : Nat} : index ∈ gone ↔ d.HasPage directory index
      ∧ index ≤ PageName.maxIndex :=
    (hgone index).trans (h.left.mem_pageNumbers_iff index)
  have hlisted' {index : Nat} : index ∈ gone' ↔ e.HasPage directory index
      ∧ index ≤ PageName.maxIndex :=
    (hgone' index).trans (h.right.mem_pageNumbers_iff index)
  have hnone {index : Nat} (hle : index ≤ PageName.maxIndex) :
      ¬ d'.HasPage directory index ∧ ¬ e'.HasPage directory index := by
    rw [hp.hasPage_iff, hp'.hasPage_iff, hlisted, hlisted']
    exact ⟨fun hand => hand.2 ⟨hand.1, hle⟩, fun hand => hand.2 ⟨hand.1, hle⟩⟩
  refine ⟨h.left.pruned hp fun index hlt hpage => hlisted.mpr ⟨hpage, Nat.le_of_lt_succ hlt⟩,
    h.right.pruned hp' fun index hlt hpage => hlisted'.mpr ⟨hpage, Nat.le_of_lt_succ hlt⟩,
    fun {index} _ => ?_, fun {o} _ => ?_⟩
  · rcases Nat.lt_or_ge PageName.maxIndex index with hlt | hle
    · rw [hp.hasPage_iff, hp'.hasPage_iff, hlisted, hlisted', h.hasPage_iff hlt]
    · exact iff_of_false (hnone hle).1 (hnone hle).2
  · rcases Nat.lt_or_ge PageName.maxIndex (o / pageSize) with hlt | hle
    · rw [hp.space, hp'.space, h.space_eq hlt, if_neg fun hmem => Nat.not_le_of_lt hlt
        (hlisted.mp hmem).2,
        if_neg fun hmem => Nat.not_le_of_lt hlt (hlisted'.mp hmem).2]
    · rw [space_of_no_page (hnone hle).1, space_of_no_page (hnone hle).2]

/-! ## Changes in another directory -/

/-- Something was done in the directory `made`, and what lies outside of it is as it was. -/
structure Spares (made : Path) (d d' : Disk) : Prop extends Apart made d d' where
  sizeOf_eq : ∀ {path : Path} {id : FileId}, path.dropLast ≠ made → d.node? path = some (.file id) →
    d'.sizeOf (.file id) = d.sizeOf (.file id)

namespace Spares

theorem refl (hsound : d.Sound) : Spares made d d :=
  ⟨⟨hsound, rfl, fun _ _ => rfl, fun _ _ _ => rfl, fun _ => Nat.le_refl _⟩, fun _ _ => rfl⟩

theorem trans (h : Spares made d d') (h' : Spares made d' d'') : Spares made d d'' where
  toApart := h.toApart.trans h'.toApart
  sizeOf_eq hpath hnode :=
    (h'.sizeOf_eq hpath ((h.node? _ hpath).trans hnode)).trans (h.sizeOf_eq hpath hnode)

theorem of_confined (hsound : d.Sound) (hc : Confined made pageSize touched written d d') :
    Spares made d d' where
  toApart := .of_confined hc
  sizeOf_eq {path id} hpath hnode := by
    have hbytes := hc.elsewhere path hpath
    obtain ⟨f, hf⟩ := exists_file hsound hnode
    obtain ⟨f', hf'⟩ := exists_file hc.sound (hc.kept hnode)
    rw [bytesAt?, bytesAt?, fileAt?_of_file hnode, fileAt?_of_file (hc.kept hnode), hf,
      hf'] at hbytes
    rw [sizeOf, sizeOf, hf, hf']
    exact congrArg ByteArray.size (Option.some.inj hbytes)

theorem of_pruned {gone : List Nat} (hp : Pruned made gone d d') (hsound : d.Sound) :
    Spares made d d' where
  toApart := .of_pruned hp hsound
  sizeOf_eq {_ id} _ _ := by
    have hfile : d'.file? id = d.file? id := by rw [file?, hp.files, file?]
    rw [sizeOf, sizeOf, hfile]

theorem hasPage_iff (h : Spares made d d') (hother : directory ≠ made) (index : Nat) :
    d'.HasPage directory index ↔ d.HasPage directory index := by
  rw [HasPage, HasPage, h.node? _ (by rwa [dropLast_pagePath])]

/-- Another directory that is not inside stays in order. -/
theorem orderly (h : Spares made d d') (hother : directory ≠ made) (hup : directory.dropLast ≠ made)
    (ho : d.Orderly directory pageSize low) : d'.Orderly directory pageSize low := by
  have hnode (name : String) : d'.node? (directory ++ [name]) = d.node? (directory ++ [name]) :=
    h.node? _ (by rwa [List.dropLast_concat])
  exact {
    toOpenable := h.openable hother hup ho.toOpenable
    sound := h.sound
    plain := fun hsome hindex => ho.plain ((hnode _).symm.trans hsome) hindex
    sizeOf_eq := fun {index id} hlow hsome => by
      have hold : d.node? (pagePath directory index) = some (.file id) := (hnode _).symm.trans hsome
      rw [h.sizeOf_eq (by rwa [dropLast_pagePath]) hold]
      exact ho.sizeOf_eq hlow hold }

end Spares

/-- Another directory that is not inside goes on to match. -/
theorem Matches.spared (h : d.Matches e directory pageSize low) (hd : Spares made d d')
    (he : Spares made e e') (hother : directory ≠ made) (hup : directory.dropLast ≠ made) :
    d'.Matches e' directory pageSize low where
  left := hd.orderly hother hup h.left
  right := he.orderly hother hup h.right
  hasPage_iff hlow := by
    rw [hd.hasPage_iff hother, he.hasPage_iff hother]
    exact h.hasPage_iff hlow
  space_eq hlow := by
    rw [hd.space _ _ hother, he.space _ _ hother]
    exact h.space_eq hlow

end Disk

/-! ## What is read off a directory -/

namespace PageStore

variable {s : Session PageStore} {pageSize : Nat}

/-- All pages together have as many bytes as so many pages have. -/
theorem totalSize_ensures (h : s.host.disk.Orderly s.memory.directory pageSize 0) :
    totalSize.Ensures s fun total u => u = s
      ∧ total = (s.host.disk.pageNumbers s.memory.directory).length * pageSize := by
  have hsum (entries : List (String × Nat × Node)) (hsized : ∀ entry ∈ entries,
      s.host.disk.sizeOf entry.2.2 = pageSize) (total : Nat) : entries.foldl
        (fun total entry => total + s.host.disk.sizeOf entry.2.2) total
      = total + entries.length * pageSize := by
    induction entries generalizing total with
    | nil => simp
    | cons first rest ih =>
      obtain ⟨hfirst, hrest⟩ := List.forall_mem_cons.mp hsized
      rw [List.foldl_cons, ih hrest, List.length_cons, Nat.add_mul, hfirst]
      omega
  obtain ⟨children, hchildren, hmem⟩ := Disk.children?_of_directory h.isDirectory
  unfold totalSize pageEntries Ensures
  simp only [leads_bind, leads_disk, leads_memory, hchildren, leads_ofOption_some, leads_pure]
  refine ⟨trivial, (hsum _ (fun entry hentry => ?_) 0).trans ?_⟩
  · obtain ⟨⟨name, node⟩, hchild, hsome⟩ := List.mem_filterMap.mp hentry
    obtain ⟨index, hindex, rfl⟩ := Option.map_eq_some_iff.mp hsome
    have hnode := (hmem name node).mp hchild
    obtain rfl := h.plain hnode hindex
    cases node with
    | directory => exact absurd hnode (h.not_directory index)
    | file id => exact h.sizeOf_eq (Nat.zero_le _) hnode
  · rw [Nat.zero_add, Disk.pageNumbers, hchildren, Option.getD_some]
    congr 1
    rw [← List.length_map (fun entry : String × Nat × Node => entry.2.1), List.map_filterMap]
    simp only [Option.map_map, Function.comp_def, Option.map_id']

end PageStore

end PagedQueue
