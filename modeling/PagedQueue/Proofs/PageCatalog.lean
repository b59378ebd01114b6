import PagedQueue.Proofs.Directories

/-!
# The catalog of pages

Reading off which pages there are changes nothing (`pageIndexes_ensures`), and tells the length of a
file that is opened (`recoverLength_ensures`). All pages are deleted one by one in ascending order
(`deleteAll_ensures`): on the way a first part of them is gone, and in the end there is none.
-/

namespace PagedQueue

open Procedure
open Disk (HasPage pagePath MadeWay)

/-- The greatest number of a set, found in any list of its members. -/
theorem IndexSet.greatest_eq_max? {indexes : IndexSet} {numbers : List Nat}
    (h : ∀ index, index ∈ indexes ↔ index ∈ numbers) : greatest indexes = numbers.max? := by
  cases hgreatest : greatest indexes with
  | none =>
    have hempty := greatest_eq_none_iff.mp hgreatest
    refine (List.max?_eq_none_iff.mpr
      (List.eq_nil_iff_forall_not_mem.mpr fun index hmem => ?_)).symm
    exact hempty index ((h index).mpr hmem)
  | some last =>
    obtain ⟨hmem, hle⟩ := greatest_eq_some hgreatest
    refine (List.max?_eq_some_iff.mpr ⟨(h last).mp hmem, fun index hindex => ?_⟩).symm
    exact hle index ((h index).mpr hindex)

namespace PageStore

variable {s t : Session PageStore}

theorem pageEntries_ensures (h : s.host.disk.node? s.memory.directory = some .directory) :
    pageEntries.Ensures s fun entries u => u = s
      ∧ entries.map (fun (_, index, _) => index) = s.host.disk.pageNumbers s.memory.directory := by
  obtain ⟨entries, heq, -⟩ := Disk.children?_of_directory h
  unfold pageEntries Ensures
  simp only [leads_bind, leads_disk, leads_memory, heq, leads_ofOption_some, leads_pure]
  refine ⟨trivial, ?_⟩
  rw [Disk.pageNumbers, heq, Option.getD_some, List.map_filterMap]
  refine List.filterMap_congr ?_
  intro child _
  simp only [Option.map_map, Function.comp_def, Option.map_id']

/-- Which pages there are is read off the names, and nothing changes. -/
theorem pageIndexes_ensures (h : s.host.disk.node? s.memory.directory = some .directory) :
    pageIndexes.Ensures s fun indexes u => u = s
      ∧ ∀ index, index ∈ indexes ↔ index ∈ s.host.disk.pageNumbers s.memory.directory := by
  unfold pageIndexes Ensures
  simp only [leads_bind, leads_pure]
  refine (pageEntries_ensures h).mono ?_
  intro entries u hu
  obtain ⟨hu, hentries⟩ := hu
  refine ⟨hu, fun index => ?_⟩
  rw [IndexSet.mem_ofList, hentries]

end PageStore

namespace PagedFile

/-- The length of a file that is opened is how far its pages reach. -/
theorem recoverLength_ensures {s : Session PagedFile}
    (h : s.host.disk.node? s.memory.store.directory = some .directory) :
    recoverLength.Ensures s fun length u =>
      length = s.host.disk.reach s.memory.store.directory s.memory.store.pageSize
        ∧ u = ⟨s.host, { s.memory with length }⟩ := by
  unfold recoverLength onStore Ensures
  simp only [leads_bind, leads_within, leads_memory, leads_update, leads_pure]
  refine (PageStore.pageIndexes_ensures h).leads.mono (fun indexes u hu => ?_) fun _ _ => False.elim
  obtain ⟨rfl, hindexes⟩ := hu
  refine ⟨?_, rfl⟩
  rw [IndexSet.greatest_eq_max? hindexes]
  rfl

/-- A file over a store that was just opened. -/
theorem ofStore_ensures {σ : Type} {s : Session σ} {store : PageStore}
    (h : s.host.disk.node? store.directory = some .directory) :
    (ofStore store : Procedure σ PagedFile).Ensures s fun file u => u = s
      ∧ file = ⟨store, s.host.disk.reach store.directory store.pageSize⟩ := by
  unfold ofStore Ensures
  simp only [leads_bind, leads_launch, leads_pure]
  refine (recoverLength_ensures (s := ⟨s.host, { store }⟩) h).leads.mono (fun length u hu => ?_)
    fun _ _ => False.elim
  obtain ⟨rfl, rfl⟩ := hu
  exact ⟨rfl, rfl⟩

end PagedFile

namespace PageStore

/-- The smallest pages have eight bytes. -/
theorem eightBytes_pos : 0 < 8 := by decide

/-- A store just opened, with nothing mapped. -/
def opened (directory : Path) (pageSize : Nat) (pageSize_pos : 0 < pageSize) (lifetime : UInt64) :
    PageStore :=
  { directory, pageSize, pageSize_pos, lifetime }

theorem create_ensures {σ : Type} {s : Session σ} {directory : Path} {pageSize : Nat}
    (pageSize_pos : 0 < pageSize) (lifetime : UInt64) (h : s.host.disk.Passable directory) :
    (create directory pageSize lifetime : Procedure σ PageStore).Ensures s fun store u =>
      store = opened directory pageSize pageSize_pos lifetime ∧ u.memory = s.memory
        ∧ Trail (MadeWay directory s.host.disk) s.host u.host
        ∧ ∀ p, p <+: directory → u.host.disk.node? p = some .directory := by
  unfold create Ensures
  rw [dif_pos pageSize_pos]
  simp only [leads_bind, leads_pure]
  exact (makeDirectories_ensures h).leads.mono (fun _ u hu => ⟨rfl, hu⟩) fun _ _ => False.elim

theorem create_of_directories {σ : Type} {s : Session σ} {directory : Path} {pageSize : Nat}
    (pageSize_pos : 0 < pageSize) (lifetime : UInt64)
    (h : ∀ p, p <+: directory → s.host.disk.node? p = some .directory) :
    (create directory pageSize lifetime : Procedure σ PageStore).Ensures s fun store u =>
      store = opened directory pageSize pageSize_pos lifetime ∧ u = s := by
  unfold create Ensures
  rw [dif_pos pageSize_pos]
  simp only [leads_bind, leads_pure]
  exact (makeDirectories_of_directories h).leads.mono
    (fun _ u hu => ⟨rfl, hu⟩) fun _ _ => False.elim

end PageStore

/-! ## Deleting pages -/

/-- Some pages of a directory are gone, and nothing else changed. -/
structure Disk.Pruned (directory : Path) (gone : List Nat) (d d' : Disk) : Prop where
  files : d'.files = d.files
  refused : d'.refused = d.refused
  node? : ∀ path, d'.node? path
    = if ∃ index ∈ gone, pagePath directory index = path then none else d.node? path

namespace Disk.Pruned

variable {d d' : Disk} {directory : Path} {gone : List Nat}

theorem nil (d : Disk) (directory : Path) : Pruned directory [] d d := ⟨rfl, rfl, fun _ => by simp⟩

theorem node?_some (h : Pruned directory gone d d') {path : Path} {node : Node}
    (hnode : d'.node? path = some node) : d.node? path = some node := by
  rw [h.node?] at hnode
  split at hnode
  · cases hnode
  · exact hnode

theorem sound (h : Pruned directory gone d d') (hsound : d.Sound) : d'.Sound :=
  ⟨fun hnode => h.files ▸ hsound.lt_size (h.node?_some hnode),
   fun hnode hother => hsound.injective (h.node?_some hnode) (h.node?_some hother)⟩

theorem hasPage_iff (h : Pruned directory gone d d') (index : Nat) :
    d'.HasPage directory index ↔ d.HasPage directory index ∧ index ∉ gone := by
  unfold HasPage
  rw [h.node?]
  simp only [pagePath_inj, exists_eq_right]
  split
  next hgone => simp [hgone]
  next hkept => simp [hkept]

/-- Outside the directory nothing changes. -/
theorem node?_elsewhere (h : Pruned directory gone d d') {path : Path}
    (hpath : path.dropLast ≠ directory) : d'.node? path = d.node? path := by
  rw [h.node?, if_neg]
  intro hand
  obtain ⟨index, -, rfl⟩ := hand
  exact hpath (dropLast_pagePath ..)

/-- The way to the directory stays. -/
theorem node?_of_prefix (h : Pruned directory gone d d') {path : Path}
    (hpath : path <+: directory) :
    d'.node? path = d.node? path := by
  rw [h.node?, if_neg]
  intro hand
  obtain ⟨index, -, rfl⟩ := hand
  have hle := hpath.length_le
  rw [pagePath, List.length_append] at hle
  exact Nat.not_succ_le_self _ hle

theorem space_elsewhere (h : Pruned directory gone d d') {other : Path} (hother : other ≠ directory)
    (pageSize : Nat) : d'.space other pageSize = d.space other pageSize := by
  funext o
  have hfile (id : FileId) : d'.file? id = d.file? id := by rw [file?, h.files, file?]
  rw [space, space, fileAt?, fileAt?, h.node?_elsewhere (by rwa [dropLast_pagePath])]
  simp only [hfile]

theorem tidy (h : Pruned directory gone d d') (htidy : d.Tidy directory) : d'.Tidy directory where
  isDirectory := (h.node?_of_prefix List.prefix_rfl).trans htidy.isDirectory
  not_directory index hnode := htidy.not_directory index (h.node?_some hnode)
  not_refused := h.refused ▸ htidy.not_refused
  plain hnode hindex := htidy.plain (h.node?_some hnode) hindex
  le_maxIndex hpage := htidy.le_maxIndex ((h.hasPage_iff _).mp hpage).1

/-- One page more is gone. -/
theorem unlink (h : Pruned directory gone d d') (index : Nat) (now : Int) :
    Pruned directory (gone ++ [index]) d
      ((Change.unlink (pagePath directory index)).apply now d') := by
  refine ⟨h.files, h.refused, fun path => ?_⟩
  rw [Change.node?_unlink, h.node?]
  by_cases hindex : pagePath directory index = path
  · rw [if_pos hindex, if_pos ⟨index, by simp, hindex⟩]
  · rw [if_neg hindex]
    congr 1
    simp only [List.mem_append, List.mem_singleton, eq_iff_iff]
    constructor
    · intro hand
      obtain ⟨i, hi, hpath⟩ := hand
      exact ⟨i, .inl hi, hpath⟩
    · intro hand
      obtain ⟨i, hi | rfl, hpath⟩ := hand
      · exact ⟨i, hi, hpath⟩
      · exact absurd hpath hindex

end Disk.Pruned

namespace PageStore

variable {s t : Session PageStore}

/-- Where nothing is cached, deleting a page removes its file and nothing else. -/
theorem deletePage_ensures {index : Nat} (hcached : t.memory.cached = {})
    (hnode : ∃ id, t.host.disk.node? (pagePath t.memory.directory index) = some (.file id)) :
    (deletePage index).Ensures t fun _ u =>
      u = ⟨t.host.perform (.unlink (pagePath t.memory.directory index)), t.memory⟩ := by
  have hdrop : t.memory.drop index = t.memory := by
    rw [drop, hcached, Std.TreeMap.getElem?_emptyc]
  obtain ⟨id, hid⟩ := hnode
  have hpath : t.memory.pathOf index = pagePath t.memory.directory index := rfl
  unfold deletePage Ensures
  simp only [leads_bind, leads_update, leads_memory, leads_disk, hdrop, hpath, hid, leads_perform,
    leads_pure]

private theorem deletePages_ensures (all rest gone : List Nat) (hall : all = gone ++ rest)
    (hnodup : all.Nodup) (hpages : ∀ index ∈ all, s.host.disk.HasPage s.memory.directory index)
    (hmemory : t.memory = s.memory) (hcached : s.memory.cached = {})
    (hpruned : Disk.Pruned s.memory.directory gone s.host.disk t.host.disk)
    (htrail : Trail (fun d => ∃ gone, gone <+: all
      ∧ Disk.Pruned s.memory.directory gone s.host.disk d) s.host t.host) :
    (deletePages rest).Ensures t fun _ u => u.memory = s.memory
      ∧ Disk.Pruned s.memory.directory all s.host.disk u.host.disk
      ∧ Trail (fun d => ∃ gone, gone <+: all
          ∧ Disk.Pruned s.memory.directory gone s.host.disk d) s.host u.host := by
  unfold deletePages
  induction rest generalizing t gone with
  | nil =>
    rw [List.append_nil] at hall
    exact ⟨hmemory, hall ▸ hpruned, htrail⟩
  | cons first rest ih =>
    -- the next page is still there, as no page comes twice
    have hfirst : first ∉ gone := fun hmem => by
      rw [hall] at hnodup
      exact (List.nodup_append.mp hnodup).2.2 first hmem first List.mem_cons_self rfl
    have hpage := (hpruned.hasPage_iff first).mpr
      ⟨hpages first (hall ▸ List.mem_append_right gone List.mem_cons_self), hfirst⟩
    rw [← hmemory] at hpage
    have hall' : all = gone ++ [first] ++ rest := by
      rw [List.append_assoc, List.singleton_append, hall]
    have hpruned' := hpruned.unlink first t.host.now
    unfold Ensures
    rw [List.forM_eq_forM, List.forM_cons, leads_bind, leads_discard]
    refine (deletePage_ensures (hmemory ▸ hcached) hpage).leads.mono (fun _ u hu => ?_)
      fun _ _ => False.elim
    subst hu
    rw [hmemory]
    exact ih _ hall' rfl hpruned'
      (htrail.change (.unlink (pagePath s.memory.directory first))
      ⟨_, ⟨rest, hall'.symm⟩, hpruned'⟩)

/-- Where the numbers read off the names are those of pages, these are deleted in ascending
order. -/
theorem deleteAll_of_numbers (hdirectory : s.host.disk.node? s.memory.directory = some .directory)
    (hpages : ∀ index ∈ s.host.disk.pageNumbers s.memory.directory,
      s.host.disk.HasPage s.memory.directory index) :
    deleteAll.Ensures s fun _ u => ∃ all : List Nat, all.Pairwise (· < ·)
      ∧ (∀ index, index ∈ all ↔ index ∈ s.host.disk.pageNumbers s.memory.directory)
      ∧ u.memory = s.memory.dropAll
      ∧ Disk.Pruned s.memory.directory all s.host.disk u.host.disk
      ∧ Trail (fun d => ∃ gone, gone <+: all
          ∧ Disk.Pruned s.memory.directory gone s.host.disk d) s.host u.host := by
  have hsame := (same_dropAll s.memory).directory
  have hlisted := pageIndexes_ensures (s := ⟨s.host, s.memory.dropAll⟩) (hsame.symm ▸ hdirectory)
  unfold deleteAll Ensures
  simp only [leads_bind, leads_update]
  refine hlisted.leads.mono (fun indexes t ht => ?_) fun _ _ => False.elim
  obtain ⟨rfl, hindexes⟩ := ht
  have hmem (index : Nat) :
      index ∈ indexes.toList ↔ index ∈ s.host.disk.pageNumbers s.memory.directory := by
    rw [Std.TreeSet.mem_toList, hindexes, hsame]
  have hsorted : indexes.toList.Pairwise (· < ·) :=
    indexes.ordered_toList.imp fun hlt => Nat.compare_eq_lt.mp hlt
  have hdeleted := deletePages_ensures (s := ⟨s.host, s.memory.dropAll⟩)
    (t := ⟨s.host, s.memory.dropAll⟩) indexes.toList indexes.toList [] rfl
    (hsorted.imp Nat.ne_of_lt)
    (fun index hindex => by rw [hsame]; exact hpages index ((hmem index).mp hindex))
    rfl rfl (.nil _ _) (.start ⟨[], List.nil_prefix, .nil _ _⟩)
  rw [hsame] at hdeleted
  exact hdeleted.mono fun _ u hu => ⟨indexes.toList, hsorted, hmem, hu⟩

/-- All pages are deleted in ascending order. -/
theorem deleteAll_ensures (htidy : s.host.disk.Tidy s.memory.directory) :
    deleteAll.Ensures s fun _ u => ∃ all : List Nat, all.Pairwise (· < ·)
      ∧ (∀ index, index ∈ all ↔ s.host.disk.HasPage s.memory.directory index)
      ∧ u.memory = s.memory.dropAll
      ∧ Disk.Pruned s.memory.directory all s.host.disk u.host.disk
      ∧ Trail (fun d => ∃ gone, gone <+: all
          ∧ Disk.Pruned s.memory.directory gone s.host.disk d) s.host u.host := by
  refine (deleteAll_of_numbers htidy.isDirectory fun index =>
    (htidy.mem_pageNumbers_iff index).mp).mono ?_
  intro _ u hu
  obtain ⟨all, hsorted, hmem, hrest⟩ := hu
  exact ⟨all, hsorted, fun index => (hmem index).trans (htidy.mem_pageNumbers_iff index), hrest⟩

end PageStore

namespace PagedFile

open PageStore (Ready Access)

/-- A file that is emptied loses its pages one by one, in ascending order. -/
theorem reset_ensures {s : Session PagedFile} (hready : IsReady s)
    (htidy : s.host.disk.Tidy s.memory.store.directory) :
    reset.Ensures s fun _ t => ∃ all : List Nat, all.Pairwise (· < ·)
      ∧ (∀ index, index ∈ all ↔ s.host.disk.HasPage s.memory.store.directory index)
      ∧ Access (fun d => ∃ gone, gone <+: all
          ∧ Disk.Pruned s.memory.store.directory gone s.host.disk d) (s.part store) (t.part store)
      ∧ t.host.disk.Tidy s.memory.store.directory
      ∧ ∀ index, ¬ t.host.disk.HasPage s.memory.store.directory index := by
  unfold reset onStore Ensures
  simp only [leads_bind, leads_update, leads_within]
  refine (PageStore.deleteAll_ensures (s := s.part store) htidy).leads.mono ?_ fun _ _ => False.elim
  intro _ t ht
  obtain ⟨all, hsorted, hall, hmemory, hpruned, htrail⟩ := ht
  refine ⟨all, hsorted, hall, ⟨?_, hpruned.sound hready.sound, ?_, htrail⟩, hpruned.tidy htidy, ?_⟩
  · show PageStore.Same s.memory.store t.memory
    rw [hmemory]
    exact PageStore.same_dropAll _
  · show t.memory.Coherent t.host.disk
    rw [hmemory]
    exact PageStore.coherent_dropAll _ _
  · intro index hpage
    obtain ⟨hold, hkept⟩ := (hpruned.hasPage_iff index).mp hpage
    exact hkept ((hall index).mpr hold)

end PagedFile

end PagedQueue
