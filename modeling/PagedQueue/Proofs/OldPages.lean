import PagedQueue.Proofs.PageCatalog

/-!
# Deleting old pages

Which pages are old is read off the names in the directory (`PageStore.Aged`), and a page is deleted
under the name that is written for its number (`PageStore.deletePages_unlinks`). So of all files
those go that bear the name of a page one of whose files is old (`PageStore.Condemned`), and nothing
else happens to the disk.

Where each name that is read as a page is the one that is written for it, these are the old page
files (`condemned_iff_stale`, `old_pages_deleted`). A page may have files of other names too, as
reading is more liberal: then an old one of these stays, and takes a new one with the page's own
name with it (`new_page_deleted`).
-/

namespace PagedQueue

open Procedure
open Disk (pagePath)

/-- Some paths lead nowhere any more, and nothing else changed. -/
structure Disk.Unlinked (gone : Path → Prop) (d d' : Disk) : Prop where
  files : d'.files = d.files
  node?_gone : ∀ {path}, gone path → d'.node? path = none
  node?_kept : ∀ {path}, ¬ gone path → d'.node? path = d.node? path

namespace PageStore

/-- The directory has an entry of this page that was last modified before a time. -/
def Aged (s : Session PageStore) (time : Int) (index : Nat) : Prop :=
  ∃ name node, s.host.disk.node? (s.memory.directory ++ [name]) = some node
  ∧ PageName.index? name = some index
    ∧ modificationTime s.host.disk s.host.now (s.memory.directory ++ [name]) < time

/-- A file that counts as a page and was last modified before a time. -/
def Stale (s : Session PageStore) (time : Int) (path : Path) : Prop :=
  ∃ name index id, path = s.memory.directory ++ [name] ∧ s.host.disk.node? path = some (.file id)
    ∧ PageName.index? name = some index ∧ modificationTime s.host.disk s.host.now path < time

/-- The file that bears the name of a page, where the directory has an old file of that page. -/
def Condemned (s : Session PageStore) (time : Int) (path : Path) : Prop :=
  ∃ index id, path = pagePath s.memory.directory index ∧ s.host.disk.node? path = some (.file id)
    ∧ Aged s time index

variable {s t : Session PageStore} {time : Int}

/-- If each page has a file of one name only, the files that go are the old ones. -/
theorem condemned_iff_stale (hplain : ∀ {name : String} {node : Node} {index : Nat},
      s.host.disk.node? (s.memory.directory ++ [name]) = some node →
        PageName.index? name = some index →
        name = PageName.ofIndex index) (path : Path) :
    Condemned s time path ↔ Stale s time path := by
  constructor
  · rintro ⟨index, id, rfl, hfile, name, node, hnode, hindex, hold⟩
    obtain rfl := hplain hnode hindex
    exact ⟨_, index, id, rfl, hfile, hindex, hold⟩
  · rintro ⟨name, index, id, rfl, hfile, hindex, hold⟩
    refine ⟨index, id, ?_, hfile, name, .file id, hfile, hindex, hold⟩
    rw [pagePath, ← hplain hfile hindex]

/-- The entries that count as pages are told, and nothing changes. -/
theorem pageEntries_lists (h : s.host.disk.node? s.memory.directory = some .directory) :
    pageEntries.Ensures s fun entries u => u = s ∧ ∀ name index node, (name, index, node) ∈ entries
      ↔ s.host.disk.node? (s.memory.directory ++ [name]) = some node
      ∧ PageName.index? name = some index := by
  obtain ⟨entries, heq, hentries⟩ := Disk.children?_of_directory h
  unfold pageEntries Ensures
  simp only [leads_bind, leads_disk, leads_memory, heq, leads_ofOption_some, leads_pure]
  refine ⟨trivial, fun name index node => ?_⟩
  rw [← hentries name node, List.mem_filterMap]
  constructor
  · rintro ⟨⟨name', node'⟩, hmem, hsome⟩
    obtain ⟨index', hindex, heq⟩ := Option.map_eq_some_iff.mp hsome
    cases heq
    exact ⟨hmem, hindex⟩
  · rintro ⟨hmem, hindex⟩
    exact ⟨(name, node), hmem, Option.map_eq_some_iff.mpr ⟨index, hindex, rfl⟩⟩

/-- Which pages are old is told, and nothing changes. -/
theorem pageIndexesBefore_ensures (h : s.host.disk.node? s.memory.directory = some .directory)
    (time : Int) :
    (pageIndexesBefore time).Ensures s fun indexes u => u = ⟨s.host.looked, s.memory⟩
      ∧ ∀ index, index ∈ indexes ↔ Aged s time index := by
  unfold pageIndexesBefore Ensures
  simp only [leads_bind, leads_disk, leads_look, leads_memory, leads_pure]
  refine (pageEntries_lists (s := ⟨s.host.looked, s.memory⟩) h).leads.mono (fun entries u hu => ?_)
    fun _ _ => False.elim
  obtain ⟨rfl, hentries⟩ := hu
  refine ⟨rfl, fun index => ?_⟩
  rw [IndexSet.mem_ofList, List.mem_map]
  constructor
  · rintro ⟨⟨name, _, node⟩, hmem, rfl⟩
    obtain ⟨hmem, hold⟩ := List.mem_filter.mp hmem
    obtain ⟨hnode, hindex⟩ := (hentries _ _ _).mp hmem
    exact ⟨name, node, hnode, hindex, of_decide_eq_true hold⟩
  · rintro ⟨name, node, hnode, hindex, hold⟩
    exact ⟨(name, index, node),
      List.mem_filter.mpr ⟨(hentries _ _ _).mpr ⟨hnode, hindex⟩, decide_eq_true hold⟩, rfl⟩

/-! ## Deleting pages whatever is in the cache -/

theorem same_drop (s : PageStore) (index : Nat) : Same s (s.drop index) := by
  unfold drop
  split
  · exact ⟨rfl, rfl, rfl⟩
  · exact .refl s

/-- The files that bear the names of these pages. -/
def FileOf (s : Session PageStore) (indexes : List Nat) (path : Path) : Prop :=
  ∃ index ∈ indexes, path = pagePath s.memory.directory index
  ∧ ∃ id, s.host.disk.node? path = some (.file id)

/-- A page leaves the cache, and its file is gone if it had one. -/
theorem deletePage_unlinks (index : Nat) : (deletePage index).Ensures s fun _ t =>
    t.memory = s.memory.drop index ∧ Disk.Unlinked (FileOf s [index]) s.host.disk t.host.disk := by
  have hpath : (s.memory.drop index).pathOf index = pagePath s.memory.directory index := by
    rw [pathOf, (same_drop s.memory index).directory, pagePath]
  unfold deletePage Ensures
  simp only [leads_bind, leads_update, leads_memory, leads_disk, hpath]
  split
  next id hfile =>
    simp only [leads_bind, leads_perform, leads_pure]
    refine ⟨trivial, rfl, fun hgone => ?_, fun hkept => ?_⟩
    · obtain ⟨_, hmem, rfl, -⟩ := hgone
      obtain rfl := List.mem_singleton.mp hmem
      rw [Host.perform, Change.node?_unlink, if_pos rfl]
    · rw [Host.perform, Change.node?_unlink, if_neg]
      intro heq
      exact hkept ⟨index, List.mem_singleton_self _, heq.symm, id, heq ▸ hfile⟩
  all_goals
    next hother =>
      refine ⟨rfl, rfl, fun hgone => ?_, fun _ => rfl⟩
      obtain ⟨_, hmem, rfl, id, hfile⟩ := hgone
      obtain rfl := List.mem_singleton.mp hmem
      rw [hother] at hfile
      cases hfile

theorem deletePages_unlinks (indexes : List Nat) : (deletePages indexes).Ensures s fun _ t =>
    t.memory = indexes.foldl drop s.memory
    ∧ Disk.Unlinked (FileOf s indexes) s.host.disk t.host.disk := by
  unfold deletePages Ensures
  induction indexes generalizing s with
  | nil => exact ⟨rfl, rfl, fun hgone => absurd hgone (by simp [FileOf]), fun _ => rfl⟩
  | cons first rest ih =>
    rw [List.forM_eq_forM, List.forM_cons, leads_bind, leads_discard]
    refine (deletePage_unlinks first).leads.mono (fun _ t ht => ?_) fun _ _ => False.elim
    obtain ⟨hmemory, hfirst⟩ := ht
    refine ih.mono (fun _ u hu => ?_) fun _ _ => id
    obtain ⟨hmemory', hrest⟩ := hu
    have hdirectory : t.memory.directory = s.memory.directory := by
      rw [hmemory]
      exact (same_drop s.memory first).directory
    -- the rest of the pages have the files that they had, but for those that are gone
    have hiff {path : Path} (hkept : ¬ FileOf s [first] path) :
        FileOf t rest path ↔ FileOf s rest path := by
      rw [FileOf, FileOf, hdirectory, hfirst.node?_kept hkept]
    refine ⟨by rw [hmemory', hmemory, List.foldl_cons], hrest.files.trans hfirst.files, ?_, ?_⟩
    · intro path hgone
      by_cases hone : FileOf s [first] path
      · rw [hrest.node?_kept, hfirst.node?_gone hone]
        rintro ⟨_, _, _, id, hfile⟩
        rw [hfirst.node?_gone hone] at hfile
        cases hfile
      · obtain ⟨index, hmem, hpath, hfile⟩ := hgone
        rcases List.mem_cons.mp hmem with rfl | hmem
        · exact absurd ⟨index, List.mem_singleton_self _, hpath, hfile⟩ hone
        · exact hrest.node?_gone ((hiff hone).mpr ⟨index, hmem, hpath, hfile⟩)
    · intro path hkept
      have hone : ¬ FileOf s [first] path := fun ⟨index, hmem, hrest⟩ =>
        hkept ⟨index, List.mem_cons.mpr (.inl (List.mem_singleton.mp hmem)), hrest⟩
      rw [hrest.node?_kept fun hgone => ?_, hfirst.node?_kept hone]
      obtain ⟨index, hmem, hrest⟩ := (hiff hone).mp hgone
      exact hkept ⟨index, List.mem_cons_of_mem _ hmem, hrest⟩

/-- A page that is dropped leaves the cache, and no other one does. -/
theorem cached_drop (s : PageStore) (index other : Nat) :
    (s.drop index).cached[other]? = if index = other then none else s.cached[other]? := by
  unfold drop
  split
  · rw [Std.TreeMap.getElem?_erase]
    simp only [Std.LawfulEqCmp.compare_eq_iff_eq]
  next hnone =>
    split
    next heq => exact heq ▸ hnone
    next => rfl

theorem cached_foldl_drop (indexes : List Nat) (s : PageStore) (other : Nat) :
    (indexes.foldl drop s).cached[other]? = if other ∈ indexes then none else s.cached[other]? := by
  induction indexes generalizing s with
  | nil => simp
  | cons first rest ih =>
    rw [List.foldl_cons, ih, cached_drop]
    by_cases hother : other ∈ rest
    · simp [hother]
    · simp [hother, eq_comm]

end PageStore

open PageStore (deleteBefore Aged Stale Condemned)

/-- Whatever is in a directory and in the cache, and whatever the time is, the pages before it are
deleted. The pages that have an old file leave the cache. Of all files those go that bear the name
of such a page, and nothing else happens to the disk. If each name that is read as a page is the one
that is written for it, these are the old page files. -/
theorem old_pages_deleted (s : Session PageStore) (time : Int)
    (hdirectory : s.host.disk.node? s.memory.directory = some .directory) :
    (deleteBefore time).Ensures s fun _ t =>
      Disk.Unlinked (Condemned s time) s.host.disk t.host.disk
      ∧ (∀ index : Nat, (Aged s time index → t.memory.cached[index]? = none)
        ∧ (¬ Aged s time index → t.memory.cached[index]? = s.memory.cached[index]?))
      ∧ ((∀ {name : String} {node : Node} {index : Nat},
          s.host.disk.node? (s.memory.directory ++ [name]) = some node →
            PageName.index? name = some index →
            name = PageName.ofIndex index) →
              Disk.Unlinked (Stale s time) s.host.disk t.host.disk) := by
  unfold deleteBefore Ensures
  rw [leads_bind]
  refine (PageStore.pageIndexesBefore_ensures hdirectory time).leads.mono (fun indexes t ht => ?_)
    fun _ _ => False.elim
  obtain ⟨rfl, hindexes⟩ := ht
  refine (PageStore.deletePages_unlinks indexes.toList).leads.mono
    (fun _ u hu => ?_) fun _ _ => False.elim
  obtain ⟨hmemory, hunlinked⟩ := hu
  have hmem (index : Nat) : index ∈ indexes.toList ↔ Aged s time index := by
    rw [Std.TreeSet.mem_toList, hindexes]
  have hcondemned : PageStore.FileOf ⟨s.host.looked, s.memory⟩ indexes.toList
      = Condemned s time := by
    funext path
    refine propext ⟨?_, ?_⟩
    · rintro ⟨index, hin, hpath, id, hfile⟩
      exact ⟨index, id, hpath, hfile, (hmem index).mp hin⟩
    · rintro ⟨index, id, hpath, hfile, haged⟩
      exact ⟨index, (hmem index).mpr haged, hpath, id, hfile⟩
  rw [hcondemned] at hunlinked
  refine ⟨hunlinked, fun index => ?_, fun hplain => ?_⟩
  · rw [hmemory, PageStore.cached_foldl_drop]
    exact ⟨fun haged => if_pos ((hmem index).mpr haged), fun hyoung =>
      if_neg (hyoung ∘ (hmem index).mp)⟩
  · have hstale : Condemned s time = Stale s time :=
      funext fun path => propext (PageStore.condemned_iff_stale hplain path)
    exact hstale ▸ hunlinked

/-! ## Two files in a directory -/

/-- Two files that were made at different times. -/
def datedDisk (old new : String) : Disk :=
  (Change.create ["pages", new]).apply 9 <| (Change.create ["pages", old]).apply 1 <|
    (Change.makeDirectory ["pages"]).apply 0 {}

/-- A store over these files in whose cache nothing is. -/
def datedStore (old new : String) : Session PageStore :=
  ⟨⟨datedDisk old new, ⟨fun _ => 9, 0⟩, []⟩, .opened ["pages"] 8 PageStore.eightBytes_pos 1⟩

/-- The older one of two pages is deleted. -/
theorem old_pages_deleted_older :
    (datedStore "page-0.dat" "page-1.dat").host.disk.node? ["pages"] = some .directory
    ∧ ∃ t, (deleteBefore 5).outcome (datedStore "page-0.dat" "page-1.dat") = (.ok (), t)
      ∧ t.host.disk.node? ["pages", "page-0.dat"] = none
      ∧ t.host.disk.node? ["pages", "page-1.dat"] = some (.file 1) := by
  have hdirectory : (datedStore "page-0.dat" "page-1.dat").host.disk.node? ["pages"]
      = some .directory := by
    decide +kernel
  obtain ⟨_, t, hrun, hunlinked, -⟩ := (old_pages_deleted _ 5 hdirectory).outcome
  have hold : Aged (datedStore "page-0.dat" "page-1.dat") 5 0 :=
    ⟨"page-0.dat", .file 0, by decide +kernel, by decide +kernel, by decide +kernel⟩
  have hgone := hunlinked.node?_gone ⟨0, 0, rfl, by decide +kernel, hold⟩
  have ht : t = ((deleteBefore 5).outcome (datedStore "page-0.dat" "page-1.dat")).2 := by rw [hrun]
  exact ⟨hdirectory, t, hrun, hgone, by rw [ht]; decide +kernel⟩

/-- A page that is new is deleted, and an old file of the same page under another name stays. -/
theorem new_page_deleted : ∃ s : Session PageStore, ((deleteBefore 5).outcome s).1 = .ok ()
    ∧ s.host.disk.node? ["pages", "page-5.dat"] = some (.file 1)
    ∧ PageStore.modificationTime s.host.disk s.host.now ["pages", "page-5.dat"] = 9
    ∧ ((deleteBefore 5).outcome s).2.host.disk.node? ["pages", "page-5.dat"] = none
    ∧ Stale s 5 ["pages", "page-+5.dat"]
    ∧ ((deleteBefore 5).outcome s).2.host.disk.node? ["pages", "page-+5.dat"] = some (.file 0) := by
  have hstale : Stale (datedStore "page-+5.dat" "page-5.dat") 5 ["pages", "page-+5.dat"] :=
    ⟨"page-+5.dat", 5, 0, rfl, by decide +kernel, by decide +kernel, by decide +kernel⟩
  refine ⟨datedStore "page-+5.dat" "page-5.dat", ?_, ?_, ?_, ?_, hstale, ?_⟩ <;> decide +kernel

end PagedQueue
