import PagedQueue.Proofs.PageCatalog

/-!
# The pages found in a directory

Which pages a directory has is read off the names in it. A file counts as a page in any spelling of
the page's number, and not only in the one that is written: a sign or zeros before the digits do no
harm (`other_names_are_read`). So a page is found if there is a spelling of it in the directory, and
if there is no other one than the written name, exactly if there is something of this name
(`page_names_read`).
-/

namespace PagedQueue

open Procedure
open Decimal (Spelling)
open Disk (pagePath)
open PageStore (pageIndexes)

/-- A name is read as a page exactly if it spells the page and the number of the page is in range.
So the written name and no other is read as the page unless the name is a spelling with a sign or
with zeros. The pages that a directory is found to hold are those of which it has a spelling, and
where it has a page in no other spelling, the page is found exactly if there is something of its
written name. -/
theorem page_names_read (name : String) (index : Nat) :
    (PageName.index? name = some index
      ↔ index ≤ PageName.maxIndex ∧ ∃ how : Spelling, name = PageName.spell how index)
    ∧ (index ≤ PageName.maxIndex →
      ((PageName.index? name = some index ↔ name = PageName.ofIndex index)
      ↔ ∀ how : Spelling, name = PageName.spell how index → how = .plain))
    ∧ ∀ s : Session PageStore, s.host.disk.node? s.memory.directory = some .directory →
      pageIndexes.Ensures s fun indexes t => t = s
        ∧ (index ∈ indexes ↔ index ≤ PageName.maxIndex ∧ ∃ (how : Spelling) (node : Node),
          s.host.disk.node? (s.memory.directory ++ [PageName.spell how index]) = some node)
        ∧ (index ≤ PageName.maxIndex →
          (∀ (how : Spelling) (node : Node),
            s.host.disk.node? (s.memory.directory ++ [PageName.spell how index]) = some node →
              how = .plain) →
          (index ∈ indexes
            ↔ ∃ node : Node, s.host.disk.node? (pagePath s.memory.directory index)
              = some node)) := by
  refine ⟨PageName.index?_eq_some_iff, PageName.index?_eq_some_iff_eq_ofIndex,
    fun s hdirectory => ?_⟩
  refine (PageStore.pageIndexes_ensures hdirectory).mono fun indexes t ht => ?_
  obtain ⟨rfl, hindexes⟩ := ht
  have hspelled : index ∈ indexes ↔ index ≤ PageName.maxIndex ∧ ∃ (how : Spelling) (node : Node),
      t.host.disk.node? (t.memory.directory ++ [PageName.spell how index]) = some node := by
    rw [hindexes, Disk.mem_pageNumbers hdirectory]
    constructor
    · rintro ⟨name, node, hnode, hindex⟩
      obtain ⟨hle, how, rfl⟩ := PageName.index?_eq_some_iff.mp hindex
      exact ⟨hle, how, node, hnode⟩
    · rintro ⟨hle, how, node, hnode⟩
      exact ⟨_, node, hnode, PageName.index?_eq_some_iff.mpr ⟨hle, how, rfl⟩⟩
  refine ⟨rfl, hspelled, fun hle hplain => ?_⟩
  rw [hspelled, pagePath, ← PageName.spell_plain]
  constructor
  · rintro ⟨-, how, node, hnode⟩
    obtain rfl := hplain how node hnode
    exact ⟨node, hnode⟩
  · rintro ⟨node, hnode⟩
    exact ⟨hle, .plain, node, hnode⟩

/-! ## One file in a directory -/

/-- A store over a directory with one file, in whose cache nothing is. -/
def oneFileStore (name : String) : Session PageStore :=
  ⟨⟨(Change.create ["pages", name]).apply 1 <| (Change.makeDirectory ["pages"]).apply 0 {},
    ⟨fun _ => 9, 0⟩, []⟩, .opened ["pages"] 8 PageStore.eightBytes_pos 1⟩

/-- A page is found by a name that is filled up with a zero. -/
theorem page_names_read_filled :
    (oneFileStore "page-05.dat").host.disk.node? ["pages"] = some .directory
    ∧ ∃ indexes, pageIndexes.outcome (oneFileStore "page-05.dat")
      = (.ok indexes, oneFileStore "page-05.dat")
      ∧ 5 ∈ indexes := by
  have hdirectory : (oneFileStore "page-05.dat").host.disk.node? ["pages"] = some .directory := by
    decide +kernel
  obtain ⟨-, -, hfound⟩ := page_names_read "page-05.dat" 5
  obtain ⟨indexes, _, hrun, rfl, hindex, -⟩ := (hfound _ hdirectory).outcome
  exact ⟨hdirectory, indexes, hrun, hindex.mpr ⟨by decide, ⟨false, 1⟩, .file 0, by decide +kernel⟩⟩

/-- Names that are written for no page are read as pages, two of them as the same one, and a page is
found in a directory that has no file of its name. -/
theorem other_names_are_read :
    (¬ ∀ (name : String) (index : Nat), index ≤ PageName.maxIndex →
      (PageName.index? name = some index ↔ name = PageName.ofIndex index))
    ∧ PageName.index? "page-+5.dat" = some 5 ∧ PageName.index? "page-05.dat" = some 5
    ∧ ((pageIndexes.outcome (oneFileStore "page-+5.dat")).1.toOption.map (·.toList) = some [5])
    ∧ (oneFileStore "page-+5.dat").host.disk.node? (pagePath ["pages"] 5) = none := by
  have hsigned : PageName.index? "page-+5.dat" = some 5 := by decide +kernel
  refine ⟨fun hall => ?_, hsigned, ?_, ?_, ?_⟩
  · have hname := (hall "page-+5.dat" 5 (by decide)).mp hsigned
    exact absurd hname (by decide +kernel)
  all_goals decide +kernel

end PagedQueue
