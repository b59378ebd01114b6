import PagedQueue.Proofs.OldPages

/-!
# The newest page

Pages are numbered in a circle, so the newest of some pages is one whose number is not followed by
another of them (`IndexSet.IsNewest`). If the pages do not lie around the end of the numbers, it is
the greatest one, and otherwise the end of the unbroken run that begins at zero. As long as a number
is missing somewhere, the newest one is found (`IndexSet.newest_ensures`), so the newest page before
a time is told for any directory whose pages before that time do not make up the whole circle
(`newest_page_told`).

What is found in a directory is read by its name alone. A directory that bears the name of a page
counts as a page as well (`PageStore.Aged`), and it may be told where the files
(`PageStore.AgedFile`) have another newest page (`newest_page_is_directory`).
-/

namespace PagedQueue

open Procedure
open PageStore (Aged newestBefore)

namespace IndexSet

/-- What makes a number the newest one in the circle of numbers, where `taken` tells which are
there. -/
structure IsNewest (taken : Nat → Prop) (index : Nat) : Prop where
  isTaken : taken index
  /-- The number after it in the circle is not there. -/
  free_next : ¬ taken ((index + 1) % UInt64.size)
  /-- Without pages on both sides of the end of the numbers it is the greatest. -/
  greatest : ¬ (taken PageName.maxIndex ∧ taken 0) → ∀ other, taken other → other ≤ index
  /-- With pages on both sides it ends the run that begins at zero. -/
  endsRun : taken PageName.maxIndex ∧ taken 0 → (∀ other ≤ index, taken other) ∧ ¬ taken (index + 1)

/-- An answer that tells the newest number, or that there is none. -/
structure Tells (taken : Nat → Prop) (answer : Option Nat) : Prop where
  none_iff : answer = none ↔ ∀ index, ¬ taken index
  isNewest : ∀ index, answer = some index → IsNewest taken index

variable {indexes : IndexSet}

/-- The greatest number is the newest if the numbers do not reach the end of the circle. -/
theorem isNewest_of_lt_maxIndex {index : Nat} (hgreatest : greatest indexes = some index)
    (hlt : index < PageName.maxIndex) : IsNewest (· ∈ indexes) index := by
  obtain ⟨hmem, hle⟩ := greatest_eq_some hgreatest
  have hnext : (index + 1) % UInt64.size = index + 1 := Nat.mod_eq_of_lt (Nat.add_lt_of_lt_sub hlt)
  refine ⟨hmem, fun hin => ?_, fun _ => hle, fun hends => ?_⟩
  · rw [hnext] at hin
    exact Nat.not_succ_le_self index (hle _ hin)
  · exact absurd (hle _ hends.1) (Nat.not_le_of_gt hlt)

/-- The end of the circle is the newest number if zero is missing. -/
theorem isNewest_maxIndex (hlast : PageName.maxIndex ∈ indexes) (hzero : 0 ∉ indexes)
    (hrange : ∀ index ∈ indexes, index ≤ PageName.maxIndex) :
    IsNewest (· ∈ indexes) PageName.maxIndex where
  isTaken := hlast
  free_next := hzero
  greatest _ := hrange
  endsRun hends := absurd hends.2 hzero

/-- The number before the first missing one is the newest if the numbers lie around the end of the
circle. -/
theorem isNewest_of_run {index : Nat} (hlast : PageName.maxIndex ∈ indexes)
    (hfirst : firstMissing? indexes 0 = some (index + 1)) : IsNewest (· ∈ indexes) index := by
  obtain ⟨hmissing, hle, hrun⟩ := firstMissing?_eq_some (Nat.zero_le _) hfirst
  have hnext : (index + 1) % UInt64.size = index + 1 :=
    Nat.mod_eq_of_lt (Nat.lt_of_le_of_lt hle (by decide))
  have hin (other : Nat) (hother : other ≤ index) : other ∈ indexes :=
    hrun other (Nat.zero_le _) (Nat.lt_succ_of_le hother)
  refine ⟨hin index (Nat.le_refl _), ?_, fun hapart => ?_, fun _ => ⟨hin, hmissing⟩⟩
  · rwa [hnext]
  · exact absurd ⟨hlast, hin 0 (Nat.zero_le _)⟩ hapart

/-- If some number is missing, the newest one is told, or that there is none. -/
theorem newest_ensures (hrange : ∀ index ∈ indexes, index ≤ PageName.maxIndex)
    (hgap : ∃ index ≤ PageName.maxIndex, index ∉ indexes) :
    ∃ answer, newest indexes = .ok answer ∧ Tells (· ∈ indexes) answer := by
  have hfound {answer : Nat} (hanswer : newest indexes = .ok (some answer))
      (h : IsNewest (· ∈ indexes) answer) :
      ∃ answer, newest indexes = .ok answer ∧ Tells (· ∈ indexes) answer := by
    refine ⟨some answer, hanswer, ?_, fun index hsome => Option.some.inj hsome ▸ h⟩
    exact ⟨fun hnone => (nomatch hnone), fun hempty => absurd h.isTaken (hempty _)⟩
  cases hgreatest : greatest indexes with
  | none =>
    have hempty := greatest_eq_none_iff.mp hgreatest
    refine ⟨none, ?_, iff_of_true rfl hempty, fun _ hsome => nomatch hsome⟩
    rw [newest, hgreatest]
  | some largest =>
    obtain ⟨hlargest, -⟩ := greatest_eq_some hgreatest
    by_cases hend : largest = PageName.maxIndex
    · subst hend
      cases hfirst : firstMissing? indexes 0 with
      | none =>
        -- the count passes the end only if no number is missing
        obtain ⟨index, hle, hmissing⟩ := hgap
        exact absurd (firstMissing?_eq_none hfirst (Nat.zero_le _) hle) hmissing
      | some stop =>
        cases stop with
        | zero =>
          have hzero := (firstMissing?_eq_some (Nat.zero_le _) hfirst).1
          exact hfound (by simp [newest, hgreatest, hfirst])
            (isNewest_maxIndex hlargest hzero hrange)
        | succ index =>
          exact hfound (by simp [newest, hgreatest, hfirst]) (isNewest_of_run hlargest hfirst)
    · have hlt := Nat.lt_of_le_of_ne (hrange _ hlargest) hend
      exact hfound (by simp [newest, hgreatest, hend]) (isNewest_of_lt_maxIndex hgreatest hlt)

end IndexSet

/-- A page that has an old file has a number in range. -/
theorem PageStore.Aged.le_maxIndex {s : Session PageStore} {time : Int} {index : Nat}
    (h : Aged s time index) : index ≤ PageName.maxIndex := by
  obtain ⟨_, _, -, hindex, -⟩ := h
  exact PageName.le_maxIndex_of_index? hindex

/-- The directory has a file of this page that was last modified before a time. -/
def PageStore.AgedFile (s : Session PageStore) (time : Int) (index : Nat) : Prop :=
  ∃ name id, s.host.disk.node? (s.memory.directory ++ [name]) = some (.file id)
    ∧ PageName.index? name = some index
    ∧ PageStore.modificationTime s.host.disk s.host.now (s.memory.directory ++ [name]) < time

/-- No directory bears a name that is read as a page. -/
def PageStore.PagesAreFiles (s : Session PageStore) : Prop :=
  ∀ name, s.host.disk.node? (s.memory.directory ++ [name]) = some .directory →
    PageName.index? name = none

/-- Where no directory counts as a page, the old pages are the pages that have an old file. -/
theorem PageStore.PagesAreFiles.aged_eq {s : Session PageStore} (h : PagesAreFiles s) (time : Int) :
    Aged s time = AgedFile s time := by
  funext index
  refine propext ⟨?_, ?_⟩
  · rintro ⟨name, node, hnode, hindex, hold⟩
    cases node with
    | directory =>
      rw [h name hnode] at hindex
      cases hindex
    | file id => exact ⟨name, id, hnode, hindex, hold⟩
  · rintro ⟨name, id, hnode, hindex, hold⟩
    exact ⟨name, .file id, hnode, hindex, hold⟩

/-- It is enough that none of the entries that count as pages is a directory. -/
theorem PageStore.pagesAreFiles_of_pageEntries {s : Session PageStore}
    (hdirectory : s.host.disk.node? s.memory.directory = some .directory)
    (hentries : ((PageStore.pageEntries.outcome s).1.toOption.all fun entries =>
      entries.all fun entry => entry.2.2 ≠ .directory) = true) : PagesAreFiles s := by
  intro name hnode
  obtain ⟨entries, t, hrun, rfl, hlists⟩ := (pageEntries_lists hdirectory).outcome
  rw [hrun] at hentries
  cases hindex : PageName.index? name with
  | none => rfl
  | some index =>
    have hfile :=
      List.all_eq_true.mp hentries _ ((hlists name index .directory).mpr ⟨hnode, hindex⟩)
    simp at hfile

/-- Whatever is in a directory, the newest page before a time is told, unless the pages before that
time make up the whole circle of numbers. It is told that there is none exactly if no entry that
counts as a page is that old, and the page that is told is the newest of them in the circle. Nothing
is changed. If no directory bears the name of a page, this is the newest page of the old page
files. -/
theorem newest_page_told (s : Session PageStore) (time : Int)
    (hdirectory : s.host.disk.node? s.memory.directory = some .directory)
    (hgap : ∃ index ≤ PageName.maxIndex, ¬ Aged s time index) :
    (newestBefore time).Ensures s fun answer t => t = ⟨s.host.looked, s.memory⟩
      ∧ IndexSet.Tells (Aged s time) answer
      ∧ (PageStore.PagesAreFiles s → IndexSet.Tells (PageStore.AgedFile s time) answer) := by
  unfold newestBefore Ensures
  rw [leads_bind]
  refine (PageStore.pageIndexesBefore_ensures hdirectory time).leads.mono (fun indexes t ht => ?_)
    fun _ _ => False.elim
  obtain ⟨rfl, hindexes⟩ := ht
  have haged : (· ∈ indexes) = Aged s time := funext fun index => propext (hindexes index)
  have hrange (index : Nat) (hmem : index ∈ indexes) : index ≤ PageName.maxIndex :=
    ((hindexes index).mp hmem).le_maxIndex
  have hmissing : ∃ index ≤ PageName.maxIndex, index ∉ indexes := by
    obtain ⟨index, hle, hyoung⟩ := hgap
    exact ⟨index, hle, hyoung ∘ (hindexes index).mp⟩
  obtain ⟨answer, hanswer, htells⟩ := IndexSet.newest_ensures hrange hmissing
  rw [hanswer, leads_ofExcept_ok]
  rw [haged] at htells
  exact ⟨rfl, htells, fun hfiles => hfiles.aged_eq time ▸ htells⟩

/-! ## Pages on both sides of the end -/

/-- Pages before and after the end of the numbers, all of them old but the last. -/
def circleDisk : Disk :=
  (Change.create ["pages", "page-2.dat"]).apply 9 <|
  (Change.create ["pages", "page-1.dat"]).apply 1 <|
    (Change.create ["pages", "page-0.dat"]).apply 1 <|
      (Change.create ["pages", "page-18446744073709551615.dat"]).apply 1 <|
        (Change.makeDirectory ["pages"]).apply 0 {}

/-- A store over these pages in whose cache nothing is. -/
def circleStore : Session PageStore :=
  ⟨⟨circleDisk, ⟨fun _ => 9, 0⟩, []⟩, .opened ["pages"] 8 PageStore.eightBytes_pos 1⟩

theorem aged_circleStore :
    ∀ index, Aged circleStore 5 index ↔ index ∈ [0, 1, PageName.maxIndex] := by
  have hdirectory : circleStore.host.disk.node? ["pages"] = some .directory := by decide +kernel
  obtain ⟨indexes, t, hrun, -, hindexes⟩ :=
    (PageStore.pageIndexesBefore_ensures hdirectory 5).outcome
  have hlist : indexes.toList = [0, 1, PageName.maxIndex] := by
    have heq : ((PageStore.pageIndexesBefore 5).outcome circleStore).1.toOption.map (·.toList)
        = some [0, 1, PageName.maxIndex] := by decide +kernel
    rw [hrun] at heq
    exact Option.some.inj heq
  intro index
  rw [← hindexes, ← Std.TreeSet.mem_toList, hlist]

theorem pagesAreFiles_circleStore : PageStore.PagesAreFiles circleStore := by
  have hdirectory : circleStore.host.disk.node? ["pages"] = some .directory := by decide +kernel
  refine PageStore.pagesAreFiles_of_pageEntries (s := circleStore) hdirectory ?_
  decide +kernel

/-- The newest page is found behind the end of the numbers. -/
theorem newest_page_told_around :
    circleStore.host.disk.node? ["pages"] = some .directory
    ∧ (∃ index ≤ PageName.maxIndex, ¬ Aged circleStore 5 index)
    ∧ PageStore.PagesAreFiles circleStore
    ∧ ∃ t, (newestBefore 5).outcome circleStore = (.ok (some 1), t)
      ∧ IndexSet.IsNewest (PageStore.AgedFile circleStore 5) 1 := by
  have hdirectory : circleStore.host.disk.node? ["pages"] = some .directory := by decide +kernel
  have hgap : ∃ index ≤ PageName.maxIndex, ¬ Aged circleStore 5 index :=
    ⟨2, by decide, by rw [aged_circleStore]; decide⟩
  have hfiles := pagesAreFiles_circleStore
  obtain ⟨answer, t, hrun, -, htells, hfile⟩ :=
    (newest_page_told circleStore 5 hdirectory hgap).outcome
  have hzero : Aged circleStore 5 0 := (aged_circleStore 0).mpr (by decide)
  have hlast : Aged circleStore 5 PageName.maxIndex := (aged_circleStore _).mpr (by decide)
  cases answer with
  | none => exact absurd hzero (htells.none_iff.mp rfl 0)
  | some index =>
    obtain ⟨hrunBelow, hfree⟩ := (htells.isNewest index rfl).endsRun ⟨hlast, hzero⟩
    -- page 2 is missing and pages 0 and 1 are not, so the run ends with page 1
    have hlt : index < 2 := by
      refine Nat.lt_of_not_le fun hge => ?_
      exact absurd ((aged_circleStore 2).mp (hrunBelow 2 hge)) (by decide)
    have hne : index ≠ 0 := by
      rintro rfl
      exact hfree ((aged_circleStore 1).mpr (by decide))
    obtain rfl : index = 1 := by omega
    exact ⟨hdirectory, hgap, hfiles, t, hrun, (hfile hfiles).isNewest 1 rfl⟩

/-! ## A directory among the pages -/

/-- An old file of one page, and a directory that bears the name of a later page and is as old. -/
def foldedDisk : Disk :=
  (Change.makeDirectory ["pages", "page-7.dat"]).apply 1 <|
    (Change.create ["pages", "page-3.dat"]).apply 1 <| (Change.makeDirectory ["pages"]).apply 0 {}

/-- A store over these in whose cache nothing is. -/
def foldedStore : Session PageStore :=
  ⟨⟨foldedDisk, ⟨fun _ => 9, 0⟩, []⟩, .opened ["pages"] 8 PageStore.eightBytes_pos 1⟩

/-- The one page that has an old file is not told, but the page whose name the directory bears. -/
theorem newest_page_is_directory : PageStore.AgedFile foldedStore 5 3
    ∧ (∀ index, PageStore.AgedFile foldedStore 5 index → index = 3)
    ∧ ((newestBefore 5).outcome foldedStore).1 = .ok (some 7) := by
  refine ⟨⟨"page-3.dat", 0, by decide +kernel, by decide +kernel, by decide +kernel⟩, ?_,
    by decide +kernel⟩
  rintro index ⟨name, id, hnode, hindex, -⟩
  have hdirectory : foldedStore.host.disk.node? ["pages"] = some .directory := by decide +kernel
  obtain ⟨entries, t, hrun, -, hlists⟩ := (PageStore.pageEntries_lists hdirectory).outcome
  have hentries : entries = [("page-3.dat", 3, .file 0), ("page-7.dat", 7, .directory)] := by
    have heq : (PageStore.pageEntries.outcome foldedStore).1.toOption
        = some [("page-3.dat", 3, .file 0), ("page-7.dat", 7, .directory)] := by decide +kernel
    rw [hrun] at heq
    exact Option.some.inj heq
  have hmem := (hlists name index (.file id)).mpr ⟨hnode, hindex⟩
  have hentry : name = "page-3.dat" ∧ index = 3 ∧ id = 0 := by simpa [hentries] using hmem
  exact hentry.2.1

end PagedQueue
