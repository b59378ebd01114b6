import PagedQueue.Proofs.PageCourse

/-!
# Users of pages

An access to a file is a user of each page it comes to for as long as it takes the bytes of that
page, and no longer: it gives the page back whether the bytes were moved, the page was closed, or
the next page is refused. So no access changes how many users a page has (`accesses_spare_users`).
What it may change is that idle pages are collected by the sweeps that follow each mapping, and that
pages which nobody uses are new in the cache.

`Tally` is the account between two stores while at most one page is held and at most one ticket is
out. Taking a page and a ticket opens an entry, giving them back closes it, and whoever looks only
at the bytes of the page does not show in it.
-/

namespace PagedQueue

open Procedure

namespace Page

theorem isOpen_collect_close (p : Page) : p.collect.close.isOpen = false := rfl

theorem references_collect_close (p : Page) : p.collect.close.references = -1 := by
  unfold close flush
  split <;> rfl

end Page

namespace PageStore

variable {s t : PageStore} {out : Option Nat} {held : Option PageId} {id : PageId} {index : Nat}
  {v : Session PageStore}

/-! ## What an access leaves of the users -/

/-- The page was idle in the cache, and a sweep collected it: it is closed and out of the cache. -/
structure SweptAway (s t : PageStore) (id : PageId) : Prop where
  idle : (s.page id).references = 0
  cached : ∃ index : Nat, s.cached[index]? = some id
  collected : (t.page id).references = -1
  isOpen : (t.page id).isOpen = false
  uncached : ∀ index : Nat, t.cached[index]? ≠ some id

/-- Nobody has become or ceased to be a user of a page. -/
structure SparesUsers (s t : PageStore) : Prop where
  size_le : s.pages.size ≤ t.pages.size
  /-- A page that was there has the users it had, unless it was swept away. -/
  former : ∀ id < s.pages.size, (t.page id).references = (s.page id).references ∨ SweptAway s t id
  /-- A page that was mapped since has no users as long as it is in the cache. -/
  mapped : ∀ {index : Nat} {id : PageId}, t.cached[index]? = some id → s.pages.size ≤ id →
    id < t.pages.size → (t.page id).references = 0
  /-- No ticket is out that was not out before. -/
  creating : ∀ {index ticket : Nat}, t.creating[index]? = some ticket →
    s.creating[index]? = some ticket

/-! ## The account of users -/

/-- How many users more the holder of a page makes. -/
def usersBy (held : Option PageId) (id : PageId) : Int := if held = some id then 1 else 0

theorem usersBy_none : usersBy none id = 0 := rfl

theorem usersBy_self : usersBy (some id) id = 1 := if_pos rfl

theorem usersBy_of_ne {other : PageId} (h : id ≠ other) : usersBy (some id) other = 0 :=
  if_neg fun heq => h (Option.some.inj heq)

/-- What has become of the users while one page may be held and one ticket may be out. -/
structure Tally (out : Option Nat) (held : Option PageId) (s t : PageStore) : Prop where
  size_le : s.pages.size ≤ t.pages.size
  cached : ∀ {index : Nat} {id : PageId}, t.cached[index]? = some id →
    s.cached[index]? = some id ∨ s.pages.size ≤ id
  former : ∀ id < s.pages.size,
    (t.page id).references = (s.page id).references + usersBy held id ∨ SweptAway s t id
  mapped : ∀ {index : Nat} {id : PageId}, t.cached[index]? = some id → s.pages.size ≤ id →
    id < t.pages.size → (t.page id).references = usersBy held id
  creating : ∀ {index ticket : Nat}, t.creating[index]? = some ticket →
    s.creating[index]? = some ticket ∨ out = some index
  used : ∀ {id : PageId}, held = some id → 0 < (t.page id).references

theorem SweptAway.updatePage (h : SweptAway s t id) {other : PageId} {f : Page → Page}
    (hne : other ≠ id) :
    SweptAway s (t.updatePage other f) id := by
  have hpage : (t.updatePage other f).page id = t.page id :=
    page_updatePage_of_ne hne f
  exact ⟨h.idle, h.cached, hpage ▸ h.collected, hpage ▸ h.isOpen, h.uncached⟩

namespace Tally

theorem refl (s : PageStore) : Tally none none s s where
  size_le := Nat.le_refl _
  cached := .inl
  former _ _ := .inl (Int.add_zero _).symm
  mapped _ hge hlt := absurd hge (Nat.not_le_of_lt hlt)
  creating := .inl
  used := nofun

/-- With nothing held and no ticket out, the users are spared. -/
theorem sparesUsers (h : Tally none none s t) : SparesUsers s t where
  size_le := h.size_le
  former id hid := by simpa only [usersBy_none, Int.add_zero] using h.former id hid
  mapped := h.mapped
  creating hticket := (h.creating hticket).resolve_right nofun

/-- The count of one page changes with the hold on it. -/
theorem recount (h : Tally out held s t) {held' : Option PageId} {f : Page → Page}
    (hcount : (f (t.page id)).references = (t.page id).references + usersBy held' id - usersBy
      held id)
    (hothers : ∀ other, id ≠ other → usersBy held' other = usersBy held other)
    (hlive : 0 ≤ (t.page id).references) (hcached : ∀ other, held' = some other →
      other = id ∧ 0 < (f (t.page id)).references) : Tally out held' s (t.updatePage id f) := by
  have hid : id < t.pages.size := lt_size_of_references (by omega)
  have hself : (t.updatePage id f).page id = f (t.page id) := page_updatePage_self hid f
  have hother {other : PageId} (hne : id ≠ other) : (t.updatePage id f).page other = t.page other :=
    page_updatePage_of_ne hne f
  refine ⟨(size_updatePage ..).symm ▸ h.size_le, h.cached, fun other hlt => ?_,
    fun {i other} hin hge hlt => ?_, h.creating, fun {other} hheld => ?_⟩
  · by_cases heq : id = other
    · subst heq
      -- a page that can be counted on was not collected
      have hformer := (h.former id hlt).resolve_right fun hswept => by
        have := hswept.collected
        omega
      rw [hself, hcount, hformer]
      left
      omega
    · rw [hother heq, hothers other heq]
      exact (h.former other hlt).imp_right (·.updatePage heq)
  · rw [size_updatePage] at hlt
    have hmapped := h.mapped hin hge hlt
    by_cases heq : id = other
    · subst heq
      rw [hself, hcount, hmapped]
      omega
    · rw [hother heq, hothers other heq, hmapped]
  · obtain ⟨rfl, hpos⟩ := hcached other hheld
    rwa [hself]

/-- A page that is in the cache and was not collected gets one user more. -/
theorem take (h : Tally out none s t) {f : Page → Page} (hlive : 0 ≤ (t.page id).references)
    (hf : ∀ p, (f p).references = p.references + 1) :
    Tally out (some id) s (t.updatePage id f) := by
  refine h.recount ?_ (fun other hne => ?_) hlive fun other hother => ?_
  · rw [hf, usersBy_self, usersBy_none, Int.sub_zero]
  · rw [usersBy_of_ne hne, usersBy_none]
  · refine ⟨(Option.some.inj hother).symm, ?_⟩
    rw [hf]
    omega

/-- The page that is held is given back. -/
theorem giveBack (h : Tally out (some id) s t) :
    Tally out none s (t.updatePage id Page.release) := by
  have hused := h.used rfl
  refine h.recount ?_ (fun other hne => ?_) (Int.le_of_lt hused) nofun
  · rw [usersBy_self, usersBy_none, Int.add_zero]
    rfl
  · rw [usersBy_of_ne hne, usersBy_none]

/-- What does not count users and closes no page does not show in the account. -/
theorem updatePage (h : Tally out held s t) (id : PageId) {f : Page → Page}
    (hf : ∀ p, (f p).references = p.references) (hopen : ∀ p, (f p).isOpen = p.isOpen) :
    Tally out held s (t.updatePage id f) := by
  have hreferences := updatePage_leaves Page.references hf t id
  have hisOpen := updatePage_leaves Page.isOpen hopen t id
  refine ⟨(size_updatePage ..).symm ▸ h.size_le, h.cached, fun other hlt => ?_,
    fun {i other} hin hge hlt => ?_, h.creating, fun {other} hheld => ?_⟩
  · rw [hreferences]
    exact (h.former other hlt).imp_right fun hswept => ⟨hswept.idle, hswept.cached,
      (hreferences other).trans hswept.collected, (hisOpen other).trans hswept.isOpen,
      hswept.uncached⟩
  · rw [hreferences]
    exact h.mapped hin hge ((size_updatePage ..) ▸ hlt)
  · rw [hreferences]
    exact h.used hheld

/-- A sweep takes pages away that were idle before already, since the page that is held is not
idle. -/
theorem letGo (h : Tally out held s t) {expired : List (Nat × PageId)}
    (hexpired : t.Expired expired) :
    Tally out held s (t.letGo expired) := by
  have hkept {i : Nat} {other : PageId} (hin : (t.letGo expired).cached[i]? = some other) :
      t.cached[i]? = some other ∧ (t.letGo expired).page other = t.page other := by
    obtain ⟨hold, hfree⟩ := (getElem?_cached_letGo hexpired).mp hin
    exact ⟨hold, page_letGo_of_free hfree⟩
  refine ⟨(size_letGo ..).symm ▸ h.size_le, fun hin => h.cached (hkept hin).1, fun other hlt => ?_,
    fun {i other} hin hge hlt => ?_, fun hticket => h.creating (creating_letGo t expired ▸ hticket),
    fun {other} hheld => ?_⟩
  · by_cases hgone : ∃ i, (i, other) ∈ expired
    · -- what expires was idle when the sweep began, and nobody held it: so it was idle before
      obtain ⟨i, hmem⟩ := hgone
      have hin : t.cached[i]? = some other := hexpired.cached _ hmem
      have hidle : (t.page other).references = 0 := hexpired.idle _ hmem
      have hpage := page_letGo_of_mem hmem (Nat.lt_of_lt_of_le hlt h.size_le)
      have hunheld : held ≠ some other := fun hheld => Int.ne_of_gt (h.used hheld) hidle
      have hformer := (h.former other hlt).resolve_right fun hswept => hswept.uncached i hin
      rw [usersBy, if_neg hunheld, Int.add_zero] at hformer
      refine .inr ⟨hformer.symm.trans hidle,
        ⟨i, (h.cached hin).resolve_right (Nat.not_le_of_lt hlt)⟩, ?_, ?_,
        fun j hj => ((getElem?_cached_letGo hexpired).mp hj).2 i hmem⟩
      · rw [hpage, Page.references_collect_close]
      · rw [hpage, Page.isOpen_collect_close]
    · have hpage := page_letGo_of_free (s := t) fun i hmem => hgone ⟨i, hmem⟩
      rw [hpage]
      exact (h.former other hlt).imp_right fun hswept =>
        ⟨hswept.idle, hswept.cached, hpage ▸ hswept.collected,
        hpage ▸ hswept.isOpen, fun j hj => hswept.uncached j (hkept hj).1⟩
  · rw [(hkept hin).2]
    exact h.mapped (hkept hin).1 hge ((size_letGo ..) ▸ hlt)
  · have hpos := h.used hheld
    rwa [hexpired.page_of_used (Int.ne_of_gt hpos)]

/-- Tickets do not show in the pages. -/
theorem withTickets (h : Tally out held s t) {out' : Option Nat} {creating : Std.TreeMap Nat Nat}
    {tickets : Nat} (hcreating : ∀ {index ticket : Nat}, creating[index]? = some ticket →
      s.creating[index]? = some ticket ∨ out' = some index) :
    Tally out' held s { t with creating, tickets } where
  size_le := h.size_le
  cached := h.cached
  former other hlt := (h.former other hlt).imp_right fun hswept =>
    ⟨hswept.idle, hswept.cached, hswept.collected, hswept.isOpen, hswept.uncached⟩
  mapped := h.mapped
  creating := hcreating
  used := h.used

/-- A page that is new to the store is held. -/
theorem grown (h : Tally out none s t) {page : Page} (hidle : page.references = 0) :
    Tally out (some t.pages.size) s (t.grown index page.retain) := by
  have hcount := references_grown_self t index hidle
  have hother {other : PageId} (hlt : other < t.pages.size) :
      (t.grown index page.retain).page other = t.page other := page_grown t index page.retain hlt
  have hsize : (t.grown index page.retain).pages.size = t.pages.size + 1 := Array.size_push ..
  refine ⟨?_, fun hin => ?_, fun other hlt => ?_, fun {i other} hin hge hlt => ?_, h.creating,
    fun {other} hheld => ?_⟩
  · rw [hsize]
    exact Nat.le_succ_of_le h.size_le
  · rcases cached_grown hin with ⟨-, rfl⟩ | hold
    · exact .inr h.size_le
    · exact h.cached hold
  · have hlt' := Nat.lt_of_lt_of_le hlt h.size_le
    rw [hother hlt', usersBy_of_ne (Nat.ne_of_gt hlt')]
    refine (h.former other hlt).imp_right fun hswept =>
      ⟨hswept.idle, hswept.cached, ?_, ?_, fun j hj => ?_⟩
    · rw [hother hlt', hswept.collected]
    · rw [hother hlt', hswept.isOpen]
    · rcases cached_grown hj with ⟨-, heq⟩ | hold
      · exact absurd heq (Nat.ne_of_gt hlt')
      · exact hswept.uncached j hold
  · rw [hsize] at hlt
    rcases Nat.lt_succ_iff_lt_or_eq.mp hlt with hlt' | rfl
    · have hold := (cached_grown hin).resolve_left fun hand => Nat.ne_of_gt hlt' hand.2
      rw [hother hlt', usersBy_of_ne (Nat.ne_of_gt hlt'), h.mapped hold hge hlt', usersBy_none]
    · rw [hcount, usersBy_self]
  · obtain rfl := Option.some.inj hheld
    rw [hcount]
    decide

end Tally

theorem course_tally (s : PageStore) : Course fun out held t => Tally out held s t where
  take h _ hlive := h.take hlive fun _ => rfl
  grown h _ hpage := h.grown hpage.references
  giveBack := Tally.giveBack
  touch id time h := h.updatePage id (fun p => Page.references_touch p time)
    fun p => Page.isOpen_of_origin (Page.origin_touch p time)
  letGo h hexpired := h.letGo hexpired
  shareTicket _ h := h.withTickets fun hticket => .inl ((h.creating hticket).resolve_right nofun)
  takeTicket index {_ t} h := h.withTickets fun {i ticket} hticket => by
    rw [Std.TreeMap.getElem?_insert] at hticket
    split at hticket
    next heq => exact .inr (congrArg some (Nat.compare_eq_eq.mp heq))
    next => exact .inl ((h.creating hticket).resolve_right nofun)
  withdrawTicket {_ _ index} h := h.withTickets fun {i ticket} hticket => .inl (by
    rw [Std.TreeMap.getElem?_erase] at hticket
    split at hticket
    · cases hticket
    next hne =>
      exact (h.creating hticket).resolve_right fun heq =>
        hne (Nat.compare_eq_eq.mpr (Option.some.inj heq)))

end PageStore

/-- Bytes or a word are put or got in any state of a file, its pages and the disk. Whether that
succeeds, is refused a page half-way or meets a closed one: every page that was there has the users
it had, unless it was idle and a sweep took it; every page mapped on the way that is still in the
cache is idle; and no ticket is out that was not out before. -/
theorem accesses_spare_users (c : FileCall) (f : Session PagedFile) (h : c.IsAccess) :
    PageStore.SparesUsers f.memory.store (c.run.outcome f).2.memory.store :=
  have hkeeps := (PageStore.course_tally f.memory.store).keeps_access
    (fun _ ht _ => ht.updatePage _ (fun _ => rfl) fun _ => rfl) h
  PageStore.Tally.sparesUsers (hkeeps.outcome (PageStore.Tally.refl f.memory.store))

/-- A file with pages of two bytes that live no longer than they are used, where a directory has
taken the name of the third page. Somebody uses the first page, and the fourth one was read. -/
def thirdTaken : Session PagedFile :=
  let disk := (Change.makeDirectory ["pages", "page-2.dat"]).apply 0 <|
    (Change.makeDirectory ["pages"]).apply 0 {}
  let store : PageStore :=
    { directory := ["pages"], pageSize := 2, pageSize_pos := by decide, lifetime := 0 }
  [MappedCall.store (.acquire 0), .file (.getBytes 6 2)].foldl (fun f c => (c.run.outcome f).2)
    ⟨⟨disk, ⟨fun _ => 0, 0⟩, []⟩, { store }⟩

/-- Bytes are put into the first two pages and refused by the third. The first page still has its
one user, the second is idle, and the fourth was swept away. -/
theorem accesses_spare_users_refused :
    let put := FileCall.putBytes 0 [1, 2, 3, 4, 5, 6]
    put.IsAccess
      ∧ (put.run.outcome thirdTaken).1 = .error (.pageMap ["pages", "page-2.dat"])
      ∧ thirdTaken.memory.store.pages.toList.map Page.references = [1, 0]
      ∧ (put.run.outcome thirdTaken).2.memory.store.pages.toList.map Page.references = [1, -1, 0]
      ∧ PageStore.SparesUsers thirdTaken.memory.store
        (put.run.outcome thirdTaken).2.memory.store := by
  refine ⟨trivial, ?_, ?_, ?_, accesses_spare_users _ _ trivial⟩ <;> decide +kernel

end PagedQueue
