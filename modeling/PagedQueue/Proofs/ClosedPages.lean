import PagedQueue.Page.Clients
import PagedQueue.Proofs.FlatFile
import PagedQueue.Proofs.Keeping

/-!
# Pages that are closed under their users

Whoever has a page that was handed out may close it, and the cache is not told. The page goes on
standing for its number and is handed out again, closed, until it leaves the cache. Nothing else
makes the store hand out a closed page: a page that the store closes leaves the cache at the same
time (`PageStore.CacheOpen`), and one that was handed out has a user, so no sweep takes it.

So of all that is asked of a store, of a file over it and of the pages themselves, in any order,
only the pages that were closed through themselves count (`closedBy`). A page that is handed out is
open exactly if it is none of these, and an access to the file meets a closed page only if it is one
of these and was in the cache before (`closed_pages_met`).
-/

namespace PagedQueue

open Procedure
open Disk (pagePath)

/-! ## What is asked -/

/-- What is asked of a page by one to whom it was handed out. -/
inductive HandleCall where
  | retain
  | release
  | close
  /-- The page is collected if it is idle. -/
  | collect
  | touch (time : Int)
  | use (how : PageUse)
  deriving DecidableEq

/-- What the call does. -/
def HandleCall.run (id : PageId) : HandleCall → Procedure PageStore Unit
  | retain => update (·.updatePage id fun p => if p.isLive then p.retain else p)
  | release => update (·.updatePage id Page.release)
  | close => update (·.updatePage id Page.close)
  | collect => update (·.updatePage id fun p => if p.isIdle then p.collect else p)
  | touch time => update (·.updatePage id (·.touch time))
  | use how => discard (how.run id)

/-- What is asked about the page files of a directory. -/
inductive Discovery where
  | indexes
  | indexesBefore (time : Int)
  | newestBefore (time : Int)
  | names
  | totalSize
  | modified (index : Nat)
  deriving DecidableEq

/-- What is done to find out. -/
def Discovery.run : Discovery → Procedure PageStore Unit
  | indexes => discard PageStore.pageIndexes
  | indexesBefore time => discard (PageStore.pageIndexesBefore time)
  | newestBefore time => discard (PageStore.newestBefore time)
  | names => discard PageStore.pageNames
  | totalSize => discard PageStore.totalSize
  | modified index => discard (PageStore.modified? index)

/-- What is asked of a page store. -/
inductive StoreCall where
  | acquire (index : Nat)
  | release (index : Nat)
  | flush
  | sweep
  /-- All pages are closed and leave the cache. -/
  | dropAll
  | delete (index : Nat)
  | deletePages (indexes : List Nat)
  | deleteAll
  | deleteBefore (time : Int)
  | discover (what : Discovery)
  deriving DecidableEq

/-- What the store does. -/
def StoreCall.run : StoreCall → Procedure PageStore Unit
  | acquire index => discard (PageStore.acquire index)
  | release index => PageStore.release index
  | flush => update PageStore.flush
  | sweep => discard PageStore.sweep
  | dropAll => update PageStore.dropAll
  | delete index => discard (PageStore.deletePage index)
  | deletePages indexes => PageStore.deletePages indexes
  | deleteAll => PageStore.deleteAll
  | deleteBefore time => PageStore.deleteBefore time
  | discover what => what.run

namespace Page

/-- The page lies where the page of its number lies and was mapped under the name of the number. -/
structure Lies (p : Page) (s : PageStore) (index : Nat) : Prop where
  base : p.base = index * s.pageSize
  size : p.size = s.pageSize
  path : p.path = pagePath s.directory index

/-- Where a page lies depends on its origin alone. -/
theorem Lies.congr {p p' : Page} {s t : PageStore} {index : Nat} (h : p.Lies s index)
    (hsame : PageStore.Same s t) (horigin : p'.origin = p.origin) : p'.Lies t index := by
  simp only [origin, mapping, Prod.mk.injEq] at horigin
  obtain ⟨⟨hbase, hsize, -, -⟩, hpath⟩ := horigin
  refine ⟨?_, ?_, ?_⟩
  · rw [hbase, h.base, hsame.pageSize]
  · rw [hsize, h.size, hsame.pageSize]
  · rw [hpath, h.path, hsame.directory]

/-- A page that is closed still lies where it did. -/
theorem Lies.close {p : Page} {s : PageStore} {index : Nat} (h : p.Lies s index) :
    p.close.Lies s index := by
  unfold Page.close Page.flush
  split <;> exact ⟨h.base, h.size, h.path⟩

theorem origin_pin (p : Page) : p.pin.origin = p.origin := rfl

theorem origin_unpin (p : Page) : p.unpin.origin = p.origin := rfl

/-- Whether a page is open is part of its origin. -/
theorem isOpen_of_origin {p p' : Page} (h : p'.origin = p.origin) : p'.isOpen = p.isOpen := by
  simp only [origin, mapping, Prod.mk.injEq] at h
  exact h.1.2.2.2

end Page

namespace PageStore

variable {s t u : PageStore} {closed : List PageId} {index : Nat} {id : PageId}

/-! ## Caches with closed pages -/

/-- A page for a number is at hand: it is open unless it is one of those closed. -/
structure AtHand (closed : List PageId) (s : PageStore) (index : Nat) (id : PageId) : Prop where
  lt_size : id < s.pages.size
  lies : (s.page id).Lies s index
  isOpen_iff : (s.page id).isOpen = true ↔ id ∉ closed

/-- The pages in the cache are at hand, and only pages that were ever mapped are closed. -/
structure CacheOpen (closed : List PageId) (s : PageStore) : Prop where
  atHand : ∀ {index : Nat} {id : PageId}, s.cached[index]? = some id → s.AtHand closed index id
  closed_lt : ∀ id ∈ closed, id < s.pages.size

/-- A page stays at hand as long as its origin does. -/
theorem AtHand.congr (h : s.AtHand closed index id) (hsame : Same s t)
    (hsize : s.pages.size ≤ t.pages.size)
    (hpage : (t.page id).origin = (s.page id).origin) : t.AtHand closed index id :=
  ⟨Nat.lt_of_lt_of_le h.lt_size hsize, h.lies.congr hsame hpage,
    (Page.isOpen_of_origin hpage).symm ▸ h.isOpen_iff⟩

/-- It stays so when some page changes in what it counts or in its bytes. -/
theorem AtHand.updatePage (h : s.AtHand closed index id) (other : PageId) {f : Page → Page}
    (hf : ∀ p, (f p).origin = p.origin) : (s.updatePage other f).AtHand closed index id :=
  h.congr ⟨rfl, rfl, rfl⟩ (Nat.le_of_eq (size_updatePage ..).symm)
    (updatePage_leaves Page.origin hf s other id)

namespace CacheOpen

/-- In an empty cache no page is closed. -/
theorem of_cached_empty (hcached : s.cached = {}) (hclosed : ∀ id ∈ closed, id < s.pages.size) :
    s.CacheOpen closed := by
  refine ⟨fun {i id} hid => ?_, hclosed⟩
  rw [hcached, Std.TreeMap.getElem?_emptyc] at hid
  cases hid

/-- The pages of a cache that only loses pages go on being open. -/
theorem loses (h : s.CacheOpen closed) (ht : Loses s t) : t.CacheOpen closed :=
  ⟨fun hid => (h.atHand (ht.cached hid)).congr ht.same ht.size_le (ht.origin hid),
    fun id hmem => Nat.lt_of_lt_of_le (h.closed_lt id hmem) ht.size_le⟩

/-- A page that changes in what it counts or in its bytes is as open as before. -/
theorem updatePage (h : s.CacheOpen closed) (id : PageId) {f : Page → Page}
    (hf : ∀ p, (f p).origin = p.origin) :
    (s.updatePage id f).CacheOpen closed := h.loses (.updatePage s id hf)

/-- No page stands for two numbers, as each lies at the place of its number. -/
theorem single (h : s.CacheOpen closed) : s.Single := fun hi hj =>
  Nat.eq_of_mul_eq_mul_right s.pageSize_pos
    ((h.atHand hi).lies.base.symm.trans (h.atHand hj).lies.base)

/-- A page that is new to the store is none of those closed. -/
theorem atHand_grown (h : s.CacheOpen closed) {page : Page} (hlies : page.Lies s index)
    (hopen : page.isOpen = true) : (s.grown index page).AtHand closed index s.pages.size where
  lt_size := Nat.lt_of_lt_of_eq (Nat.lt_succ_self _) (Array.size_push ..).symm
  lies := by
    rw [page_grown_self]
    exact hlies.congr (same_grown ..) rfl
  isOpen_iff := by
    rw [page_grown_self]
    exact iff_of_true hopen fun hmem => Nat.lt_irrefl _ (h.closed_lt _ hmem)

/-- An open page may be added. -/
theorem grown (h : s.CacheOpen closed) {page : Page} (hlies : page.Lies s index)
    (hopen : page.isOpen = true) :
    (s.grown index page).CacheOpen closed := by
  have hsize : s.pages.size ≤ (s.grown index page).pages.size :=
    Nat.le_of_lt (Nat.lt_of_lt_of_eq (Nat.lt_succ_self _) (Array.size_push ..).symm)
  refine ⟨fun hid => ?_, fun id hmem => Nat.lt_of_lt_of_le (h.closed_lt id hmem) hsize⟩
  rcases cached_grown hid with ⟨rfl, rfl⟩ | hin
  · exact h.atHand_grown hlies hopen
  · have hhand := h.atHand hin
    exact hhand.congr (same_grown ..) hsize (by rw [page_grown _ _ _ hhand.lt_size])

/-- A page is closed through itself. -/
theorem close (h : s.CacheOpen closed) (hid : id < s.pages.size) :
    (s.updatePage id Page.close).CacheOpen (closed ++ [id]) := by
  refine ⟨fun {i other} hother => ?_, fun other hmem => ?_⟩
  · obtain ⟨hlt, hlies, hopen⟩ := h.atHand hother
    by_cases heq : other = id
    · subst heq
      have hpage := page_updatePage_self hlt Page.close
      refine ⟨(size_updatePage ..).symm ▸ hlt, ?_, ?_⟩ <;> rw [hpage]
      · exact hlies.close.congr ⟨rfl, rfl, rfl⟩ rfl
      · exact iff_of_false Bool.false_ne_true fun hfree => hfree (by simp)
    · have hpage := page_updatePage_of_ne (s := s) (Ne.symm heq) Page.close
      refine ⟨(size_updatePage ..).symm ▸ hlt, ?_, ?_⟩ <;> rw [hpage]
      · exact hlies.congr ⟨rfl, rfl, rfl⟩ rfl
      · simpa [heq] using hopen
  · rw [size_updatePage]
    rcases List.mem_append.mp hmem with hmem | hmem
    · exact h.closed_lt other hmem
    · rwa [List.mem_singleton.mp hmem]

end CacheOpen

/-! ## What an access leaves -/

/-- An access leaves the same store. Its cache has open pages but for those that were closed, and no
closed page stands in it that was not there before. -/
structure KeepsCache (closed : List PageId) (s t : PageStore) : Prop where
  same : Same s t
  cacheOpen : t.CacheOpen closed
  former : ∀ {index : Nat} {id : PageId}, t.cached[index]? = some id → id ∈ closed →
    s.cached[index]? = some id

namespace KeepsCache

/-- A cache with open pages keeps them if nothing is done. -/
theorem refl (h : s.CacheOpen closed) : KeepsCache closed s s := ⟨.refl s, h, fun hid _ => hid⟩

/-- What only lets pages go keeps the others as they are. -/
theorem loses (h : KeepsCache closed s t) (ht : Loses t u) : KeepsCache closed s u :=
  ⟨h.same.trans ht.same, h.cacheOpen.loses ht, fun hid => h.former (ht.cached hid)⟩

/-- A page that changes is not closed by that. -/
theorem updatePage (h : KeepsCache closed s t) (id : PageId) {f : Page → Page}
    (hf : ∀ p, (f p).origin = p.origin) : KeepsCache closed s (t.updatePage id f) :=
  h.loses (.updatePage t id hf)

/-- A page that is added was closed by nobody. -/
theorem grown (h : KeepsCache closed s t) {page : Page} (hlies : page.Lies t index)
    (hopen : page.isOpen = true) :
    KeepsCache closed s (t.grown index page) := by
  refine ⟨h.same.trans (same_grown ..), h.cacheOpen.grown hlies hopen, fun hid hmem => ?_⟩
  rcases cached_grown hid with ⟨-, rfl⟩ | hin
  · exact absurd (h.cacheOpen.closed_lt _ hmem) (Nat.lt_irrefl _)
  · exact h.former hin hmem

end KeepsCache

/-- A page was handed out for a number. If it is closed, it stood for the number before. -/
structure Given (closed : List PageId) (s t : PageStore) (index : Nat) (id : PageId) : Prop where
  atHand : t.AtHand closed index id
  former : id ∈ closed → s.cached[index]? = some id

/-- A page that was handed out stays so when one changes in what it counts. -/
theorem Given.updatePage {other : PageId} (h : Given closed s t index id) {f : Page → Page}
    (hf : ∀ p, (f p).origin = p.origin) : Given closed s (t.updatePage other f) index id :=
  ⟨h.atHand.updatePage other hf, h.former⟩

/-- What stands in the cache may be handed out. -/
theorem KeepsCache.given (h : KeepsCache closed s t) (hid : t.cached[index]? = some id) :
    Given closed s t index id :=
  ⟨h.cacheOpen.atHand hid, h.former hid⟩

variable {v : Session PageStore}

/-- A page that is found in the cache is handed out, be it closed or not. -/
theorem lookup_keepsCache (h : KeepsCache closed s v.memory) (index : Nat) :
    (lookup index).Ensures v fun found w => KeepsCache closed s w.memory
      ∧ ∀ id, found = some id → Given closed s w.memory index id := by
  unfold lookup Ensures
  simp only [leads_bind, leads_memory]
  split
  next id hid =>
    simp only [leads_bind, leads_look, leads_update, leads_pure]
    have hkeep (p : Page) : (p.retain.touch v.host.now).origin = p.origin := by simp
    refine ⟨h.updatePage id hkeep, ?_⟩
    rintro _ ⟨⟩
    exact (h.given (Option.filter_eq_some_iff.mp hid).1).updatePage hkeep
  next =>
    refine ⟨h, fun _ heq => ?_⟩
    cases heq

/-- A sweep leaves a page at hand that has users. -/
theorem sweep_keepsCache (h : KeepsCache closed s v.memory) :
    sweep.Ensures v fun _ w => KeepsCache closed s w.memory
      ∧ ∀ {index id}, Given closed s v.memory index id → (v.memory.page id).references ≠ 0 →
        Given closed s w.memory index id := by
  refine (sweep_letGo v).leads.mono (fun _ w hw => ?_) fun _ _ => False.elim
  obtain ⟨expired, hexpired, rfl⟩ := hw
  have hloses : Loses v.memory (v.memory.letGo expired) := .letGo h.cacheOpen.single hexpired.cached
  refine ⟨h.loses hloses, fun {index id} hgiven hused => ⟨?_, hgiven.former⟩⟩
  exact hgiven.atHand.congr hloses.same hloses.size_le
    (congrArg Page.origin (hexpired.page_of_used hused))

/-- A file is found or made, or refused, and the store stays as it is. -/
theorem obtainFile_leaves (path : Path) (v : Session PageStore) :
    (obtainFile path).Leads v (fun _ w => w.memory = v.memory)
      fun fault w => w.memory = v.memory ∧ fault = .pageMap path := by
  unfold obtainFile
  simp only [leads_bind, leads_disk, leads_ite, leads_throw]
  split
  · exact ⟨trivial, trivial⟩
  split
  · exact rfl
  · exact ⟨rfl, rfl⟩
  · rw [leads_ite]
    split
    · exact rfl
    · exact ⟨rfl, rfl⟩

/-- A page is mapped, or it is refused. -/
theorem map_keepsCache (h : KeepsCache closed s v.memory) (index : Nat) :
    (map index).Leads v
      (fun page w => KeepsCache closed s w.memory ∧ page.Lies w.memory index ∧ page.isOpen = true
        ∧ page.references = 0)
      fun fault w => KeepsCache closed s w.memory
        ∧ ∃ i, fault = .pageMap (pagePath s.directory i) := by
  unfold map
  simp only [leads_bind, leads_memory]
  refine (obtainFile_leaves _ v).mono (fun file w hw => ?_) fun fault w hw => ?_
  · have hlies (now : Int) :
        (Page.mapped index v.memory.pageSize (v.memory.pathOf index) file now).Lies
        w.memory index := by
      rw [hw]
      exact ⟨rfl, rfl, rfl⟩
    rw [leads_disk, leads_ite]
    split <;> exact ⟨hw ▸ h, hlies _, rfl, rfl⟩
  · obtain ⟨hw, rfl⟩ := hw
    exact ⟨hw ▸ h, index, by rw [pathOf, h.same.directory, pagePath]⟩

/-- An open page is put into the cache, or the one that is there is handed out. -/
theorem insert_keepsCache (h : KeepsCache closed s v.memory) {page : Page}
    (hlies : page.Lies v.memory index) (hopen : page.isOpen = true) (hidle : page.references = 0) :
    (insert index page).Ensures v fun id w => KeepsCache closed s w.memory
      ∧ Given closed s w.memory index id := by
  unfold insert Ensures
  simp only [leads_bind, leads_memory]
  split
  next id hid =>
    obtain ⟨hcached, hlive⟩ := Option.filter_eq_some_iff.mp hid
    have hgiven := h.given hcached
    simp only [leads_bind, leads_update, leads_discard, leads_pure]
    refine (sweep_keepsCache (h.updatePage id Page.origin_retain)).leads.mono
      (fun _ w hw => ?_) fun _ _ => False.elim
    refine ⟨hw.1, hw.2 (hgiven.updatePage Page.origin_retain) ?_⟩
    -- the page was cached before: it gains a reference, so the sweep keeps it
    exact Int.ne_of_gt (references_retained_pos hgiven.atHand.lt_size (of_decide_eq_true hlive))
  next =>
    simp only [leads_bind, leads_update, leads_discard, leads_pure]
    have hlies' : page.retain.Lies v.memory index := hlies.congr (.refl _) (Page.origin_retain page)
    refine (sweep_keepsCache (v := ⟨v.host, v.memory.grown index page.retain⟩)
      (h.grown hlies' hopen)).leads.mono
      (fun _ w hw => ?_) fun _ _ => False.elim
    refine ⟨hw.1, hw.2 ⟨h.cacheOpen.atHand_grown hlies' hopen, fun hmem => ?_⟩ ?_⟩
    · exact absurd (h.cacheOpen.closed_lt _ hmem) (Nat.lt_irrefl _)
    · show ((v.memory.grown index page.retain).page v.memory.pages.size).references ≠ 0
      rw [references_grown_self _ _ hidle]
      exact Int.one_ne_zero

/-- A page is created, or found under the ticket, unless its file is refused. -/
theorem createPage_keepsCache (h : KeepsCache closed s v.memory) (index : Nat) :
    (createPage index).Leads v
      (fun id w => KeepsCache closed s w.memory ∧ Given closed s w.memory index id)
      fun fault w => KeepsCache closed s w.memory
        ∧ ∃ i, fault = .pageMap (pagePath s.directory i) := by
  unfold createPage
  rw [leads_bind]
  refine (lookup_keepsCache h index).leads.mono (fun found w hw => ?_) fun _ _ => False.elim
  cases found with
  | some id => exact ⟨hw.1, hw.2 id rfl⟩
  | none =>
    simp only [leads_bind]
    refine (map_keepsCache hw.1 index).mono (fun page x hx => ?_) fun _ _ => id
    obtain ⟨hx, hlies, hopen, hidle⟩ := hx
    exact (insert_keepsCache hx hlies hopen hidle).leads

/-- Tickets do not show in the pages. -/
theorem loses_tickets (t : PageStore) (creating : Std.TreeMap Nat Nat) (tickets : Nat) :
    Loses t { t with creating, tickets } :=
  ⟨⟨rfl, rfl, rfl⟩, Nat.le_refl _, fun hid => hid, fun _ => rfl⟩

/-- A page is handed out, or it is refused. -/
theorem acquire_keepsCache (h : KeepsCache closed s v.memory) (index : Nat) :
    (acquire index).Leads v
      (fun id w => KeepsCache closed s w.memory ∧ Given closed s w.memory index id)
      fun fault w => KeepsCache closed s w.memory
        ∧ ∃ i, fault = .pageMap (pagePath s.directory i) := by
  unfold acquire
  rw [leads_bind]
  refine (lookup_keepsCache h index).leads.mono (fun found w hw => ?_) fun _ _ => False.elim
  cases found with
  | some id => exact ⟨hw.1, hw.2 id rfl⟩
  | none =>
    simp only [leads_bind, leads_discard]
    have htaken : (takeTicket index).Ensures w fun _ x => KeepsCache closed s x.memory := by
      unfold takeTicket Ensures
      simp only [leads_bind, leads_memory]
      split
      · exact hw.1
      · exact hw.1.loses (loses_tickets ..)
    refine htaken.leads.mono (fun _ x hx => ?_) fun _ _ => False.elim
    rw [leads_tryFinally]
    refine (createPage_keepsCache hx index).mono (fun id y hy => ?_) fun fault y hy => ?_
    · have hloses := loses_tickets y.memory (y.memory.creating.erase index) y.memory.tickets
      exact ⟨hy.1.loses hloses, hy.2.atHand.congr hloses.same hloses.size_le rfl, hy.2.former⟩
    · exact ⟨hy.1.loses (loses_tickets ..), hy.2⟩

/-- A page that is given back stays in the cache as it is. -/
theorem giveBack_keepsCache (h : KeepsCache closed s v.memory) (id : PageId) :
    (giveBack id).Ensures v fun _ w => KeepsCache closed s w.memory := by
  unfold giveBack Ensures
  simp only [leads_bind, leads_update, leads_look]
  exact (h.updatePage id Page.origin_release).updatePage id fun p => Page.origin_touch p _

/-- The fault of an access to a page that was closed while it stood for its number. -/
def MetClosed (closed : List PageId) (s : PageStore) (fault : Fault) : Prop :=
  ∃ (index : Nat) (id : PageId), s.cached[index]? = some id ∧ id ∈ closed
    ∧ (fault = .misuse (.readClosed (pagePath s.directory index))
      ∨ fault = .misuse (.writeClosed (pagePath s.directory index)))

/-- The faults of an access: it was refused a page, or it met one that was closed. -/
def AccessFault (closed : List PageId) (s : PageStore) (fault : Fault) : Prop :=
  (∃ i, fault = .pageMap (pagePath s.directory i)) ∨ MetClosed closed s fault

/-- A page is used and given back. If it was closed, that is the fault. -/
theorem withPage_keepsCache {α : Type} {use : PageId → Procedure PageStore α}
    (h : KeepsCache closed s v.memory)
    (huse : ∀ id w, KeepsCache closed s w.memory → Given closed s w.memory index id →
      (use id).Leads w (fun _ x => KeepsCache closed s x.memory)
        fun fault x => KeepsCache closed s x.memory ∧ MetClosed closed s fault) :
    (withPage index use).Leads v (fun _ w => KeepsCache closed s w.memory)
      fun fault w => KeepsCache closed s w.memory ∧ AccessFault closed s fault := by
  unfold withPage
  rw [leads_bind]
  refine (acquire_keepsCache h index).mono (fun id w hw => ?_) fun _ _ hw => ⟨hw.1, .inl hw.2⟩
  rw [leads_tryFinally]
  refine (huse id w hw.1 hw.2).mono (fun _ x hx => ?_) fun _ x hx => ?_
  · exact (giveBack_keepsCache hx id).leads
  · exact ((giveBack_keepsCache hx.1 id).mono fun _ _ hy => ⟨hy, .inr hx.2⟩).leads

/-- The page that was handed out for a range inside it covers the range. -/
theorem Given.covers {start length : Nat} (hsame : Same s t)
    (h : Given closed s t (start / s.pageSize) id)
    (hone : InOnePage s.pageSize start length) : (t.page id).Covers start length := by
  obtain ⟨hle, hlt⟩ := inOnePage_within hone
  rw [Nat.add_mul, Nat.one_mul] at hlt
  rw [Page.Covers, Page.limit, h.atHand.lies.base, h.atHand.lies.size, hsame.pageSize]
  exact ⟨hle, hlt⟩

/-- A page that was handed out and is closed stood for its number. -/
theorem Given.metClosed {cause : Path → Misuse} (hsame : Same s t) (h : Given closed s t index id)
    (hclosed : (t.page id).isOpen = false) (hcause : cause = .readClosed ∨ cause = .writeClosed) :
    MetClosed closed s (.misuse (cause (t.page id).path)) := by
  have hmem : id ∈ closed := by
    by_contra hfree
    rw [h.atHand.isOpen_iff.mpr hfree] at hclosed
    cases hclosed
  refine ⟨index, id, h.former hmem, hmem, ?_⟩
  rw [h.atHand.lies.path, hsame.directory]
  rcases hcause with rfl | rfl
  · exact .inl rfl
  · exact .inr rfl

/-- A range inside one page is read, or its page is refused or was closed. -/
theorem readAt_keepsCache {start length : Nat} (h : KeepsCache closed s v.memory)
    (hone : InOnePage s.pageSize start length) :
    (withPage (start / s.pageSize) fun id => readPage id start length).Leads v
      (fun _ w => KeepsCache closed s w.memory)
      fun fault w => KeepsCache closed s w.memory ∧ AccessFault closed s fault := by
  refine withPage_keepsCache h fun id w hw hgiven => ?_
  have hcovers := hgiven.covers hw.same hone
  unfold readPage
  simp only [leads_bind, leads_memory, leads_ite, leads_throw, leads_disk, leads_pure, hcovers,
    not_true_eq_false, if_false]
  split
  next hclosed => exact ⟨hw, hgiven.metClosed hw.same (by simpa using hclosed) (.inl rfl)⟩
  next => exact hw

/-- A range inside one page is written, or its page is refused or was closed. -/
theorem writeAt_keepsCache {start : Nat} {bytes : List UInt8} (h : KeepsCache closed s v.memory)
    (hone : InOnePage s.pageSize start bytes.length) :
    (withPage (start / s.pageSize) fun id => writePage id start bytes).Leads v
      (fun _ w => KeepsCache closed s w.memory)
      fun fault w => KeepsCache closed s w.memory ∧ AccessFault closed s fault := by
  refine withPage_keepsCache h fun id w hw hgiven => ?_
  have hcovers := hgiven.covers hw.same hone
  unfold writePage
  simp only [leads_bind, leads_memory, leads_ite, leads_throw, leads_perform, leads_update, hcovers,
    not_true_eq_false, if_false]
  split
  next hclosed => exact ⟨hw, hgiven.metClosed hw.same (by simpa using hclosed) (.inr rfl)⟩
  next => split <;> exact hw.updatePage id fun p => p.origin_written start bytes

/-! ## What keeps the pages of a cache open -/

/-- A change of a page that does not close it keeps the pages of the cache open. -/
theorem keeps_cacheOpen_updatePage (id : PageId) {f : Page → Page}
    (hf : ∀ p, (f p).origin = p.origin) :
    Keeps (CacheOpen closed) (update (·.updatePage id f)) := keeps_update fun _ h =>
      h.updatePage id hf

theorem keeps_cacheOpen_giveBack (id : PageId) :
    Keeps (CacheOpen closed) (giveBack id) := fun _ h =>
  ((giveBack_keepsCache (.refl h) id).mono fun _ _ hw => hw.cacheOpen).leads

/-- All pages are closed and leave the cache at once. -/
theorem CacheOpen.dropAll (h : s.CacheOpen closed) : s.dropAll.CacheOpen closed := by
  refine .of_cached_empty rfl fun id hmem => ?_
  have hsize (ids : List PageId) : ∀ s : PageStore,
      (ids.foldl (fun s id => s.updatePage id Page.close) s).pages.size = s.pages.size := by
    induction ids with
    | nil => exact fun _ => rfl
    | cons first rest ih => exact fun s => (ih _).trans (size_updatePage ..)
  exact Nat.lt_of_lt_of_eq (h.closed_lt id hmem) (hsize s.cachedPages s).symm

end PageStore

/-- A question about the page files changes nothing in the store. -/
theorem Discovery.keeps {kept : PageStore → Prop} (what : Discovery) : Keeps kept what.run := by
  cases what with
  | indexes => exact PageStore.keeps_pageIndexes.discard
  | indexesBefore time => exact (PageStore.keeps_pageIndexesBefore time).discard
  | newestBefore time =>
    exact ((PageStore.keeps_pageIndexesBefore time).bind fun _ => keeps_ofExcept _).discard
  | names => exact (PageStore.keeps_pageEntries.bind fun _ => keeps_pure _).discard
  | totalSize =>
    exact (keeps_disk.bind fun _ => PageStore.keeps_pageEntries.bind fun _ => keeps_pure _).discard
  | modified index =>
    exact (keeps_disk.bind fun _ => keeps_look.bind fun _ => keeps_memory.bind fun _ =>
      keeps_pure _).discard

section

open PageStore

variable {closed : List PageId}

/-- Whatever is asked of a store, it keeps the pages of its cache open. -/
theorem StoreCall.keeps_cacheOpen (c : StoreCall) : Keeps (CacheOpen closed) c.run := by
  have hdrop (m : PageStore) (index : Nat) (h : m.CacheOpen closed) :
      (m.drop index).CacheOpen closed :=
    h.loses (.drop h.single index)
  cases c with
  | acquire index =>
    exact Keeps.discard fun _ h => (acquire_keepsCache (.refl h) index).mono
      (fun _ _ hw => hw.1.cacheOpen)
      fun _ _ hw => hw.1.cacheOpen
  | release index =>
    refine keeps_memory.bind fun m => ?_
    split
    · exact keeps_cacheOpen_giveBack _
    · exact keeps_pure _
  | flush => exact keeps_update fun m h => h.loses (.flush m)
  | sweep =>
    exact Keeps.discard fun _ h =>
      ((sweep_keepsCache (.refl h)).mono fun _ _ hw => hw.1.cacheOpen).leads
  | dropAll => exact keeps_update fun _ => CacheOpen.dropAll
  | delete index => exact (keeps_deletePage_of hdrop index).discard
  | deletePages indexes => exact keeps_deletePages_of hdrop indexes
  | deleteAll => exact keeps_deleteAll_of hdrop fun _ => CacheOpen.dropAll
  | deleteBefore time =>
    exact (keeps_pageIndexesBefore time).bind fun _ => keeps_deletePages_of hdrop _
  | discover what => exact what.keeps

/-- Whatever is asked of a page but its closing, the pages of the cache stay open. -/
theorem HandleCall.keeps_cacheOpen (id : PageId) {c : HandleCall} (h : c ≠ close) :
    Keeps (CacheOpen closed) (c.run id) := by
  cases c with
  | retain => exact keeps_cacheOpen_updatePage id fun p => by split <;> rfl
  | release => exact keeps_cacheOpen_updatePage id Page.origin_release
  | close => exact absurd rfl h
  | collect => exact keeps_cacheOpen_updatePage id fun p => by split <;> rfl
  | touch time => exact keeps_cacheOpen_updatePage id fun p => Page.origin_touch p time
  | use how =>
    refine Keeps.discard ?_
    cases how with
    | read start length => exact (keeps_readPage id start length).bind fun _ => keeps_pure _
    | write start bytes =>
      exact (keeps_writePage_of fun _ h _ => h.updatePage id fun p =>
        p.origin_written start bytes).bind fun _ =>
        keeps_pure _
    | flush => exact (keeps_cacheOpen_updatePage id Page.origin_flush).bind fun _ => keeps_pure _
    | pin => exact (keeps_cacheOpen_updatePage id Page.origin_pin).bind fun _ => keeps_pure _
    | unpin => exact (keeps_cacheOpen_updatePage id Page.origin_unpin).bind fun _ => keeps_pure _

end

namespace PagedFile

open PageStore (CacheOpen KeepsCache AccessFault)

variable {closed : List PageId} {s : PageStore} {v : Session PageStore}

/-- Pieces are read until one of the pages is refused or met closed. -/
theorem readPieces_keepsCache {pageSize : Nat} (pageSize_pos : 0 < pageSize) (start length : Nat)
    (h : KeepsCache closed s v.memory) (hsize : s.pageSize = pageSize) :
    (readPieces (pieces pageSize pageSize_pos start length)).Leads v
      (fun _ w => KeepsCache closed s w.memory)
      fun fault w => KeepsCache closed s w.memory ∧ AccessFault closed s fault := by
  fun_induction pieces pageSize pageSize_pos start length generalizing v with
  | case1 => exact h
  | case2 start length _ ih =>
    have hone := inOnePage_firstLength pageSize_pos start length
    subst hsize
    simp only [readPieces, leads_bind, leads_pure]
    exact (PageStore.readAt_keepsCache h hone).mono (fun _ w hw => ih hw) fun _ _ => id

/-- Pieces are written until one of the pages is refused or met closed. -/
theorem writePieces_keepsCache {pageSize : Nat} (pageSize_pos : 0 < pageSize) (start length : Nat)
    {bytes : List UInt8} (hlength : bytes.length = length) (h : KeepsCache closed s v.memory)
    (hsize : s.pageSize = pageSize) :
    (writePieces (pieces pageSize pageSize_pos start length) bytes).Leads v
      (fun _ w => KeepsCache closed s w.memory)
      fun fault w => KeepsCache closed s w.memory ∧ AccessFault closed s fault := by
  fun_induction pieces pageSize pageSize_pos start length generalizing v bytes with
  | case1 => exact h
  | case2 start length _ ih =>
    have hle := firstLength_le pageSize start length
    have hone := inOnePage_firstLength pageSize_pos start length
    have htake : (bytes.take (firstLength pageSize start length)).length
        = firstLength pageSize start length := by
      rw [List.length_take]
      omega
    have hdrop : (bytes.drop (firstLength pageSize start length)).length
        = length - firstLength pageSize start length := by
      rw [List.length_drop]
      omega
    rw [← htake] at hone
    subst hsize
    simp only [writePieces, leads_bind]
    exact (PageStore.writeAt_keepsCache h hone).mono (fun _ w hw => ih hdrop hw) fun _ _ => id

/-- A procedure on the store keeps what it keeps of the store. -/
theorem keeps_onStore_of {kept : PageStore → Prop} {α : Type} {p : Procedure PageStore α}
    (h : Keeps kept p) :
    Keeps (fun file => kept file.store) (onStore p) :=
  .within fun _ hm => ⟨_, h, hm, fun _ hv => hv⟩

/-- An access to a file keeps the pages of its cache open, and if it fails, that is for one of its
pages. -/
def Accesses {α : Type} (closed : List PageId) (p : Procedure PagedFile α) : Prop :=
  ∀ f : Session PagedFile, f.memory.store.CacheOpen closed →
    p.Leads f (fun _ g => KeepsCache closed f.memory.store g.memory.store)
      fun fault g => KeepsCache closed f.memory.store g.memory.store
      ∧ AccessFault closed f.memory.store fault

namespace Accesses

variable {α β : Type} {p : Procedure PagedFile α}

/-- An access keeps the pages of the cache open, whatever comes of it. -/
theorem keeps (h : Accesses closed p) :
    Keeps (fun file => file.store.CacheOpen closed) p := fun f hf =>
  (h f hf).mono (fun _ _ hg => hg.cacheOpen) fun _ _ hg => hg.1.cacheOpen

/-- What is made of the answer does not matter. -/
theorem bind_pure (h : Accesses closed p) (g : α → β) :
    Accesses closed (do return g (← p)) := fun f hf =>
  (leads_bind _ _).mpr (h f hf)

end Accesses

/-- To write bytes is such an access. -/
theorem accesses_writeBytes (start : Nat) (bytes : List UInt8) :
    Accesses closed (writeBytes start bytes) := by
  intro f hf
  unfold writeBytes onStore markWritten
  simp only [leads_bind, leads_memory, leads_within, leads_update]
  exact writePieces_keepsCache (v := f.part store) f.memory.store.pageSize_pos start bytes.length
    rfl (.refl hf) rfl

/-- So is to read bytes. -/
theorem accesses_readBytes (start length : Nat) : Accesses closed (readBytes start length) := by
  intro f hf
  unfold readBytes onStore
  simp only [leads_bind, leads_memory, leads_within]
  exact readPieces_keepsCache (v := f.part store) f.memory.store.pageSize_pos start length
    (.refl hf) rfl

/-- A word is written in one page, or as bytes over several. -/
theorem accesses_writeWord (start : Nat) (bytes : List UInt8) :
    Accesses closed (writeWord start bytes) := by
  intro f hf
  unfold writeWord
  rw [leads_bind, leads_memory, leads_ite]
  split
  next hone =>
    unfold onStore markWritten
    simp only [leads_bind, leads_within, leads_update]
    exact PageStore.writeAt_keepsCache (v := f.part store) (.refl hf) hone
  next => exact accesses_writeBytes start bytes f hf

/-- A word is read in the same way. -/
theorem accesses_readWord (start length : Nat) : Accesses closed (readWord start length) := by
  intro f hf
  unfold readWord
  rw [leads_bind, leads_memory, leads_ite]
  split
  next hone =>
    unfold onStore
    rw [leads_within]
    exact PageStore.readAt_keepsCache (v := f.part store) (.refl hf) hone
  next => exact accesses_readBytes start length f hf

end PagedFile

namespace FileCall

/-- Whether bytes or a word are put or got. -/
def IsAccess : FileCall → Prop
  | putBytes .. | putInt32 .. | putInt64 .. | getBytes .. | getInt32 .. | getInt64 .. => True
  | flush | evict | release | close | reopen _ => False

/-- Every call that puts or gets bytes is such an access. -/
theorem accesses {closed : List PageId} {c : FileCall} (h : c.IsAccess) :
    PagedFile.Accesses closed c.run := by
  cases c with
  | putBytes start bytes =>
    exact (PagedFile.accesses_writeBytes start bytes).bind_pure fun _ => FileAnswer.done
  | putInt32 start value =>
    exact (PagedFile.accesses_writeWord start _).bind_pure fun _ => FileAnswer.done
  | putInt64 start value =>
    exact (PagedFile.accesses_writeWord start _).bind_pure fun _ => FileAnswer.done
  | getBytes start length =>
    exact (PagedFile.accesses_readBytes start length).bind_pure FileAnswer.bytes
  | getInt32 start =>
    exact ((PagedFile.accesses_readWord start 4).bind_pure decodeInt32).bind_pure FileAnswer.int32
  | getInt64 start =>
    exact ((PagedFile.accesses_readWord start 8).bind_pure decodeInt64).bind_pure FileAnswer.int64
  | _ => exact h.elim

/-- Everything but a reopening keeps the pages of the cache open. -/
theorem keeps_cacheOpen {closed : List PageId} {c : FileCall}
    (h : ∀ lifetime, c ≠ reopen lifetime) :
    Keeps (fun file => file.store.CacheOpen closed) c.run := by
  by_cases haccess : c.IsAccess
  · exact (accesses haccess).keeps
  · cases c with
    | flush => exact (keeps_update fun m h => h.loses (.flush m.store)).bind fun _ => keeps_pure _
    | evict =>
      exact (PagedFile.keeps_onStore_of (StoreCall.keeps_cacheOpen .sweep)).bind fun _ =>
        keeps_pure _
    | release =>
      exact (PagedFile.keeps_onStore_of (StoreCall.keeps_cacheOpen .dropAll)).bind fun _ =>
        keeps_pure _
    | close =>
      exact ((keeps_update fun m h => h.loses (.flush m.store)).bind fun _ =>
        keeps_update fun _ h => h.dropAll).bind fun _ => keeps_pure _
    | reopen lifetime => exact absurd rfl (h lifetime)
    | _ => exact absurd trivial haccess

end FileCall

/-! ## Runs -/

/-- What is asked of a store, of the file over it, and of the pages that were handed out. -/
inductive MappedCall where
  | store (call : StoreCall)
  | file (call : FileCall)
  | recoverLength
  | reset
  | page (id : PageId) (call : HandleCall)
  deriving DecidableEq

namespace MappedCall

/-- What is done. -/
def run : MappedCall → Procedure PagedFile Unit
  | store c => PagedFile.onStore c.run
  | file c => discard c.run
  | recoverLength => discard PagedFile.recoverLength
  | reset => PagedFile.reset
  | page id c => PagedFile.onStore (c.run id)

/-- Only pages that are there can be asked, and the file is not given up. -/
def Possible (s : PageStore) : MappedCall → Prop
  | file c => ∀ lifetime, c ≠ .reopen lifetime
  | page id _ => id < s.pages.size
  | _ => True

/-- The page that the call closes through itself. -/
def closed? : MappedCall → Option PageId
  | page id .close => some id
  | _ => none

end MappedCall

/-- The pages that were closed through themselves. -/
def closedBy (calls : List MappedCall) : List PageId := calls.filterMap MappedCall.closed?

/-- One call more closes one page more at most. -/
theorem closedBy_concat (calls : List MappedCall) (c : MappedCall) :
    closedBy (calls ++ [c]) = closedBy calls ++ c.closed?.toList := by
  rw [closedBy, List.filterMap_append, closedBy]
  cases hc : c.closed? <;> simp [hc]

/-- Calls that follow one another, from a store that has mapped nothing yet, while others change the
disk. -/
inductive PagedFile.Shared : List MappedCall → Session PagedFile → Prop
  | opened (host : Host) (directory : Path) (pageSize : Nat) (pageSize_pos : 0 < pageSize)
    (lifetime : UInt64) (length : Nat) :
    Shared [] ⟨host, { store := { directory, pageSize, pageSize_pos, lifetime }, length }⟩
  | disturbed {calls : List MappedCall} {f : Session PagedFile} (before : Shared calls f)
    (host : Host) :
    Shared calls ⟨host, f.memory⟩
  | call {calls : List MappedCall} {f : Session PagedFile} (before : Shared calls f)
    (c : MappedCall)
    (hpossible : c.Possible f.memory.store) : Shared (calls ++ [c]) (c.run.outcome f).2

/-- A call keeps the pages of the cache open, and only what it closes through itself is closed
besides. -/
theorem MappedCall.cacheOpen {closed : List PageId} {f : Session PagedFile}
    (h : f.memory.store.CacheOpen closed) (c : MappedCall) (hpossible : c.Possible f.memory.store) :
    (c.run.outcome f).2.memory.store.CacheOpen (closed ++ c.closed?.toList) := by
  have hkeeps {c : MappedCall} (hnone : c.closed? = none)
      (hc : Keeps (fun file => file.store.CacheOpen closed) c.run) :
      (c.run.outcome f).2.memory.store.CacheOpen (closed ++ c.closed?.toList) := by
    rw [hnone, Option.toList_none, List.append_nil]
    exact hc.outcome h
  cases c with
  | store c => exact hkeeps rfl (PagedFile.keeps_onStore_of c.keeps_cacheOpen)
  | file c => exact hkeeps rfl (FileCall.keeps_cacheOpen hpossible).discard
  | recoverLength =>
    refine hkeeps rfl (Keeps.discard ?_)
    exact (PagedFile.keeps_onStore_of PageStore.keeps_pageIndexes).bind fun _ =>
      keeps_memory.bind fun _ =>
      .bind (keeps_update fun _ h => h) fun _ => keeps_pure _
  | reset =>
    exact hkeeps rfl
      ((PagedFile.keeps_onStore_of (StoreCall.keeps_cacheOpen .deleteAll)).bind fun _ =>
      keeps_update fun _ h => h)
  | page id c =>
    by_cases hclose : c = .close
    · subst hclose
      exact h.close hpossible
    · refine hkeeps ?_ (PagedFile.keeps_onStore_of (HandleCall.keeps_cacheOpen id hclose))
      cases c with
      | close => exact absurd rfl hclose
      | _ => rfl

/-- After any calls the pages of the cache are open but for those that were closed by hand. -/
theorem PagedFile.Shared.cacheOpen {calls : List MappedCall} {f : Session PagedFile}
    (h : Shared calls f) :
    f.memory.store.CacheOpen (closedBy calls) := by
  induction h with
  | opened => exact .of_cached_empty rfl nofun
  | disturbed _ _ ih => exact ih
  | call _ c hpossible ih =>
    rw [closedBy_concat]
    exact c.cacheOpen ih hpossible

/-- Two pages are handed out, and the first one is closed through itself. -/
def closingFirst : List MappedCall := [.store (.acquire 0), .store (.acquire 1), .page 0 .close]

/-- A file with pages of eight bytes, in a directory that is still empty. -/
def blankFile : Session PagedFile :=
  ⟨⟨(Change.makeDirectory ["pages"]).apply 0 {}, ⟨fun _ => 0, 0⟩, []⟩,
    { store := .opened ["pages"] 8 (by decide) 1 }⟩

/-- What the calls leave of it. -/
def firstClosed : Session PagedFile := closingFirst.foldl (fun f c => (c.run.outcome f).2) blankFile

/-- The pages of the example come from calls that follow one another. -/
theorem shared_firstClosed : PagedFile.Shared closingFirst firstClosed := by
  have hboth := ((PagedFile.Shared.opened blankFile.host ["pages"] 8 (by decide) 1 0).call
    (.store (.acquire 0)) trivial).call (.store (.acquire 1)) trivial
  refine hboth.call (.page 0 .close) ?_
  show 0 < _
  decide +kernel

end PagedQueue
