import PagedQueue.Proofs.PageCourse
import PagedQueue.Proofs.StatusFailures

/-!
# When changes are forced out

A page that is written to is marked dirty, and keeps the bytes to itself until they are forced out
(`Page.unforced`). It may leave the cache before that: a sweep lets it go, a deletion or a closing
takes it away. None of these loses sight of a dirty page, because whatever takes a page out of the
cache closes it, and closing forces its bytes out (`PageStore.TracksDirty`). Only a page that was
collected can be replaced in the cache by another one, and none that was collected is there. So
forcing out what is in the cache forces out everything (`PageStore.TracksDirty.clean_flush`): no
page is marked, and none has bytes left.

A queue that forces its pages out after so many changes counts them, and the count stays below that
number from one call to the next (`Queue.Counts`). No call takes the count back but the change that
forces the pages out and the emptying of the queue. So among as many changes in a row there is one
after which nothing is left to be forced out (`changes_are_forced_out`).
-/

namespace PagedQueue

open Procedure
open PagedFile (Lies Lasting)
open MessageIndex (Keyed)

namespace Page

variable {p : Page}

/-- A page that is not marked dirty, and all of whose bytes were forced out. -/
structure Clean (p : Page) : Prop where
  dirty : p.dirty = false
  unforced : p.unforced = []

/-- A page with bytes that were not forced out is marked dirty. -/
def Marked (p : Page) : Prop := p.unforced ≠ [] → p.dirty = true

/-- A page that is not marked has no bytes to be forced out. -/
theorem Marked.clean (h : p.Marked) (hdirty : p.dirty = false) : p.Clean where
  dirty := hdirty
  unforced := by
    by_contra hunforced
    rw [h hunforced] at hdirty
    cases hdirty

/-- A page without such bytes need not be marked. -/
theorem Clean.marked (h : p.Clean) : p.Marked := fun hunforced => absurd h.unforced hunforced

/-- A page that was just mapped is clean. -/
theorem Fresh.clean (h : p.Fresh) : p.Clean := ⟨h.dirty, h.unforced⟩

/-- A look at the clock marks no page. -/
theorem dirty_touch (p : Page) (time : Int) : (p.touch time).dirty = p.dirty := by
  unfold touch
  split <;> rfl

/-- Nor does it write anything. -/
theorem unforced_touch (p : Page) (time : Int) : (p.touch time).unforced = p.unforced := by
  unfold touch
  split <;> rfl

/-- A page that is only used stays clean. -/
theorem Clean.touch (h : p.Clean) (time : Int) : (p.touch time).Clean :=
  ⟨(p.dirty_touch time).trans h.dirty, (p.unforced_touch time).trans h.unforced⟩

/-- A page is forced out at once, and a second time nothing is left. -/
@[simp]
theorem flush_flush (p : Page) : p.flush.flush = p.flush := by
  unfold flush
  split <;> simp_all

/-- Who uses a page does not matter when it is forced out. -/
theorem references_flush (p : Page) : p.flush.references = p.references := by
  unfold flush
  split <;> rfl

theorem references_close (p : Page) : p.close.references = p.references := p.references_flush

/-- Forcing out the bytes of a page leaves it clean, if it is open where it is marked. -/
theorem Marked.clean_flush (h : p.Marked) (hopen : p.dirty = true → p.isOpen = true) :
    p.flush.Clean := by
  unfold flush
  split
  next => exact ⟨rfl, rfl⟩
  next hnot =>
    refine h.clean (Bool.eq_false_iff.mpr fun hdirty => hnot ?_)
    rw [hopen hdirty, hdirty]
    rfl

/-- So does closing it. -/
theorem Marked.clean_close (h : p.Marked) (hopen : p.dirty = true → p.isOpen = true) :
    p.close.Clean :=
  ⟨(h.clean_flush hopen).dirty, (h.clean_flush hopen).unforced⟩

/-- A page that is collected and closed keeps no bytes to itself. -/
theorem Marked.clean_collect_close (h : p.Marked) (hopen : p.dirty = true → p.isOpen = true) :
    p.collect.close.Clean :=
  Marked.clean_close (p := p.collect) h hopen

end Page

namespace PageStore

variable {s t : PageStore} {id : PageId} {held : Option PageId} {index : Nat}

/-! ## Pages with bytes that were not forced out -/

/-- No page is dirty or has bytes to be forced out, whether it is still mapped or not. -/
def Clean (s : PageStore) : Prop := ∀ id, (s.page id).Clean

/-- The pages with bytes to be forced out are marked dirty, and those that are marked are open and
in the cache, where none that was collected is; the page in hand is in the cache as well, with a
user. -/
structure TracksDirty (held : Option PageId) (s : PageStore) : Prop where
  live : ∀ {index : Nat} {id : PageId}, s.cached[index]? = some id → 0 ≤ (s.page id).references
  dirty : ∀ {id : PageId}, (s.page id).dirty = true →
    (s.page id).isOpen = true ∧ ∃ index : Nat, s.cached[index]? = some id
  marked : ∀ id, (s.page id).Marked
  inHand : ∀ {id : PageId}, held = some id →
    0 < (s.page id).references ∧ ∃ index : Nat, s.cached[index]? = some id

/-- The pages in the cache are those that stand for some number. -/
theorem mem_cachedPages : id ∈ s.cachedPages ↔ ∃ index : Nat, s.cached[index]? = some id := by
  rw [cachedPages, values_eq_map_toList]
  constructor
  · intro hmem
    obtain ⟨⟨index, _⟩, hentry, rfl⟩ := List.mem_map.mp hmem
    exact ⟨index, Std.TreeMap.mem_toList_iff_getElem?_eq_some.mp hentry⟩
  · intro hand
    obtain ⟨index, hid⟩ := hand
    exact List.mem_map.mpr ⟨(index, id), Std.TreeMap.mem_toList_iff_getElem?_eq_some.mpr hid, rfl⟩

/-- A page that is not in the table was never written to. -/
theorem clean_of_ge (h : s.pages.size ≤ id) : (s.page id).Clean := by
  rw [page, Array.getD_eq_getD_getElem?, Array.getElem?_eq_none h]
  exact ⟨rfl, rfl⟩

namespace Clean

/-- A store stays clean if the page that changes does. -/
theorem updatePage (h : s.Clean) (id : PageId) {f : Page → Page} (hf : ∀ p, p.Clean → (f p).Clean) :
    (s.updatePage id f).Clean := by
  intro other
  rw [page_updatePage]
  split
  · exact hf _ (h other)
  · exact h other

/-- Pages that are let go are forced out and closed, so they are clean. -/
theorem letGo (h : s.Clean) (expired : List (Nat × PageId)) : (s.letGo expired).Clean := by
  intro id
  by_cases hgone : ∃ i, (i, id) ∈ expired
  · obtain ⟨i, hmem⟩ := hgone
    by_cases hid : id < s.pages.size
    · rw [page_letGo_of_mem hmem hid]
      refine (h id).marked.clean_collect_close fun hdirty => ?_
      rw [(h id).dirty] at hdirty
      cases hdirty
    · exact clean_of_ge ((size_letGo ..).symm ▸ Nat.le_of_not_lt hid)
  · rw [page_letGo_of_free fun i hmem => hgone ⟨i, hmem⟩]
    exact h id

/-- A clean page may be added. -/
theorem grown (h : s.Clean) {page : Page} (hpage : page.Clean) : (s.grown index page).Clean := by
  intro id
  rcases page_grown_cases s index page id with heq | ⟨-, heq⟩ <;> rw [heq]
  · exact h id
  · exact hpage

/-- A clean store without a page in the cache has nothing to keep track of. -/
theorem tracksDirty (h : s.Clean) (hcached : s.cached = {}) : s.TracksDirty none := by
  refine ⟨fun {i id} hid => ?_, fun {id} hdirty => ?_, fun id => (h id).marked, nofun⟩
  · rw [hcached, Std.TreeMap.getElem?_emptyc] at hid
    cases hid
  · rw [(h id).dirty] at hdirty
    cases hdirty

end Clean

/-- Nothing is written in the course of an access that only reads. -/
theorem course_clean : Course fun _ _ t => t.Clean where
  take h _ _ := h.updatePage _ fun _ hp => ⟨hp.dirty, hp.unforced⟩
  grown h _ hpage := h.grown ⟨hpage.dirty, hpage.unforced⟩
  giveBack h := h.updatePage _ fun _ hp => ⟨hp.dirty, hp.unforced⟩
  touch id time h := h.updatePage id fun _ hp => hp.touch time
  letGo h _ := h.letGo _
  shareTicket _ h := h
  takeTicket _ h := h
  withdrawTicket h := h

namespace TracksDirty

/-- A page to which no bytes are written may change in its users, as long as it stays live. -/
theorem updatePage (h : s.TracksDirty held) {held' : Option PageId} {f : Page → Page}
    (hdirty : ∀ p, (f p).dirty = p.dirty) (hunforced : ∀ p, (f p).unforced = p.unforced)
    (hopen : ∀ p, (f p).isOpen = p.isOpen)
    (hlive : 0 ≤ (s.page id).references → 0 ≤ (f (s.page id)).references)
    (hheld : ∀ {other}, held' = some other → 0 < ((s.updatePage id f).page other).references
      ∧ ∃ index : Nat, s.cached[index]? = some other) : (s.updatePage id f).TracksDirty held' where
  live {i other} hid := by
    rw [page_updatePage]
    split
    next hand =>
      obtain ⟨rfl, -⟩ := hand
      exact hlive (h.live hid)
    next => exact h.live hid
  dirty {other} hwritten := by
    rw [updatePage_leaves Page.dirty hdirty] at hwritten
    rw [updatePage_leaves Page.isOpen hopen]
    exact h.dirty hwritten
  marked other := by
    rw [Page.Marked, updatePage_leaves Page.dirty hdirty, updatePage_leaves Page.unforced hunforced]
    exact h.marked other
  inHand := hheld

/-- A page is taken, and it is the one that may be written. -/
theorem take (h : s.TracksDirty none) (hid : s.cached[index]? = some id)
    (hlive : 0 ≤ (s.page id).references) :
    (s.updatePage id Page.retain).TracksDirty (some id) := by
  refine h.updatePage (fun _ => rfl) (fun _ => rfl) (fun _ => rfl)
    (fun _ => Int.le_add_one hlive) fun {other} hother => ?_
  obtain rfl := Option.some.inj hother
  exact ⟨references_retained_pos (lt_size_of_references (by omega)) hlive, index, hid⟩

/-- It is given back, and no page may be written. -/
theorem giveBack (h : s.TracksDirty (some id)) : (s.updatePage id Page.release).TracksDirty none :=
  h.updatePage (fun _ => rfl) (fun _ => rfl) (fun _ => rfl)
  (fun _ => Int.le_sub_one_of_lt (h.inHand rfl).1) nofun

/-- A look at the clock marks no page dirty. -/
theorem touch (h : s.TracksDirty held) (id : PageId) (time : Int) :
    (s.updatePage id (·.touch time)).TracksDirty held := by
  refine h.updatePage (fun p => p.dirty_touch time) (fun p => p.unforced_touch time)
    (fun p => Page.isOpen_of_origin (p.origin_touch time))
    (fun hlive => ?_) fun {other} hother => ?_
  · rwa [Page.references_touch]
  · obtain ⟨hused, hcached⟩ := h.inHand hother
    refine ⟨?_, hcached⟩
    rwa [updatePage_leaves Page.references fun p => p.references_touch time]

/-- What is let go is closed, and so its bytes are forced out. -/
theorem clean_of_letGo (h : s.TracksDirty held) {expired : List (Nat × PageId)} {i : Nat}
    (hmem : (i, id) ∈ expired) : ((s.letGo expired).page id).Clean := by
  by_cases hid : id < s.pages.size
  · rw [page_letGo_of_mem hmem hid]
    exact (h.marked id).clean_collect_close fun hdirty => (h.dirty hdirty).1
  · exact clean_of_ge ((size_letGo ..).symm ▸ Nat.le_of_not_lt hid)

/-- Letting pages go loses sight of no dirty one. -/
theorem letGo (h : s.TracksDirty held) {expired : List (Nat × PageId)}
    (hexpired : s.Expired expired) :
    (s.letGo expired).TracksDirty held := by
  refine ⟨fun {i id} hid => ?_, fun {id} hdirty => ?_, fun id => ?_, fun {id} hheld => ?_⟩
  · obtain ⟨hold, hfree⟩ := (getElem?_cached_letGo hexpired).mp hid
    rw [page_letGo_of_free hfree]
    exact h.live hold
  · by_cases hgone : ∃ i, (i, id) ∈ expired
    · obtain ⟨i, hmem⟩ := hgone
      rw [(h.clean_of_letGo hmem).dirty] at hdirty
      cases hdirty
    · have hfree (i : Nat) : (i, id) ∉ expired := fun hmem => hgone ⟨i, hmem⟩
      rw [page_letGo_of_free hfree] at hdirty ⊢
      obtain ⟨hopen, i, hold⟩ := h.dirty hdirty
      exact ⟨hopen, i, (getElem?_cached_letGo hexpired).mpr ⟨hold, hfree⟩⟩
  · by_cases hgone : ∃ i, (i, id) ∈ expired
    · obtain ⟨i, hmem⟩ := hgone
      exact (h.clean_of_letGo hmem).marked
    · rw [page_letGo_of_free fun i hmem => hgone ⟨i, hmem⟩]
      exact h.marked id
  · obtain ⟨hused, i, hold⟩ := h.inHand hheld
    have hfree (j : Nat) : (j, id) ∉ expired :=
      fun hmem => Int.ne_of_gt hused (hexpired.idle _ hmem)
    rw [page_letGo_of_free hfree]
    exact ⟨hused, i, (getElem?_cached_letGo hexpired).mpr ⟨hold, hfree⟩⟩

/-- No page that was collected is in the cache, so none is replaced there. -/
theorem grown (h : s.TracksDirty none) (hdead : ∀ id, s.cached[index]? = some id →
    (s.page id).references < 0)
    {page : Page} (hpage : page.Fresh) : (s.grown index page.retain).TracksDirty
      (some s.pages.size) := by
  have hfree : s.cached[index]? = none := by
    cases hid : s.cached[index]? with
    | none => rfl
    | some id => exact absurd (h.live hid) (Int.not_le_of_gt (hdead id hid))
  have hcount : page.retain.references = 1 := by rw [Page.retain, hpage.references]; rfl
  have hnew : (s.grown index page.retain).cached[index]? = some s.pages.size :=
    Std.TreeMap.getElem?_insert_self
  have hold {i : Nat} {id : PageId} (hid : s.cached[i]? = some id) :
      (s.grown index page.retain).cached[i]? = some id := by
    rw [PageStore.grown, Std.TreeMap.getElem?_insert, if_neg, hid]
    intro heq
    rw [← Nat.compare_eq_eq.mp heq, hfree] at hid
    cases hid
  refine ⟨fun {i id} hid => ?_, fun {id} hdirty => ?_, fun id => ?_, fun {id} hheld => ?_⟩
  · rcases page_grown_cases s index page.retain id with heq | ⟨rfl, heq⟩
    · rw [heq]
      rcases cached_grown hid with ⟨-, rfl⟩ | hin
      · rw [page_grown_self] at heq
        rw [← heq, hcount]
        decide
      · exact h.live hin
    · rw [heq, hcount]
      decide
  · rcases page_grown_cases s index page.retain id with heq | ⟨rfl, heq⟩
    · rw [heq] at hdirty ⊢
      obtain ⟨hopen, i, hid⟩ := h.dirty hdirty
      exact ⟨hopen, i, hold hid⟩
    · rw [heq] at hdirty
      exact absurd (hpage.dirty.symm.trans hdirty) Bool.false_ne_true
  · rcases page_grown_cases s index page.retain id with heq | ⟨-, heq⟩ <;> rw [heq]
    · exact h.marked id
    · exact hpage.clean.marked
  · obtain rfl := Option.some.inj hheld
    rw [page_grown_self, hcount]
    exact ⟨by decide, index, hnew⟩

/-- The page in hand may be written to if it is open, and is marked dirty then. -/
theorem written (h : s.TracksDirty (some id)) (hopen : (s.page id).isOpen = true) {start : Nat}
    {bytes : List UInt8} : (s.updatePage id (·.written start bytes)).TracksDirty (some id) := by
  obtain ⟨-, hcached⟩ := h.inHand rfl
  have hreferences := updatePage_leaves Page.references
    (fun p => (rfl : (p.written start bytes).references = p.references)) s id
  refine ⟨fun {i other} hid => ?_, fun {other} hdirty => ?_, fun other => ?_,
    fun {other} hheld => ?_⟩
  · rw [hreferences]
    exact h.live hid
  · rw [page_updatePage] at hdirty ⊢
    by_cases hself : id = other ∧ other < s.pages.size
    · rw [if_pos hself]
      obtain ⟨rfl, -⟩ := hself
      exact ⟨hopen, hcached⟩
    · rw [if_neg hself] at hdirty ⊢
      exact h.dirty hdirty
  · rw [page_updatePage]
    split
    · exact fun _ => rfl
    · exact h.marked other
  · rw [hreferences]
    exact h.inHand hheld

/-! ## Forcing out and closing -/

/-- Something that leaves an open page clean is done to all pages in the cache. -/
theorem clean_foldl (h : s.TracksDirty held) {f : Page → Page} (hf : ∀ p, f (f p) = f p)
    (hforces : ∀ p : Page, p.Marked → (p.dirty = true → p.isOpen = true) → (f p).Clean) :
    (s.cachedPages.foldl (fun s id => s.updatePage id f) s).Clean := by
  -- the pages are changed one after the other, each of them as if all were changed at once
  rw [foldl_updatePage_eq hf]
  intro id
  by_cases hid : id < s.pages.size
  · rw [page_mapPages _ _ hid]
    split
    next => exact hforces _ (h.marked id) fun hdirty => (h.dirty hdirty).1
    next hout =>
      refine (h.marked id).clean (Bool.eq_false_iff.mpr fun hdirty => hout ?_)
      exact mem_cachedPages.mpr (h.dirty hdirty).2
  · exact clean_of_ge (by simpa [mapPages] using hid)

/-- Forcing out all pages in the cache leaves every page clean. -/
theorem clean_flush (h : s.TracksDirty held) : s.flush.Clean :=
  h.clean_foldl Page.flush_flush fun _ => Page.Marked.clean_flush

/-- So does closing all of them. -/
theorem clean_dropAll (h : s.TracksDirty held) : s.dropAll.Clean :=
  h.clean_foldl Page.close_close fun _ => Page.Marked.clean_close

/-- Pages that are forced out are clean, so there is less to keep track of. -/
theorem flush (h : s.TracksDirty none) : s.flush.TracksDirty none := by
  have hflush : s.flush = s.mapPages fun id p => if id ∈ s.cachedPages then p.flush else p :=
    foldl_updatePage_eq Page.flush_flush s s.cachedPages
  refine ⟨fun {i id} hid => ?_, fun {id} hdirty => ?_, fun id => (h.clean_flush id).marked, nofun⟩
  · rw [hflush] at hid ⊢
    have hlive : 0 ≤ (s.page id).references := h.live hid
    have hsize : id < s.pages.size := lt_size_of_references (by omega)
    rw [page_mapPages _ _ hsize]
    split
    · rwa [Page.references_flush]
    · exact hlive
  · rw [(h.clean_flush id).dirty] at hdirty
    cases hdirty

/-- Pages that leave the cache are forced out first. -/
theorem dropAll (h : s.TracksDirty none) : s.dropAll.TracksDirty none :=
  h.clean_dropAll.tracksDirty rfl

/-- The page that is dropped is closed, and so its bytes are forced out. -/
theorem drop (h : s.TracksDirty none) (index : Nat) : (s.drop index).TracksDirty none := by
  unfold PageStore.drop
  split
  next id hid =>
    have hkept {i : Nat} {other : PageId} (hother : (s.cached.erase index)[i]? = some other) :
        s.cached[i]? = some other := by
      rw [Std.TreeMap.getElem?_erase] at hother
      split at hother
      · cases hother
      · exact hother
    have hclean : (s.page id).close.Clean :=
      (h.marked id).clean_close fun hdirty => (h.dirty hdirty).1
    refine ⟨fun {i other} hother => ?_, fun {other} hdirty => ?_, fun other => ?_, nofun⟩
    · have hlive := h.live (hkept hother)
      refine (congrArg (0 ≤ Page.references ·) (page_updatePage s id other Page.close)).mpr ?_
      split
      · rwa [Page.references_close]
      · exact hlive
    · have hpage := page_updatePage s id other Page.close
      by_cases hself : id = other ∧ other < s.pages.size
      · rw [if_pos hself] at hpage
        obtain ⟨rfl, -⟩ := hself
        rw [(hpage ▸ hclean : Page.Clean _).dirty] at hdirty
        cases hdirty
      · rw [if_neg hself] at hpage
        have hwritten : (s.page other).dirty = true := hpage ▸ hdirty
        obtain ⟨hopen, i, hother⟩ := h.dirty hwritten
        have hsize : other < s.pages.size := by
          by_contra hge
          rw [(clean_of_ge (Nat.le_of_not_lt hge)).dirty] at hwritten
          cases hwritten
        refine ⟨(congrArg Page.isOpen hpage).trans hopen, i, ?_⟩
        -- the page that is dropped is another one
        rw [Std.TreeMap.getElem?_erase, if_neg, hother]
        intro heq
        rw [← Nat.compare_eq_eq.mp heq, hid] at hother
        exact hself ⟨Option.some.inj hother, hsize⟩
    · refine (congrArg Page.Marked (page_updatePage s id other Page.close)).mpr ?_
      split
      next hself =>
        obtain ⟨rfl, -⟩ := hself
        exact hclean.marked
      next => exact h.marked other
  next => exact h

end TracksDirty

/-- Every page that is written to in the course of an access is in the cache and open. -/
theorem course_tracksDirty : Course fun _ held t => t.TracksDirty held where
  take := TracksDirty.take
  grown h hdead hpage := h.grown hdead hpage
  giveBack := TracksDirty.giveBack
  touch id time h := h.touch id time
  letGo h hexpired := h.letGo hexpired
  shareTicket _ h := ⟨h.live, h.dirty, h.marked, h.inHand⟩
  takeTicket _ h := ⟨h.live, h.dirty, h.marked, h.inHand⟩
  withdrawTicket h := ⟨h.live, h.dirty, h.marked, h.inHand⟩

end PageStore

/-! ## Files -/

namespace PagedFile

open PageStore (Course)

/-- A file whose cache keeps track of its dirty pages, which fit there. -/
def TracksDirty (file : PagedFile) : Prop := file.store.TracksDirty none ∧ file.store.Fitted

/-- Pages that fit go on fitting wherever the file lies. -/
theorem keeps_fitted {α : Type} {p : Procedure PagedFile α} (h : ∀ first, Keeps (Lies first) p) :
    Keeps (fun file => file.store.Fitted) p := fun s hs =>
  (h s.memory.store s ⟨.refl _, hs⟩).mono (fun _ _ ht => ht.2) fun _ _ ht => ht.2

/-- The pages of a file go on fitting whatever is done with it. -/
theorem lasting_fitted : Lasting fun file => file.store.Fitted where
  recoverLength := keeps_fitted fun _ => keeps_recoverLength
  reset := keeps_fitted fun _ => keeps_reset
  writeBytes start bytes := keeps_fitted fun _ => keeps_writeBytes start bytes
  readBytes start length := keeps_fitted fun _ => keeps_readBytes start length
  writeWord start bytes := keeps_fitted fun _ => keeps_writeWord start bytes
  readWord start length := keeps_fitted fun _ => keeps_readWord start length
  flush := keeps_fitted fun _ => keeps_flush
  close := keeps_fitted fun _ => keeps_close

/-- A page is written only while it is held, and it is marked dirty then. -/
theorem lasting_storeTracksDirty : Lasting fun file => file.store.TracksDirty none := by
  have hcourse := PageStore.course_tracksDirty
  have hwrites : Course.Writes fun _ held t => t.TracksDirty held :=
    fun _ h hopen => h.written hopen
  have hdelete : Keeps (fun store => store.TracksDirty none) PageStore.deleteAll :=
    PageStore.keeps_deleteAll_of (fun _ index h => h.drop index) fun _ h => h.dropAll
  refine ⟨?_, (keeps_onStore_of hdelete).bind fun _ => keeps_update fun _ h => h,
    hcourse.keeps_writeBytes hwrites, hcourse.keeps_readBytes, hcourse.keeps_writeWord hwrites,
    hcourse.keeps_readWord, keeps_update fun _ h => h.flush,
    (keeps_update fun _ h => h.flush).bind fun _ => keeps_update fun _ h => h.dropAll⟩
  exact (keeps_onStore_of PageStore.keeps_pageIndexes).bind fun _ => keeps_memory.bind fun _ =>
    .bind (keeps_update fun _ h => h) fun _ => keeps_pure _

/-- So a file tracks its dirty pages whatever is done with it. -/
theorem lasting_tracksDirty : Lasting TracksDirty := lasting_storeTracksDirty.and lasting_fitted

/-- A checkpoint forces pages out and lets others go, and both keep track. -/
theorem keeps_tracksDirty_checkpointPages : Keeps TracksDirty (onStore Queue.checkpointPages) := by
  have htracks : Keeps (fun store => store.TracksDirty none) Queue.checkpointPages :=
    .bind (keeps_update fun _ h => h.flush) fun _ =>
      Keeps.discard fun s h =>
        (@PageStore.Course.sweep_leads _ none none s PageStore.course_tracksDirty h).leads
  exact (keeps_onStore_of htracks).and (keeps_fitted fun store => Queue.keeps_checkpointPages store)

end PagedFile

/-! ## Changes -/

/-- After how many changes the pages are forced out, if it is changes that count. -/
def Durability.period? : Durability → Option Nat
  | everyWrite => some 1
  | everyOperations count => some count
  | manual | interval _ => none

/-- Whether the answer says that the call changed the messages: a new one was put in, or one was
taken, finished or given back. -/
def QueueCall.changes (c : QueueCall) : Except Fault QueueAnswer → Bool
  | .ok (.isNew new) => c.mayChange && new
  | .ok (.message found) => c.mayChange && found.isSome
  | _ => false

/-- A call that may not change anything does not. -/
theorem QueueCall.changes_eq_false {c : QueueCall} (h : c.mayChange = false)
    (answer : Except Fault QueueAnswer) :
    c.changes answer = false := by
  unfold changes
  split <;> simp [h]

namespace Queue

open PagedFile (TracksDirty lasting_tracksDirty)

variable {settings : Settings} {n k : Nat} {s t : Session Queue}

/-- No page of the queue is dirty or has bytes to be forced out, whether it is still mapped or
not. -/
def AllClean (q : Queue) : Prop := q.index.file.store.Clean ∧ q.payloads.file.store.Clean

/-- A queue with these settings, in order, which has counted so many changes since its pages were
last forced out for their number. -/
def Counts (settings : Settings) (k : Nat) : Queue → Prop :=
  FilesKept TracksDirty TracksDirty fun settings' changes => settings' = settings ∧ changes = k

/-- One change more is counted, or all bytes were forced out and counting starts anew. -/
def Advances (settings : Settings) (n k : Nat) (q : Queue) : Prop :=
  k + 1 < n ∧ Counts settings (k + 1) q ∨ 0 < n ∧ Counts settings 0 q ∧ q.AllClean

/-- The number of changes since the last checkpoint may be anything. -/
theorem Counts.recount (h : Counts settings k s.memory) (k' : Nat) :
    Counts settings k' { s.memory with changes := k' } := ⟨⟨h.told.1, rfl⟩, h.payloads, h.index⟩

/-- Once both files are forced out, all pages are clean. -/
theorem flushFiles_cleans (h : Counts settings k s.memory) :
    flushFiles.Ensures s fun _ t => Counts settings k t.memory ∧ t.memory.AllClean := by
  have hclean : flushFiles.Ensures s fun _ t => t.memory.AllClean :=
    ⟨h.index.1.1.clean_flush, h.payloads.1.clean_flush⟩
  exact ((FilesKept.keeps_flushFiles lasting_tracksDirty lasting_tracksDirty s h).and hclean).mono
    (fun _ _ ht => ht) fun _ _ ht => ht.2

/-- A change is counted, and the count that is full forces all pages out. -/
theorem afterChange_advances (hperiod : settings.durability.period? = some n) (hk : k < n)
    (h : Counts settings k s.memory) : afterChange.Ensures s fun _ t =>
      Advances settings n k t.memory := by
  obtain ⟨hsettings, hchanges⟩ := h.told
  have hflush {u : Session Queue} (hu : Counts settings 0 u.memory) :
      flushFiles.Ensures u fun _ t => Advances settings n k t.memory :=
    (flushFiles_cleans hu).mono fun _ _ ht => .inr ⟨Nat.zero_lt_of_lt hk, ht⟩
  unfold afterChange Ensures
  simp only [leads_bind, leads_memory, hsettings]
  cases hdurability : settings.durability with
  | everyWrite =>
    rw [hdurability] at hperiod
    obtain rfl : 1 = n := Option.some.inj hperiod
    obtain rfl : k = 0 := by omega
    exact hflush h
  | everyOperations count =>
    rw [hdurability] at hperiod
    obtain rfl : count = n := Option.some.inj hperiod
    simp only [leads_bind, leads_update, leads_memory, leads_ite, leads_pure, hchanges]
    split
    next => exact hflush (u := ⟨s.host, _⟩) (h.recount 0)
    next hless => exact .inl ⟨by omega, h.recount (k + 1)⟩
  | manual => rw [hdurability] at hperiod; cases hperiod
  | interval => rw [hdurability] at hperiod; cases hperiod

/-- Reading a message writes nothing. -/
theorem keeps_allClean_readMessage (id : EntryId) : Keeps AllClean (readMessage id) := by
  have hread (start length : Nat) : Keeps
      (fun file => file.store.Clean) (PagedFile.readBytes start length) :=
    PageStore.course_clean.keeps_readBytes start length
  refine keeps_memory.bind fun _ => .bind ?_ fun _ => keeps_pure _
  exact .within fun q hq => ⟨_, keeps_onPayloadFile (hread _ _), hq.2, fun _ hlog => ⟨hq.1, hlog⟩⟩

/-- A message that is read leaves clean pages clean. -/
theorem keeps_advances_readMessage (id : EntryId) :
    Keeps (Advances settings n k) (readMessage id) := by
  have hcounts (k : Nat) : Keeps (Counts settings k) (readMessage id) :=
    FilesKept.keeps_readMessage lasting_tracksDirty.readBytes id
  intro s hs
  rcases hs with ⟨hk, hs⟩ | ⟨hn, hs⟩
  · exact (hcounts (k + 1) s hs).mono (fun _ _ ht => .inl ⟨hk, ht⟩) fun _ _ ht => .inl ⟨hk, ht⟩
  · exact (((hcounts 0).and (keeps_allClean_readMessage id)) s hs).mono
      (fun _ _ ht => .inr ⟨hn, ht⟩)
      fun _ _ ht => .inr ⟨hn, ht⟩

/-- The pages of the payloads fit either way. -/
theorem Advances.payloadsFit {q : Queue} (h : Advances settings n k q) :
    q.payloads.file.store.Fitted := by
  rcases h with ⟨-, h⟩ | ⟨-, h, -⟩
  · exact h.payloads.2
  · exact h.payloads.2

/-! ## Calls -/

/-- What a call leaves: it is counted if it changed the messages. It may be counted as well if it
did and its answer was refused a page, and the emptying of a queue counts from nothing. -/
inductive Settles (settings : Settings) (n k : Nat) (c : QueueCall)
    (answer : Except Fault QueueAnswer) (q : Queue) :
    Prop
  | counted (hchanges : c.changes answer = true) (h : Advances settings n k q)
  | still (hchanges : c.changes answer = false) (h : Counts settings k q)
  | emptied (hstart : c = .startEmpty) (h : Counts settings 0 q)
  | refused {path : Path} (hanswer : answer = .error (.pageMap path)) (h : Advances settings n k q)

section

variable (hperiod : settings.durability.period? = some n) (hk : k < n)
    (h : Counts settings k s.memory)
include hperiod hk h

/-- A push that puts a message in is counted, and one that fails or is refused is not. -/
theorem push_advances (m : Message) : (push m).Leads s
    (fun new t => if new then Advances settings n k t.memory else Counts settings k t.memory)
    fun _ t => Counts settings k t.memory := by
  unfold push
  rw [leads_bind]
  refine (FilesKept.keeps_ensureOpen s h).mono (fun _ t ht => ?_) fun _ _ => id
  simp only [leads_ite, leads_throw, leads_bind]
  split
  · exact ht
  split
  · exact ht
  refine (FilesKept.keeps_onIndex (MessageIndex.keeps_reserve _) t ht).mono
    (fun admitted u hu => ?_) fun _ _ => id
  cases admitted with
  | false => exact hu
  | true =>
    have hstore : Keeps (Counts settings k)
        (tryFinally (store m) (onIndex (MessageIndex.withdraw m.uuid))) :=
      (FilesKept.keeps_store lasting_tracksDirty lasting_tracksDirty m).tryFinally
        (FilesKept.keeps_onIndex (MessageIndex.keeps_withdraw _))
    refine (hstore u hu).mono (fun _ v hv => ?_) fun _ _ => id
    exact (afterChange_advances hperiod hk hv).leads

/-- A call that moves a message is counted if it did, and one that fails was refused a page. -/
theorem change_advances {move : Procedure MessageIndex (Option EntryId)}
    (hmove : Keeps (Keyed TracksDirty) move) :
    (change move).Leads s
      (fun found t => if found.isSome then Advances settings n k t.memory
        else Counts settings k t.memory)
      fun fault t => Counts settings k t.memory
        ∨ (∃ path, fault = .pageMap path) ∧ Advances settings n k t.memory := by
  unfold change
  rw [leads_bind]
  refine (FilesKept.keeps_ensureOpen s h).mono (fun _ t ht => ?_) fun _ _ => .inl
  rw [leads_bind]
  refine (FilesKept.keeps_onIndex hmove t ht).mono (fun moved u hu => ?_) fun _ _ => .inl
  cases moved with
  | none => exact hu
  | some id =>
    simp only [leads_bind, leads_pure, Option.isSome_some, if_true]
    refine (afterChange_advances hperiod hk hu).leads.mono (fun _ v hv => ?_) fun _ _ => False.elim
    refine ((keeps_advances_readMessage id v hv).and (readMessage_stays hv.payloadsFit id)).mono
      (fun _ _ hw => hw.1) fun _ _ hw => .inr ⟨?_, hw.1⟩
    obtain ⟨-, -, page, hrefused⟩ := hw.2
    exact ⟨_, hrefused⟩

/-- A call leaves the queue in order, with the change that it made counted. -/
theorem run_leaves (c : QueueCall) :
    Settles settings n k c (c.run.outcome s).1 (c.run.outcome s).2.memory := by
  have hmove {move : Procedure MessageIndex (Option EntryId)}
      (hkeeps : Keeps (Keyed TracksDirty) move)
      (hmay : c.mayChange = true) (hrun : c.run = (do return .message (← change move))) :
      Settles settings n k c (c.run.outcome s).1 (c.run.outcome s).2.memory := by
    refine @Leads.answered _ _ c.run s (fun answer t => Settles settings n k c answer t.memory) ?_
    rw [hrun, leads_bind]
    refine (change_advances hperiod hk h hkeeps).mono (fun found t ht => ?_) fun fault t ht => ?_
    · rw [leads_pure]
      cases found with
      | none => exact .still (by simp [QueueCall.changes]) ht
      | some m => exact .counted (by simp [QueueCall.changes, hmay]) ht
    · rcases ht with ht | ⟨⟨path, rfl⟩, ht⟩
      · exact .still rfl ht
      · exact .refused rfl ht
  have hstill (hmay : c.mayChange = false) (hstart : c ≠ .startEmpty) :
      Settles settings n k c (c.run.outcome s).1 (c.run.outcome s).2.memory := by
    have hkeeps : Keeps (Counts settings k) c.run :=
      FilesKept.keeps_run lasting_tracksDirty lasting_tracksDirty
      PagedFile.keeps_tracksDirty_checkpointPages PagedFile.keeps_tracksDirty_checkpointPages c
      (fun hcan => by rw [hmay] at hcan; cases hcan)
      fun heq => absurd heq hstart
    exact .still (QueueCall.changes_eq_false hmay _) (hkeeps.outcome h)
  have htransition (uuid : Uuid) (expected status : Status) :=
    MessageIndex.keeps_transition lasting_tracksDirty uuid expected status
  cases c with
  | push m =>
    refine @Leads.answered _ _ (QueueCall.push m).run s
      (fun answer t => Settles settings n k (.push m) answer t.memory) ?_
    simp only [QueueCall.run, leads_bind, leads_pure]
    refine (push_advances hperiod hk h m).mono (fun new t ht => ?_) fun fault t ht => .still rfl ht
    cases new with
    | true => exact .counted rfl ht
    | false => exact .still rfl ht
  | lock uuid => exact hmove (htransition _ _ _) rfl rfl
  | pop => exact hmove (MessageIndex.keeps_pop lasting_tracksDirty) rfl rfl
  | finish uuid => exact hmove (MessageIndex.keeps_finish lasting_tracksDirty uuid) rfl rfl
  | rollback uuid => exact hmove (htransition _ _ _) rfl rfl
  | startEmpty =>
    have hkeeps : Keeps (FilesKept TracksDirty TracksDirty fun settings' changes =>
        settings' = settings ∧ (changes = k ∨ changes = 0)) startEmpty :=
      FilesKept.keeps_startEmpty lasting_tracksDirty lasting_tracksDirty fun _ _ htold =>
        ⟨htold.1, .inr rfl⟩
    have ht := (hkeeps.bind fun _ => keeps_pure QueueAnswer.done).outcome (s := s)
      ⟨⟨h.told.1, .inl h.told.2⟩, h.payloads, h.index⟩
    obtain ⟨⟨hsettings, hk | hzero⟩, hpayloads, hindex⟩ := ht
    · exact .still (QueueCall.changes_eq_false rfl _) ⟨⟨hsettings, hk⟩, hpayloads, hindex⟩
    · exact .emptied rfl ⟨⟨hsettings, hzero⟩, hpayloads, hindex⟩
  | get | peek | status | size | recordCount | flush | checkpoint | recover =>
    exact hstill rfl (by simp)

end

/-! ## Runs -/

/-- A queue that was just opened has counted nothing, and nothing was written. -/
theorem openFiles_counts {σ : Type} (settings : Settings) (s : Session σ) :
    (openFiles settings).Leads s (fun q _ => settings.validate = .ok () ∧ Counts settings 0 q)
      fun _ _ => True := by
  have hdirectories (path : Path) {t : Session σ} {done : Session σ → Prop} (hdone : ∀ u, done u) :
      (PageStore.makeDirectories path).Leads t (fun _ u => done u) fun _ _ => True :=
    (keeps_true (PageStore.makeDirectories path) t trivial).mono
      (fun _ u _ => hdone u) fun _ _ _ => trivial
  have hstore (directory : Path) (t : Session σ) :
      (PageStore.create directory settings.pageSize settings.lifetime).Leads t
        (fun store _ => store.TracksDirty none ∧ store.Fitted) fun _ _ => True := by
    unfold PageStore.create
    split
    · rw [leads_bind]
      refine hdirectories directory fun u => ?_
      have hclean (hpos : 0 < settings.pageSize) :
          (PageStore.opened directory settings.pageSize hpos settings.lifetime).Clean :=
        fun _ => PageStore.clean_of_ge (Nat.zero_le _)
      exact ⟨(hclean _).tracksDirty rfl, .of_cached_empty rfl⟩
    · exact trivial
  have hfile {store : PageStore} (hstore : store.TracksDirty none ∧ store.Fitted) (t : Session σ) :
      (PagedFile.ofStore store).Leads t (fun file _ => TracksDirty file) fun _ _ => True := by
    unfold PagedFile.ofStore
    simp only [leads_bind, leads_launch, leads_pure]
    exact (lasting_tracksDirty.recoverLength ⟨t.host, { store }⟩ hstore).mono
      (fun _ _ hu => hu) fun _ _ _ => trivial
  unfold openFiles
  cases hvalid : settings.validate with
  | error fault => exact trivial
  | ok =>
    simp only [leads_bind, leads_ofExcept_ok, leads_pure]
    refine hdirectories _ fun t => ?_
    refine (hstore _ t).mono (fun records u hrecords => ?_) fun _ _ _ => trivial
    refine (hstore _ u).mono (fun payloads v hpayloads => ?_) fun _ _ _ => trivial
    refine (hfile hrecords v).mono (fun recordFile w hrecordFile => ?_) fun _ _ _ => trivial
    refine (hfile hpayloads w).mono (fun payloadFile x hpayloadFile => ?_) fun _ _ _ => trivial
    exact ⟨trivial, ⟨rfl, rfl⟩, hpayloadFile, hrecordFile, MessageIndex.indexed_of_empty rfl⟩

/-- The number of changes between two checkpoints is not zero. -/
theorem period_pos (hvalid : settings.validate = .ok ())
    (hperiod : settings.durability.period? = some n) : 0 < n := by
  obtain ⟨-, -, -, -, hcount, -⟩ := (Settings.validate_eq_ok_iff settings).mp hvalid
  cases hdurability : settings.durability with
  | everyWrite =>
    rw [hdurability] at hperiod
    cases hperiod
    exact Nat.zero_lt_one
  | everyOperations count =>
    rw [hdurability] at hperiod hcount
    cases hperiod
    exact Nat.pos_of_ne_zero fun hzero => hcount (congrArg Durability.everyOperations hzero)
  | manual | interval => rw [hdurability] at hperiod; cases hperiod

end Queue

/-- A call of a queue, with the session in which it is made. -/
structure QueueEvent where
  before : Session Queue
  call : QueueCall

namespace QueueEvent

def answer (e : QueueEvent) : Except Fault QueueAnswer := (e.call.run.outcome e.before).1

def after (e : QueueEvent) : Session Queue := (e.call.run.outcome e.before).2

/-- Whether the call changed the messages and said so. -/
def isChange (e : QueueEvent) : Bool := e.call.changes e.answer

/-- Whether the call failed because a page was refused. -/
def isRefused (e : QueueEvent) : Bool :=
  match e.answer with
  | .error (.pageMap _) => true
  | _ => false

end QueueEvent

/-- A queue is opened, and calls follow one another. It may be closed meanwhile, and other programs
may change the disk in any way. -/
inductive Queue.Operated (settings : Settings) : List QueueEvent → Session Queue → Prop
  | opened {host : Host} {queue : Queue} {opened : Session Unit}
    (hopen : (openFiles settings).outcome ⟨host, ()⟩ = (.ok queue, opened)) :
    Operated settings [] ⟨opened.host, queue⟩
  | called {events : List QueueEvent} {s : Session Queue} (before : Operated settings events s)
    (c : QueueCall) :
    Operated settings (events ++ [⟨s, c⟩]) (c.run.outcome s).2
  | closed {events : List QueueEvent} {s : Session Queue} (before : Operated settings events s) :
    Operated settings events (close.outcome s).2
  | disturbed {events : List QueueEvent} {s : Session Queue} (before : Operated settings events s)
    (host : Host) :
    Operated settings events ⟨host, s.memory⟩

namespace Queue

variable {settings : Settings} {n k : Nat} {s t : Session Queue} {events window : List QueueEvent}

/-- A stretch of a run in which the queue is not emptied and no page is refused. -/
def Smooth (window : List QueueEvent) : Prop := ∀ e ∈ window, e.call ≠ .startEmpty
    ∧ e.isRefused = false

/-- One of the changes of a stretch has left nothing to be forced out. -/
def Forces (window : List QueueEvent) : Prop :=
  ∃ e ∈ window, e.isChange = true ∧ e.after.memory.AllClean

/-- Every smooth stretch that leads here has so many changes at most, unless one of them has forced
all pages out. -/
def Bounds (k : Nat) (events : List QueueEvent) : Prop :=
  ∀ past window, past ++ window = events → Smooth window →
  Forces window ∨ window.countP QueueEvent.isChange ≤ k

/-- One event more is counted, or it forces all pages out. -/
theorem Bounds.concat {e : QueueEvent} {k' : Nat} (h : Bounds k events)
    (hlast : Smooth [e] → Forces [e] ∨ k + [e].countP QueueEvent.isChange ≤ k') :
    Bounds k' (events ++ [e]) := by
  intro past window heq hsmooth
  rcases List.eq_nil_or_concat window with rfl | ⟨front, last, rfl⟩
  · exact .inr (Nat.zero_le _)
  rw [List.concat_eq_append] at heq hsmooth ⊢
  rw [← List.append_assoc] at heq
  obtain ⟨hfront, hsame⟩ := List.append_inj' heq rfl
  rw [hsame] at hsmooth ⊢
  rcases h past front hfront fun e he => hsmooth e (List.mem_append_left _ he) with ⟨e, he, hforces⟩
    | hle
  · exact .inl ⟨e, List.mem_append_left _ he, hforces⟩
  rcases hlast fun e he => hsmooth e (List.mem_append_right _ he) with ⟨e, he, hforces⟩ | hle'
  · exact .inl ⟨e, List.mem_append_right _ he, hforces⟩
  · rw [List.countP_append]
    exact .inr (Nat.le_trans (Nat.add_le_add_right hle _) hle')

/-- A queue that is in order has counted the changes of each smooth stretch that leads to it, and
less than the number after which pages are forced out. -/
def Bounded (settings : Settings) (n : Nat) (events : List QueueEvent) (q : Queue) : Prop :=
  ∃ k < n, Counts settings k q ∧ Bounds k events

/-- A call goes on with the bound, whatever comes of it. -/
theorem Bounded.called (hperiod : settings.durability.period? = some n)
    (h : Bounded settings n events s.memory)
    (c : QueueCall) : Bounded settings n (events ++ [⟨s, c⟩]) (c.run.outcome s).2.memory := by
  obtain ⟨k, hk, hcounts, hbounds⟩ := h
  have hn : 0 < n := Nat.zero_lt_of_lt hk
  cases run_leaves hperiod hk hcounts c with
  | counted hchanges hadvances =>
    have hchange : [(⟨s, c⟩ : QueueEvent)].countP QueueEvent.isChange = 1 :=
      List.countP_singleton.trans (if_pos hchanges)
    rcases hadvances with ⟨hless, hcounts'⟩ | ⟨-, hcounts', hclean⟩
    · exact ⟨k + 1, hless, hcounts', hbounds.concat fun _ => .inr (hchange ▸ Nat.le_refl _)⟩
    · exact ⟨0, hn, hcounts', hbounds.concat fun _ =>
        .inl ⟨_, List.mem_singleton_self _, hchanges, hclean⟩⟩
  | still hchanges hcounts' =>
    have hnone : [(⟨s, c⟩ : QueueEvent)].countP QueueEvent.isChange = 0 :=
      List.countP_singleton.trans (if_neg (Bool.eq_false_iff.mp hchanges))
    exact ⟨k, hk, hcounts', hbounds.concat fun _ => .inr (hnone ▸ Nat.le_refl _)⟩
  | emptied hstart hcounts' =>
    exact ⟨0, hn, hcounts', hbounds.concat fun hsmooth =>
      absurd hstart (hsmooth _ (List.mem_singleton_self _)).1⟩
  | refused hanswer hadvances =>
    have hrefused : ¬ Smooth [(⟨s, c⟩ : QueueEvent)] := fun hsmooth => by
      have hfree := (hsmooth _ (List.mem_singleton_self _)).2
      rw [QueueEvent.isRefused, QueueEvent.answer, hanswer] at hfree
      cases hfree
    rcases hadvances with ⟨hless, hcounts'⟩ | ⟨-, hcounts', -⟩
    · exact ⟨k + 1, hless, hcounts', hbounds.concat fun hsmooth => absurd hsmooth hrefused⟩
    · exact ⟨0, hn, hcounts', hbounds.concat fun hsmooth => absurd hsmooth hrefused⟩

/-- So does every run. -/
theorem Operated.bounded (hperiod : settings.durability.period? = some n)
    (h : Operated settings events s) :
    Bounded settings n events s.memory := by
  induction h with
  | opened hopen =>
    obtain ⟨hvalid, hcounts⟩ := (openFiles_counts settings _).of_ok hopen
    refine ⟨0, period_pos hvalid hperiod, hcounts, fun past window heq _ => ?_⟩
    rw [(List.append_eq_nil_iff.mp heq).2]
    exact .inr (Nat.le_refl _)
  | called _ c ih => exact ih.called hperiod c
  | closed _ ih =>
    obtain ⟨k, hk, hcounts, hbounds⟩ := ih
    exact ⟨k, hk, (FilesKept.keeps_close PagedFile.lasting_tracksDirty
      PagedFile.lasting_tracksDirty).outcome hcounts, hbounds⟩
  | disturbed _ _ ih => exact ih

end Queue

/-- A queue is opened whose pages are forced out after every `n` changes (or after each, then `n` is
one), and is operated in any way, while other programs change the disk. In every stretch of this in
which it is not emptied and no page is refused, and which has `n` changes or more, there is a change
after which no page is dirty, and all that was ever written to a page was forced out: of those that
are mapped, and of those that were unmapped since. -/
theorem changes_are_forced_out {settings : Settings} {n : Nat} {past window : List QueueEvent}
    {s : Session Queue} (hperiod : settings.durability.period? = some n)
    (hrun : Queue.Operated settings (past ++ window) s)
    (hsmooth : Queue.Smooth window) (hmany : n ≤ window.countP QueueEvent.isChange) :
    ∃ e ∈ window, e.isChange = true ∧ e.after.memory.AllClean := by
  obtain ⟨k, hk, -, hbounds⟩ := hrun.bounded hperiod
  rcases hbounds past window rfl hsmooth with hforces | hle
  · exact hforces
  · omega

namespace Queue

/-- The events of calls that follow one another. -/
def eventsFrom : Session Queue → List QueueCall → List QueueEvent
  | _, [] => []
  | s, c :: rest => ⟨s, c⟩ :: eventsFrom (c.run.outcome s).2 rest

/-- The events of a list of calls are events of these calls. -/
theorem map_call_eventsFrom (s : Session Queue) (calls : List QueueCall) :
    (eventsFrom s calls).map QueueEvent.call = calls := by
  induction calls generalizing s with
  | nil => rfl
  | cons c rest ih => exact congrArg (c :: ·) (ih _)

/-- Calls may follow any run. -/
theorem Operated.follow {settings : Settings} {events : List QueueEvent} {s : Session Queue}
    (h : Operated settings events s) (calls : List QueueCall) :
    ∃ t, Operated settings (events ++ eventsFrom s calls) t := by
  induction calls generalizing events s with
  | nil => exact ⟨s, by rwa [eventsFrom, List.append_nil]⟩
  | cons c rest ih =>
    obtain ⟨t, ht⟩ := ih (h.called c)
    rw [List.append_assoc] at ht
    exact ⟨t, ht⟩

/-- Pages are forced out after every second change. -/
def pairSettings : Settings :=
  { directory := "queue", pageSize := 64, lifetime := 1, durability := .everyOperations 2 }

/-- A queue that was opened where nothing is. -/
def pairOpened? : Option (Session Queue) :=
  match (openFiles pairSettings).outcome (⟨⟨{}, ⟨fun _ => 0, 0⟩, []⟩, ()⟩ : Session Unit) with
  | (.ok queue, opened) => some ⟨opened.host, queue⟩
  | (.error _, _) => none

/-- Two messages are put in, and the first one is looked at in between. -/
def pairCalls : List QueueCall := [.push ⟨⟨1⟩, .text, [7]⟩, .get ⟨1⟩, .push ⟨⟨2⟩, .text, [8]⟩]

/-- What happens to a queue after it was emptied. -/
def pairEvents (s : Session Queue) : List QueueEvent :=
  eventsFrom (QueueCall.startEmpty.run.outcome s).2 pairCalls

/-- The first page of the records is dirty, as bytes were written to it that were not forced out. -/
def IsDirty (q : Queue) : Prop :=
  let page := q.index.file.store.page 0
  page.isOpen = true ∧ page.dirty = true ∧ page.unforced ≠ []

instance (q : Queue) : Decidable q.IsDirty := inferInstanceAs (Decidable (_ ∧ _ ∧ _))

end Queue

open Queue in
/-- Two messages are put in. Before each call there are bytes to be forced out, and after one of the
two nothing is left. -/
theorem changes_are_forced_out_second : ∃ s, pairOpened? = some s
    ∧ (pairEvents s).countP QueueEvent.isChange = 2
    ∧ ∃ e ∈ pairEvents s, e.isChange = true ∧ e.before.memory.IsDirty
      ∧ e.after.memory.AllClean := by
  have hdecide : pairOpened?.any (fun s => decide ((pairEvents s).countP QueueEvent.isChange = 2)
      && (pairEvents s).all fun e => !e.isRefused && decide e.before.memory.IsDirty) = true := by
    decide +kernel
  obtain ⟨s, hs, hfacts⟩ := (Option.any_eq_true _ _).mp hdecide
  rw [Bool.and_eq_true, decide_eq_true_eq, List.all_eq_true] at hfacts
  obtain ⟨hcount, hevents⟩ := hfacts
  have hevent {e : QueueEvent} (he : e ∈ pairEvents s) :
      e.isRefused = false ∧ e.before.memory.IsDirty := by
    simpa using hevents e he
  obtain ⟨queue, opened, hopen, rfl⟩ : ∃ queue opened, (openFiles pairSettings).outcome
      (⟨⟨{}, ⟨fun _ => 0, 0⟩, []⟩, ()⟩ : Session Unit) = (.ok queue, opened)
      ∧ s = ⟨opened.host, queue⟩ := by
    unfold pairOpened? at hs
    split at hs
    next queue opened hopen => exact ⟨queue, opened, hopen, (Option.some.inj hs).symm⟩
    next => cases hs
  obtain ⟨t, hrun⟩ := ((Operated.opened hopen).called .startEmpty).follow pairCalls
  have hsmooth : Smooth (pairEvents ⟨opened.host, queue⟩) := by
    refine fun e he => ⟨?_, (hevent he).1⟩
    have hcall : e.call ∈ pairCalls := map_call_eventsFrom _ pairCalls ▸ List.mem_map_of_mem he
    intro heq
    rw [heq] at hcall
    simp [pairCalls] at hcall
  obtain ⟨e, he, hchange, hclean⟩ :=
    changes_are_forced_out (n := 2) rfl hrun hsmooth (Nat.le_of_eq hcount.symm)
  exact ⟨_, hs, hcount, e, he, hchange, (hevent he).2, hclean⟩

end PagedQueue
