import PagedQueue.Proofs.ClosedPages
import PagedQueue.Proofs.PageStages

/-!
# When a sweep lets a page go

A sweep goes through the cache at one reading of the clock. It lets go exactly the pages that are
overdue then (`Page.Overdue`): nobody uses them, they are not pinned, and they were last used so
long ago. Each of these is closed and leaves the cache, every other page stays as it is, and the
answer is how many went (`PageStore.SweptAt`). That holds wherever a sweep begins: when it is asked
for, and when it follows the insertion of a page that was just mapped (`sweeps_take_overdue_pages`).

The age is the lifetime of the store in milliseconds as long as that is a signed word. The lifetimes
above count as numbers below zero, and then an idle page is overdue at once (`young_page_let_go`).
-/

namespace PagedQueue

open Procedure

/-- Nobody uses the page, it is not pinned, and at the time `now` it was last used at least so long
ago. -/
structure Page.Overdue (p : Page) (age now : Int) : Prop where
  idle : p.references = 0
  unpinned : p.isPinned = false
  age_le : age ≤ now - p.stamp

theorem Page.overdue_iff (p : Page) (age now : Int) :
    p.Overdue age now ↔ p.isExpired age now = true ∧ p.isIdle = true := by
  simp only [isExpired, isIdle, Bool.and_eq_true, decide_eq_true_eq]
  constructor
  · intro h
    exact ⟨⟨Int.not_lt.mp (of_decide_eq_false h.unpinned), h.age_le⟩, h.idle⟩
  · intro h
    obtain ⟨⟨hstamp, hage⟩, hidle⟩ := h
    exact ⟨hidle, decide_eq_false (Int.not_lt.mpr hstamp), hage⟩

namespace PageStore

variable {s t : PageStore} {index : Nat} {id : PageId} {now : Int}

/-! ## The age -/

/-- A lifetime that is a signed word is the age at which pages are let go. -/
theorem maxAge_of_lt (h : s.lifetime.toNat < 0x8000000000000000) : s.maxAge = s.lifetime.toNat := by
  rw [maxAge, Int64.toInt, UInt64.toBitVec_toInt64, BitVec.toInt_eq_toNat_cond,
    UInt64.toNat_toBitVec,
    if_pos (by omega)]

/-- Any other lifetime counts as a number below zero. -/
theorem maxAge_of_le (h : 0x8000000000000000 ≤ s.lifetime.toNat) :
    s.maxAge = s.lifetime.toNat - 0x10000000000000000 := by
  rw [maxAge, Int64.toInt, UInt64.toBitVec_toInt64, BitVec.toInt_eq_toNat_cond,
    UInt64.toNat_toBitVec,
    if_neg (by omega)]
  rfl

/-! ## What a sweep leaves -/

/-- What a sweep at the time `now` leaves of a store when it lets so many pages go. -/
structure SweptAt (now : Int) (s : PageStore) (count : Nat) (t : PageStore) : Prop where
  same : Same s t
  /-- The pages that were overdue left the cache, and no others. -/
  cached_iff : ∀ {index : Nat} {id : PageId},
    t.cached[index]? = some id ↔ s.cached[index]? = some id ∧ ¬ (s.page id).Overdue s.maxAge now
  /-- What is still in the cache stays as it is, and so does what was not there. -/
  page_eq : ∀ {id : PageId},
  (∀ index : Nat, s.cached[index]? = some id → t.cached[index]? = some id) →
    t.page id = s.page id
  closed : ∀ {index : Nat} {id : PageId}, s.cached[index]? = some id → t.cached[index]? = none →
    (t.page id).isOpen = false
  count_add : count + t.cached.size = s.cached.size

/-- A map has one entry less for each that is erased. -/
private theorem length_add_size_foldl_erase {entries : List (Nat × PageId)}
    {cached : Std.TreeMap Nat PageId} (hcached : ∀ entry ∈ entries, cached[entry.1]? = some entry.2)
    (hdistinct : entries.Pairwise fun a b => a.1 ≠ b.1) :
    entries.length + (entries.foldl (fun cached entry => cached.erase entry.1) cached).size
      = cached.size := by
  induction entries generalizing cached with
  | nil => exact Nat.zero_add _
  | cons first rest ih =>
    obtain ⟨hfirst, hrest⟩ := List.forall_mem_cons.mp hcached
    obtain ⟨hne, hdistinct⟩ := List.pairwise_cons.mp hdistinct
    have hcontains : cached.contains first.1 = true := by
      rw [← Std.TreeMap.isSome_getElem?_eq_contains, hfirst]
      rfl
    have hpos : cached.size ≠ 0 := fun hzero => by
      have hempty := Std.TreeMap.isEmpty_eq_false_of_contains hcontains
      rw [Std.TreeMap.isEmpty_eq_size_eq_zero, hzero] at hempty
      cases hempty
    have hsize : (cached.erase first.1).size = cached.size - 1 := by
      rw [Std.TreeMap.size_erase, if_pos hcontains]
    have hleft (entry : Nat × PageId) (hentry : entry ∈ rest) :
        (cached.erase first.1)[entry.1]? = some entry.2 := by
      rw [Std.TreeMap.getElem?_erase, if_neg fun heq => hne entry hentry (Nat.compare_eq_eq.mp heq)]
      exact hrest entry hentry
    have hrec := ih hleft hdistinct
    rw [List.length_cons, List.foldl_cons]
    omega

theorem overdue_pairwise (s : PageStore) (now : Int) :
    (s.overdue now).Pairwise fun a b => a.1 ≠ b.1 :=
  (s.cached.distinct_keys_toList.filter _).imp fun hne heq => hne (Nat.compare_eq_eq.mpr heq)

/-- The pages that are let go are the overdue ones, provided that each page in the cache is one of
the table. -/
theorem sweptAt_letGo (hlt : ∀ {index : Nat} {id : PageId}, s.cached[index]? = some id →
    id < s.pages.size)
    (now : Int) : SweptAt now s (s.overdue now).length (s.letGo (s.overdue now)) := by
  have hexpired := s.expired_overdue now
  have hmem (index : Nat) (id : PageId) : (index, id) ∈ s.overdue now
      ↔ s.cached[index]? = some id ∧ (s.page id).Overdue s.maxAge now := by
    rw [mem_overdue, Page.overdue_iff]
  have hcached {index : Nat} {id : PageId} : (s.letGo (s.overdue now)).cached[index]? = some id
      ↔ s.cached[index]? = some id ∧ ¬ (s.page id).Overdue s.maxAge now := by
    rw [getElem?_cached_letGo hexpired]
    refine and_congr_right fun hid =>
      ⟨fun hfree hover => hfree index ?_, fun hkept i hgone => hkept ?_⟩
    · exact (hmem index id).mpr ⟨hid, hover⟩
    · exact ((hmem i id).mp hgone).2
  refine ⟨same_letGo .., hcached, fun hkept => ?_, fun {index id} hid hnone => ?_, ?_⟩
  · refine page_letGo_of_free fun index hgone => ?_
    obtain ⟨hid, hover⟩ := (hmem index _).mp hgone
    exact (hcached.mp (hkept index hid)).2 hover
  · have hover : (s.page id).Overdue s.maxAge now := by
      by_contra hkept
      rw [hcached.mpr ⟨hid, hkept⟩] at hnone
      cases hnone
    rw [page_letGo_of_mem ((hmem index id).mpr ⟨hid, hover⟩) (hlt hid)]
    rfl
  · rw [letGo_eq]
    exact length_add_size_foldl_erase hexpired.cached (overdue_pairwise s now)

/-! ## Where a sweep begins -/

/-- The store once a page is put into the cache with one user. A page that is there for its number
and was not collected gets the user instead. -/
def placed (s : PageStore) (index : Nat) (page : Page) : PageStore :=
  match s.cached[index]?.filter fun id => (s.page id).isLive with
  | some id => s.updatePage id Page.retain
  | none => s.grown index page.retain

/-- A page is inserted by putting it into the cache and sweeping the cache then. -/
theorem insert_leads (index : Nat) (page : Page) (v : Session PageStore)
    {left : Session PageStore → Prop} :
    (insert index page).Ensures v (fun _ w => left w)
      ↔ sweep.Ensures ⟨v.host, v.memory.placed index page⟩ fun _ w => left w := by
  unfold insert placed Ensures
  simp only [leads_bind, leads_memory]
  cases v.memory.cached[index]?.filter fun id => (v.memory.page id).isLive with
  | some id => simp only [leads_bind, leads_update, leads_discard, leads_pure]
  | none =>
    simp only [leads_bind, leads_update, leads_discard, leads_pure]
    rfl

/-- A page that is put into the cache is one of the table. -/
theorem lt_size_placed (hlt : ∀ {index : Nat} {id : PageId}, s.cached[index]? = some id →
    id < s.pages.size)
    {number : Nat} {page : Page} (hid : (s.placed number page).cached[index]? = some id) :
    id < (s.placed number page).pages.size := by
  unfold placed at hid ⊢
  cases hfound : s.cached[number]?.filter fun id => (s.page id).isLive with
  | some found =>
    simp only [hfound] at hid ⊢
    rw [size_updatePage]
    exact hlt hid
  | none =>
    simp only [hfound] at hid ⊢
    rw [grown, Array.size_push]
    rcases cached_grown hid with ⟨-, rfl⟩ | hin
    · exact Nat.lt_succ_self _
    · exact Nat.lt_succ_of_lt (hlt hin)

theorem sweep_sweptAt {v : Session PageStore}
    (hlt : ∀ {index : Nat} {id : PageId}, v.memory.cached[index]? = some id →
      id < v.memory.pages.size) :
    sweep.Ensures v fun count w => SweptAt v.host.now v.memory count w.memory
      ∧ w.host.disk = v.host.disk := by
  refine (sweep_overdue v).mono fun count w hw => ?_
  obtain ⟨rfl, rfl⟩ := hw
  exact ⟨sweptAt_letGo hlt _, rfl⟩

end PageStore

open PageStore (SweptAt sweep insert placed)

/-- Whatever was asked of a store, of a file over it and of its pages before: a sweep takes those
pages out of the cache and closes them that nobody uses, that are not pinned, and that were last
used so long ago as pages live. It leaves all other pages and the disk as they are, and tells how
many went. A sweep that follows the insertion of a page, which is done under a ticket, does the
same. How long pages live is the lifetime of the store, unless that is no signed word. -/
theorem sweeps_take_overdue_pages {calls : List MappedCall} {f : Session PagedFile}
    (h : PagedFile.Shared calls f) :
    sweep.Ensures (f.part PagedFile.store)
      (fun count t => SweptAt f.host.now f.memory.store count t.memory
      ∧ t.host.disk = f.host.disk)
    ∧ (∀ (creating : Std.TreeMap Nat Nat) (tickets index : Nat) (page : Page),
      (insert index page).Ensures ⟨f.host, { f.memory.store with creating, tickets }⟩ fun _ t =>
        ∃ count, SweptAt f.host.now (placed { f.memory.store with creating, tickets } index page)
          count t.memory
          ∧ t.host.disk = f.host.disk)
    ∧ (f.memory.store.lifetime.toNat < 0x8000000000000000 →
      f.memory.store.maxAge = f.memory.store.lifetime.toNat)
    ∧ (0x8000000000000000 ≤ f.memory.store.lifetime.toNat →
      f.memory.store.maxAge = f.memory.store.lifetime.toNat - 0x10000000000000000) := by
  have hlt {index : Nat} {id : PageId} (hid : f.memory.store.cached[index]? = some id) :
      id < f.memory.store.pages.size := (h.cacheOpen.atHand hid).lt_size
  refine ⟨PageStore.sweep_sweptAt (v := f.part PagedFile.store) hlt,
    fun creating tickets index page => ?_,
    PageStore.maxAge_of_lt, PageStore.maxAge_of_le⟩
  have hplaced {number : Nat} {id : PageId}
      (hid : (placed { f.memory.store with creating, tickets } index
      page).cached[number]? = some id) :=
    PageStore.lt_size_placed (s := { f.memory.store with creating, tickets }) hlt hid
  refine (PageStore.insert_leads ..).mpr ?_
  exact (PageStore.sweep_sweptAt (v := ⟨f.host, _⟩) hplaced).mono fun count t ht => ⟨count, ht⟩

/-! ## Sweeps of a few pages -/

/-- A file with pages of eight bytes that live so long. The clock goes on by one from look to
look. -/
def tickingFile (lifetime : UInt64) : Session PagedFile :=
  ⟨⟨(Change.makeDirectory ["pages"]).apply 0 {}, ⟨fun looks => looks, 0⟩, []⟩,
    { store := .opened ["pages"] 8 PageStore.eightBytes_pos lifetime }⟩

/-- What calls leave of a file. -/
def PagedFile.after (f : Session PagedFile) (calls : List MappedCall) : Session PagedFile :=
  calls.foldl (fun f c => (c.run.outcome f).2) f

/-- Three pages are handed out. The first one is given back, the second one is pinned and given
back. -/
def pinningSecond : List MappedCall :=
  [.store (.acquire 0), .store (.acquire 1), .store (.acquire 2), .page 1 (.use .pin),
    .store (.release 0), .store (.release 1)]

theorem shared_pinningSecond :
    PagedFile.Shared pinningSecond (PagedFile.after (tickingFile 1) pinningSecond) := by
  have hacquired :=
    (((PagedFile.Shared.opened (tickingFile 1).host ["pages"] 8 (by decide) 1 0).call
    (.store (.acquire 0)) trivial).call (.store (.acquire 1)) trivial).call
    (.store (.acquire 2)) trivial
  have hpinned := hacquired.call (.page 1 (.use .pin)) (show 1 < _ by decide +kernel)
  exact (hpinned.call (.store (.release 0)) trivial).call (.store (.release 1)) trivial

/-- A sweep then lets the first page go, and that page alone. -/
theorem sweeps_take_overdue_pages_first :
    PagedFile.Shared pinningSecond (PagedFile.after (tickingFile 1) pinningSecond)
    ∧ ∃ t, sweep.outcome ((PagedFile.after (tickingFile 1) pinningSecond).part PagedFile.store)
      = (.ok 1, t)
      ∧ t.memory.cached.toList = [(1, 1), (2, 2)] := by
  obtain ⟨count, t, hrun, hswept, -⟩ := (sweeps_take_overdue_pages shared_pinningSecond).1.outcome
  have ht : t = (sweep.outcome
      ((PagedFile.after (tickingFile 1) pinningSecond).part PagedFile.store)).2 := by
    rw [hrun]
  have hleft : t.memory.cached.toList = [(1, 1), (2, 2)] := by
    rw [ht]
    decide +kernel
  have hsize : (PagedFile.after (tickingFile 1) pinningSecond).memory.store.cached.size = 3 := by
    decide +kernel
  have hcount := hswept.count_add
  rw [hsize, ← Std.TreeMap.length_toList, hleft] at hcount
  obtain rfl : count = 1 := by simpa using hcount
  exact ⟨shared_pinningSecond, t, hrun, hleft⟩

/-- A page that was just given back is let go, although pages are to live for 2^63 milliseconds. -/
theorem young_page_let_go :
    ∃ (calls : List MappedCall) (f : Session PagedFile) (t : Session PageStore),
    PagedFile.Shared calls f ∧ f.memory.store.cached[0]? = some 0
    ∧ f.host.now - (f.memory.store.page 0).stamp < f.memory.store.lifetime.toNat
    ∧ (sweep.outcome (f.part PagedFile.store)).1.toOption = some 1
    ∧ (sweep.outcome (f.part PagedFile.store)).2 = t ∧ t.memory.cached[0]? = none
    ∧ (t.memory.page 0).isOpen = false := by
  have hshared :=
    ((PagedFile.Shared.opened (tickingFile 0x8000000000000000).host ["pages"] 8 (by decide)
    0x8000000000000000 0).call (.store (.acquire 0)) trivial).call (.store (.release 0)) trivial
  exact ⟨_, _, _, hshared,
    by decide +kernel, by decide +kernel, by decide +kernel, rfl, by decide +kernel,
    by decide +kernel⟩

end PagedQueue
