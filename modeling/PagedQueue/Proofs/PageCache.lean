import PagedQueue.Page.Store
import PagedQueue.Proofs.Outcome
import PagedQueue.Proofs.PageSpace

/-!
# The page cache

A cache is coherent with a disk if every page in it is open and shows all of the file that now bears
the name of its number (`Coherent`). Everything an access does keeps it so: a sweep closes only
pages that it takes out of the cache, and only idle ones, so a page that was handed out stays open
while it is held (`Held`), whatever else is mapped or let go meanwhile.

`Access` is what one access to a store leaves: the same store over the same directory, a coherent
cache, and a disk on which a given property held all the way. How long pages live, what the clock
shows, and which pages happen to be cached does not enter into what is read and written
(`readAt_leads`, `writeAt_leads`).
-/

namespace PagedQueue

/-- What the bytes of a page are and where they lie. -/
def Page.mapping (p : Page) : Nat × Nat × FileId × Bool := (p.base, p.size, p.file, p.isOpen)

namespace Page

@[simp]
theorem mapping_retain (p : Page) : p.retain.mapping = p.mapping := rfl

@[simp]
theorem mapping_release (p : Page) : p.release.mapping = p.mapping := rfl

@[simp]
theorem mapping_written (p : Page) (start : Nat) (bytes : List UInt8) :
    (p.written start bytes).mapping = p.mapping := rfl

/-- A look at the clock does not move a page. -/
@[simp]
theorem mapping_touch (p : Page) (time : Int) : (p.touch time).mapping = p.mapping := by
  unfold touch
  split <;> rfl

/-- Nor does it count a user. -/
theorem references_touch (p : Page) (time : Int) : (p.touch time).references = p.references := by
  unfold touch
  split <;> rfl

/-- A page that is forced out stays where it is mapped. -/
@[simp]
theorem mapping_flush (p : Page) : p.flush.mapping = p.mapping := by
  unfold flush
  split <;> rfl

end Page

namespace PageStore

open Procedure
open Disk (Confined Mappable HasPage pagePath)

/-! ## Pages of a store -/

/-- What the pages are after one of them was changed. -/
theorem page_updatePage (s : PageStore) (id other : PageId) (f : Page → Page) :
    (s.updatePage id f).page other
      = if id = other ∧ other < s.pages.size then f (s.page other) else s.page other := by
  simp only [page, updatePage, Array.getD_eq_getD_getElem?, Array.getElem?_modify]
  by_cases hid : id = other
  · by_cases hlt : other < s.pages.size
    · simp [hid, hlt]
    · simp [hid, hlt]
  · simp [hid]

/-- A change makes no page more. -/
@[simp]
theorem size_updatePage (s : PageStore) (id : PageId) (f : Page → Page) :
    (s.updatePage id f).pages.size = s.pages.size := by
  simp [updatePage]

theorem page_updatePage_self {s : PageStore} {id : PageId} (hid : id < s.pages.size)
    (f : Page → Page) :
    (s.updatePage id f).page id = f (s.page id) := (page_updatePage ..).trans (if_pos ⟨rfl, hid⟩)

theorem page_updatePage_of_ne {s : PageStore} {id other : PageId} (hne : id ≠ other)
    (f : Page → Page) :
    (s.updatePage id f).page other = s.page other :=
  (page_updatePage ..).trans (if_neg fun hand => hne hand.1)

/-- What a change of pages leaves as it is stays at every page when one of them changes. -/
theorem updatePage_leaves {β : Type} (part : Page → β) {f : Page → Page}
    (hf : ∀ p, part (f p) = part p)
    (s : PageStore) (id other : PageId) : part ((s.updatePage id f).page other) = part
      (s.page other) := by
  rw [page_updatePage]
  split
  · exact hf _
  · rfl

/-- A page that was not collected is in use once it has a user more. -/
theorem references_retained_pos {s : PageStore} {id : PageId} (hid : id < s.pages.size)
    (hlive : 0 ≤ (s.page id).references) :
    0 < ((s.updatePage id Page.retain).page id).references := by
  rw [page_updatePage_self hid]
  exact Int.lt_add_one_of_le hlive

/-- What a store is over, which no access changes. -/
structure Same (s t : PageStore) : Prop where
  directory : t.directory = s.directory
  pageSize : t.pageSize = s.pageSize
  lifetime : t.lifetime = s.lifetime

theorem Same.refl (s : PageStore) : Same s s := ⟨rfl, rfl, rfl⟩

theorem Same.trans {s t u : PageStore} (h : Same s t) (h' : Same t u) : Same s u :=
  ⟨h'.directory.trans h.directory, h'.pageSize.trans h.pageSize, h'.lifetime.trans h.lifetime⟩

/-- The page with this mapping is open and shows all of the file that bears the name of a number. -/
structure Shows (s : PageStore) (d : Disk) (index : Nat) (page : Page) : Prop where
  base : page.base = index * s.pageSize
  size : page.size = s.pageSize
  isOpen : page.isOpen = true
  node : d.node? (pagePath s.directory index) = some (.file page.file)
  sizeOf_le : s.pageSize ≤ d.sizeOf (.file page.file)

/-- Every page in the cache shows the file of its number. -/
structure Coherent (s : PageStore) (d : Disk) : Prop where
  lt_size : ∀ {index : Nat} {id : PageId}, s.cached[index]? = some id → id < s.pages.size
  shows : ∀ {index : Nat} {id : PageId}, s.cached[index]? = some id → s.Shows d index (s.page id)

variable {s t : PageStore} {d d' : Disk} {index : Nat}

/-- What a page shows depends on where it is mapped. -/
theorem Shows.congr {page page' : Page} (h : s.Shows d index page) (hsame : Same s t)
    (hmapping : page'.mapping = page.mapping) : t.Shows d index page' := by
  simp only [Page.mapping, Prod.mk.injEq] at hmapping
  obtain ⟨hbase, hsize, hfile, hopen⟩ := hmapping
  refine ⟨?_, ?_, ?_, ?_, ?_⟩
  · rw [hbase, h.base, hsame.pageSize]
  · rw [hsize, h.size, hsame.pageSize]
  · rw [hopen, h.isOpen]
  · rw [hfile, h.node.symm, hsame.directory]
  · rw [hfile, hsame.pageSize]
    exact h.sizeOf_le

/-- A page shows its file still when bytes of it or of others are changed. -/
theorem Shows.confined {directory : Path} {pageSize : Nat} {touched written : Nat → Prop}
    {page : Page} (h : s.Shows d index page)
    (hd : Confined directory pageSize touched written d d') : s.Shows d' index page :=
  ⟨h.base, h.size, h.isOpen, hd.kept h.node, Nat.le_trans h.sizeOf_le (hd.sizeOf_le _)⟩

/-- A page shows the file of one number only. -/
theorem Shows.index_unique {other : Nat} {page : Page} (h : s.Shows d index page)
    (h' : s.Shows d other page) : index = other :=
  Nat.eq_of_mul_eq_mul_right s.pageSize_pos (h.base.symm.trans h'.base)

namespace Coherent

/-- An empty cache agrees with any disk. -/
theorem of_cached_empty (h : s.cached = {}) : s.Coherent d := by
  have hnone (i : Nat) : s.cached[i]? = none := by rw [h]; exact Std.TreeMap.getElem?_emptyc
  constructor <;> intro i id hid <;> rw [hnone] at hid <;> cases hid

/-- A cache stays coherent that only loses pages and whose other pages keep their mappings. -/
theorem of_mapping (h : s.Coherent d) (hsame : Same s t) (hsize : s.pages.size ≤ t.pages.size)
    (hcached : ∀ {i : Nat} {id : PageId}, t.cached[i]? = some id → s.cached[i]? = some id)
    (hpage : ∀ {i : Nat} {id : PageId}, t.cached[i]? = some id →
      (t.page id).mapping = (s.page id).mapping) :
    t.Coherent d :=
  ⟨fun hid => Nat.lt_of_lt_of_le (h.lt_size (hcached hid)) hsize,
   fun hid => (h.shows (hcached hid)).congr hsame (hpage hid)⟩

/-- Pages agree with the disk as long as they stay where they are mapped. -/
theorem updatePage (h : s.Coherent d) (id : PageId) {f : Page → Page}
    (hf : ∀ p, (f p).mapping = p.mapping) : (s.updatePage id f).Coherent d :=
  h.of_mapping ⟨rfl, rfl, rfl⟩ (Nat.le_of_eq (size_updatePage ..).symm) (fun hid => hid)
    fun _ => updatePage_leaves Page.mapping hf s id _

/-- An access leaves the pages of the cache in agreement with the disk. -/
theorem confined {directory : Path} {pageSize : Nat} {touched written : Nat → Prop}
    (h : s.Coherent d) (hd : Confined directory pageSize touched written d d') : s.Coherent d' :=
  ⟨h.lt_size, fun hid => (h.shows hid).confined hd⟩

/-- A page stands for one number only. -/
theorem index_unique (h : s.Coherent d) {i j : Nat} {id : PageId} (hi : s.cached[i]? = some id)
    (hj : s.cached[j]? = some id) : i = j :=
  (h.shows hi).index_unique (h.shows hj)

end Coherent

/-! ## Accesses -/

/-- What an access asks for and leaves: a sound disk and a cache that is coherent with it. -/
structure Ready (s : Session PageStore) : Prop where
  sound : s.host.disk.Sound
  coherent : s.memory.Coherent s.host.disk

/-- What an access to a store leaves when `P` held of the disk all the way. -/
structure Access (P : Disk → Prop) (s t : Session PageStore) : Prop where
  same : Same s.memory t.memory
  sound : t.host.disk.Sound
  coherent : t.memory.Coherent t.host.disk
  trail : Trail P s.host t.host

/-- A page is handed out: it shows the file of its number. -/
structure Held (id : PageId) (index : Nat) (t : Session PageStore) : Prop where
  lt_size : id < t.memory.pages.size
  shows : t.memory.Shows t.host.disk index (t.memory.page id)

namespace Access

variable {P Q : Disk → Prop} {s t u : Session PageStore}

/-- Doing nothing is an access if what is kept holds of the disk. -/
theorem refl (h : Ready s) (hP : P s.host.disk) : Access P s s :=
  ⟨.refl _, h.sound, h.coherent, .start hP⟩

/-- A store is ready again after an access. -/
theorem ready (h : Access P s t) : Ready t := ⟨h.sound, h.coherent⟩

/-- An access that keeps something keeps all that follows from it. -/
theorem mono (h : Access P s t) (hPQ : ∀ d, P d → Q d) : Access Q s t :=
  ⟨h.same, h.sound, h.coherent, h.trail.mono hPQ⟩

/-- What an access keeps holds of the disk it leaves. -/
theorem last (h : Access P s t) : P t.host.disk := h.trail.last

/-- The store may change in what its coherence does not depend on. -/
theorem memory (h : Access P s t) {memory : PageStore} (hsame : Same t.memory memory)
    (hcoherent : memory.Coherent t.host.disk) : Access P s ⟨t.host, memory⟩ :=
  ⟨h.same.trans hsame, h.sound, hcoherent, h.trail⟩

/-- A look at the clock may be taken. -/
theorem looked (h : Access P s t) : Access P s ⟨t.host.looked, t.memory⟩ :=
  ⟨h.same, h.sound, h.coherent, h.trail.look⟩

/-- In an access a page may change in what it counts and in its bytes. -/
theorem updatePage (h : Access P s t) (id : PageId) {f : Page → Page}
    (hf : ∀ p, (f p).mapping = p.mapping) : Access P s ⟨t.host, t.memory.updatePage id f⟩ :=
  h.memory ⟨rfl, rfl, rfl⟩ (h.coherent.updatePage id hf)

end Access

/-- A page that is held is held still when one changes in what it counts. -/
theorem Held.updatePage {t : Session PageStore} {id other : PageId} (h : Held id index t)
    {f : Page → Page} (hf : ∀ p, (f p).mapping = p.mapping) :
    Held id index ⟨t.host, t.memory.updatePage other f⟩ :=
  ⟨(size_updatePage ..).symm ▸ h.lt_size,
   h.shows.congr ⟨rfl, rfl, rfl⟩ (updatePage_leaves Page.mapping hf _ _ _)⟩

/-! ## Letting pages go -/

/-- The store without some pages, which are collected and closed. -/
def letGo (s : PageStore) (expired : List (Nat × PageId)) : PageStore :=
  expired.foldl (fun s (index, id) =>
    { s.updatePage id (·.collect.close) with cached := s.cached.erase index }) s

/-- Letting pages go is nothing that a store is known by. -/
theorem same_letGo (s : PageStore) (expired : List (Nat × PageId)) : Same s (s.letGo expired) := by
  induction expired generalizing s with
  | nil => exact .refl s
  | cons first rest ih =>
    have hfirst : Same s
        { s.updatePage first.2 (·.collect.close) with cached := s.cached.erase first.1 } :=
      ⟨rfl, rfl, rfl⟩
    exact hfirst.trans (ih _)

/-- Pages that are let go stay in the table. -/
@[simp]
theorem size_letGo (s : PageStore) (expired : List (Nat × PageId)) :
    (s.letGo expired).pages.size = s.pages.size := by
  induction expired generalizing s with
  | nil => rfl
  | cons _ _ ih => exact (ih _).trans (size_updatePage ..)

/-- What is left in the cache was there before, and is none of the pages let go. -/
theorem cached_letGo {s : PageStore} {expired : List (Nat × PageId)} {index : Nat} {id : PageId}
    (h : (s.letGo expired).cached[index]? = some id) :
    s.cached[index]? = some id ∧ ∀ other, (index, other) ∉ expired := by
  induction expired generalizing s with
  | nil => exact ⟨h, fun _ => List.not_mem_nil⟩
  | cons first rest ih =>
    obtain ⟨hcached, hrest⟩ := ih h
    rw [Std.TreeMap.getElem?_erase] at hcached
    split at hcached
    · cases hcached
    next hne =>
      refine ⟨hcached, fun other hmem => ?_⟩
      rcases List.mem_cons.mp hmem with rfl | hin
      · exact hne (Nat.compare_eq_eq.mpr rfl)
      · exact hrest other hin

/-- Only the pages let go change. -/
theorem page_letGo {s : PageStore} {expired : List (Nat × PageId)} {id : PageId}
    (h : ∀ entry ∈ expired, entry.2 ≠ id) : (s.letGo expired).page id = s.page id := by
  induction expired generalizing s with
  | nil => rfl
  | cons first rest ih =>
    obtain ⟨hfirst, hrest⟩ := List.forall_mem_cons.mp h
    refine (ih hrest).trans ?_
    exact page_updatePage_of_ne hfirst _

/-- Those that stay in the cache agree with the disk as before. -/
theorem Coherent.letGo (h : s.Coherent d) {expired : List (Nat × PageId)}
    (hexpired : ∀ entry ∈ expired, s.cached[entry.1]? = some entry.2) :
    (s.letGo expired).Coherent d := by
  refine h.of_mapping (same_letGo s expired) (Nat.le_of_eq (size_letGo ..).symm)
    (fun hid => (cached_letGo hid).1) fun {i id} hid => congrArg Page.mapping (page_letGo ?_)
  -- a page let go would stand for the number that is still in the cache
  intro hand hentry heq
  obtain ⟨j, _⟩ := hand
  subst heq
  obtain ⟨hold, hleft⟩ := cached_letGo hid
  obtain rfl : i = j := h.index_unique hold (hexpired _ hentry)
  exact hleft _ hentry

/-- Pages that a sweep lets go: they are in the cache and idle, and each is let go for every number
for which it stands. -/
structure Expired (s : PageStore) (expired : List (Nat × PageId)) : Prop where
  cached : ∀ entry ∈ expired, s.cached[entry.1]? = some entry.2
  idle : ∀ entry ∈ expired, (s.page entry.2).references = 0
  all : ∀ entry ∈ expired, ∀ index : Nat, s.cached[index]? = some entry.2 →
    (index, entry.2) ∈ expired

/-- What has users is not let go. -/
theorem Expired.page_of_used {s : PageStore} {expired : List (Nat × PageId)} {id : PageId}
    (h : s.Expired expired) (hused : (s.page id).references ≠ 0) :
    (s.letGo expired).page id = s.page id := by
  refine page_letGo fun entry hentry heq => hused ?_
  rw [← heq]
  exact h.idle entry hentry

/-- The pages that a sweep at a time lets go. -/
def overdue (s : PageStore) (now : Int) : List (Nat × PageId) :=
  s.cached.toList.filter fun (_, id) => (s.page id).isExpired s.maxAge now && (s.page id).isIdle

/-- A page is overdue if it stands in the cache, has expired and is idle. -/
theorem mem_overdue (s : PageStore) (now : Int) (index : Nat) (id : PageId) :
    (index, id) ∈ s.overdue now ↔ s.cached[index]? = some id
      ∧ (s.page id).isExpired s.maxAge now = true ∧ (s.page id).isIdle = true := by
  rw [overdue, List.mem_filter, Std.TreeMap.mem_toList_iff_getElem?_eq_some, Bool.and_eq_true]

/-- Pages that are overdue may be let go. -/
theorem expired_overdue (s : PageStore) (now : Int) : s.Expired (s.overdue now) where
  cached _ hentry := ((mem_overdue ..).mp hentry).1
  idle _ hentry := of_decide_eq_true ((mem_overdue ..).mp hentry).2.2
  all _ hentry _ hindex := (mem_overdue ..).mpr ⟨hindex, ((mem_overdue ..).mp hentry).2⟩

/-- A sweep lets exactly those pages go that are overdue, and counts them. -/
theorem sweep_overdue (s : Session PageStore) :
    sweep.Ensures s fun count t => count = (s.memory.overdue s.host.now).length
      ∧ t = ⟨s.host.looked, s.memory.letGo (s.memory.overdue s.host.now)⟩ := ⟨rfl, rfl⟩

/-- A sweep lets some expired pages go and does nothing else. -/
theorem sweep_letGo (s : Session PageStore) :
    sweep.Ensures s fun _ t => ∃ expired, Expired s.memory expired
      ∧ t = ⟨s.host.looked, s.memory.letGo expired⟩ :=
  (sweep_overdue s).mono fun _ _ ht => ⟨_, expired_overdue .., ht.2⟩

/-- A sweep leaves alone what has users, and what is still in the cache after it. -/
theorem sweep_ensures {P : Disk → Prop} {s t : Session PageStore} (h : Access P s t) :
    sweep.Ensures t fun _ u => Access P s u ∧ u.host.disk = t.host.disk
      ∧ ∀ {id index}, Held id index t → (t.memory.page id).references ≠ 0 → Held id index u := by
  refine (sweep_letGo t).leads.mono (fun _ u hu => ?_) fun _ _ => False.elim
  obtain ⟨expired, hexpired, rfl⟩ := hu
  have hsame := same_letGo t.memory expired
  have hcoherent := h.coherent.letGo hexpired.cached
  refine ⟨h.looked.memory hsame hcoherent, rfl, fun {id index} hheld hused => ⟨?_, ?_⟩⟩
  · exact (size_letGo ..).symm ▸ hheld.lt_size
  · have hpage : (t.memory.letGo expired).page id = t.memory.page id := hexpired.page_of_used hused
    exact hheld.shows.congr hsame (congrArg Page.mapping hpage)

/-- A change of many pages is nothing that a store is known by. -/
theorem same_foldl_updatePage (f : Page → Page) (ids : List PageId) (s : PageStore) :
    Same s (ids.foldl (fun s id => s.updatePage id f) s) := by
  induction ids generalizing s with
  | nil => exact .refl s
  | cons first rest ih =>
    have hfirst : Same s (s.updatePage first f) := ⟨rfl, rfl, rfl⟩
    exact hfirst.trans (ih _)

/-- Nor does it move them away from their files. -/
theorem Coherent.foldl_updatePage {f : Page → Page} (hf : ∀ p, (f p).mapping = p.mapping)
    (ids : List PageId) {s : PageStore} (h : s.Coherent d) :
    (ids.foldl (fun s id => s.updatePage id f) s).Coherent d := by
  induction ids generalizing s with
  | nil => exact h
  | cons first rest ih => exact ih (h.updatePage first hf)

/-- Forcing bytes out shows nowhere. -/
theorem Coherent.flush (h : s.Coherent d) : s.flush.Coherent d :=
  h.foldl_updatePage Page.mapping_flush _

theorem same_flush (s : PageStore) : Same s s.flush := same_foldl_updatePage ..

/-- A cache that was emptied is coherent with any disk. -/
theorem coherent_dropAll (s : PageStore) (d : Disk) : s.dropAll.Coherent d := .of_cached_empty rfl

theorem same_dropAll (s : PageStore) : Same s s.dropAll := by
  have hclosed := same_foldl_updatePage Page.close s.cachedPages s
  exact ⟨hclosed.directory, hclosed.pageSize, hclosed.lifetime⟩

end PageStore

end PagedQueue
