import PagedQueue.Proofs.PagedBytes

/-!
# Pages over any disk

Nothing is assumed here of the disk: other programs may have put anything in the way of the pages,
or taken files away. A page that is handed out still lies where its number says and is open
(`Page.Fits`), because that is how pages enter the cache and how they stay there.

An access that fails was refused a page, and has lost nothing of what is on disk; a write that
succeeds has replaced bytes of one file, the one that was mapped under the name of the page
(`writeWord_uses`).
-/

namespace PagedQueue

open Procedure
open Disk (pagePath)

namespace Disk

/-! ## What is kept on a disk -/

/-- The byte of a file at an offset, zero where the file has none. -/
def byteOf (d : Disk) (id : FileId) (o : Nat) : UInt8 := ((d.file? id).map (·.byte o)).getD 0

/-- No name is lost and no file gets shorter, and of the bytes only some are. -/
structure Retains (lost : FileId → Nat → Prop) (d d' : Disk) : Prop where
  kept : ∀ {path node}, d.node? path = some node → d'.node? path = some node
  sizeOf_le : ∀ id, d.sizeOf (.file id) ≤ d'.sizeOf (.file id)
  byteOf_eq : ∀ id o, ¬ lost id o → d'.byteOf id o = d.byteOf id o

/-- No byte at all. -/
def Nothing (_ : FileId) (_ : Nat) : Prop := False

variable {lost : FileId → Nat → Prop} {d d' d'' : Disk} {now : Int}

namespace Retains

/-- A disk retains what it has. -/
theorem refl (d : Disk) : d.Retains lost d := ⟨id, fun _ => Nat.le_refl _, fun _ _ _ => rfl⟩

/-- What is retained twice is retained, and the losses add up. -/
theorem trans (h : d.Retains lost d') (h' : d'.Retains lost d'') : d.Retains lost d'' where
  kept hnode := h'.kept (h.kept hnode)
  sizeOf_le id := Nat.le_trans (h.sizeOf_le id) (h'.sizeOf_le id)
  byteOf_eq id o ho := (h'.byteOf_eq id o ho).trans (h.byteOf_eq id o ho)

/-- Where nothing is lost, no more than anything is. -/
theorem of_nothing (h : d.Retains Nothing d') : d.Retains lost d' :=
  ⟨h.kept, h.sizeOf_le, fun id o _ => h.byteOf_eq id o fun hand => hand⟩

end Retains

/-- A new file takes nothing away. -/
theorem retains_create {path : Path} (hnone : d.node? path = none) :
    d.Retains lost ((Change.create path).apply now d) := by
  refine ⟨fun {other node} hnode => ?_, fun id => ?_, fun id o _ => ?_⟩
  · rw [Change.node?_create, if_neg]
    · exact hnode
    · intro heq
      subst heq
      rw [hnone] at hnode
      cases hnode
  · simp only [sizeOf, Change.file?_create]
    split
    next heq => rw [heq, file?_eq_none (Nat.le_refl _)]; exact Nat.zero_le _
    next => exact Nat.le_refl _
  · simp only [byteOf, Change.file?_create]
    split
    next heq => rw [heq, file?_eq_none (Nat.le_refl _)]; rfl
    next => rfl

/-- A file that is extended keeps its bytes. -/
theorem retains_extend (id : FileId) (size : Nat) :
    d.Retains lost ((Change.extend id size).apply now d) := by
  refine ⟨fun hnode => hnode, fun other => ?_, fun other o _ => ?_⟩
  · simp only [sizeOf, Change.file?_extend]
    split
    · cases d.file? other with
      | none => exact Nat.le_refl _
      | some f =>
        simp only [Option.map_some, Option.getD_some, File.size_extend]
        exact Nat.le_max_left ..
    · exact Nat.le_refl _
  · simp only [byteOf, Change.file?_extend]
    split
    · cases d.file? other with
      | none => rfl
      | some f => simp
    · rfl

/-- Bytes that are copied into a file are read back from there, and all others are as before. -/
theorem byteOf_copy (id other : FileId) (start : Nat) (bytes : List UInt8) (o : Nat) :
    ((Change.copy id start bytes).apply now d).byteOf other o
      = if id = other ∧ start ≤ o ∧ o < d.sizeOf (.file other) then
          bytes.getD (o - start) (d.byteOf other o)
        else d.byteOf other o := by
  unfold byteOf sizeOf
  rw [Change.file?_copy]
  by_cases hid : id = other
  · cases hfile : d.file? other with
    | none => simp [hfile]
    | some f => simp [hid, hfile, File.byte_overwrite]
  · simp [hid]

/-- A copy loses the bytes in whose place it puts others. -/
theorem retains_copy (id : FileId) (start : Nat) (bytes : List UInt8)
    (hlost : ∀ o, InRange start bytes.length o → lost id o) :
    d.Retains lost ((Change.copy id start bytes).apply now d) := by
  refine ⟨fun hnode => hnode, fun other => ?_, fun other o ho => ?_⟩
  · simp only [sizeOf, Change.file?_copy]
    split
    · cases d.file? other with
      | none => exact Nat.le_refl _
      | some f => simp
    · exact Nat.le_refl _
  · rw [byteOf_copy]
    split
    next hand =>
      obtain ⟨rfl, hle, -⟩ := hand
      refine List.getD_eq_default _ _ (Nat.le_of_not_lt fun hlt => ho (hlost o ⟨hle, ?_⟩))
      omega
    next => rfl

end Disk

/-! ## Pages that fit -/

namespace Page

/-- What a page was mapped from and where. -/
def origin (p : Page) : (Nat × Nat × FileId × Bool) × Path := (p.mapping, p.path)

/-- A user more, and the page is of the same file. -/
@[simp]
theorem origin_retain (p : Page) : p.retain.origin = p.origin := rfl

@[simp]
theorem origin_release (p : Page) : p.release.origin = p.origin := rfl

/-- A write changes the bytes of a page and not where it is mapped. -/
@[simp]
theorem origin_written (p : Page) (start : Nat) (bytes : List UInt8) :
    (p.written start bytes).origin = p.origin := rfl

@[simp]
theorem origin_touch (p : Page) (time : Int) : (p.touch time).origin = p.origin := by
  unfold touch
  split <;> rfl

@[simp]
theorem origin_flush (p : Page) : p.flush.origin = p.origin := by
  unfold flush
  split <;> rfl

/-- The page lies where the page of its number lies, is open, and was mapped under the name of the
number. -/
structure Fits (p : Page) (s : PageStore) (index : Nat) : Prop where
  base : p.base = index * s.pageSize
  size : p.size = s.pageSize
  isOpen : p.isOpen = true
  path : p.path = pagePath s.directory index

/-- Whether a page fits a store depends on its origin alone. -/
theorem Fits.congr {p p' : Page} {s t : PageStore} {index : Nat} (h : p.Fits s index)
    (hsame : PageStore.Same s t) (horigin : p'.origin = p.origin) : p'.Fits t index := by
  simp only [origin, mapping, Prod.mk.injEq] at horigin
  obtain ⟨⟨hbase, hsize, -, hopen⟩, hpath⟩ := horigin
  refine ⟨?_, ?_, ?_, ?_⟩
  · rw [hbase, h.base, hsame.pageSize]
  · rw [hsize, h.size, hsame.pageSize]
  · rw [hopen, h.isOpen]
  · rw [hpath, h.path, hsame.directory]

end Page

namespace PageStore

variable {s t : PageStore} {index : Nat}

/-! ## Caches that lose pages -/

/-- A store whose cache has only lost pages, and whose other pages are still what they were mapped
from. -/
structure Loses (s t : PageStore) : Prop where
  same : Same s t
  size_le : s.pages.size ≤ t.pages.size
  cached : ∀ {index : Nat} {id : PageId}, t.cached[index]? = some id → s.cached[index]? = some id
  origin : ∀ {index : Nat} {id : PageId}, t.cached[index]? = some id →
    (t.page id).origin = (s.page id).origin

/-- No page stands for two numbers. -/
def Single (s : PageStore) : Prop :=
  ∀ {i j : Nat} {id : PageId}, s.cached[i]? = some id → s.cached[j]? = some id → i = j

namespace Loses

/-- A store loses nothing by itself. -/
theorem refl (s : PageStore) : Loses s s := ⟨.refl s, Nat.le_refl _, fun hid => hid, fun _ => rfl⟩

/-- One loss after the other is a loss. -/
theorem trans {u : PageStore} (h : Loses s t) (h' : Loses t u) : Loses s u :=
  ⟨h.same.trans h'.same, Nat.le_trans h.size_le h'.size_le, fun hid => h.cached (h'.cached hid),
    fun hid => (h'.origin hid).trans (h.origin (h'.cached hid))⟩

/-- A page that changes stays in the cache. -/
theorem updatePage (s : PageStore) (id : PageId) {f : Page → Page}
    (hf : ∀ p, (f p).origin = p.origin) :
    Loses s (s.updatePage id f) :=
  ⟨⟨rfl, rfl, rfl⟩, Nat.le_of_eq (size_updatePage ..).symm, fun hid => hid, fun _ =>
    updatePage_leaves Page.origin hf s id _⟩

/-- Expired pages leave the cache, and the rest stays. -/
theorem letGo (hsingle : s.Single) {expired : List (Nat × PageId)}
    (hexpired : ∀ entry ∈ expired, s.cached[entry.1]? = some entry.2) :
    Loses s (s.letGo expired) := by
  refine ⟨same_letGo s expired, Nat.le_of_eq (size_letGo ..).symm, fun hid => (cached_letGo hid).1,
    fun {i id} hid => congrArg Page.origin (page_letGo ?_)⟩
  -- a page let go would stand for the number that is still in the cache
  intro hand hentry heq
  obtain ⟨j, _⟩ := hand
  subst heq
  obtain ⟨hold, hleft⟩ := cached_letGo hid
  obtain rfl : i = j := hsingle hold (hexpired _ hentry)
  exact hleft _ hentry

/-- A flush leaves the cache as it is. -/
theorem flush (s : PageStore) : Loses s s.flush := by
  unfold PageStore.flush
  generalize s.cachedPages = ids
  induction ids generalizing s with
  | nil => exact .refl s
  | cons first rest ih => exact (updatePage s first Page.origin_flush).trans (ih _)

/-- A page that is dropped leaves the cache alone of all. -/
theorem drop (hsingle : s.Single) (index : Nat) : Loses s (s.drop index) := by
  unfold PageStore.drop
  split
  next id hid =>
    have hkept {i : Nat} {other : PageId} (hother : (s.cached.erase index)[i]? = some other) :
        i ≠ index ∧ s.cached[i]? = some other := by
      rw [Std.TreeMap.getElem?_erase] at hother
      split at hother
      · cases hother
      next hne => exact ⟨fun heq => hne (Nat.compare_eq_eq.mpr heq.symm), hother⟩
    refine ⟨⟨rfl, rfl, rfl⟩, Nat.le_of_eq (size_updatePage ..).symm, fun hother => (hkept hother).2,
      fun {i other} hother => ?_⟩
    -- the page that is closed stands for no other number
    obtain ⟨hne, hold⟩ := hkept hother
    refine congrArg Page.origin (page_updatePage_of_ne ?_ Page.close)
    rintro rfl
    exact hne (hsingle hold hid)
  next => exact .refl s

end Loses

/-- What is in the cache of a store that has got a page more. -/
theorem cached_grown {page : Page} {i : Nat} {id : PageId}
    (hid : (s.grown index page).cached[i]? = some id) :
    index = i ∧ s.pages.size = id ∨ s.cached[i]? = some id := by
  rw [PageStore.grown, Std.TreeMap.getElem?_insert] at hid
  split at hid
  next heq => exact .inl ⟨Nat.compare_eq_eq.mp heq, Option.some.inj hid⟩
  next => exact .inr hid

/-! ## Caches that fit -/

/-- Every page in the cache fits. -/
structure Fitted (s : PageStore) : Prop where
  lt_size : ∀ {index : Nat} {id : PageId}, s.cached[index]? = some id → id < s.pages.size
  fits : ∀ {index : Nat} {id : PageId}, s.cached[index]? = some id → (s.page id).Fits s index

namespace Fitted

/-- In an empty cache every page fits. -/
theorem of_cached_empty (h : s.cached = {}) : s.Fitted := by
  have hnone (i : Nat) : s.cached[i]? = none := by rw [h]; exact Std.TreeMap.getElem?_emptyc
  constructor <;> intro i id hid <;> rw [hnone] at hid <;> cases hid

/-- A cache goes on fitting that only loses pages. -/
theorem loses (h : s.Fitted) (ht : Loses s t) : t.Fitted :=
  ⟨fun hid => Nat.lt_of_lt_of_le (h.lt_size (ht.cached hid)) ht.size_le,
   fun hid => (h.fits (ht.cached hid)).congr ht.same (ht.origin hid)⟩

/-- A page goes on fitting when its users and its bytes change. -/
theorem updatePage (h : s.Fitted) (id : PageId) {f : Page → Page}
    (hf : ∀ p, (f p).origin = p.origin) : (s.updatePage id f).Fitted :=
  h.loses (.updatePage s id hf)

/-- Where all pages fit, no page stands for two numbers. -/
theorem single (h : s.Fitted) : s.Single := fun hi hj =>
  Nat.eq_of_mul_eq_mul_right s.pageSize_pos ((h.fits hi).base.symm.trans (h.fits hj).base)

/-- Pages that stay after a sweep go on fitting. -/
theorem letGo (h : s.Fitted) {expired : List (Nat × PageId)}
    (hexpired : ∀ entry ∈ expired, s.cached[entry.1]? = some entry.2) : (s.letGo expired).Fitted :=
  h.loses (.letGo h.single hexpired)

/-- A page that fits may be added. -/
theorem grown (h : s.Fitted) {page : Page} (hpage : page.Fits s index) :
    (s.grown index page).Fitted := by
  have hsize : (s.grown index page).pages.size = s.pages.size + 1 := Array.size_push ..
  refine ⟨fun hid => ?_, fun hid => ?_⟩
  · rw [hsize]
    rcases cached_grown hid with ⟨-, rfl⟩ | hin
    · exact Nat.lt_succ_self _
    · exact Nat.lt_succ_of_lt (h.lt_size hin)
  · rcases cached_grown hid with ⟨rfl, rfl⟩ | hin
    · exact hpage.congr (same_grown ..) (by rw [page_grown_self])
    · exact (h.fits hin).congr (same_grown ..) (by rw [page_grown _ _ _ (h.lt_size hin)])

theorem flush (h : s.Fitted) : s.flush.Fitted := h.loses (.flush s)

theorem drop (h : s.Fitted) (index : Nat) : (s.drop index).Fitted := h.loses (.drop h.single index)

end Fitted

/-! ## Accesses -/

/-- What an access leaves, whatever the disk is like: the same store, a cache that fits, and a disk
that has lost no more than some bytes. -/
structure Uses (lost : FileId → Nat → Prop) (s t : Session PageStore) : Prop where
  same : Same s.memory t.memory
  fitted : t.memory.Fitted
  retains : s.host.disk.Retains lost t.host.disk

/-- A page is handed out, and it fits. -/
structure InHand (id : PageId) (index : Nat) (t : Session PageStore) : Prop where
  lt_size : id < t.memory.pages.size
  fits : (t.memory.page id).Fits t.memory index

variable {s t u : Session PageStore} {lost : FileId → Nat → Prop}

namespace Uses

/-- A store that fits is used by doing nothing. -/
theorem refl (h : s.memory.Fitted) : Uses lost s s := ⟨.refl _, h, .refl _⟩

/-- One use after the other is a use. -/
theorem trans (h : Uses lost s t) (h' : Uses lost t u) : Uses lost s u :=
  ⟨h.same.trans h'.same, h'.fitted, h.retains.trans h'.retains⟩

/-- A use that loses nothing loses no more than anything. -/
theorem of_nothing (h : Uses Disk.Nothing s t) : Uses lost s t :=
  ⟨h.same, h.fitted, h.retains.of_nothing⟩

/-- The store may change in what does not show in its pages. -/
theorem memory (h : Uses lost s t) {memory : PageStore} (hsame : Same t.memory memory)
    (hfitted : memory.Fitted) : Uses lost s ⟨t.host, memory⟩ :=
  ⟨h.same.trans hsame, hfitted, h.retains⟩

/-- A look at the clock is no use of a page. -/
theorem looked (h : Uses lost s t) : Uses lost s ⟨t.host.looked, t.memory⟩ :=
  ⟨h.same, h.fitted, h.retains⟩

/-- A page may be changed in a use, as long as its origin stays. -/
theorem updatePage (h : Uses lost s t) (id : PageId) {f : Page → Page}
    (hf : ∀ p, (f p).origin = p.origin) : Uses lost s ⟨t.host, t.memory.updatePage id f⟩ :=
  h.memory ⟨rfl, rfl, rfl⟩ (h.fitted.updatePage id hf)

/-- The disk may change in a use, as long as it retains what is not lost. -/
theorem perform (h : Uses lost s t) (change : Change)
    (hchange : t.host.disk.Retains lost (change.apply t.host.now t.host.disk)) :
    Uses lost s ⟨t.host.perform change, t.memory⟩ :=
  ⟨h.same, h.fitted, h.retains.trans hchange⟩

end Uses

/-- A page in hand stays in hand when another one changes. -/
theorem InHand.updatePage {id other : PageId} (h : InHand id index t) {f : Page → Page}
    (hf : ∀ p, (f p).origin = p.origin) : InHand id index ⟨t.host, t.memory.updatePage other f⟩ :=
  ⟨(size_updatePage ..).symm ▸ h.lt_size,
   h.fits.congr ⟨rfl, rfl, rfl⟩ (updatePage_leaves Page.origin hf _ _ _)⟩

/-- The fault of an access that was refused a page of the store. -/
def Refused (s : Session PageStore) (fault : Fault) : Prop :=
  ∃ index, fault = .pageMap (pagePath s.memory.directory index)

/-- A page that is found in the cache is in hand then. -/
theorem lookup_uses (h : Uses lost s t) (index : Nat) :
    (lookup index).Ensures t fun found u => Uses lost s u ∧ ∀ id, found = some id →
      InHand id index u := by
  unfold lookup Ensures
  simp only [leads_bind, leads_memory]
  split
  next id hid =>
    simp only [leads_bind, leads_look, leads_update, leads_pure]
    have hcached := (Option.filter_eq_some_iff.mp hid).1
    have hkeep (p : Page) : (p.retain.touch t.host.now).origin = p.origin := by simp
    have hheld : InHand id index ⟨t.host.looked, t.memory⟩ :=
      ⟨h.fitted.lt_size hcached, h.fitted.fits hcached⟩
    refine ⟨h.looked.updatePage id hkeep, ?_⟩
    intro found hfound
    cases hfound
    exact hheld.updatePage hkeep
  next =>
    simp only [leads_pure]
    refine ⟨h, ?_⟩
    intro found hfound
    cases hfound

/-- A sweep lets no page go that has users. -/
theorem sweep_uses (h : Uses lost s t) :
    sweep.Ensures t fun _ u => Uses lost s u
      ∧ ∀ {id index}, InHand id index t → (t.memory.page id).references ≠ 0 →
        InHand id index u := by
  refine (sweep_letGo t).leads.mono (fun _ u hu => ?_) fun _ _ => False.elim
  obtain ⟨expired, hexpired, rfl⟩ := hu
  have hsame := same_letGo t.memory expired
  refine ⟨h.looked.memory hsame (h.fitted.letGo hexpired.cached), fun {id index} hheld hused =>
    ⟨?_, ?_⟩⟩
  · exact (size_letGo ..).symm ▸ hheld.lt_size
  · exact hheld.fits.congr hsame (congrArg Page.origin (hexpired.page_of_used hused))

/-- The file at a path is there or is made, or something is in the way of it. -/
theorem obtainFile_uses (h : Uses lost s t) (path : Path) :
    (obtainFile path).Leads t (fun _ u => Uses lost s u ∧ u.memory = t.memory)
      fun fault u => u = t ∧ fault = .pageMap path := by
  unfold obtainFile
  simp only [leads_bind, leads_disk, leads_ite, leads_throw]
  split
  · exact ⟨trivial, trivial⟩
  split
  next => exact ⟨h, rfl⟩
  next => exact ⟨rfl, rfl⟩
  next hnone =>
    rw [leads_ite]
    split
    · simp only [leads_bind, leads_perform, leads_pure]
      exact ⟨h.perform _ (Disk.retains_create hnone), trivial⟩
    · exact ⟨rfl, rfl⟩

/-- A page is mapped that fits the store and has no user yet, or its file is refused. -/
theorem map_uses (h : Uses lost s t) (index : Nat) :
    (map index).Leads t
      (fun page u => Uses lost s u ∧ page.references = 0 ∧ page.Fits u.memory index)
      fun fault u => Uses lost s u ∧ Refused s fault := by
  unfold map
  simp only [leads_bind, leads_memory]
  refine (obtainFile_uses h _).mono ?_ ?_
  · intro file u hu
    obtain ⟨hu, hmemory⟩ := hu
    have hfits (now : Int) : (Page.mapped index t.memory.pageSize (t.memory.pathOf index) file
        now).Fits u.memory index := by
      rw [hmemory]
      exact ⟨rfl, rfl, rfl, rfl⟩
    simp only [leads_bind, leads_disk, leads_ite, leads_perform, leads_look, leads_pure]
    split
    · exact ⟨(hu.perform _ (Disk.retains_extend file _)).looked, rfl, hfits _⟩
    · exact ⟨hu.looked, rfl, hfits _⟩
  · intro fault u hu
    obtain ⟨rfl, rfl⟩ := hu
    exact ⟨h, index, by rw [pathOf, h.same.directory, pagePath]⟩

/-- A new page is in hand once it was put into the cache, or the one that was there before it. -/
theorem insert_uses (h : Uses lost s t) {page : Page} (hpage : page.Fits t.memory index)
    (hidle : page.references = 0) :
    (insert index page).Ensures t fun id u => Uses lost s u ∧ InHand id index u := by
  unfold insert Ensures
  simp only [leads_bind, leads_memory]
  split
  next id hid =>
    obtain ⟨hcached, hlive⟩ := Option.filter_eq_some_iff.mp hid
    have hheld : InHand id index t := ⟨h.fitted.lt_size hcached, h.fitted.fits hcached⟩
    simp only [leads_bind, leads_update, leads_discard, leads_pure]
    refine (sweep_uses (h.updatePage id Page.origin_retain)).leads.mono ?_ fun _ _ => False.elim
    intro _ u hu
    refine ⟨hu.1, hu.2 (hheld.updatePage Page.origin_retain) ?_⟩
    -- the page was cached before: it gains a reference, so the sweep keeps it
    exact Int.ne_of_gt (references_retained_pos hheld.lt_size (of_decide_eq_true hlive))
  next =>
    simp only [leads_bind, leads_update, leads_discard, leads_pure]
    have hsame := same_grown t.memory index page.retain
    have hretained : page.retain.Fits t.memory index :=
      hpage.congr (.refl _) (Page.origin_retain page)
    refine (sweep_uses (h.memory hsame (h.fitted.grown hretained))).leads.mono ?_
      fun _ _ => False.elim
    intro _ u hu
    refine ⟨hu.1, hu.2 ⟨?_, ?_⟩ ?_⟩
    · exact Nat.lt_of_lt_of_eq (Nat.lt_succ_self _) (Array.size_push ..).symm
    · show ((t.memory.grown index page.retain).page t.memory.pages.size).Fits _ index
      rw [page_grown_self]
      exact hretained.congr hsame rfl
    · show ((t.memory.grown index page.retain).page t.memory.pages.size).references ≠ 0
      rw [references_grown_self _ _ hidle]
      exact Int.one_ne_zero

/-- A page that is handed out is in hand, and nothing else comes of a refusal. -/
theorem acquire_uses (h : Uses lost s t) (index : Nat) :
    (acquire index).Leads t (fun id u => Uses lost s u ∧ InHand id index u)
      fun fault u => Uses lost s u ∧ Refused s fault := by
  -- a ticket does not show in the pages
  have hticket {v : Session PageStore} (hv : Uses lost s v) (creating : Std.TreeMap Nat Nat)
      (tickets : Nat) : Uses lost s ⟨v.host, { v.memory with creating, tickets }⟩ :=
    hv.memory ⟨rfl, rfl, rfl⟩ (hv.fitted.loses ⟨⟨rfl, rfl, rfl⟩, Nat.le_refl _, fun hid => hid,
      fun _ => rfl⟩)
  have hcreate {v : Session PageStore} (hv : Uses lost s v) : (createPage index).Leads v
      (fun id u => Uses lost s u ∧ InHand id index u)
      fun fault u => Uses lost s u ∧ Refused s fault := by
    unfold createPage
    rw [leads_bind]
    refine (lookup_uses hv _).leads.mono ?_ fun _ _ => False.elim
    intro found u hu
    obtain ⟨hu, hfound⟩ := hu
    cases found with
    | some id => exact ⟨hu, hfound id rfl⟩
    | none =>
      simp only [leads_bind]
      refine (map_uses hu index).mono (fun page v hv => ?_) fun _ _ => id
      obtain ⟨hv, hidle, hfits⟩ := hv
      exact (insert_uses hv hfits hidle).leads
  unfold acquire
  rw [leads_bind]
  refine (lookup_uses h _).leads.mono ?_ fun _ _ => False.elim
  intro found u hu
  obtain ⟨hu, hfound⟩ := hu
  cases found with
  | some id => exact ⟨hu, hfound id rfl⟩
  | none =>
    simp only [leads_bind, leads_discard]
    have htaken : (takeTicket index).Ensures u fun _ v => Uses lost s v := by
      unfold takeTicket Ensures
      simp only [leads_bind, leads_memory]
      split
      · exact hu
      · exact hticket hu _ _
    refine htaken.leads.mono (fun _ v hv => ?_) fun _ _ => False.elim
    rw [leads_tryFinally]
    refine (hcreate hv).mono ?_ ?_
    · intro id w hw
      exact ⟨hticket hw.1 _ _, hw.2.lt_size, hw.2.fits.congr ⟨rfl, rfl, rfl⟩ rfl⟩
    · intro fault w hw
      exact ⟨hticket hw.1 _ _, hw.2⟩

/-- A file was mapped under the name of a page. -/
def HasMapped (s : PageStore) (index : Nat) (file : FileId) : Prop :=
  ∃ page ∈ s.pages, page.path = pagePath s.directory index ∧ page.file = file

/-- Which file is mapped does not change with a page. -/
theorem HasMapped.updatePage {s : PageStore} {file : FileId} (h : s.HasMapped index file)
    (id : PageId) {f : Page → Page} (hf : ∀ p, (f p).origin = p.origin) :
    (s.updatePage id f).HasMapped index file := by
  obtain ⟨page, hmem, hpath, hfile⟩ := h
  obtain ⟨i, hi, rfl⟩ := Array.mem_iff_getElem.mp hmem
  have hlt : i < (s.pages.modify id f).size := by rwa [Array.size_modify]
  refine ⟨(s.pages.modify id f)[i], Array.getElem_mem hlt, ?_⟩
  have horigin : ((s.pages.modify id f)[i]).origin = (s.pages[i]).origin := by
    rw [Array.getElem_modify]
    split
    · exact hf _
    · rfl
  simp only [Page.origin, Page.mapping, Prod.mk.injEq] at horigin
  exact ⟨horigin.2.trans hpath, horigin.1.2.2.1.trans hfile⟩

/-- A page in hand is mapped. -/
theorem InHand.hasMapped {id : PageId} (h : InHand id index t) :
    t.memory.HasMapped index (t.memory.page id).file := by
  have hlt := h.lt_size
  have hpage : t.memory.page id = t.memory.pages[id] := by simp [PageStore.page, hlt]
  exact ⟨_, Array.getElem_mem hlt, hpage ▸ h.fits.path, congrArg Page.file hpage.symm⟩

/-- What an access that writes leaves: bytes of one file, which was mapped under the name of the
page, were replaced as far as the file reaches. -/
structure Stamps (file : FileId) (index start : Nat) (bytes : List UInt8)
    (s u : Session PageStore) :
    Prop where
  hasMapped : u.memory.HasMapped index file
  uses : Uses (fun id o => id = file ∧ InRange start bytes.length o) s u
  byteOf_eq : ∀ i (hi : i < bytes.length), start + i < s.host.disk.sizeOf (.file file) →
    u.host.disk.byteOf file (start + i) = bytes[i]

/-- A page that is given back stays mapped. -/
theorem giveBack_uses (h : Uses lost s t) (id : PageId) :
    (giveBack id).Ensures t fun _ u => Uses lost s u ∧ u.host.disk = t.host.disk
      ∧ ∀ index file, t.memory.HasMapped index file → u.memory.HasMapped index file := by
  unfold giveBack Ensures
  simp only [leads_bind, leads_update, leads_look]
  refine ⟨?_, rfl, fun index file hmapped => ?_⟩
  · exact (h.updatePage id Page.origin_release).looked.updatePage id fun p => Page.origin_touch p _
  · exact (hmapped.updatePage id Page.origin_release).updatePage id fun p => Page.origin_touch p _

/-- A page is used and given back, or it is refused and nothing is used. -/
theorem withPage_uses {α : Type} {use : PageId → Procedure PageStore α}
    {done : α → Session PageStore → Prop} (h : s.memory.Fitted)
    (huse : ∀ id t, Uses Disk.Nothing s t → InHand id index t → (use id).Ensures t fun value u =>
      (giveBack id).Ensures u fun _ v => done value v) :
    (withPage index use).Leads s done
      fun fault u => Uses Disk.Nothing s u ∧ Refused s fault := by
  unfold withPage
  rw [leads_bind]
  refine (acquire_uses (.refl h) index).mono (fun page t ht => ?_) fun _ _ => id
  rw [leads_tryFinally]
  refine (huse page t ht.1 ht.2).leads.mono (fun value u hu => ?_) fun _ _ => False.elim
  exact hu.leads

/-- A page that fits has room for a range that lies in it. -/
theorem InHand.covers {id : PageId} {start length : Nat} (hsame : Same s.memory t.memory)
    (h : InHand id (start / s.memory.pageSize) t)
    (hone : InOnePage s.memory.pageSize start length) :
    (t.memory.page id).Covers start length := by
  obtain ⟨hle, hlt⟩ := inOnePage_within hone
  rw [Nat.add_mul, Nat.one_mul] at hlt
  rw [Page.Covers, Page.limit, h.fits.base, h.fits.size, hsame.pageSize]
  exact ⟨hle, hlt⟩

/-- A range inside one page is read, or its page is refused. -/
theorem readAt_uses {start length : Nat} (h : s.memory.Fitted)
    (hone : InOnePage s.memory.pageSize start length) :
    (withPage (start / s.memory.pageSize) fun id => readPage id start length).Leads s
      (fun _ u => Uses Disk.Nothing s u) fun fault u => Uses Disk.Nothing s u
        ∧ Refused s fault := by
  refine withPage_uses h fun id t ht hheld => ?_
  have hcovers := hheld.covers ht.same hone
  unfold readPage Ensures
  simp only [leads_bind, leads_memory, leads_disk, leads_pure, hcovers, hheld.fits.isOpen,
    not_true_eq_false, Bool.not_true, Bool.false_eq_true, if_false]
  exact (giveBack_uses ht id).mono fun _ _ hu => hu.1

/-- A range inside one page is written, or its page is refused and nothing is written. -/
theorem writeAt_uses {start : Nat} {bytes : List UInt8} (h : s.memory.Fitted) (hbytes : bytes ≠ [])
    (hone : InOnePage s.memory.pageSize start bytes.length) :
    (withPage (start / s.memory.pageSize) fun id => writePage id start bytes).Leads s
      (fun _ u => ∃ file, Stamps file (start / s.memory.pageSize)
        (start % s.memory.pageSize) bytes s u)
      fun fault u => Uses Disk.Nothing s u ∧ Refused s fault := by
  refine withPage_uses h fun id t ht hheld => ?_
  have hcovers := hheld.covers ht.same hone
  have hplace : start - (t.memory.page id).base = start % s.memory.pageSize := by
    have hmod := Nat.div_add_mod start s.memory.pageSize
    rw [Nat.mul_comm] at hmod
    rw [hheld.fits.base, ht.same.pageSize]
    omega
  unfold writePage Ensures
  simp only [leads_bind, leads_memory, leads_ite, leads_perform, leads_update, hcovers, hbytes,
    hheld.fits.isOpen, not_true_eq_false, Bool.not_true, Bool.false_eq_true, if_false, hplace,
    ne_eq, not_false_eq_true, if_true]
  have hcopied : Uses (fun other o => other = (t.memory.page id).file
      ∧ InRange (start % s.memory.pageSize) bytes.length o) s
      ⟨t.host.perform (.copy (t.memory.page id).file (start % s.memory.pageSize) bytes),
        t.memory⟩ :=
    ht.of_nothing.perform _ (Disk.retains_copy _ _ _ fun o ho => ⟨rfl, ho⟩)
  refine (giveBack_uses (hcopied.updatePage id fun p => p.origin_written start bytes) id).mono
    fun _ v hv => ?_
  obtain ⟨hv, hdisk, hmapped⟩ := hv
  have hindex := hmapped _ _ (hheld.hasMapped.updatePage id fun p => p.origin_written start bytes)
  refine ⟨_, hindex, hv, fun i hi hlt => ?_⟩
  have hreaches := Nat.lt_of_lt_of_le hlt (ht.retains.sizeOf_le _)
  rw [hdisk]
  show ((Change.copy _ _ bytes).apply t.host.now t.host.disk).byteOf _ _ = _
  rw [Disk.byteOf_copy, if_pos ⟨rfl, Nat.le_add_right .., hreaches⟩, Nat.add_sub_cancel_left,
    List.getD_eq_getElem _ _ hi]

end PageStore

namespace PagedFile

open PageStore (Uses Refused Stamps)

variable {s u : Session PageStore} {pageSize : Nat}

/-- Pieces are read and nothing is lost, and if that fails, a page was refused. -/
theorem readPieces_uses (pageSize_pos : 0 < pageSize) (start length : Nat) (h : s.memory.Fitted)
    (hsize : s.memory.pageSize = pageSize) :
    (readPieces (pieces pageSize pageSize_pos start length)).Leads s
      (fun _ u => Uses Disk.Nothing s u) fun fault u => Uses Disk.Nothing s u
        ∧ Refused s fault := by
  fun_induction pieces pageSize pageSize_pos start length generalizing s with
  | case1 => exact .refl h
  | case2 start length _ ih =>
    have hone := inOnePage_firstLength pageSize_pos start length
    subst hsize
    simp only [readPieces, leads_bind, leads_pure]
    refine (PageStore.readAt_uses h hone).mono (fun _ t ht => ?_) fun _ _ => id
    refine (ih ht.fitted ht.same.pageSize).mono (fun _ u hu => ht.trans hu) fun fault u hu => ?_
    obtain ⟨hu, index, rfl⟩ := hu
    exact ⟨ht.trans hu, index, by rw [ht.same.directory]⟩

/-- Bytes are read, or one of their pages is refused. -/
theorem readBytes_uses {s : Session PagedFile} (h : s.memory.store.Fitted) (start length : Nat) :
    (readBytes start length).Leads s
      (fun _ u => Uses Disk.Nothing (s.part store) (u.part store))
      fun fault u => Uses Disk.Nothing (s.part store) (u.part store)
        ∧ Refused (s.part store) fault := by
  unfold readBytes onStore
  simp only [leads_bind, leads_memory, leads_within]
  exact readPieces_uses (s := s.part store) s.memory.store.pageSize_pos start length h rfl

/-- A word inside one page is written, or its page is refused and nothing is written. -/
theorem writeWord_uses {s : Session PagedFile} (h : s.memory.store.Fitted) {start : Nat}
    {bytes : List UInt8} (hbytes : bytes ≠ [])
    (hone : InOnePage s.memory.store.pageSize start bytes.length) :
    (writeWord start bytes).Leads s
      (fun _ u => ∃ file, Stamps file (start / s.memory.store.pageSize)
        (start % s.memory.store.pageSize) bytes (s.part store) (u.part store))
      fun fault u => Uses Disk.Nothing (s.part store) (u.part store)
        ∧ Refused (s.part store) fault := by
  unfold writeWord onStore markWritten
  simp only [leads_bind, leads_memory, leads_ite, leads_within, leads_update, if_pos hone]
  exact PageStore.writeAt_uses (s := s.part store) h hbytes hone

end PagedFile

end PagedQueue
