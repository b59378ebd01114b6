import PagedQueue.Page.Catalog
import PagedQueue.Proofs.PageFits

/-!
# What procedures keep

A procedure maintains a property of the session if it leaves the property whether it succeeds or
fails (`Procedure.Maintains`), and it keeps a property of the memory if nothing need be asked of the
disk for that (`Procedure.Keeps`). A composition maintains what its parts maintain, so of a
procedure only the steps matter that change something.

All that is done with pages keeps a store what it is and its cache fitted (`PageStore.Over`).
-/

namespace PagedQueue

namespace Procedure

variable {σ τ α β : Type} {kept : σ → Prop}

/-- Whatever comes of the procedure, the session has the property if it had it before. -/
def Maintains (inv : Session σ → Prop) (p : Procedure σ α) : Prop :=
  ∀ s, inv s → p.Leads s (fun _ t => inv t) fun _ t => inv t

/-- Whatever comes of the procedure, the memory has the property if it had it before. -/
def Keeps (kept : σ → Prop) (p : Procedure σ α) : Prop :=
  ∀ s : Session σ, kept s.memory → p.Leads s (fun _ t => kept t.memory) fun _ t => kept t.memory

/-! ## Single steps -/

section

variable {inv : Session σ → Prop}

/-- A value alone changes nothing. -/
theorem maintains_pure (value : α) : Maintains inv (pure value : Procedure σ α) := fun _ h => h

/-- A fault alone changes nothing. -/
theorem maintains_throw (fault : Fault) : Maintains inv (throw fault : Procedure σ α) :=
  fun _ h => h

theorem maintains_memory : Maintains inv (memory : Procedure σ σ) := fun _ h => h

theorem maintains_disk : Maintains inv (disk : Procedure σ Disk) := fun _ h => h

theorem maintains_ofOption (fault : Fault) (value? : Option α) :
    Maintains inv (ofOption fault value? : Procedure σ α) := by
  cases value? <;> exact fun _ h => h

theorem maintains_ofExcept (value : Except Fault α) :
    Maintains inv (ofExcept value : Procedure σ α) := by
  cases value <;> exact fun _ h => h

end

theorem keeps_pure (value : α) : Keeps kept (pure value : Procedure σ α) := maintains_pure _

theorem keeps_throw (fault : Fault) : Keeps kept (throw fault : Procedure σ α) := maintains_throw _

theorem keeps_memory : Keeps kept (memory : Procedure σ σ) := maintains_memory

theorem keeps_disk : Keeps kept (disk : Procedure σ Disk) := maintains_disk

/-- A look at the clock changes nothing in memory. -/
theorem keeps_look : Keeps kept (look : Procedure σ Int) := fun _ h => h

/-- A change of the disk leaves the memory alone. -/
theorem keeps_perform (change : Change) : Keeps kept (perform change : Procedure σ Unit) :=
  fun _ h => h

/-- An update keeps what its function keeps. -/
theorem keeps_update {f : σ → σ} (h : ∀ m, kept m → kept (f m)) : Keeps kept (update f) :=
  fun s hs => h s.memory hs

theorem keeps_ofOption (fault : Fault) (value? : Option α) :
    Keeps kept (ofOption fault value? : Procedure σ α) := maintains_ofOption _ _

theorem keeps_ofExcept (value : Except Fault α) : Keeps kept (ofExcept value : Procedure σ α) :=
  maintains_ofExcept _

/-- What asks nothing of the memory is kept. -/
theorem keeps_true (p : Procedure σ α) : Keeps (fun _ => True) p := by
  intro s _
  unfold Leads
  split <;> exact trivial

/-! ## Compositions -/

namespace Maintains

variable {inv : Session σ → Prop} {p : Procedure σ α}

/-- What two procedures maintain is maintained by one after the other. -/
theorem bind {f : α → Procedure σ β} (hp : Maintains inv p)
    (hf : ∀ value, Maintains inv (f value)) :
    Maintains inv (p >>= f) := fun s hs =>
  (leads_bind p f).mpr ((hp s hs).mono (fun value t ht => hf value t ht) fun _ _ => id)

theorem discard (hp : Maintains inv p) : Maintains inv (discard p) := fun s hs =>
  (leads_discard p).mpr (hp s hs)

theorem ite {c : Prop} [Decidable c] {q : Procedure σ α} (hp : Maintains inv p)
    (hq : Maintains inv q) :
    Maintains inv (if c then p else q) := by
  split
  · exact hp
  · exact hq

/-- What is done at the end is done whether the rest failed or not, so both have to maintain it. -/
theorem tryFinally {last : Procedure σ β} (hp : Maintains inv p) (hlast : Maintains inv last) :
    Maintains inv (tryFinally p last) := fun s hs =>
  (leads_tryFinally p last).mpr ((hp s hs).mono
    (fun _ t ht => (hlast t ht).mono (fun _ _ => id) fun _ _ => id)
    fun _ t ht => (hlast t ht).mono (fun _ _ => id) fun _ _ => id)

/-- A fault that is handled leaves what the handler maintains. -/
theorem tryCatch {handle : Fault → Procedure σ α} (hp : Maintains inv p)
    (hhandle : ∀ fault, Maintains inv (handle fault)) :
    Maintains inv (tryCatch p handle) := fun s hs =>
  (leads_tryCatch p handle).mpr
    ((hp s hs).mono (fun _ _ => id) fun fault t ht => hhandle fault t ht)

/-- A part of the session has a property that stays, which is all that the property of the whole
asks of it. -/
theorem within {part : τ → σ} {replace : σ → τ → τ} {whole : Session τ → Prop}
    (h : ∀ s, whole s → ∃ inv : Session σ → Prop, Maintains inv p ∧ inv (s.part part)
      ∧ ∀ t, inv t → whole ⟨t.host, replace t.memory s.memory⟩) :
    Maintains whole (within part replace p) := by
  intro s hs
  obtain ⟨inv, hp, hpart, hwhole⟩ := h s hs
  rw [leads_within]
  exact (hp (s.part part) hpart).mono (fun _ t ht => hwhole t ht) fun _ t ht => hwhole t ht

/-- A list is gone through step by step. -/
theorem forM {f : β → Procedure σ Unit} (h : ∀ b, Maintains inv (f b)) (list : List β) :
    Maintains inv (list.forM f) := by
  induction list with
  | nil => exact maintains_pure _
  | cons first rest ih =>
    rw [List.forM_eq_forM, List.forM_cons]
    exact (h first).bind fun _ => ih

/-- So is one over which something is carried along. -/
theorem foldlM {f : α → β → Procedure σ α} (h : ∀ a b, Maintains inv (f a b)) (list : List β)
    (a : α) : Maintains inv (list.foldlM f a) := by
  induction list generalizing a with
  | nil => exact maintains_pure _
  | cons first rest ih =>
    rw [List.foldlM_cons]
    exact (h a first).bind fun _ => ih _

theorem mapM {f : β → Procedure σ α} (h : ∀ b, Maintains inv (f b)) (list : List β) :
    Maintains inv (list.mapM f) := by
  induction list with
  | nil => exact maintains_pure _
  | cons first rest ih =>
    rw [List.mapM_cons]
    exact (h first).bind fun _ => ih.bind fun _ => maintains_pure _

/-- What is maintained holds of the session that is left. -/
theorem outcome (hp : Maintains inv p) {s : Session σ} (hs : inv s) : inv (p.outcome s).2 :=
  (hp s hs).outcome

end Maintains

namespace Keeps

variable {p : Procedure σ α}

/-- One procedure after the other keeps what both keep. -/
theorem bind {f : α → Procedure σ β} (hp : Keeps kept p) (hf : ∀ value, Keeps kept (f value)) :
    Keeps kept (p >>= f) := Maintains.bind hp hf

theorem discard (hp : Keeps kept p) : Keeps kept (discard p) := Maintains.discard hp

theorem ite {c : Prop} [Decidable c] {q : Procedure σ α} (hp : Keeps kept p) (hq : Keeps kept q) :
    Keeps kept (if c then p else q) := Maintains.ite hp hq

/-- What is done at the end has to keep it as well, as it is done in any case. -/
theorem tryFinally {last : Procedure σ β} (hp : Keeps kept p) (hlast : Keeps kept last) :
    Keeps kept (tryFinally p last) := Maintains.tryFinally hp hlast

/-- So has what handles a fault. -/
theorem tryCatch {handle : Fault → Procedure σ α} (hp : Keeps kept p)
    (hhandle : ∀ fault, Keeps kept (handle fault)) : Keeps kept (tryCatch p handle) :=
  Maintains.tryCatch hp hhandle

/-- A part of the memory keeps a property, which is all that the property of the whole asks of
it. -/
theorem within {part : τ → σ} {replace : σ → τ → τ} {whole : τ → Prop}
    (h : ∀ m, whole m → ∃ kept : σ → Prop, Keeps kept p ∧ kept (part m)
      ∧ ∀ v, kept v → whole (replace v m)) : Keeps whole (within part replace p) := by
  refine Maintains.within fun s hs => ?_
  obtain ⟨kept, hp, hpart, hwhole⟩ := h s.memory hs
  exact ⟨fun t => kept t.memory, hp, hpart, fun _ ht => hwhole _ ht⟩

theorem forM {f : β → Procedure σ Unit} (h : ∀ b, Keeps kept (f b)) (list : List β) :
    Keeps kept (list.forM f) := Maintains.forM h list

theorem foldlM {f : α → β → Procedure σ α} (h : ∀ a b, Keeps kept (f a b)) (list : List β) (a : α) :
    Keeps kept (list.foldlM f a) := Maintains.foldlM h list a

theorem mapM {f : β → Procedure σ α} (h : ∀ b, Keeps kept (f b)) (list : List β) :
    Keeps kept (list.mapM f) := Maintains.mapM h list

/-- Two things that are kept are kept together. -/
theorem and {kept' : σ → Prop} (hp : Keeps kept p) (hp' : Keeps kept' p) :
    Keeps (fun m => kept m ∧ kept' m) p := fun s hs => (hp s hs.1).and (hp' s hs.2)

/-- What is kept holds of the session that is left. -/
theorem outcome (hp : Keeps kept p) {s : Session σ} (hs : kept s.memory) :
    kept (p.outcome s).2.memory := Maintains.outcome hp hs

end Keeps

end Procedure

open Procedure

/-! ## Pages -/

namespace PageStore

/-- A store over the same directory as another one, with a cache that fits. -/
def Over (s t : PageStore) : Prop := Same s t ∧ t.Fitted

variable {first : PageStore} {α : Type}

/-- Obtaining a file does nothing to the memory. -/
theorem keeps_obtainFile (kept : PageStore → Prop) (path : Path) :
    Keeps kept (obtainFile path) := by
  refine keeps_disk.bind fun d => .ite (keeps_throw _) ?_
  split
  · exact keeps_pure _
  · exact keeps_throw _
  · exact .ite ((keeps_perform _).bind fun _ => keeps_pure _) (keeps_throw _)

/-- Mapping a page changes the disk alone. -/
theorem keeps_map (kept : PageStore → Prop) (index : Nat) : Keeps kept (map index) := by
  refine keeps_memory.bind fun s => (keeps_obtainFile kept _).bind fun file => keeps_disk.bind
    fun d => ?_
  dsimp only
  split
  · exact (keeps_perform _).bind fun _ => keeps_look.bind fun _ => keeps_pure _
  · exact keeps_look.bind fun _ => keeps_pure _

/-! What only looks at the pages maintains anything, and a deletion keeps what a page may leave the
cache without. -/

section

variable {inv : Session PageStore → Prop} {kept : PageStore → Prop}

/-- Bytes are read off a page, and the store stays as it is. -/
theorem maintains_readPage (id : PageId) (start length : Nat) :
    Maintains inv (readPage id start length) := by
  intro s hs
  unfold readPage
  simp only [leads_bind, leads_memory, leads_ite, leads_throw, leads_disk, leads_pure, hs, ite_self]

theorem keeps_readPage (id : PageId) (start length : Nat) : Keeps kept (readPage id start length) :=
  maintains_readPage id start length

/-- Bytes are written only to an open page. -/
theorem keeps_writePage_of {id : PageId}
    {start : Nat} {bytes : List UInt8} (hwrite : ∀ m, kept m → (m.page id).isOpen = true →
      kept (m.updatePage id (·.written start bytes))) : Keeps kept (writePage id start bytes) := by
  intro s hs
  unfold writePage
  simp only [leads_bind, leads_memory, leads_ite, leads_throw, leads_perform, leads_update, hs,
    ite_self]
  split
  · exact trivial
  · split
    · exact trivial
    next hopen => exact hwrite s.memory hs (by simpa using hopen)

/-- The names in the directory are looked at, and the store stays as it is. -/
theorem maintains_pageEntries : Maintains inv pageEntries :=
  maintains_disk.bind fun _ => maintains_memory.bind fun _ =>
    (maintains_ofOption _ _).bind fun _ => maintains_pure _

theorem maintains_pageIndexes : Maintains inv pageIndexes :=
  maintains_pageEntries.bind fun _ => maintains_pure _

theorem keeps_pageEntries : Keeps kept pageEntries := maintains_pageEntries

theorem keeps_pageIndexes : Keeps kept pageIndexes := maintains_pageIndexes

theorem keeps_pageIndexesBefore (time : Int) : Keeps kept (pageIndexesBefore time) :=
  keeps_disk.bind fun _ => keeps_look.bind fun _ => keeps_memory.bind fun _ =>
    keeps_pageEntries.bind fun _ => keeps_pure _

/-- A page that is deleted leaves the cache. -/
theorem keeps_deletePage_of (hdrop : ∀ m index, kept m → kept (m.drop index)) (index : Nat) :
    Keeps kept (deletePage index) := by
  unfold deletePage
  refine (keeps_update fun m => hdrop m index).bind fun _ => keeps_memory.bind fun s =>
    keeps_disk.bind fun d => ?_
  split
  · exact (keeps_perform _).bind fun _ => keeps_pure _
  · exact keeps_pure _
  · exact keeps_pure _

/-- Pages are deleted one after the other, and each only drops one. -/
theorem keeps_deletePages_of (hdrop : ∀ m index, kept m → kept (m.drop index))
    (indexes : List Nat) :
    Keeps kept (deletePages indexes) := .forM
      (fun index => (keeps_deletePage_of hdrop index).discard) _

/-- All pages are closed first, and then their files are deleted. -/
theorem keeps_deleteAll_of (hdrop : ∀ m index, kept m → kept (m.drop index))
    (hdropAll : ∀ m, kept m → kept m.dropAll) : Keeps kept deleteAll :=
  (keeps_update hdropAll).bind fun _ => keeps_pageIndexes.bind fun _ => keeps_deletePages_of hdrop _

end

/-- A use of a store leaves a store over the same directory. -/
theorem Uses.over {lost : FileId → Nat → Prop} {s t : Session PageStore} (h : Uses lost s t)
    (hs : Over first s.memory) : Over first t.memory := ⟨hs.1.trans h.same, h.fitted⟩

/-- A sweep only lets pages go. -/
theorem keeps_sweep : Keeps (Over first) sweep := fun _ hs =>
  (sweep_uses (.refl hs.2 : Uses Disk.Nothing _ _)).leads.mono (fun _ _ ht => ht.1.over hs)
    fun _ _ => False.elim

/-- A page that is handed out was there, or it is a new one that fits the store. -/
theorem keeps_acquire (index : Nat) : Keeps (Over first) (acquire index) := fun _ hs =>
  (acquire_uses (.refl hs.2 : Uses Disk.Nothing _ _) index).mono (fun _ _ ht => ht.1.over hs)
    fun _ _ ht => ht.1.over hs

/-- A page may change in what it counts and in its bytes. -/
theorem keeps_updatePage (id : PageId) {f : Page → Page} (hf : ∀ p, (f p).origin = p.origin) :
    Keeps (Over first) (update (·.updatePage id f)) :=
  keeps_update fun _ h => ⟨h.1.trans ⟨rfl, rfl, rfl⟩, h.2.updatePage id hf⟩

/-- A page is acquired, used and given back. -/
theorem keeps_withPage (index : Nat) {use : PageId → Procedure PageStore α}
    (huse : ∀ id, Keeps (Over first) (use id)) : Keeps (Over first) (withPage index use) :=
  (keeps_acquire index).bind fun id => (huse id).tryFinally <|
    (keeps_updatePage id Page.origin_release).bind fun _ => keeps_look.bind fun now =>
      keeps_updatePage id fun p => Page.origin_touch p now

theorem keeps_writePage (id : PageId) (start : Nat) (bytes : List UInt8) :
    Keeps (Over first) (writePage id start bytes) :=
  keeps_writePage_of fun _ h _ =>
    ⟨h.1.trans ⟨rfl, rfl, rfl⟩, h.2.updatePage id fun p => p.origin_written start bytes⟩

theorem over_dropAll {s : PageStore} (h : Over first s) : Over first s.dropAll :=
  ⟨h.1.trans (same_dropAll s), .of_cached_empty rfl⟩

theorem over_flush {s : PageStore} (h : Over first s) : Over first s.flush :=
  ⟨h.1.trans (same_flush s), h.2.flush⟩

theorem over_drop {s : PageStore} (h : Over first s) (index : Nat) : Over first (s.drop index) := by
  refine ⟨h.1.trans ?_, h.2.drop index⟩
  unfold PageStore.drop
  split <;> exact ⟨rfl, rfl, rfl⟩

/-- Pages that are deleted leave the cache. -/
theorem keeps_deleteAll : Keeps (Over first) deleteAll :=
  keeps_deleteAll_of (fun _ index h => over_drop h index) fun _ => over_dropAll

end PageStore

/-! ## Files -/

namespace PagedFile

open PageStore (Over)

variable {first : PageStore} {α : Type}

/-- A file whose store is over the same directory as another one, with a cache that fits. -/
def Lies (first : PageStore) (file : PagedFile) : Prop := Over first file.store

/-- What is done with the store of a file leaves a file over the same store. -/
theorem keeps_onStore {p : Procedure PageStore α} (h : Keeps (Over first) p) :
    Keeps (Lies first) (onStore p) := .within fun _ hm => ⟨_, h, hm, fun _ hv => hv⟩

/-- The length may move. -/
theorem keeps_markWritten (stop : Nat) : Keeps (Lies first) (markWritten stop) :=
  keeps_update fun _ h => h

/-- So it may when it is read off the pages. -/
theorem keeps_recoverLength : Keeps (Lies first) recoverLength := by
  unfold recoverLength
  refine (keeps_onStore PageStore.keeps_pageIndexes).bind fun _ => keeps_memory.bind fun _ => ?_
  dsimp only
  exact .bind (keeps_update fun _ h => h) fun _ => keeps_pure _

theorem keeps_reset : Keeps (Lies first) reset :=
  (keeps_onStore PageStore.keeps_deleteAll).bind fun _ => keeps_update fun _ h => h

/-- Pieces are written in one page after the other. -/
theorem keeps_writePieces (pieces : List Piece) (bytes : List UInt8) :
    Keeps (Over first) (writePieces pieces bytes) := by
  induction pieces generalizing bytes with
  | nil => exact keeps_pure _
  | cons piece rest ih =>
    exact (PageStore.keeps_withPage _ fun id => PageStore.keeps_writePage id _ _).bind fun _ => ih _

/-- Pieces are read from one page after the other. -/
theorem keeps_readPieces (pieces : List Piece) : Keeps (Over first) (readPieces pieces) := by
  induction pieces with
  | nil => exact keeps_pure _
  | cons piece rest ih =>
    exact (PageStore.keeps_withPage _ fun id => PageStore.keeps_readPage id _ _).bind fun _ =>
      ih.bind fun _ => keeps_pure _

theorem keeps_writeBytes (start : Nat) (bytes : List UInt8) :
    Keeps (Lies first) (writeBytes start bytes) :=
  keeps_memory.bind fun _ => (keeps_onStore (keeps_writePieces _ _)).bind fun _ =>
    keeps_markWritten _

theorem keeps_readBytes (start length : Nat) : Keeps (Lies first) (readBytes start length) :=
  keeps_memory.bind fun _ => keeps_onStore (keeps_readPieces _)

theorem keeps_writeWord (start : Nat) (bytes : List UInt8) :
    Keeps (Lies first) (writeWord start bytes) :=
  keeps_memory.bind fun _ => .ite ((keeps_onStore (PageStore.keeps_withPage _ fun id =>
    PageStore.keeps_writePage id _ _)).bind fun _ => keeps_markWritten _) (keeps_writeBytes _ _)

theorem keeps_readWord (start length : Nat) : Keeps (Lies first) (readWord start length) :=
  keeps_memory.bind fun _ => .ite (keeps_onStore (PageStore.keeps_withPage _ fun id =>
    PageStore.keeps_readPage id _ _)) (keeps_readBytes _ _)

theorem keeps_flush : Keeps (Lies first) flush := keeps_update fun _ h => PageStore.over_flush h

theorem keeps_close : Keeps (Lies first) close :=
  keeps_flush.bind fun _ => keeps_update fun _ h => PageStore.over_dropAll h

/-- A property of a file that everything done with the file keeps. -/
structure Lasting (kept : PagedFile → Prop) : Prop where
  recoverLength : Keeps kept recoverLength
  reset : Keeps kept reset
  writeBytes : ∀ start bytes, Keeps kept (writeBytes start bytes)
  readBytes : ∀ start length, Keeps kept (readBytes start length)
  writeWord : ∀ start bytes, Keeps kept (writeWord start bytes)
  readWord : ∀ start length, Keeps kept (readWord start length)
  flush : Keeps kept flush
  close : Keeps kept close

/-- A file over a store stays one whatever is done with it. -/
theorem lasting_lies (first : PageStore) : Lasting (Lies first) :=
  ⟨keeps_recoverLength, keeps_reset, keeps_writeBytes, keeps_readBytes, keeps_writeWord,
    keeps_readWord, keeps_flush, keeps_close⟩

/-- What lasts of two things lasts of both together. -/
theorem Lasting.and {kept kept' : PagedFile → Prop} (h : Lasting kept) (h' : Lasting kept') :
    Lasting fun file => kept file ∧ kept' file where
  recoverLength := h.recoverLength.and h'.recoverLength
  reset := h.reset.and h'.reset
  writeBytes start bytes := (h.writeBytes start bytes).and (h'.writeBytes start bytes)
  readBytes start length := (h.readBytes start length).and (h'.readBytes start length)
  writeWord start bytes := (h.writeWord start bytes).and (h'.writeWord start bytes)
  readWord start length := (h.readWord start length).and (h'.readWord start length)
  flush := h.flush.and h'.flush
  close := h.close.and h'.close

theorem lasting_true : Lasting fun _ => True :=
  ⟨keeps_true _, keeps_true _, fun _ _ => keeps_true _, fun _ _ => keeps_true _,
    fun _ _ => keeps_true _, fun _ _ => keeps_true _, keeps_true _, keeps_true _⟩

end PagedFile

end PagedQueue
