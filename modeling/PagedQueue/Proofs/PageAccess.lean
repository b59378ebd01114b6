import PagedQueue.Page.Span
import PagedQueue.Proofs.PageCache

/-!
# Reading and writing one page

A page is handed out for an offset of the byte space (`acquire_leads`), if its file is there or can
be made; making it changes no byte. What is then read of it is a range of the space
(`readPage_ensures`), and what is written changes that range and nothing else (`writePage_ensures`).

`readAt_leads` and `writeAt_leads` are the two accesses from the outside. While a range is written
the space is the old one or the new one, never anything between.
-/

namespace PagedQueue.PageStore

open Procedure
open Disk (Confined Mappable HasPage pagePath)

variable {touched written : Nat → Prop} {s t u : Session PageStore} {P : Disk → Prop} {o : Nat}

/-- An access that opens only pages of the offsets `touched` and replaces only bytes at the offsets
`written`. -/
abbrev Touches (touched written : Nat → Prop) (s t : Session PageStore) : Prop :=
  Access (Confined s.memory.directory s.memory.pageSize touched written s.host.disk) s t

/-- No offset at all. -/
def Nowhere (_ : Nat) : Prop := False

/-- The bytes of the pages of a store. -/
def contents (s : Session PageStore) : ByteSpace :=
  s.host.disk.space s.memory.directory s.memory.pageSize

/-- The page of some offset that was touched could not be mapped. -/
def Unmappable (touched : Nat → Prop) (s : Session PageStore) (fault : Fault) : Prop :=
  ∃ o, touched o ∧ ¬ s.host.disk.Mappable s.memory.directory (o / s.memory.pageSize)
    ∧ fault = .pageMap (pagePath s.memory.directory (o / s.memory.pageSize))

/-- An access goes on with changes to the disk. -/
theorem Touches.goOn (h : Touches touched written s t) (hmemory : u.memory = t.memory)
    (htrail : Trail (Confined s.memory.directory s.memory.pageSize touched written t.host.disk)
      t.host u.host) : Touches touched written s u where
  same := hmemory ▸ h.same
  sound := htrail.last.sound
  coherent := hmemory ▸ h.coherent.confined htrail.last
  trail := h.trail.trans (htrail.mono fun _ => h.last.trans)

theorem Touches.refl (h : Ready s) : Touches touched written s s := Access.refl h (.refl h.sound)

/-- Without bytes written the contents stay. -/
theorem Touches.contents_eq (h : Touches touched Nowhere s t) : contents t = contents s := by
  funext o
  rw [contents, contents, h.same.directory, h.same.pageSize]
  exact h.last.space_eq o id

/-! ## Handing pages out -/

/-- A page that is found in the cache is handed out as it is. -/
theorem lookup_ensures (h : Access P s t) (index : Nat) :
    (lookup index).Ensures t fun found u => Access P s u ∧ u.host.disk = t.host.disk
      ∧ ∀ id, found = some id → Held id index u := by
  unfold lookup Ensures
  simp only [leads_bind, leads_memory]
  split
  next id hid =>
    simp only [leads_bind, leads_look, leads_update, leads_pure]
    have hcached := (Option.filter_eq_some_iff.mp hid).1
    have hkeep (p : Page) : (p.retain.touch t.host.now).mapping = p.mapping := by simp
    have hheld : Held id index ⟨t.host.looked, t.memory⟩ :=
      ⟨h.coherent.lt_size hcached, h.coherent.shows hcached⟩
    refine ⟨h.looked.updatePage id hkeep, rfl, ?_⟩
    intro found hfound
    cases hfound
    exact hheld.updatePage hkeep
  next =>
    simp only [leads_pure]
    refine ⟨h, trivial, ?_⟩
    intro found hfound
    cases hfound

/-- The file of a page is there or is made; else there is no way to have it. -/
theorem obtainFile_leads {directory : Path} {pageSize : Nat} (hsound : t.host.disk.Sound)
    (ho : touched o) (written : Nat → Prop) :
    (obtainFile (pagePath directory (o / pageSize))).Leads t
      (fun id u => u.memory = t.memory
        ∧ u.host.disk.node? (pagePath directory (o / pageSize)) = some (.file id)
        ∧ Trail (Confined directory pageSize touched written t.host.disk) t.host u.host)
      fun fault u => u = t ∧ ¬ t.host.disk.Mappable directory (o / pageSize)
        ∧ fault = .pageMap (pagePath directory (o / pageSize)) := by
  have hstart : Trail (Confined directory pageSize touched written t.host.disk) t.host t.host :=
    .start (.refl hsound)
  unfold obtainFile
  simp only [leads_bind, leads_disk, leads_ite, leads_throw]
  split
  · next hrefused => exact ⟨trivial, fun hmappable => hmappable.not_refused hrefused, trivial⟩
  split
  next id hnode => exact ⟨rfl, hnode, hstart⟩
  next hnode =>
    refine ⟨rfl, ?_, rfl⟩
    intro hmappable
    rcases hmappable.obtainable with ⟨id, hfile⟩ | ⟨hnone, -⟩
    · rw [hnode] at hfile
      cases hfile
    · rw [hnode] at hnone
      cases hnone
  next hnode =>
    rw [leads_ite, Disk.dropLast_pagePath]
    split
    · simp only [leads_bind, leads_perform, leads_pure]
      refine ⟨trivial, ?_, hstart.change _ (Disk.confined_create hsound ho hnode)⟩
      exact (Change.node?_create ..).trans (if_pos rfl)
    next hdirectory =>
      refine ⟨rfl, ?_, rfl⟩
      intro hmappable
      rcases hmappable.obtainable with ⟨id, hfile⟩ | ⟨-, his⟩
      · rw [hnode] at hfile
        cases hfile
      · exact hdirectory his

/-- A file that was filled up is as large as asked. -/
theorem le_sizeOf_extend {d : Disk} (hsound : d.Sound) {path : Path} {id : FileId}
    (hnode : d.node? path = some (.file id)) (size : Nat) (now : Int) :
    size ≤ ((Change.extend id size).apply now d).sizeOf (.file id) := by
  obtain ⟨f, hf⟩ := Disk.exists_file hsound hnode
  have hnew : ((Change.extend id size).apply now d).file? id = some (f.extend size now) := by
    rw [Change.file?_extend, if_pos rfl, hf, Option.map_some]
  simp only [Disk.sizeOf, hnew, Option.map_some, Option.getD_some, File.size_extend]
  exact Nat.le_max_right ..

theorem Touches.shows_mapped (h : Touches touched written s t) {index : Nat} {file : FileId}
    (hnode : t.host.disk.node? (pagePath s.memory.directory index) = some (.file file))
    (hsize : s.memory.pageSize ≤ t.host.disk.sizeOf (.file file)) (path : Path) (now : Int) :
    t.memory.Shows t.host.disk index (Page.mapped index s.memory.pageSize path file now) :=
  ⟨congrArg (index * ·) h.same.pageSize.symm, h.same.pageSize.symm, rfl,
   h.same.directory.symm ▸ hnode, h.same.pageSize.symm ▸ hsize⟩

/-- A page that is mapped shows all of its file, which is made as large as a page. -/
theorem map_leads (h : Touches touched written s t) (ho : touched o) :
    (map (o / s.memory.pageSize)).Leads t
      (fun page u => Touches touched written s u ∧ page.references = 0
        ∧ u.memory.Shows u.host.disk (o / s.memory.pageSize) page)
      fun fault u => Touches touched written s u ∧ Unmappable touched s fault := by
  unfold map
  have hpath : t.memory.pathOf (o / s.memory.pageSize)
      = pagePath s.memory.directory (o / s.memory.pageSize) := by
    rw [pathOf, h.same.directory, pagePath]
  simp only [leads_bind, leads_memory, hpath, h.same.pageSize]
  refine (obtainFile_leads h.sound ho written).mono ?_ ?_
  · intro id u hu
    obtain ⟨hmemory, hnode, htrail⟩ := hu
    have hobtained := h.goOn hmemory htrail
    simp only [leads_bind, leads_disk, leads_ite, leads_perform, leads_look, leads_pure]
    split
    next hshort =>
      have hextended :=
        hobtained.goOn (u := ⟨u.host.perform (.extend id s.memory.pageSize), u.memory⟩)
        rfl (.change (.start (.refl hobtained.sound)) (.extend id s.memory.pageSize)
          (Disk.confined_extend hobtained.sound hnode))
      exact ⟨hextended.looked, rfl,
        hextended.shows_mapped hnode (le_sizeOf_extend hobtained.sound hnode ..) _ _⟩
    next hlong =>
      exact ⟨hobtained.looked, rfl, hobtained.shows_mapped hnode (Nat.le_of_not_lt hlong) _ _⟩
  · intro fault u hu
    obtain ⟨rfl, hunmappable, rfl⟩ := hu
    exact ⟨h, o, ho, fun hmappable => hunmappable (h.last.mappable hmappable), rfl⟩

/-- The store with one more page, which the cache holds for an index. -/
def grown (s : PageStore) (index : Nat) (page : Page) : PageStore :=
  { s with pages := s.pages.push page, cached := s.cached.insert index s.pages.size }

theorem same_grown (s : PageStore) (index : Nat) (page : Page) : Same s (s.grown index page) :=
  ⟨rfl, rfl, rfl⟩

theorem page_grown_self (s : PageStore) (index : Nat) (page : Page) :
    (s.grown index page).page s.pages.size = page := by
  simp [grown, PageStore.page]

/-- A page that is new to the store has one user. -/
theorem references_grown_self (s : PageStore) (index : Nat) {page : Page}
    (hidle : page.references = 0) :
    ((s.grown index page.retain).page s.pages.size).references = 1 := by
  rw [page_grown_self, Page.retain, hidle]
  rfl

theorem page_grown (s : PageStore) (index : Nat) (page : Page) {id : PageId}
    (hid : id < s.pages.size) : (s.grown index page).page id = s.page id := by
  simp [grown, PageStore.page, Array.getElem?_push, Nat.ne_of_lt hid]

/-- Every page of a store that has got a page more is an old one, or the new one. -/
theorem page_grown_cases (s : PageStore) (index : Nat) (page : Page) (id : PageId) :
    (s.grown index page).page id = s.page id
      ∨ id = s.pages.size ∧ (s.grown index page).page id = page := by
  rcases Nat.lt_trichotomy id s.pages.size with hlt | rfl | hgt
  · exact .inl (page_grown s index page hlt)
  · exact .inr ⟨rfl, page_grown_self ..⟩
  · have hsize : (s.grown index page).pages.size = s.pages.size + 1 := Array.size_push ..
    refine .inl ?_
    rw [PageStore.page, PageStore.page, Array.getD_eq_getD_getElem?, Array.getD_eq_getD_getElem?,
      Array.getElem?_eq_none (hsize ▸ hgt), Array.getElem?_eq_none (Nat.le_of_lt hgt)]

theorem Coherent.grown {s : PageStore} {d : Disk} {index : Nat} {page : Page}
    (h : s.Coherent d) (hpage : s.Shows d index page) : (s.grown index page).Coherent d := by
  have hsize : (s.grown index page).pages.size = s.pages.size + 1 := Array.size_push ..
  have hcached {i : Nat} {id : PageId} (hid : (s.grown index page).cached[i]? = some id) :
      index = i ∧ s.pages.size = id ∨ s.cached[i]? = some id := by
    rw [PageStore.grown, Std.TreeMap.getElem?_insert] at hid
    split at hid
    next heq => exact .inl ⟨Nat.compare_eq_eq.mp heq, Option.some.inj hid⟩
    next => exact .inr hid
  refine ⟨fun hid => ?_, fun hid => ?_⟩
  · rw [hsize]
    rcases hcached hid with ⟨-, rfl⟩ | hin
    · exact Nat.lt_succ_self _
    · exact Nat.lt_succ_of_lt (h.lt_size hin)
  · rcases hcached hid with ⟨rfl, rfl⟩ | hin
    · exact hpage.congr (same_grown ..) (by rw [page_grown_self])
    · exact (h.shows hin).congr (same_grown ..) (by rw [page_grown _ _ _ (h.lt_size hin)])

/-- A new page enters the cache in use, so the sweep that follows leaves it open. -/
theorem insert_ensures (h : Access P s t) {index : Nat} {page : Page}
    (hpage : t.memory.Shows t.host.disk index page) (hidle : page.references = 0) :
    (insert index page).Ensures t fun id u => Access P s u ∧ Held id index u := by
  unfold insert Ensures
  simp only [leads_bind, leads_memory]
  split
  next id hid =>
    obtain ⟨hcached, hlive⟩ := Option.filter_eq_some_iff.mp hid
    have hheld : Held id index t := ⟨h.coherent.lt_size hcached, h.coherent.shows hcached⟩
    simp only [leads_bind, leads_update, leads_discard, leads_pure]
    have hswept := sweep_ensures (h.updatePage id Page.mapping_retain)
    refine hswept.leads.mono ?_ fun _ _ => False.elim
    intro _ u hu
    obtain ⟨haccess, _, hkept⟩ := hu
    refine ⟨haccess, ?_⟩
    -- the page was cached before: it gains a reference, so the sweep keeps it
    refine hkept (hheld.updatePage Page.mapping_retain) ?_
    exact Int.ne_of_gt (references_retained_pos hheld.lt_size (of_decide_eq_true hlive))
  next =>
    simp only [leads_bind, leads_update, leads_discard, leads_pure]
    have hsame := same_grown t.memory index page.retain
    have hretained : t.memory.Shows t.host.disk index page.retain :=
      hpage.congr (.refl _) (Page.mapping_retain page)
    have hshows : (t.memory.grown index page.retain).Shows t.host.disk index
        ((t.memory.grown index page.retain).page t.memory.pages.size) := by
      rw [page_grown_self]
      exact hretained.congr hsame rfl
    have hswept := sweep_ensures (h.memory hsame (h.coherent.grown hretained))
    refine hswept.leads.mono ?_ fun _ _ => False.elim
    intro _ u hu
    obtain ⟨haccess, _, hkept⟩ := hu
    refine ⟨haccess, ?_⟩
    -- the page is held before the sweep, and in use
    refine hkept ⟨?_, hshows⟩ ?_
    · exact Nat.lt_of_lt_of_eq (Nat.lt_succ_self _) (Array.size_push ..).symm
    · rw [references_grown_self _ _ hidle]
      exact Int.one_ne_zero

/-- A page that is created, or found meanwhile, is handed out. -/
theorem createPage_leads (h : Touches touched written s t) (ho : touched o) :
    (createPage (o / s.memory.pageSize)).Leads t
      (fun id u => Touches touched written s u ∧ Held id (o / s.memory.pageSize) u)
      fun fault u => Touches touched written s u ∧ Unmappable touched s fault := by
  unfold createPage
  rw [leads_bind]
  refine (lookup_ensures h _).leads.mono ?_ fun _ _ => False.elim
  intro found u hu
  obtain ⟨hu, _, hfound⟩ := hu
  cases found with
  | some id => exact ⟨hu, hfound id rfl⟩
  | none =>
    simp only [leads_bind]
    refine (map_leads hu ho).mono ?_ fun _ _ => id
    intro page v hv
    obtain ⟨hv, hidle, hshows⟩ := hv
    exact (insert_ensures hv hshows hidle).leads

/-- A page is handed out if its file is there or can be made. -/
theorem acquire_leads (h : Touches touched written s t) (ho : touched o) :
    (acquire (o / s.memory.pageSize)).Leads t
      (fun id u => Touches touched written s u ∧ Held id (o / s.memory.pageSize) u)
      fun fault u => Touches touched written s u ∧ Unmappable touched s fault := by
  unfold acquire
  rw [leads_bind]
  refine (lookup_ensures h _).leads.mono ?_ fun _ _ => False.elim
  intro found u hu
  obtain ⟨hu, _, hfound⟩ := hu
  cases found with
  | some id => exact ⟨hu, hfound id rfl⟩
  | none =>
    -- a ticket is no part of what the cache shows
    have hticket {v : Session PageStore} (hv : Touches touched written s v)
        (creating : Std.TreeMap Nat Nat) (tickets : Nat) :
        Touches touched written s ⟨v.host, { v.memory with creating, tickets }⟩ :=
      hv.memory ⟨rfl, rfl, rfl⟩ (hv.coherent.of_mapping ⟨rfl, rfl, rfl⟩ (Nat.le_refl _)
        (fun hid => hid) fun _ => rfl)
    simp only [leads_bind, leads_discard]
    have htaken : (takeTicket (o / s.memory.pageSize)).Ensures u fun _ v =>
        Touches touched written s v := by
      unfold takeTicket Ensures
      simp only [leads_bind, leads_memory]
      split
      · exact hu
      · exact hticket hu _ _
    refine htaken.leads.mono (fun _ v hv => ?_) fun _ _ => False.elim
    rw [leads_tryFinally]
    refine (createPage_leads hv ho).mono ?_ ?_
    · intro id w hw
      obtain ⟨hw, hheld⟩ := hw
      exact ⟨hticket hw _ _, hheld.lt_size, hheld.shows.congr ⟨rfl, rfl, rfl⟩ rfl⟩
    · intro fault w hw
      obtain ⟨hw, hfault⟩ := hw
      exact ⟨hticket hw _ _, hfault⟩

/-- Giving a page back leaves what it shows. -/
theorem giveBack_ensures (h : Access P s t) (id : PageId) :
    (giveBack id).Ensures t fun _ u => Access P s u ∧ u.host.disk = t.host.disk := by
  unfold giveBack Ensures
  simp only [leads_bind, leads_update, leads_look]
  have hreleased := (h.updatePage id Page.mapping_release).looked
  exact ⟨hreleased.updatePage id fun p => Page.mapping_touch p _, rfl⟩

/-- A page is opened, which changes no byte, then used and given back. -/
theorem withPage_leads {α : Type} {use : PageId → Procedure PageStore α} (done : α → Disk → Prop)
    (hready : Ready s) (ho : touched o)
    (huse : ∀ id t, Touches touched Nowhere s t → Held id (o / s.memory.pageSize) t →
      (use id).Ensures t fun value u => Access P s u ∧ done value u.host.disk) :
    (withPage (o / s.memory.pageSize) use).Leads s
      (fun value u => Access P s u ∧ done value u.host.disk)
      fun fault u => Touches touched Nowhere s u ∧ Unmappable touched s fault := by
  unfold withPage
  rw [leads_bind]
  refine (acquire_leads (.refl hready) ho).mono ?_ fun _ _ => id
  intro page t ht
  obtain ⟨ht, hheld⟩ := ht
  rw [leads_tryFinally]
  refine (huse page t ht hheld).leads.mono ?_ fun _ _ => False.elim
  intro value u hu
  obtain ⟨hu, hdone⟩ := hu
  refine (giveBack_ensures hu page).leads.mono ?_ fun _ _ => False.elim
  intro _ v hv
  obtain ⟨hv, hdisk⟩ := hv
  refine ⟨hv, ?_⟩
  rwa [hdisk]

/-! ## Bytes of a page -/

/-- A range of a page of the store is a range of the bytes of its file. -/
theorem Shows.window {d : Disk} {m : PageStore} {index start length : Nat} {page : Page}
    (h : m.Shows d index page) (hsound : d.Sound) (hle : index * m.pageSize ≤ start)
    (hlt : start + length ≤ (index + 1) * m.pageSize) :
    d.window page.file (start - page.base) length
      = (d.space m.directory m.pageSize).read start length := by
  obtain ⟨f, hf⟩ := Disk.exists_file hsound h.node
  rw [Nat.add_mul, Nat.one_mul] at hlt
  rw [Disk.window, hf, h.base]
  apply List.map_congr_left
  intro i hi
  rw [List.mem_range] at hi
  have hdiv : (start + i) / m.pageSize = index :=
    Nat.div_eq_of_lt_le (by omega) (by rw [Nat.add_mul, Nat.one_mul]; omega)
  have hmod := Nat.div_add_mod (start + i) m.pageSize
  rw [hdiv, Nat.mul_comm] at hmod
  rw [Disk.space_of_file (hdiv.symm ▸ h.node) hf]
  congr 1
  omega

theorem Held.covers {page : PageId} {index start length : Nat} (h : Touches touched written s t)
    (hheld : Held page index t) (hle : index * s.memory.pageSize ≤ start)
    (hlt : start + length ≤ (index + 1) * s.memory.pageSize) :
    (t.memory.page page).Covers start length := by
  rw [Nat.add_mul, Nat.one_mul] at hlt
  rw [Page.Covers, Page.limit, hheld.shows.base, hheld.shows.size, h.same.pageSize]
  exact ⟨hle, hlt⟩

/-- The file of a page that was handed out is there. -/
theorem Held.hasPage {page : PageId} {index : Nat} (h : Touches touched written s t)
    (hheld : Held page index t) : t.host.disk.HasPage s.memory.directory index :=
  ⟨_, h.same.directory ▸ hheld.shows.node⟩

/-- What is read of a page is a range of the contents. -/
theorem readPage_ensures {page : PageId} {index start length : Nat}
    (h : Touches touched Nowhere s t) (hheld : Held page index t)
    (hle : index * s.memory.pageSize ≤ start)
    (hlt : start + length ≤ (index + 1) * s.memory.pageSize) :
    (readPage page start length).Ensures t fun bytes u =>
      u = t ∧ bytes = (contents s).read start length := by
  have hcovers := hheld.covers h hle hlt
  unfold readPage Ensures
  simp only [leads_bind, leads_memory, leads_disk, leads_pure, hcovers, hheld.shows.isOpen,
    not_true_eq_false, Bool.not_true, Bool.false_eq_true, if_false]
  rw [← h.same.pageSize] at hle hlt
  refine ⟨trivial, (hheld.shows.window h.sound hle hlt).trans ?_⟩
  rw [← h.contents_eq, contents]

/-- How the disk may stand while a range is written in one change: before it or after it. -/
def WritesAtOnce (touched : Nat → Prop) (start : Nat) (bytes : List UInt8) (s : Session PageStore)
    (d : Disk) : Prop :=
  Confined s.memory.directory s.memory.pageSize touched (InRange start bytes.length) s.host.disk d
    ∧ (d.space s.memory.directory s.memory.pageSize = contents s
      ∨ d.space s.memory.directory s.memory.pageSize = (contents s).write start bytes)

/-- What is written to a page replaces a range of the contents, in one change. -/
theorem writePage_ensures {page : PageId} {index start : Nat} {bytes : List UInt8}
    (h : Touches touched Nowhere s t) (hheld : Held page index t)
    (hle : index * s.memory.pageSize ≤ start)
    (hlt : start + bytes.length ≤ (index + 1) * s.memory.pageSize) :
    (writePage page start bytes).Ensures t fun _ u =>
      Access (WritesAtOnce touched start bytes s) s u
        ∧ contents u = (contents s).write start bytes
        ∧ u.host.disk.HasPage s.memory.directory index := by
  have hcovers := hheld.covers h hle hlt
  have hopened : Access (WritesAtOnce touched start bytes s) s t :=
    h.mono fun d hd =>
      ⟨hd.mono (fun _ => id) fun _ => False.elim, .inl (funext fun o => hd.space_eq o id)⟩
  unfold writePage Ensures
  simp only [leads_bind, leads_memory, leads_ite, leads_perform, leads_update, hcovers,
    hheld.shows.isOpen, not_true_eq_false, Bool.not_true, Bool.false_eq_true, if_false]
  split
  next hbytes =>
    rw [← h.same.pageSize] at hle hlt
    have hspace := Disk.space_copy h.sound hheld.shows.node hheld.shows.sizeOf_le hle hlt t.host.now
    have hconfined : Confined t.memory.directory t.memory.pageSize touched
        (InRange start bytes.length) t.host.disk _ :=
      Disk.confined_copy h.sound hheld.shows.node hheld.shows.sizeOf_le hle hlt
        (fun _ => id) t.host.now
    have hcontents : t.host.disk.space t.memory.directory t.memory.pageSize = contents s :=
      h.contents_eq
    rw [hcontents, h.same.pageSize, h.same.directory] at hspace
    rw [h.same.pageSize, h.same.directory] at hconfined
    rw [hheld.shows.base, h.same.pageSize]
    -- the copy is one change: before it the space is the old one, after it the new one
    have hwritten := hopened.last.1.trans hconfined
    have hcopied : Access (WritesAtOnce touched start bytes s) s
        ⟨t.host.perform (.copy (t.memory.page page).file (start - index * s.memory.pageSize) bytes),
          t.memory⟩ :=
      ⟨h.same, hwritten.sound, h.coherent.confined hconfined,
       hopened.trail.change _ ⟨hwritten, .inr hspace⟩⟩
    refine ⟨hcopied.updatePage page fun p => p.mapping_written start bytes, ?_, hheld.hasPage h⟩
    have hsame := (hcopied.updatePage page fun p => p.mapping_written start bytes).same
    rw [contents, hsame.directory, hsame.pageSize]
    exact hspace
  next hbytes =>
    obtain rfl : bytes = [] := Decidable.not_not.mp hbytes
    rw [ByteSpace.write_nil]
    exact ⟨hopened.updatePage _ fun p => p.mapping_written start [], h.contents_eq, hheld.hasPage h⟩

/-! ## The two accesses -/

theorem inOnePage_within {pageSize start length : Nat} (h : InOnePage pageSize start length) :
    start / pageSize * pageSize ≤ start ∧ start + length ≤ (start / pageSize + 1) * pageSize := by
  have hdiv := Nat.div_add_mod start pageSize
  rw [Nat.mul_comm] at hdiv
  rw [Nat.add_mul, Nat.one_mul]
  unfold InOnePage at h
  omega

/-- A range inside one page is read, and nothing is written. -/
theorem readAt_leads {start length : Nat} (hready : Ready s) (hstart : touched start)
    (hone : InOnePage s.memory.pageSize start length) :
    (withPage (start / s.memory.pageSize) fun page => readPage page start length).Leads s
      (fun bytes u => Touches touched Nowhere s u ∧ bytes = (contents s).read start length
        ∧ u.host.disk.HasPage s.memory.directory (start / s.memory.pageSize))
      fun fault u => Touches touched Nowhere s u ∧ Unmappable touched s fault := by
  obtain ⟨hle, hlt⟩ := inOnePage_within hone
  refine withPage_leads (fun bytes d => bytes = (contents s).read start length
    ∧ d.HasPage s.memory.directory (start / s.memory.pageSize)) hready hstart
      fun page t ht hheld => ?_
  refine (readPage_ensures ht hheld hle hlt).mono fun bytes u hu => ?_
  obtain ⟨rfl, rfl⟩ := hu
  exact ⟨ht, rfl, hheld.hasPage ht⟩

/-- A range inside one page is written, in one change. -/
theorem writeAt_leads {start : Nat} {bytes : List UInt8} (hready : Ready s) (hstart : touched start)
    (hone : InOnePage s.memory.pageSize start bytes.length) :
    (withPage (start / s.memory.pageSize) fun page => writePage page start bytes).Leads s
      (fun _ u => Access (WritesAtOnce touched start bytes s) s u
        ∧ contents u = (contents s).write start bytes
        ∧ u.host.disk.HasPage s.memory.directory (start / s.memory.pageSize))
      fun fault u => Touches touched Nowhere s u ∧ Unmappable touched s fault := by
  obtain ⟨hle, hlt⟩ := inOnePage_within hone
  refine Leads.mono (withPage_leads (P := WritesAtOnce touched start bytes s) (fun _ d =>
    d.space s.memory.directory s.memory.pageSize = (contents s).write start bytes
      ∧ d.HasPage s.memory.directory (start / s.memory.pageSize)) hready hstart ?_) ?_ fun _ _ => id
  · intro page t ht hheld
    refine (writePage_ensures ht hheld hle hlt).mono ?_
    intro _ u hu
    obtain ⟨hu, hcontents, hpage⟩ := hu
    refine ⟨hu, ?_, hpage⟩
    rw [← hu.same.directory, ← hu.same.pageSize]
    exact hcontents
  · intro _ u hu
    obtain ⟨hu, hspace, hpage⟩ := hu
    refine ⟨hu, ?_, hpage⟩
    rw [contents, hu.same.directory, hu.same.pageSize]
    exact hspace

end PagedQueue.PageStore
