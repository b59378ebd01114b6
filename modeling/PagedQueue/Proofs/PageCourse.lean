import PagedQueue.Proofs.ClosedPages
import PagedQueue.Proofs.PageStages

/-!
# The course of an access

An access takes each page it comes to, moves bytes there, and gives the page back. Besides what is
done with the bytes, only a few things happen to the store on the way: a page gets one user more or
one less, a stamp moves, a page that was just mapped enters the cache, idle pages are let go, a
ticket is taken or withdrawn.

A property that may speak of the page in hand and of the number whose ticket is out is a `Course` if
it goes on through each of these. Then it holds again after every access, whatever came of it: at
the first page or after some, with the bytes moved, a page refused, or a closed page met
(`Course.keeps_access`).
-/

namespace PagedQueue

open Procedure

/-- A page that was just mapped: it is open, has no users, and nothing was written to it. -/
structure Page.Fresh (p : Page) : Prop where
  references : p.references = 0
  isOpen : p.isOpen = true
  dirty : p.dirty = false
  unforced : p.unforced = []

namespace PageStore

/-- A property of a store, of the number whose ticket is out, and of the page in hand, which goes on
through every step of an access. -/
structure Course (state : Option Nat → Option PageId → PageStore → Prop) : Prop where
  /-- A page in the cache that was not collected gets a user. -/
  take : ∀ {out : Option Nat} {t : PageStore} {index : Nat} {id : PageId}, state out none t →
    t.cached[index]? = some id → 0 ≤ (t.page id).references →
    state out (some id) (t.updatePage id Page.retain)
  /-- A page enters the cache with one user, where there was none or one that was collected. -/
  grown : ∀ {out : Option Nat} {t : PageStore} {index : Nat} {page : Page}, state out none t →
    (∀ id, t.cached[index]? = some id → (t.page id).references < 0) → page.Fresh →
    state out (some t.pages.size) (t.grown index page.retain)
  giveBack : ∀ {out : Option Nat} {t : PageStore} {id : PageId}, state out (some id) t →
    state out none (t.updatePage id Page.release)
  touch : ∀ {out : Option Nat} {held : Option PageId} {t : PageStore} (id : PageId) (time : Int),
    state out held t → state out held (t.updatePage id (·.touch time))
  letGo : ∀ {out : Option Nat} {held : Option PageId} {t : PageStore}
    {expired : List (Nat × PageId)},
    state out held t → t.Expired expired → state out held (t.letGo expired)
  /-- The ticket for a number is out already. -/
  shareTicket : ∀ {held : Option PageId} {t : PageStore} (index : Nat), state none held t →
    state (some index) held t
  takeTicket : ∀ {held : Option PageId} {t : PageStore} (index : Nat), state none held t →
    state (some index) held
    { t with creating := t.creating.insert index t.tickets, tickets := t.tickets + 1 }
  withdrawTicket : ∀ {held : Option PageId} {t : PageStore} {index : Nat},
    state (some index) held t →
    state none held { t with creating := t.creating.erase index }

namespace Course

variable {state : Option Nat → Option PageId → PageStore → Prop} {out : Option Nat}
    {held : Option PageId}
  {index : Nat} {id : PageId} {v : Session PageStore}

/-! ## Steps -/

/-- A page that is found is held on the course. -/
theorem lookup_leads (h : Course state) (hv : state out none v.memory) (index : Nat) :
    (lookup index).Ensures v fun found w => state out found w.memory := by
  unfold lookup Ensures
  simp only [leads_bind, leads_memory]
  split
  next id hid =>
    obtain ⟨hcached, hlive⟩ := Option.filter_eq_some_iff.mp hid
    have htaken := h.touch id v.host.now (h.take hv hcached (of_decide_eq_true hlive))
    rw [updatePage_updatePage] at htaken
    simp only [leads_bind, leads_look, leads_update, leads_pure]
    exact htaken
  next => exact hv

/-- A sweep keeps to the course. -/
theorem sweep_leads (h : Course state) (hv : state out held v.memory) :
    sweep.Ensures v fun _ w => state out held w.memory := by
  refine (sweep_letGo v).mono fun _ w hw => ?_
  obtain ⟨expired, hexpired, rfl⟩ := hw
  exact h.letGo hv hexpired

/-- A page is mapped, and it is fresh, or it is refused. -/
theorem map_leads (hv : state out held v.memory) (index : Nat) :
    (map index).Leads v (fun page w => state out held w.memory ∧ page.Fresh)
      fun _ w => state out held w.memory := by
  unfold map
  simp only [leads_bind, leads_memory]
  refine (keeps_obtainFile (state out held) _ v hv).mono (fun file w hw => ?_) fun _ _ => id
  rw [leads_disk, leads_ite]
  split <;> exact ⟨hw, rfl, rfl, rfl, rfl⟩

/-- A fresh page that is entered is held on the course. -/
theorem insert_leads (h : Course state) (hv : state out none v.memory) {page : Page}
    (hpage : page.Fresh) :
    (insert index page).Ensures v fun id w => state out (some id) w.memory := by
  unfold insert Ensures
  simp only [leads_bind, leads_memory]
  split
  next id hid =>
    obtain ⟨hcached, hlive⟩ := Option.filter_eq_some_iff.mp hid
    have htaken := h.take hv hcached (of_decide_eq_true hlive)
    simp only [leads_bind, leads_update, leads_discard, leads_pure]
    exact (h.sweep_leads (v := ⟨v.host, _⟩) htaken).leads
  next hnone =>
    have hcollected (id : PageId) (hid : v.memory.cached[index]? = some id) :
        (v.memory.page id).references < 0 := by
      have hdead := Option.filter_eq_none_iff.mp hnone id hid
      simpa [Page.isLive] using hdead
    simp only [leads_bind, leads_update, leads_discard, leads_pure]
    exact (h.sweep_leads (v := ⟨v.host, v.memory.grown index page.retain⟩)
      (h.grown hv hcollected hpage)).leads

/-- So is a page that is created, unless its file is refused. -/
theorem createPage_leads (h : Course state) (hv : state out none v.memory) (index : Nat) :
    (createPage index).Leads v (fun id w => state out (some id) w.memory) fun _ w =>
      state out none w.memory := by
  unfold createPage
  rw [leads_bind]
  refine (h.lookup_leads hv index).leads.mono (fun found w hw => ?_) fun _ _ => False.elim
  cases found with
  | some id => exact hw
  | none =>
    rw [leads_bind]
    exact (map_leads hw index).mono (fun page x hx => (h.insert_leads hx.1 hx.2).leads)
      fun _ _ => id

/-- The ticket of a page is out from then on. -/
theorem takeTicket_leads (h : Course state) (hv : state none held v.memory) (index : Nat) :
    (PageStore.takeTicket index).Ensures v fun _ w => state (some index) held w.memory := by
  unfold PageStore.takeTicket Ensures
  simp only [leads_bind, leads_memory]
  split
  · exact h.shareTicket index hv
  · exact h.takeTicket index hv

/-- A page is in hand, or it is refused and none is. -/
theorem acquire_leads (h : Course state) (hv : state none none v.memory) (index : Nat) :
    (acquire index).Leads v (fun id w => state none (some id) w.memory) fun _ w =>
      state none none w.memory := by
  unfold acquire
  rw [leads_bind]
  refine (h.lookup_leads hv index).leads.mono (fun found w hw => ?_) fun _ _ => False.elim
  cases found with
  | some id => exact hw
  | none =>
    simp only [leads_bind, leads_discard]
    refine (h.takeTicket_leads hw index).leads.mono (fun _ x hx => ?_) fun _ _ => False.elim
    rw [leads_tryFinally]
    exact (h.createPage_leads hx index).mono (fun id y hy => h.withdrawTicket hy)
      fun _ y hy => h.withdrawTicket hy

/-- A page that is given back is held no more. -/
theorem giveBack_leads (h : Course state) (hv : state out (some id) v.memory) :
    (PageStore.giveBack id).Ensures v fun _ w => state out none w.memory := by
  unfold PageStore.giveBack Ensures
  simp only [leads_bind, leads_update, leads_look]
  exact h.touch id _ (h.giveBack hv)

/-- However a page is used, it is given back. -/
theorem keeps_withPage (h : Course state) {α : Type} {use : PageId → Procedure PageStore α}
    (huse : ∀ id, Keeps (state none (some id)) (use id)) (index : Nat) :
    Keeps (state none none) (withPage index use) := by
  intro v hv
  unfold withPage
  rw [leads_bind]
  refine (h.acquire_leads hv index).mono (fun id w hw => ?_) fun _ _ => id
  rw [leads_tryFinally]
  exact (huse id w hw).mono (fun _ x hx => (h.giveBack_leads hx).leads) fun _ x hx =>
    (h.giveBack_leads hx).leads

theorem keeps_readAt (h : Course state) (index start length : Nat) :
    Keeps (state none none) (withPage index fun id => readPage id start length) :=
  h.keeps_withPage (fun id => keeps_readPage id start length) index

/-- What goes on through a write besides: bytes are written to the page in hand if it is open. -/
def Writes (state : Option Nat → Option PageId → PageStore → Prop) : Prop :=
  ∀ {id : PageId} {start : Nat} {bytes : List UInt8} (t : PageStore), state none (some id) t →
    (t.page id).isOpen = true → state none (some id) (t.updatePage id (·.written start bytes))

theorem keeps_writeAt (h : Course state) (hwrites : Writes state) (index start : Nat)
    (bytes : List UInt8) :
    Keeps (state none none) (withPage index fun id => writePage id start bytes) :=
  h.keeps_withPage (fun _ => keeps_writePage_of hwrites) index

/-! ## Accesses to a file -/

/-- The property of the store of a file between two accesses. -/
def OfFile (state : Option Nat → Option PageId → PageStore → Prop) (file : PagedFile) : Prop :=
  state none none file.store

open PagedFile (writePieces readPieces writeBytes readBytes writeWord readWord keeps_onStore_of)

theorem keeps_readPieces (h : Course state) (pieces : List Piece) :
    Keeps (state none none) (readPieces pieces) := by
  induction pieces with
  | nil => exact keeps_pure _
  | cons piece rest ih => exact (h.keeps_readAt _ _ _).bind fun _ => ih.bind fun _ => keeps_pure _

/-- A read comes back to where nothing is out or held. -/
theorem keeps_readBytes (h : Course state) (start length : Nat) :
    Keeps (OfFile state) (readBytes start length) :=
  keeps_memory.bind fun _ => keeps_onStore_of (h.keeps_readPieces _)

theorem keeps_readWord (h : Course state) (start length : Nat) :
    Keeps (OfFile state) (readWord start length) :=
  keeps_memory.bind fun _ => .ite (keeps_onStore_of (h.keeps_readAt _ _ _)) (h.keeps_readBytes _ _)

theorem keeps_writePieces (h : Course state) (hwrites : Writes state) (pieces : List Piece)
    (bytes : List UInt8) :
    Keeps (state none none) (writePieces pieces bytes) := by
  induction pieces generalizing bytes with
  | nil => exact keeps_pure _
  | cons piece rest ih => exact (h.keeps_writeAt hwrites _ _ _).bind fun _ => ih _

/-- So does a write, where the course allows for writes. -/
theorem keeps_writeBytes (h : Course state) (hwrites : Writes state) (start : Nat)
    (bytes : List UInt8) :
    Keeps (OfFile state) (writeBytes start bytes) :=
  keeps_memory.bind fun _ => (keeps_onStore_of (h.keeps_writePieces hwrites _ _)).bind fun _ =>
    keeps_update fun _ h => h

theorem keeps_writeWord (h : Course state) (hwrites : Writes state) (start : Nat)
    (bytes : List UInt8) :
    Keeps (OfFile state) (writeWord start bytes) :=
  keeps_memory.bind fun _ => .ite ((keeps_onStore_of (h.keeps_writeAt hwrites _ _ _)).bind fun _ =>
    keeps_update fun _ h => h) (h.keeps_writeBytes hwrites _ _)

/-- Bytes or a word are put or got. -/
theorem keeps_access (h : Course state) (hwrites : Writes state) {c : FileCall} (hc : c.IsAccess) :
    Keeps (OfFile state) c.run := by
  cases c with
  | putBytes start bytes => exact (h.keeps_writeBytes hwrites _ _).bind fun _ => keeps_pure _
  | putInt32 start value => exact (h.keeps_writeWord hwrites _ _).bind fun _ => keeps_pure _
  | putInt64 start value => exact (h.keeps_writeWord hwrites _ _).bind fun _ => keeps_pure _
  | getBytes start length => exact (h.keeps_readBytes _ _).bind fun _ => keeps_pure _
  | getInt32 start =>
    exact ((h.keeps_readWord _ _).bind fun _ => keeps_pure _).bind fun _ => keeps_pure _
  | getInt64 start =>
    exact ((h.keeps_readWord _ _).bind fun _ => keeps_pure _).bind fun _ => keeps_pure _
  | _ => exact hc.elim

end Course

end PageStore

end PagedQueue
