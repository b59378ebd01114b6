import PagedQueue.Proofs.PageCache
import PagedQueue.Proofs.PageSections

/-!
# Leases of pages

A page that has users stands for its number and is open, whatever other clients do
(`leased_pages_stay`). The count of a page is the number of its leases (`Kept.counted`), and only a
page without any is collected. A page that was collected is in the cache only as long as the client
that sweeps it writes the cache (`Kept.cached`), so that nobody finds it there.
-/

namespace PagedQueue

open Procedure
open PageStore (usersOf)

namespace PageStage

/-! ## What clients rely on -/

/-- The pages that a client has found in the cache. -/
def seen : PageStage → List (Nat × PageId)
  | .readCount place id | .raiseCount place id _ => [(place.index, id)]
  | .examine _ _ rest _ => rest
  | .collect _ _ index id rest _ => (index, id) :: rest
  | _ => []

/-- The pages that a client has collected and not yet taken out of the cache. -/
def gone : PageStage → List (Nat × PageId)
  | .examine _ _ _ gone | .collect _ _ _ _ _ gone | .leaveSweep _ gone => gone
  | _ => []

/-- The pages that a client is about to close. -/
def closing : PageStage → List PageId
  | .closePages _ ids _ => ids
  | _ => []

/-- The page that a client gets in the call it is in, or got in the last one. -/
def held? : PageStage → Option (Nat × PageId)
  | .touchFound index _ id | .leaveLook index _ (some id) | .leaveInsert index _ id
  | .startSweep (.lease index _ id) | .openSweep (.lease index _ id) _
    | .examine (.lease index _ id) _ _ _
  | .collect (.lease index _ id) _ _ _ _ _ | .leaveSweep (.lease index _ id) _
  | .closePages (.lease index _ id) _ _ | .leaveTurn index _ (.ok id)
    | .withdrawTicket index (.ok id)
  | .ended (.ok (.page index id)) => some (index, id)
  | _ => none

/-- What a client gives back in the call it is in. -/
def pays? : PageStage → Option PageCall
  | .findLeased index => some (.release index)
  | .lowerCount _ id => some (.giveBack id)
  | _ => none

/-- The page that a client has mapped. -/
def mapped? : PageStage → Option (Nat × Page)
  | .openInsert index _ page | .putPage index _ page | .readCount (.insert index _ page) _
  | .raiseCount (.insert index _ page) _ _ => some (index, page)
  | _ => none

/-- The number for which a client puts a page into the cache. -/
def vacant? : PageStage → Option Nat
  | .putPage index _ _ => some index
  | _ => none

/-- The count that a client has read. -/
def count? : PageStage → Option Int
  | .raiseCount _ _ count => some count
  | _ => none

theorem section?_of_seen {k : PageStage} {p : Nat × PageId} (h : p ∈ k.seen) :
    k.section? ≠ none := by
  cases k with
  | readCount place | raiseCount place => cases place <;> simp [section?]
  | examine | collect => simp [section?]
  | _ => simp [seen] at h

theorem section?_of_gone {k : PageStage} {p : Nat × PageId} (h : p ∈ k.gone) :
    k.section? = some .writing := by
  cases k with
  | examine | collect | leaveSweep => rfl
  | _ => simp [gone] at h

theorem section?_of_vacant? {k : PageStage} {index : Nat} (h : k.vacant? = some index) :
    k.section? = some .writing := by
  cases k with
  | putPage => rfl
  | _ => cases h

end PageStage

/-- A page was collected and does not come back. -/
def PageStore.Collected (s : PageStore) (id : PageId) : Prop :=
  id < s.pages.size ∧ (s.page id).references = -1

/-- What a client relies on at a stage. Of most of it a stage has nothing. -/
structure PageStage.Fits (leases : List PageLease) (client : Nat) (s : PageStore) (k : PageStage) :
    Prop where
  seen : ∀ {index id}, (index, id) ∈ k.seen → s.cached[index]? = some id := by
    intros; rename_i h; cases h
  gone : ∀ {index id}, (index, id) ∈ k.gone → s.cached[index]? = some id ∧ s.Collected id := by
    intros; rename_i h; cases h
  closing : ∀ {id}, id ∈ k.closing → s.Collected id
    ∧ ∀ index : Nat, s.cached[index]? ≠ some id := by
    intros; rename_i h; cases h
  held : ∀ {index id}, k.held? = some (index, id) → ⟨client, index, id⟩ ∈ leases := by
    intros; rename_i h; cases h
  pays : ∀ {call}, k.pays? = some call → call.Allowed leases client := by
    intros; rename_i h; cases h
  mapped : ∀ {index page}, k.mapped? = some (index, page) →
    page.index = index ∧ page.isOpen = true ∧ page.references = 0 := by
    intros; rename_i h; cases h
  vacant : ∀ {index}, k.vacant? = some index → s.cached[index]? = none := by
    intros; rename_i h; cases h
  count : ∀ {count}, k.count? = some count → 0 ≤ count := by
    intros; rename_i h; cases h

/-- What a step leaves of what other clients rely on. -/
structure PageStore.Spares (client : Nat) (leases leases' : List PageLease) (s t : PageStore) :
    Prop where
  leases : ∀ {lease}, lease.client ≠ client → lease ∈ leases → lease ∈ leases'
  collected : ∀ {id}, s.Collected id → t.Collected id
  uncached : ∀ {id}, id < s.pages.size → (∀ index : Nat, s.cached[index]? ≠ some id) →
    ∀ index : Nat, t.cached[index]? ≠ some id

namespace PageStage

variable {k : PageStage} {leases leases' : List PageLease} {client other : Nat} {s t : PageStore}

/-- A call that was allowed stays so while only other clients take and give. -/
theorem allowed_spared {call : PageCall} (h : call.Allowed leases other) (hne : other ≠ client)
    (hleases : ∀ {lease : PageLease}, lease.client ≠ client → lease ∈ leases → lease ∈ leases') :
    call.Allowed leases' other := by
  cases call with
  | giveBack | release =>
    obtain ⟨lease, hmem, rfl, hlease⟩ := h
    exact ⟨lease, hleases hne hmem, rfl, hlease⟩
  | _ => trivial

/-- A client goes on as before when another does what spares it. -/
theorem Fits.spared (h : k.Fits leases other s) (hne : other ≠ client)
    (hspares : s.Spares client leases leases' t)
    (hcached : k.section? ≠ none → t.cached = s.cached) :
    k.Fits leases' other t where
  seen hseen := by
    rw [hcached (section?_of_seen hseen)]
    exact h.seen hseen
  gone hgone := by
    rw [hcached (by rw [section?_of_gone hgone]; simp)]
    exact (h.gone hgone).imp_right hspares.collected
  closing hclosing := by
    obtain ⟨hcollected, huncached⟩ := h.closing hclosing
    exact ⟨hspares.collected hcollected, hspares.uncached hcollected.1 huncached⟩
  held hheld := hspares.leases hne (h.held hheld)
  pays hpays := allowed_spared (h.pays hpays) hne hspares.leases
  mapped := h.mapped
  vacant hvacant := by
    rw [hcached (by rw [section?_of_vacant? hvacant]; simp)]
    exact h.vacant hvacant
  count := h.count

end PageStage

/-! ## What a step keeps -/

/-- What counts for a lease of a page. -/
def Page.life (p : Page) : Nat × Bool × Int := (p.index, p.isOpen, p.references)

/-- Leases do not tell the stores apart. -/
structure PageStore.Alike (s t : PageStore) : Prop where
  size : t.pages.size = s.pages.size
  cached : t.cached = s.cached
  life : ∀ id, (t.page id).life = (s.page id).life

/-- The pages of a store are as its leases and the stages of its clients say. -/
structure Kept (leases : List PageLease) (s : PageStore) (stage : Nat → PageStage) : Prop where
  cached : ∀ {index id}, s.cached[index]? = some id → id < s.pages.size ∧ (s.page id).index = index
    ∧ (s.page id).isOpen = true
      ∧ ((s.page id).references = -1 → ∃ client, (index, id) ∈ (stage client).gone)
  counted : ∀ id, (s.page id).references = usersOf leases id
    ∨ (s.page id).references = -1 ∧ usersOf leases id = 0
  leased : ∀ {lease}, lease ∈ leases → s.cached[lease.index]? = some lease.id
  fits : ∀ client, (stage client).Fits leases client s

/-- While a client writes the cache, no other one is in a section. -/
def Exclusive (stage : Nat → PageStage) : Prop :=
  ∀ {client other}, (stage client).section? = some .writing → (stage other).section? ≠ none →
  other = client

namespace PageStore

variable {s t u : PageStore} {id other : PageId} {f : Page → Page}

namespace Alike

theorem refl (s : PageStore) : Alike s s := ⟨rfl, rfl, fun _ => rfl⟩

theorem index (h : Alike s t) (id : PageId) : (t.page id).index = (s.page id).index :=
  congrArg Prod.fst (h.life id)

theorem isOpen (h : Alike s t) (id : PageId) : (t.page id).isOpen = (s.page id).isOpen :=
  congrArg (·.2.1) (h.life id)

theorem references (h : Alike s t) (id : PageId) :
    (t.page id).references = (s.page id).references :=
  congrArg (·.2.2) (h.life id)

/-- A page stays collected. -/
theorem collected (h : Alike s t) (hs : s.Collected id) : t.Collected id :=
  ⟨h.size ▸ hs.1, (h.references id).trans hs.2⟩

/-- What changes nothing of the pages spares every client. -/
theorem spares (h : Alike s t) (client : Nat) (leases : List PageLease) :
    s.Spares client leases leases t where
  leases _ hmem := hmem
  collected := h.collected
  uncached _ hnone := by rwa [h.cached]

end Alike

/-- The entries of the pages that go are gone from the cache, and no others. -/
theorem getElem?_foldl_erase (cached : Std.TreeMap Nat PageId) (gone : List (Nat × PageId))
    (index : Nat) :
    (gone.foldl (fun cached entry => cached.erase entry.1) cached)[index]?
      = if index ∈ gone.map Prod.fst then none else cached[index]? := by
  induction gone generalizing cached with
  | nil => simp
  | cons first rest ih =>
    rw [List.foldl_cons, ih, Std.TreeMap.getElem?_erase, List.map_cons]
    simp only [List.mem_cons, Nat.compare_eq_eq, eq_comm (a := index)]
    by_cases hrest : index ∈ rest.map Prod.fst <;> simp [hrest]

theorem lt_size_of_references (h : (s.page id).references ≠ -1) : id < s.pages.size := by
  by_contra hle
  refine h ?_
  rw [page, Array.getD_eq_getD_getElem?, Array.getElem?_eq_none (Nat.le_of_not_lt hle)]
  rfl

/-- A change of a page that does not count for leases. -/
theorem alike_updatePage (s : PageStore) (id : PageId) (hf : ∀ p, (f p).life = p.life) :
    Alike s (s.updatePage id f) where
  size := size_updatePage ..
  cached := rfl
  life other := updatePage_leaves Page.life hf s id other

end PageStore

namespace Kept

variable {leases leases' : List PageLease} {s t : PageStore} {stage : Nat → PageStage}
    {client : Nat}
  {k : PageStage} {lease : PageLease} {index : Nat} {id : PageId}

/-- A page with a lease has a user. -/
theorem references_pos (h : Kept leases s stage) (hlease : lease ∈ leases) :
    0 < (s.page lease.id).references := by
  have hpos : 0 < usersOf leases lease.id := List.countP_pos_iff.mpr ⟨lease, hlease, by simp⟩
  have hcount := h.counted lease.id
  omega

/-- What a client finds in the cache was not collected. -/
theorem nonneg (h : Kept leases s stage) (halone : Exclusive stage)
    (hsection : (stage client).section? ≠ none)
    (hgone : (stage client).gone = []) (hid : s.cached[index]? = some id) :
    0 ≤ (s.page id).references := by
  rcases h.counted id with hcount | ⟨hcollected, -⟩
  · omega
  · obtain ⟨-, -, -, hsweep⟩ := h.cached hid
    obtain ⟨other, hother⟩ := hsweep hcollected
    obtain rfl := halone (PageStage.section?_of_gone hother) hsection
    rw [hgone] at hother
    exact absurd hother List.not_mem_nil

/-- A step of a client keeps everything. -/
theorem goOn (h : Kept leases s stage) (halone : Exclusive stage)
    (hspares : s.Spares client leases leases' t)
    (hcached : (stage client).section? ≠ some .writing → t.cached = s.cached)
    (hpage : ∀ {index id}, t.cached[index]? = some id → id < t.pages.size
      ∧ (t.page id).index = index
      ∧ (t.page id).isOpen = true ∧ ((t.page id).references = -1 →
        (∃ other, other ≠ client ∧ (index, id) ∈ (stage other).gone) ∨ (index, id) ∈ k.gone))
    (hcounted : ∀ id, (t.page id).references = usersOf leases' id
      ∨ (t.page id).references = -1 ∧ usersOf leases' id = 0)
    (hleased : ∀ {lease}, lease ∈ leases' → t.cached[lease.index]? = some lease.id)
    (hmine : k.Fits leases' client t) : Kept leases' t (Function.update stage client k) where
  cached hid := by
    obtain ⟨hlt, hindex, hopen, hsweep⟩ := hpage hid
    refine ⟨hlt, hindex, hopen, fun hcollected => ?_⟩
    rcases hsweep hcollected with ⟨other, hne, hgone⟩ | hgone
    · exact ⟨other, by rwa [Function.update_of_ne hne]⟩
    · exact ⟨client, by rwa [Function.update_self]⟩
  counted := hcounted
  leased := hleased
  fits other := by
    by_cases hne : other = client
    · rw [hne, Function.update_self]
      exact hmine
    · rw [Function.update_of_ne hne]
      refine (h.fits other).spared hne hspares fun hsection => hcached fun hwriting => ?_
      exact hne (halone hwriting hsection)

/-- A step that does not count for leases keeps everything. -/
theorem still (h : Kept leases s stage) (halone : Exclusive stage) (ha : s.Alike t)
    (hgone : ∀ p ∈ (stage client).gone, p ∈ k.gone) (hmine : k.Fits leases client t) :
    Kept leases t (Function.update stage client k) := by
  refine h.goOn halone (ha.spares client leases) (fun _ => ha.cached) ?_ ?_ ?_ hmine
  · intro index id hid
    rw [ha.cached] at hid
    obtain ⟨hlt, hindex, hopen, hsweep⟩ := h.cached hid
    refine ⟨ha.size.symm ▸ hlt, (ha.index id).trans hindex, (ha.isOpen id).trans hopen,
      fun hcollected => ?_⟩
    obtain ⟨other, hother⟩ := hsweep ((ha.references id).symm.trans hcollected)
    by_cases hne : other = client
    · exact .inr (hgone _ (hne ▸ hother))
    · exact .inl ⟨other, hne, hother⟩
  · intro id
    rw [ha.references]
    exact h.counted id
  · intro lease hlease
    rw [ha.cached]
    exact h.leased hlease

/-- A step that changes the count of a page keeps everything, if the leases of the page change with
it. -/
theorem recount (h : Kept leases s stage) (halone : Exclusive stage) {f : Page → Page}
    (hlife : ∀ p, (f p).index = p.index ∧ (f p).isOpen = p.isOpen)
    (hlive : (s.page id).references ≠ -1)
    (hleases : ∀ {lease}, lease.client ≠ client → lease ∈ leases → lease ∈ leases')
    (hothers : ∀ other, other ≠ id → usersOf leases' other = usersOf leases other)
    (hcount : (f (s.page id)).references = usersOf leases' id
      ∨ (f (s.page id)).references = -1 ∧ usersOf leases' id = 0)
    (hleased : ∀ {lease}, lease ∈ leases' → s.cached[lease.index]? = some lease.id)
    (hgone : ∀ p ∈ (stage client).gone, p ∈ k.gone)
    (hsweep : (f (s.page id)).references = -1 → ∀ index, s.cached[index]? = some id →
      (index, id) ∈ k.gone)
    (hmine : k.Fits leases' client (s.updatePage id f)) :
    Kept leases' (s.updatePage id f) (Function.update stage client k) := by
  have hself : (s.updatePage id f).page id = f (s.page id) :=
    PageStore.page_updatePage_self (PageStore.lt_size_of_references hlive) f
  have hother {other : PageId} (hne : other ≠ id) : (s.updatePage id f).page other = s.page other :=
    PageStore.page_updatePage_of_ne (Ne.symm hne) f
  refine h.goOn halone ⟨hleases, ?_, fun _ hnone => hnone⟩ (fun _ => rfl) ?_ ?_ hleased hmine
  · intro other hcollected
    have hne : other ≠ id := fun heq => hlive (heq ▸ hcollected.2)
    exact ⟨by simpa using hcollected.1, by rw [hother hne]; exact hcollected.2⟩
  · intro index other hid
    obtain ⟨hlt, hindex, hopen, hswept⟩ := h.cached hid
    rw [PageStore.size_updatePage]
    by_cases hne : other = id
    · subst hne
      rw [hself, (hlife _).1, (hlife _).2]
      exact ⟨hlt, hindex, hopen, fun hcollected => .inr (hsweep hcollected index hid)⟩
    · rw [hother hne]
      refine ⟨hlt, hindex, hopen, fun hcollected => ?_⟩
      obtain ⟨sweeper, hmem⟩ := hswept hcollected
      by_cases hclient : sweeper = client
      · exact .inr (hgone _ (hclient ▸ hmem))
      · exact .inl ⟨sweeper, hclient, hmem⟩
  · intro other
    by_cases hne : other = id
    · rw [hne, hself]
      exact hcount
    · rw [hother hne, hothers other hne]
      exact h.counted other

/-- A user is counted on a page whose count is the one that was read. -/
theorem raise (h : Kept leases s stage) (halone : Exclusive stage) {place : Counting}
    (hk : stage client = .raiseCount place id (s.page id).references) :
    Kept (⟨client, place.index, id⟩ :: leases) (s.updatePage id Page.retain)
      (Function.update stage client (place.found id)) := by
  have hfits := h.fits client
  rw [hk] at hfits
  have hid := hfits.seen List.mem_cons_self
  have hpos := hfits.count rfl
  have hcount := h.counted id
  refine h.recount halone (fun _ => ⟨rfl, rfl⟩) (by omega)
    (fun _ => List.mem_cons_of_mem _) ?_ ?_ ?_ ?_ ?_ ?_
  · intro other hne
    simp [usersOf, hne.symm]
  · left
    simp only [usersOf, Page.retain, List.countP_cons, decide_true, if_true] at hcount ⊢
    omega
  · intro lease hlease
    rcases List.mem_cons.mp hlease with rfl | hlease
    · exact hid
    · exact h.leased hlease
  · rw [hk]
    exact fun _ hmem => absurd hmem List.not_mem_nil
  · intro hcollected
    simp only [Page.retain] at hcollected
    omega
  · cases place with
    | look | insert =>
      exact { held := fun heq => by cases heq; exact List.mem_cons_self }

/-- A user is no longer counted on a page of which the client has a lease. -/
theorem lower (h : Kept leases s stage) (halone : Exclusive stage) {byNumber : Bool}
    (hk : stage client = .lowerCount byNumber id) :
    Kept (leases.eraseP fun lease => lease.client = client ∧ lease.id = id)
      (s.updatePage id Page.release) (Function.update stage client (.touchBack byNumber id)) := by
  have hfits := h.fits client
  rw [hk] at hfits
  obtain ⟨lease, hlease, hclient, rfl⟩ := hfits.pays rfl
  have hpos := h.references_pos hlease
  have hcount := h.counted lease.id
  obtain ⟨erased, before, after, -, herased, rfl, heq⟩ :=
    List.exists_of_eraseP (p := fun l => l.client = client ∧ l.id = lease.id) hlease
    (by simp [hclient])
  simp only [decide_eq_true_eq] at herased
  rw [heq]
  refine h.recount halone (fun _ => ⟨rfl, rfl⟩) (by omega) ?_ ?_ ?_ ?_ ?_ ?_ {}
  · intro other hne hmem
    rcases List.mem_append.mp hmem with hmem | hmem
    · exact List.mem_append_left _ hmem
    · refine List.mem_append_right _ ((List.mem_cons.mp hmem).resolve_left ?_)
      rintro rfl
      exact hne herased.1
  · intro other hne
    simp [usersOf, List.countP_append, herased.2, hne.symm]
  · left
    simp only [usersOf, List.countP_append, List.countP_cons, herased.2, decide_true, if_true,
      Page.release] at hcount ⊢
    omega
  · intro other hmem
    refine h.leased ?_
    rcases List.mem_append.mp hmem with hmem | hmem
    · exact List.mem_append_left _ hmem
    · exact List.mem_append_right _ (List.mem_cons_of_mem _ hmem)
  · rw [hk]
    exact fun _ hmem => absurd hmem List.not_mem_nil
  · intro hcollected
    simp only [Page.release] at hcollected
    omega

/-- An idle page is collected. -/
theorem collect (h : Kept leases s stage) (halone : Exclusive stage) {swept : Swept} {now : Int}
    {rest gone : List (Nat × PageId)} (hk : stage client = .collect swept now index id rest gone)
    (hidle : (s.page id).references = 0) :
    Kept leases (s.updatePage id Page.collect)
      (Function.update stage client (.examine swept now rest (gone ++ [(index, id)]))) := by
  have hfits := h.fits client
  rw [hk] at hfits
  have hid := hfits.seen List.mem_cons_self
  have hcount := h.counted id
  have hself : ((s.updatePage id Page.collect).page id).references = -1 := by
    rw [PageStore.page_updatePage_self (h.cached hid).1]
    rfl
  refine h.recount halone (fun _ => ⟨rfl, rfl⟩) (by omega) (fun _ hmem => hmem)
    (fun _ _ => rfl) ?_ h.leased ?_ ?_ ?_
  · right
    exact ⟨rfl, by omega⟩
  · rw [hk]
    exact fun _ => List.mem_append_left _
  · intro _ index' hid'
    obtain rfl : index' = index := (h.cached hid').2.1.symm.trans (h.cached hid).2.1
    exact List.mem_append_right _ (List.mem_singleton.mpr rfl)
  · exact {
      seen := fun hseen => hfits.seen (List.mem_cons_of_mem _ hseen)
      gone := fun {index' id'} hgone => by
        rcases List.mem_append.mp hgone with hgone | hgone
        · obtain ⟨hid', hlt, hcollected⟩ := hfits.gone hgone
          refine ⟨hid', by simpa using hlt, ?_⟩
          by_cases hne : id' = id
          · rw [hne, hself]
          · rw [PageStore.page_updatePage_of_ne (Ne.symm hne)]
            exact hcollected
        · cases List.mem_singleton.mp hgone
          exact ⟨hid, by simpa using (h.cached hid).1, hself⟩
      held := fun hheld => hfits.held (by cases swept <;> exact hheld) }

/-- The pages that were collected are taken out of the cache. -/
theorem uncache (h : Kept leases s stage) (halone : Exclusive stage) {swept : Swept}
    {gone : List (Nat × PageId)} {count : Nat} (hk : stage client = .leaveSweep swept gone) :
    Kept leases
      { s with cached := gone.foldl (fun cached entry => cached.erase entry.1) s.cached }
      (Function.update stage client (.closePages swept (gone.map Prod.snd) count)) := by
  have hfits := h.fits client
  rw [hk] at hfits
  have hcached := PageStore.getElem?_foldl_erase s.cached gone
  have hold {index : Nat} {id : PageId}
      (hid : (gone.foldl (fun cached entry => cached.erase entry.1) s.cached)[index]? = some id) :
      s.cached[index]? = some id ∧ ∀ other, (index, other) ∉ gone := by
    rw [hcached] at hid
    split at hid
    · cases hid
    next hnone => exact ⟨hid, fun other hmem => hnone (List.mem_map_of_mem hmem)⟩
  refine h.goOn halone ⟨fun _ hmem => hmem, fun hcollected => hcollected, ?_⟩ ?_ ?_ h.counted ?_ ?_
  · intro id _ hnone index hid
    exact hnone index (hold hid).1
  · intro hwriting
    rw [hk] at hwriting
    exact absurd rfl hwriting
  · intro index id hid
    obtain ⟨hid, hleft⟩ := hold hid
    obtain ⟨hlt, hindex, hopen, hswept⟩ := h.cached hid
    refine ⟨hlt, hindex, hopen, fun hcollected => .inl ?_⟩
    obtain ⟨sweeper, hmem⟩ := hswept hcollected
    refine ⟨sweeper, fun heq => ?_, hmem⟩
    rw [heq, hk] at hmem
    exact hleft id hmem
  · intro lease hlease
    show (gone.foldl (fun cached entry => cached.erase entry.1) s.cached)[lease.index]?
      = some lease.id
    rw [hcached, if_neg]
    · exact h.leased hlease
    · -- a page that was collected has no lease
      intro hand
      obtain ⟨⟨_, other⟩, hmem, rfl⟩ := List.mem_map.mp hand
      obtain ⟨hid, -, hcollected⟩ := hfits.gone hmem
      obtain rfl : other = lease.id := Option.some.inj (hid.symm.trans (h.leased hlease))
      have hpos := h.references_pos hlease
      omega
  · exact {
      closing := fun {id} hclosing => by
        obtain ⟨⟨index, _⟩, hmem, rfl⟩ := List.mem_map.mp hclosing
        obtain ⟨hid, hcollected⟩ := hfits.gone hmem
        refine ⟨hcollected, fun index' hid' => ?_⟩
        obtain ⟨hid', hleft⟩ := hold hid'
        obtain rfl : index' = index := (h.cached hid').2.1.symm.trans (h.cached hid).2.1
        exact hleft _ hmem
      held := fun hheld => hfits.held (by cases swept <;> exact hheld) }

/-- A page that was collected is closed. -/
theorem close (h : Kept leases s stage) (halone : Exclusive stage) {swept : Swept}
    {ids : List PageId} {count : Nat} (hk : stage client = .closePages swept (id :: ids) count) :
    Kept leases (s.updatePage id Page.close)
      (Function.update stage client (.closePages swept ids count)) := by
  have hfits := h.fits client
  rw [hk] at hfits
  have huncached := (hfits.closing List.mem_cons_self).2
  have hreferences (other : PageId) : ((s.updatePage id Page.close).page other).references
      = (s.page other).references := by
    refine PageStore.updatePage_leaves Page.references (fun p => ?_) s id other
    unfold Page.close Page.flush
    split <;> rfl
  have hcollected {other : PageId} (hother : s.Collected other) :
      (s.updatePage id Page.close).Collected other :=
    ⟨by simpa using hother.1, (hreferences other).trans hother.2⟩
  refine h.goOn halone ⟨fun _ hmem => hmem, hcollected, fun _ hnone => hnone⟩
    (fun _ => rfl) ?_ ?_ h.leased ?_
  · intro index other hid
    obtain ⟨hlt, hindex, hopen, hswept⟩ := h.cached hid
    have hne : id ≠ other := fun heq => huncached index (heq ▸ hid)
    rw [PageStore.size_updatePage, hreferences, PageStore.page_updatePage_of_ne hne]
    refine ⟨hlt, hindex, hopen, fun hcollected => .inl ?_⟩
    obtain ⟨sweeper, hmem⟩ := hswept hcollected
    refine ⟨sweeper, fun heq => ?_, hmem⟩
    rw [heq, hk] at hmem
    exact absurd hmem List.not_mem_nil
  · intro other
    rw [hreferences]
    exact h.counted other
  · exact {
      closing := fun hclosing => by
        obtain ⟨hother, hnone⟩ := hfits.closing (List.mem_cons_of_mem _ hclosing)
        exact ⟨hcollected hother, hnone⟩
      held := fun hheld => hfits.held (by cases swept <;> exact hheld) }

/-- A page that was mapped is put into the cache, with a user. -/
theorem put (h : Kept leases s stage) (halone : Exclusive stage) {ticket : Nat} {page : Page}
    (hk : stage client = .putPage index ticket page) :
    Kept (⟨client, index, s.pages.size⟩ :: leases)
      { s with pages := s.pages.push page.retain, cached := s.cached.insert index s.pages.size }
      (Function.update stage client (.leaveInsert index ticket s.pages.size)) := by
  have hfits := h.fits client
  rw [hk] at hfits
  obtain ⟨hindex, hopen, hreferences⟩ := hfits.mapped rfl
  have hvacant := hfits.vacant rfl
  set t : PageStore :=
    { s with
      pages := s.pages.push page.retain
      cached := s.cached.insert index s.pages.size } with ht
  have hnew : t.page s.pages.size = page.retain := by
    simp [t, PageStore.page, Array.getD_eq_getD_getElem?]
  have hold {id : PageId} (hne : id ≠ s.pages.size) : t.page id = s.page id := by
    simp only [t, PageStore.page, Array.getD_eq_getD_getElem?, Array.getElem?_push, if_neg hne]
  have hlt {id : PageId} (hid : id < s.pages.size) : id < t.pages.size := by
    simp only [t, Array.size_push]
    exact Nat.lt_succ_of_lt hid
  have hcached (other : Nat) : t.cached[other]? = if index = other then some s.pages.size
      else s.cached[other]? := by
    simp only [t, Std.TreeMap.getElem?_insert, Nat.compare_eq_eq]
  -- only pages of the store have leases
  have hnone : usersOf leases s.pages.size = 0 := by
    refine List.countP_eq_zero.mpr fun lease hlease heq => ?_
    have hlt := (h.cached (h.leased hlease)).1
    rw [of_decide_eq_true heq] at hlt
    exact Nat.lt_irrefl _ hlt
  refine h.goOn halone ⟨fun _ => List.mem_cons_of_mem _, ?_, ?_⟩ ?_ ?_ ?_ ?_ ?_
  · intro id hcollected
    exact ⟨hlt hcollected.1, by rw [hold (Nat.ne_of_lt hcollected.1)]; exact hcollected.2⟩
  · intro id hid hno other hsome
    rw [hcached] at hsome
    split at hsome
    · exact absurd (Option.some.inj hsome) (Nat.ne_of_gt hid)
    · exact hno other hsome
  · intro hwriting
    rw [hk] at hwriting
    exact absurd rfl hwriting
  · intro other id hid
    rw [hcached] at hid
    split at hid
    next heq =>
      cases hid
      subst heq
      rw [hnew]
      refine ⟨by simp [t], hindex, hopen, fun hcollected => ?_⟩
      simp only [Page.retain] at hcollected
      omega
    next =>
      obtain ⟨hid', hindex', hopen', hswept⟩ := h.cached hid
      rw [hold (Nat.ne_of_lt hid')]
      refine ⟨hlt hid', hindex', hopen', fun hcollected => .inl ?_⟩
      obtain ⟨sweeper, hmem⟩ := hswept hcollected
      refine ⟨sweeper, fun heq => ?_, hmem⟩
      rw [heq, hk] at hmem
      exact absurd hmem List.not_mem_nil
  · intro id
    by_cases hne : id = s.pages.size
    · left
      subst hne
      rw [hnew]
      simp only [usersOf, List.countP_cons, decide_true, if_true, Page.retain] at hnone ⊢
      omega
    · have hcount := h.counted id
      rw [hold hne]
      simpa [usersOf, List.countP_cons, Ne.symm hne] using hcount
  · intro lease hlease
    rw [hcached]
    rcases List.mem_cons.mp hlease with rfl | hlease
    · exact if_pos rfl
    · rw [if_neg]
      · exact h.leased hlease
      · intro heq
        rw [heq, h.leased hlease] at hvacant
        cases hvacant
  · exact { held := fun heq => by cases heq; exact List.mem_cons_self }

end Kept

/-! ## Steps -/

/-- Mapping a page changes nothing of the store. -/
theorem PageStore.map_mapped (index : Nat) (s : Session PageStore) :
    (map index).Leads s (fun page t => t.memory = s.memory ∧ page.index = index ∧ page.isOpen = true
        ∧ page.references = 0)
      fun _ t => t.memory = s.memory := by
  unfold map
  simp only [leads_bind, leads_memory]
  refine (keeps_obtainFile (fun store => store = s.memory) _ s rfl).mono (fun file t ht => ?_)
    fun _ _ ht => ht
  simp only [leads_disk, leads_ite, leads_bind, leads_perform, leads_look, leads_pure]
  split <;> exact ⟨ht, rfl, rfl, rfl⟩

/-- Using a page does not count for leases, and hands out no page. -/
theorem PageUse.run_alike (how : PageUse) (id : PageId) (s : Session PageStore) :
    (how.run id).Leads s
      (fun answer t => s.memory.Alike t.memory ∧ (PageStage.ended (.ok answer)).held? = none)
      fun _ t => t.memory = s.memory := by
  cases how with
  | read start length =>
    simp only [run, PageStore.readPage, leads_bind, leads_memory, leads_ite, leads_throw,
      leads_disk, leads_pure]
    split
    · trivial
    split
    · trivial
    · exact ⟨.refl _, rfl⟩
  | write start bytes =>
    simp only [run, PageStore.writePage, leads_bind, leads_memory, leads_ite, leads_throw,
      leads_perform, leads_update, leads_pure]
    have hwritten := PageStore.alike_updatePage s.memory id (f := (·.written start bytes))
        fun _ => rfl
    split
    · trivial
    split
    · trivial
    split <;> exact ⟨hwritten, rfl⟩
  | flush =>
    exact ⟨PageStore.alike_updatePage _ _ fun p => by unfold Page.flush; split <;> rfl, rfl⟩
  | pin | unpin => exact ⟨PageStore.alike_updatePage _ _ fun _ => rfl, rfl⟩

namespace Kept

variable {leases : List PageLease} {stage : Nat → PageStage}

/-- What a client does next to the store keeps everything. -/
theorem act {s : Session PageStore} (h : Kept leases s.memory stage) (halone : Exclusive stage)
    (client : Nat) :
    (stage client).act.Leads s
      (fun k t => Kept (Event.lend ⟨client, stage client, k⟩ leases) t.memory
        (Function.update stage client k))
      fun fault t => Kept (Event.lend ⟨client, stage client, .ended (.error fault)⟩ leases) t.memory
        (Function.update stage client (.ended (.error fault))) := by
  suffices hstage : ∀ k, stage client = k → k.act.Leads s
      (fun k' t => Kept (Event.lend ⟨client, k, k'⟩ leases) t.memory
      (Function.update stage client k'))
      fun fault t => Kept (Event.lend ⟨client, k, .ended (.error fault)⟩ leases) t.memory
        (Function.update stage client (.ended (.error fault))) from
    hstage _ rfl
  intro k hk
  have hfits := h.fits client
  rw [hk] at hfits
  -- the client goes on, and else nothing counts for leases
  have hstill {k' : PageStage} {t : PageStore} (ha : s.memory.Alike t)
      (hgone : ∀ p ∈ k.gone, p ∈ k'.gone)
      (hmine : k'.Fits leases client t) : Kept leases t (Function.update stage client k') :=
    h.still halone ha (by rwa [hk]) hmine
  have hnone {k' : PageStage} : ∀ p ∈ ([] : List (Nat × PageId)), p ∈ k'.gone :=
    fun _ hmem => absurd hmem List.not_mem_nil
  cases k with
  | lookUp index ticket? =>
    simp only [PageStage.act, leads_bind, leads_memory]
    split
    next id hid =>
      exact hstill (.refl _) hnone
        { seen := fun hseen => by cases List.mem_singleton.mp hseen; exact hid }
    next => exact hstill (.refl _) hnone {}
  | readCount place id =>
    simp only [PageStage.act, leads_bind, leads_memory, leads_pure]
    have hid := hfits.seen List.mem_cons_self
    exact hstill (.refl _) hnone {
      seen := hfits.seen
      mapped := fun hmapped => hfits.mapped (by cases place <;> exact hmapped)
      count := fun heq => by
        cases heq
        exact h.nonneg halone (by rw [hk]; cases place <;> simp [PageStage.section?])
          (by rw [hk]; rfl) hid }
  | raiseCount place id count =>
    have hid := hfits.seen List.mem_cons_self
    have hpos := hfits.count rfl
    have hsection : (stage client).section? ≠ none := by
      rw [hk]; cases place <;> simp [PageStage.section?]
    have hlive := h.nonneg halone hsection (by rw [hk]; rfl) hid
    simp only [PageStage.act, leads_bind, leads_memory, leads_ite, leads_update, leads_pure]
    rw [if_neg (by omega)]
    split
    · exact hstill (.refl _) hnone {
        seen := hfits.seen
        mapped := fun hmapped => hfits.mapped (by cases place <;> exact hmapped)
        count := fun heq => by cases heq; exact hlive }
    next hsame =>
      obtain rfl := Decidable.not_not.mp hsame
      have hraised := h.raise halone hk
      cases place <;> exact hraised
  | touchFound index ticket? id =>
    simp only [PageStage.act, leads_bind, leads_look, leads_update, leads_pure]
    exact hstill (PageStore.alike_updatePage _ _ fun p => by unfold Page.touch; split <;> rfl) hnone
      { held := hfits.held }
  | leaveLook index ticket? found? =>
    cases ticket? <;> cases found?
    · exact hstill (.refl _) hnone {}
    · exact hstill (.refl _) hnone { held := hfits.held }
    · exact hstill (.refl _) hnone {}
    · exact hstill (.refl _) hnone { held := hfits.held }
  | takeTicket index =>
    unfold PageStage.act PageStore.takeTicket
    simp only [leads_bind, leads_memory]
    split
    · exact hstill (.refl _) hnone {}
    · exact hstill ⟨rfl, rfl, fun _ => rfl⟩ hnone {}
  | awaitTurn index ticket => exact hstill (.refl _) hnone {}
  | map index ticket =>
    unfold PageStage.act
    rw [leads_tryCatch, leads_bind]
    refine (PageStore.map_mapped index s).mono ?_ ?_
    · intro page t ht
      obtain ⟨hsame, hpage⟩ := ht
      rw [leads_pure, hsame]
      exact hstill (.refl _) hnone { mapped := fun heq => by cases heq; exact hpage }
    · intro fault t ht
      rw [leads_pure, ht]
      exact hstill (.refl _) hnone {}
  | openInsert index ticket page =>
    simp only [PageStage.act, leads_bind, leads_memory]
    split
    next id hid =>
      exact hstill (.refl _) hnone {
        seen := fun hseen => by cases List.mem_singleton.mp hseen; exact hid
        mapped := hfits.mapped }
    next hvacant =>
      exact hstill (.refl _) hnone
        { mapped := hfits.mapped, vacant := fun heq => by cases heq; exact hvacant }
  | putPage index ticket page =>
    simp only [PageStage.act, leads_bind, leads_memory, leads_update, leads_pure]
    exact h.put halone hk
  | leaveInsert index ticket id => exact hstill (.refl _) hnone { held := hfits.held }
  | startSweep swept =>
    simp only [PageStage.act, leads_bind, leads_look, leads_pure]
    exact hstill (.refl _) hnone
      { held := fun hheld => hfits.held (by cases swept <;> exact hheld) }
  | openSweep swept now =>
    simp only [PageStage.act, leads_bind, leads_memory, leads_pure]
    exact hstill (.refl _) hnone {
      seen := fun hseen => (Std.TreeMap.mem_toList_iff_getElem?_eq_some).mp hseen
      held := fun hheld => hfits.held (by cases swept <;> exact hheld) }
  | examine swept now rest gone =>
    cases rest with
    | nil =>
      exact hstill (.refl _) (fun _ hmem => hmem)
        { gone := hfits.gone, held := fun hheld => hfits.held (by cases swept <;> exact hheld) }
    | cons first rest =>
      obtain ⟨index, id⟩ := first
      simp only [PageStage.act, leads_bind, leads_memory, leads_ite, leads_pure]
      split
      · exact hstill (.refl _) (fun _ hmem => hmem) {
          seen := hfits.seen
          gone := hfits.gone
          held := fun hheld => hfits.held (by cases swept <;> exact hheld) }
      · exact hstill (.refl _) (fun _ hmem => hmem) {
          seen := fun hseen => hfits.seen (List.mem_cons_of_mem _ hseen)
          gone := hfits.gone
          held := fun hheld => hfits.held (by cases swept <;> exact hheld) }
  | collect swept now index id rest gone =>
    simp only [PageStage.act, leads_bind, leads_memory, leads_ite, leads_update, leads_pure]
    split
    next hidle => exact h.collect halone hk (by simpa [Page.isIdle] using hidle)
    next =>
      exact hstill (.refl _) (fun _ hmem => hmem) {
        seen := fun hseen => hfits.seen (List.mem_cons_of_mem _ hseen)
        gone := hfits.gone
        held := fun hheld => hfits.held (by cases swept <;> exact hheld) }
  | leaveSweep swept gone =>
    simp only [PageStage.act, leads_bind, leads_update, leads_pure]
    exact h.uncache halone hk
  | closePages swept ids count =>
    cases ids with
    | nil =>
      cases swept with
      | call => exact hstill (.refl _) hnone {}
      | lease => exact hstill (.refl _) hnone { held := hfits.held }
    | cons id ids =>
      simp only [PageStage.act, leads_bind, leads_update, leads_pure]
      exact h.close halone hk
  | leaveTurn index ticket answer =>
    exact hstill (.refl _) hnone
      { held := fun hheld => hfits.held (by cases answer <;> exact hheld) }
  | withdrawTicket index answer =>
    unfold PageStage.act PageStore.withdrawTicket
    simp only [leads_bind, leads_update, leads_pure]
    exact hstill ⟨rfl, rfl, fun _ => rfl⟩ hnone
      { held := fun hheld => hfits.held (by cases answer <;> exact hheld) }
  | findLeased index =>
    simp only [PageStage.act, leads_bind, leads_memory]
    split
    next id hid =>
      refine hstill (.refl _) hnone { pays := fun heq => ?_ }
      cases heq
      obtain ⟨lease, hlease, hclient, rfl⟩ := hfits.pays rfl
      exact ⟨lease, hlease, hclient, Option.some.inj ((h.leased hlease).symm.trans hid)⟩
    next => exact hstill (.refl _) hnone {}
  | lowerCount byNumber id =>
    simp only [PageStage.act, leads_bind, leads_update, leads_pure]
    exact h.lower halone hk
  | touchBack byNumber id =>
    simp only [PageStage.act, leads_bind, leads_look, leads_update, leads_pure]
    have halike : PageStore.Alike s.memory (s.memory.updatePage id (·.touch s.host.now)) :=
      PageStore.alike_updatePage s.memory id fun p => by unfold Page.touch; split <;> rfl
    cases byNumber <;> exact hstill halike hnone {}
  | leaveRelease => exact hstill (.refl _) hnone {}
  | use id how =>
    simp only [PageStage.act, leads_bind, leads_pure]
    refine (how.run_alike id s).mono (fun answer t ht => ?_) fun _ t ht => ?_
    · obtain ⟨ha, hnothing⟩ := ht
      exact hstill ha hnone { held := fun hheld => absurd (hnothing.symm.trans hheld) (by simp) }
    · rw [ht]
      exact hstill (.refl _) hnone {}
  | ended answer => exact hstill (.refl _) hnone { held := hfits.held }

end Kept

/-! ## Runs -/

namespace PageStore

variable {w v u : Crowd SharedStore PageStage} {trace : List (Event PageStage)} {client : Nat}

/-- The locks and the pages are as the leases and the stages of the clients say. -/
structure Sound (trace : List (Event PageStage)) (w : Crowd SharedStore PageStage) : Prop where
  guarded : Guarded w
  kept : Kept (outstanding trace) w.session.memory.store w.stage

/-- The leases after one more event. -/
theorem outstanding_append (trace : List (Event PageStage)) (e : Event PageStage) :
    outstanding (trace ++ [e]) = e.lend (outstanding trace) := by
  rw [outstanding, List.foldl_append]
  rfl

/-- Where a client waits no lease begins or ends. -/
theorem lend_of_awaits {k k' : PageStage} (h : k.awaits ≠ none) (leases : List PageLease) :
    Event.lend ⟨client, k, k'⟩ leases = leases := by
  cases k with
  | raiseCount | putPage | lowerCount => exact absurd rfl h
  | _ => rfl

/-- A call that is allowed may begin. -/
theorem Sound.call (h : Sound trace w) {call : PageCall}
    (hfree : sharing.isFree (w.stage client) = true)
    (hallowed : call.Allowed (outstanding trace) client) :
    Sound (trace ++ [⟨client, w.stage client, PageStage.start call⟩])
      (sharing.call w client call) := by
  obtain ⟨answer, hstage⟩ : ∃ answer, w.stage client = .ended answer := by
    cases hk : w.stage client with
    | ended answer => exact ⟨answer, rfl⟩
    | _ => rw [hk] at hfree; cases hfree
  have hlend : outstanding (trace ++ [⟨client, w.stage client, PageStage.start call⟩])
      = outstanding trace := by
    rw [outstanding_append, hstage]
    rfl
  refine ⟨h.guarded.still (by rw [hstage]; rfl) (by cases call <;> rfl) rfl rfl, ?_⟩
  rw [hlend]
  refine h.kept.still h.guarded.alone (.refl _) (by rw [hstage]; nofun) ?_
  cases call with
  | acquire | sweep | use => exact {}
  | giveBack | release => exact { pays := fun heq => by cases heq; exact hallowed }

/-- A step of a client keeps the crowd sound, whatever comes of it. -/
theorem Sound.advance (h : Sound trace w) (client : Nat) :
    (w.stage client).advance.Leads w.session
      (fun k t => Sound (trace ++ [⟨client, w.stage client, k⟩]) (w.put client k t))
      fun fault t => Sound (trace ++ [⟨client, w.stage client, .ended (.error fault)⟩])
        (w.put client (.ended (.error fault)) t) := by
  refine PageStage.advance_leads ?_ ?_
  · intro hblocked
    have hawaits : (w.stage client).awaits ≠ none := fun hnone => by simp [hnone] at hblocked
    rw [w.put_stage]
    refine ⟨h.guarded, ?_⟩
    rw [outstanding_append, lend_of_awaits hawaits]
    exact h.kept
  · intro hgrants
    refine ((PageStage.act_passes _ _).and (h.kept.act h.guarded.alone client)).mono ?_ ?_
    · intro k t ht
      obtain ⟨hpasses, hkept⟩ := ht
      refine ⟨h.guarded.pass rfl hgrants hpasses, ?_⟩
      rw [outstanding_append]
      exact hkept
    · intro fault t ht
      obtain ⟨hnone, hkept⟩ := ht
      refine ⟨h.guarded.still hnone rfl rfl rfl, ?_⟩
      rw [outstanding_append]
      exact hkept

/-- A step of a client keeps the leases right. -/
theorem Sound.take (h : Sound trace w) (client : Nat) :
    Sound (trace ++ [⟨client, w.stage client, (sharing.take w client).stage client⟩])
      (sharing.take w client) :=
  Protocol.take_elim (fun e u => Sound (trace ++ [e]) u) (h.advance client)

/-- A new store, which no client has used. -/
theorem Sound.unused {host : Host} {store : PageStore} (hpages : store.pages = #[])
    (hcached : store.cached = {}) : Sound [] (unused host store) where
  guarded := {
    readers := ⟨[], List.nodup_nil, rfl, fun _ =>
    ⟨fun hmem => absurd hmem List.not_mem_nil, fun h => by cases h⟩⟩
    isWritten := fun h => by cases h
    alone := fun h => by cases h }
  kept := {
    cached := fun {index id} hid => by
      have hnone : store.cached[index]? = none := by rw [hcached, Std.TreeMap.getElem?_emptyc]
      cases hnone.symm.trans hid
    counted := fun id => by
      refine .inr ⟨?_, rfl⟩
      show (store.page id).references = -1
      rw [page, hpages]
      rfl
    leased := fun hlease => absurd hlease List.not_mem_nil
    fits := fun _ => {} }

/-- So does every run. -/
theorem Leasing.sound (h : Leasing w trace u) (hw : Sound [] w) : Sound trace u := by
  induction h with
  | rest => exact hw
  | call _ hfree hallowed ih => exact ih.call hfree hallowed
  | take client _ ih => exact ih.take client

/-- Whether every call of these acts is allowed where it is made. -/
def AllAllowed (trace : List (Event PageStage)) (v : Crowd SharedStore PageStage) :
    List (Nat × PageCall) → Prop
  | [] => True
  | (client, call) :: rest =>
    let u := if sharing.isFree (v.stage client) then sharing.call v client call
      else sharing.take v client
    (sharing.isFree (v.stage client) = true → call.Allowed (outstanding trace) client)
      ∧ AllAllowed (trace ++ [⟨client, v.stage client, u.stage client⟩]) u rest

instance (trace : List (Event PageStage)) (v : Crowd SharedStore PageStage)
    (acts : List (Nat × PageCall)) :
    Decidable (AllAllowed trace v acts) := by
  induction acts generalizing trace v with
  | nil => exact .isTrue trivial
  | cons act rest ih =>
    unfold AllAllowed
    exact instDecidableAnd

/-- What clients are allowed to do in a given order. -/
theorem Leasing.perform (h : Leasing w trace v) {acts : List (Nat × PageCall)}
    (hallowed : AllAllowed trace v acts) :
    Leasing w (trace ++ (sharing.perform v acts).1) (sharing.perform v acts).2 := by
  induction acts generalizing trace v with
  | nil => simpa [Protocol.perform] using h
  | cons act rest ih =>
    obtain ⟨client, call⟩ := act
    obtain ⟨hcall, hrest⟩ := hallowed
    simp only [Protocol.perform]
    rw [← List.singleton_append, ← List.append_assoc]
    refine ih ?_ hrest
    split
    next hfree =>
      have hstage : (sharing.call v client call).stage client = PageStage.start call :=
        v.stage_put_self ..
      rw [hstage]
      exact h.call hfree (hcall hfree)
    next => exact h.take client

/-- A store is created empty. -/
theorem create_empty {σ : Type} {s : Session σ} (directory : Path) (pageSize : Nat)
    (lifetime : UInt64) :
    (create directory pageSize lifetime : Procedure σ PageStore).Leads s
      (fun store _ => store.pages = #[] ∧ store.cached = {}) fun _ _ => True := by
  unfold create
  split
  · rw [leads_bind]
    exact (keeps_true _ s trivial).mono (fun _ _ _ => ⟨rfl, rfl⟩) fun _ _ => id
  · trivial

end PageStore

open PageStore in
/-- Clients share a new page store and give back only what they acquired. Then a page that has users
is open and stands for its number in the cache, whatever else the clients do: of the pages of one
number only one has users. Whoever has a lease of the number has it of this page. So has a client
whose call was just answered with the page, which thus was not collected. -/
theorem leased_pages_stay {σ : Type} {s opened : Session σ} {directory : Path} {pageSize : Nat}
    {lifetime : UInt64} {store : PageStore}
    (hopen : (create directory pageSize lifetime).outcome s = (.ok store, opened))
    {trace : List (Event PageStage)} {u : Crowd SharedStore PageStage}
    (hrun : Leasing (unused opened.host store) trace u) :
    (∀ id, 0 < (u.session.memory.store.page id).references →
      (u.session.memory.store.page id).references = usersOf (outstanding trace) id
      ∧ (u.session.memory.store.page id).isOpen = true
      ∧ u.session.memory.store.cached[(u.session.memory.store.page id).index]? = some id)
    ∧ (∀ id other, 0 < (u.session.memory.store.page id).references →
      0 < (u.session.memory.store.page other).references →
      (u.session.memory.store.page id).index = (u.session.memory.store.page other).index →
        id = other)
    ∧ (∀ lease ∈ outstanding trace, 0 < (u.session.memory.store.page lease.id).references
      ∧ (u.session.memory.store.page lease.id).index = lease.index)
    ∧ (∀ lease ∈ outstanding trace, ∀ other ∈ outstanding trace, lease.index = other.index →
      lease.id = other.id)
    ∧ ∀ client index id, u.stage client = .ended (.ok (.page index id)) →
      ⟨client, index, id⟩ ∈ outstanding trace := by
  obtain ⟨hpages, hcached⟩ := (create_empty directory pageSize lifetime).of_ok hopen
  have hkept := (hrun.sound (.unused hpages hcached)).kept
  -- a page with users has a lease, and so is in the cache
  have hused {id : PageId} (hpos : 0 < (u.session.memory.store.page id).references) :
      (u.session.memory.store.page id).references = usersOf (outstanding trace) id
      ∧ u.session.memory.store.cached[(u.session.memory.store.page id).index]? = some id := by
    have hcount : (u.session.memory.store.page id).references = usersOf (outstanding trace) id :=
      (hkept.counted id).resolve_right fun hand => by omega
    obtain ⟨lease, hlease, heq⟩ :=
      List.countP_pos_iff.mp (show 0 < usersOf (outstanding trace) id by omega)
    obtain rfl := of_decide_eq_true heq
    have hid := hkept.leased hlease
    rw [(hkept.cached hid).2.1]
    exact ⟨hcount, hid⟩
  refine ⟨fun id hpos => ?_, fun id other hpos hpos' heq => ?_, fun lease hlease => ?_,
    fun lease hlease other hother heq => ?_, fun client index id hstage => ?_⟩
  · obtain ⟨hcount, hid⟩ := hused hpos
    exact ⟨hcount, (hkept.cached hid).2.2.1, hid⟩
  · have hid := (hused hpos).2
    rw [heq, (hused hpos').2] at hid
    exact (Option.some.inj hid).symm
  · exact ⟨hkept.references_pos hlease, (hkept.cached (hkept.leased hlease)).2.1⟩
  · have hid := hkept.leased hlease
    rw [heq, hkept.leased hother] at hid
    exact (Option.some.inj hid).symm
  · exact (hkept.fits client).held (by rw [hstage]; rfl)

/-! Two clients acquire the same page at once, where pages are let go as soon as nobody uses them.
One of them gives the page back, and a third one sweeps. -/

namespace LeaseRun

/-- What comes of creating a store where nothing is. -/
def opening : Except Fault PageStore × Session Unit :=
  (PageStore.create ["pages"] 4 0).outcome ⟨⟨{}, ⟨fun _ => 0, 0⟩, []⟩, ()⟩

/-- What the clients do, one after the other. -/
def acts : List (Nat × PageCall) :=
  (List.replicate 20 [(0, .acquire 0), (1, .acquire 0)]).flatten ++ List.replicate 7 (1, .acquire 0)
    ++ List.replicate 5 (0, .release 0) ++ List.replicate 8 (2, .sweep)

/-- What happens, and how the clients are left. -/
def swept (store : PageStore) : List (Event PageStage) × Crowd SharedStore PageStage :=
  PageStore.sharing.perform (PageStore.unused opening.2.host store) acts

theorem exists_leased : ∃ store, opening.1 = .ok store
    ∧ PageStore.AllAllowed [] (PageStore.unused opening.2.host store) acts
    ∧ PageStore.outstanding (swept store).1 = [⟨1, 0, 0⟩] := by
  have hdecide : opening.1.toOption.any (fun store =>
      decide (PageStore.AllAllowed [] (PageStore.unused opening.2.host store) acts)
        && decide (PageStore.outstanding (swept store).1 = [⟨1, 0, 0⟩])) = true := by
    decide +kernel
  obtain ⟨store, hstore, hboth⟩ := exists_ok_of_any hdecide
  rw [Bool.and_eq_true, decide_eq_true_eq, decide_eq_true_eq] at hboth
  exact ⟨store, hstore, hboth⟩

end LeaseRun

open PageStore LeaseRun in
/-- The page stays open for the one who still has it. -/
theorem leased_pages_stay_swept : ∃ store, opening.1 = .ok store
    ∧ ((swept store).2.session.memory.store.page 0).references = 1
    ∧ ((swept store).2.session.memory.store.page 0).isOpen = true
    ∧ (swept store).2.session.memory.store.cached[0]? = some 0 := by
  obtain ⟨store, hopen, hallowed, hleases⟩ := exists_leased
  have hrun : Leasing (unused opening.2.host store) (swept store).1 (swept store).2 :=
    Leasing.rest.perform hallowed
  obtain ⟨hused, -, hleased, -⟩ :=
    leased_pages_stay (s := ⟨⟨{}, ⟨fun _ => 0, 0⟩, []⟩, ()⟩) (Prod.ext hopen rfl) hrun
  obtain ⟨hpos, hindex⟩ := hleased ⟨1, 0, 0⟩ (by rw [hleases]; exact List.mem_singleton.mpr rfl)
  obtain ⟨hcount, hisOpen, hid⟩ := hused 0 hpos
  rw [hindex] at hid
  rw [hleases] at hcount
  exact ⟨store, hopen, hcount, hisOpen, hid⟩

end PagedQueue
