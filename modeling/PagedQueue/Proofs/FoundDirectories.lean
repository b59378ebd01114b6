import PagedQueue.Proofs.PageCatalog

/-!
# Directories with anything in them

Whatever is on disk, the directories on the way to the pages are made unless a file is in the way
(`PageStore.makeDirectories_leads`), and all pages are deleted as far as the names found there lead
to files (`PageStore.deleteAll_prunes`).
-/

namespace PagedQueue

open Procedure
open Disk (MadeWay)
open PageStore (Same)

/-! ## Making directories -/

/-- A fold that ends well has passed every element. -/
theorem isSome_of_foldlM {α β : Type} {f : β → α → Option β} {xs : List α} {first last : β}
    (h : xs.foldlM f first = some last) {x : α} (hx : x ∈ xs) : ∃ found,
      (f found x).isSome = true := by
  induction xs generalizing first with
  | nil => exact absurd hx List.not_mem_nil
  | cons y rest ih =>
    rw [List.foldlM_cons] at h
    obtain ⟨next, hnext, hrest⟩ := Option.bind_eq_some_iff.mp h
    rcases List.mem_cons.mp hx with rfl | hx
    · exact ⟨first, Option.isSome_of_eq_some hnext⟩
    · exact ih hrest hx

namespace Disk

variable {d : Disk} {path : Path} {missing : List Path}

/-- If the missing directories can be told, no file is in the way. -/
theorem passable_of_missingDirectories? (h : d.missingDirectories? path = some missing) :
    d.Passable path := by
  intro p hp id hnode
  obtain ⟨found, hpassed⟩ :=
    isSome_of_foldlM h (List.mem_range.mpr (Nat.lt_succ_of_le hp.length_le))
  rw [← List.prefix_iff_eq_take.mp hp, hnode] at hpassed
  cases hpassed

end Disk

namespace PageStore

variable {σ : Type} {s : Session σ} {path : Path}

/-- Directories are made, or a file is in the way and nothing happens. -/
theorem makeDirectories_leads (path : Path) :
    (makeDirectories path : Procedure σ Unit).Leads s
      (fun _ u => MadeWay path s.host.disk u.host.disk
        ∧ ∀ p, p <+: path → u.host.disk.node? p = some .directory)
      fun _ u => u = s := by
  cases hmissing : s.host.disk.missingDirectories? path with
  | some missing =>
    exact (makeDirectories_ensures (Disk.passable_of_missingDirectories? hmissing)).leads.mono
      (fun _ _ hu => ⟨hu.2.1.last, hu.2.2⟩) fun _ _ => False.elim
  | none =>
    unfold makeDirectories
    simp only [leads_bind, leads_disk, hmissing, leads_ofOption_none]

theorem create_leads (directory : Path) {pageSize : Nat} (hpos : 0 < pageSize) (lifetime : UInt64) :
    (create directory pageSize lifetime : Procedure σ PageStore).Leads s
      (fun store u => store = opened directory pageSize hpos lifetime
        ∧ MadeWay directory s.host.disk u.host.disk
        ∧ ∀ p, p <+: directory → u.host.disk.node? p = some .directory)
      fun _ u => u = s := by
  unfold create
  rw [dif_pos hpos]
  simp only [leads_bind, leads_pure]
  exact (makeDirectories_leads directory).mono (fun _ _ hu => ⟨rfl, hu⟩) fun _ _ => id

end PageStore

/-! ## Deleting whatever pages there are -/

namespace PageStore

variable {s t : Session PageStore}

/-- Where nothing is cached, deleting a page removes its file if there is one, and does nothing
else. -/
theorem deletePage_prunes {directory : Path} {d : Disk} {gone : List Nat} {index : Nat}
    (hcached : t.memory.cached = {}) (hdirectory : t.memory.directory = directory)
    (h : Disk.Pruned directory gone d t.host.disk) :
    (deletePage index).Ensures t fun _ u => u.memory = t.memory
      ∧ ∃ gone', Disk.Pruned directory gone' d u.host.disk := by
  have hdrop : t.memory.drop index = t.memory := by
    rw [drop, hcached, Std.TreeMap.getElem?_emptyc]
  have hpath : t.memory.pathOf index = Disk.pagePath directory index := by
    rw [pathOf, hdirectory, Disk.pagePath]
  unfold deletePage Ensures
  simp only [leads_bind, leads_update, leads_memory, leads_disk, hdrop, hpath]
  split
  · simp only [leads_bind, leads_perform, leads_pure]
    exact ⟨trivial, _, h.unlink index t.host.now⟩
  · exact ⟨rfl, _, h⟩
  · exact ⟨rfl, _, h⟩

theorem deletePages_prunes {directory : Path} {d : Disk} {gone : List Nat} (indexes : List Nat)
    (hcached : t.memory.cached = {}) (hdirectory : t.memory.directory = directory)
    (h : Disk.Pruned directory gone d t.host.disk) :
    (deletePages indexes).Ensures t fun _ u => u.memory = t.memory
      ∧ ∃ gone', Disk.Pruned directory gone' d u.host.disk := by
  unfold deletePages Ensures
  induction indexes generalizing t gone with
  | nil => exact ⟨rfl, gone, h⟩
  | cons first rest ih =>
    rw [List.forM_eq_forM, List.forM_cons, leads_bind, leads_discard]
    refine (deletePage_prunes hcached hdirectory h).leads.mono ?_ fun _ _ => False.elim
    intro _ u hu
    obtain ⟨hmemory, gone', hu⟩ := hu
    refine (ih (hmemory ▸ hcached) (hmemory ▸ hdirectory) hu).mono ?_ fun _ _ => False.elim
    intro _ v hv
    exact ⟨hv.1.trans hmemory, hv.2⟩

/-- Deleting all pages removes some files of pages, and closes all pages. -/
theorem deleteAll_prunes (hdirectory : s.host.disk.node? s.memory.directory = some .directory) :
    deleteAll.Ensures s fun _ u => u.memory = s.memory.dropAll
      ∧ ∃ gone, Disk.Pruned s.memory.directory gone s.host.disk u.host.disk := by
  have hsame := (same_dropAll s.memory).directory
  unfold deleteAll Ensures
  simp only [leads_bind, leads_update]
  refine (pageIndexes_ensures (s := ⟨s.host, s.memory.dropAll⟩)
    (hsame.symm ▸ hdirectory)).leads.mono
    ?_ fun _ _ => False.elim
  intro indexes _ ht
  obtain ⟨rfl, -⟩ := ht
  exact deletePages_prunes indexes.toList rfl hsame (.nil _ _)

end PageStore

namespace PagedFile

/-- A file that is emptied loses some of its pages, and its cache is empty. -/
theorem reset_prunes {s : Session PagedFile}
    (hdirectory : s.host.disk.node? s.memory.store.directory = some .directory) :
    reset.Ensures s fun _ t => Same s.memory.store t.memory.store
      ∧ t.memory.store.Coherent t.host.disk
      ∧ ∃ gone, Disk.Pruned s.memory.store.directory gone s.host.disk t.host.disk := by
  unfold reset onStore Ensures
  simp only [leads_bind, leads_update, leads_within]
  refine (PageStore.deleteAll_prunes (s := s.part store) hdirectory).leads.mono ?_ fun _ _ =>
    False.elim
  intro _ t ht
  obtain ⟨hmemory, gone, hpruned⟩ := ht
  refine ⟨?_, ?_, gone, hpruned⟩
  · show Same s.memory.store t.memory
    rw [hmemory]
    exact PageStore.same_dropAll _
  · show t.memory.Coherent t.host.disk
    rw [hmemory]
    exact PageStore.coherent_dropAll _ _

end PagedFile

end PagedQueue
