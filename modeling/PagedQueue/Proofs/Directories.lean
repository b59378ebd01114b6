import PagedQueue.Page.Catalog
import PagedQueue.Proofs.PagedBytes

/-!
# Directories of pages

The directories on the way to a path are made if no file is in the way, and nothing else changes
(`makeDirectories_ensures`). A directory in which every page file bears the name that is written for
it is `Tidy`; then the numbers read off the names are those of the pages there are
(`mem_pageNumbers_iff`), and they tell how far the byte space reaches (`Disk.reach`).
-/

namespace PagedQueue

open Procedure

namespace Disk

/-! ## Making directories -/

/-- No file is in the way of a path. -/
def Passable (d : Disk) (path : Path) : Prop := ∀ p, p <+: path → ∀ id, d.node? p ≠ some (.file id)

/-- Nothing lies below a path or is refused there, and no file is in the way of it. -/
structure Fresh (d : Disk) (path : Path) : Prop where
  sound : d.Sound
  passable : d.Passable path
  below : ∀ p, path <+: p → p ≠ path → d.node? p = none
  not_refused : ∀ p, path <+: p → p ∉ d.refused

/-- A new disk has its root and nothing else. -/
theorem node?_new (p : Path) : ({} : Disk).node? p = if [] = p then some .directory else none := by
  simp [node?, Std.TreeMap.getElem?_insert]

theorem fresh_new (path : Path) : ({} : Disk).Fresh path := by
  have hfile (p : Path) (id : FileId) : ({} : Disk).node? p ≠ some (.file id) := by
    rw [node?_new]
    split <;> simp
  refine ⟨⟨fun hnode => absurd hnode (hfile _ _), fun hnode => absurd hnode (hfile _ _)⟩,
    fun p _ id => hfile p id, fun p hp hne => ?_, fun _ _ => List.not_mem_nil⟩
  rw [node?_new, if_neg]
  intro heq
  subst heq
  exact hne (List.prefix_nil.mp hp).symm

/-- Some directories were made on the way to a path, where nothing was, and nothing else. -/
structure MadeWay (path : Path) (d d' : Disk) : Prop where
  files : d'.files = d.files
  refused : d'.refused = d.refused
  node? : ∀ p, d'.node? p = d.node? p
    ∨ p <+: path ∧ d.node? p = none ∧ d'.node? p = some .directory

variable {d d' d'' : Disk} {path : Path}

/-- The directories missing on a way are those of its parts that are not there. -/
theorem missingDirectories?_eq (h : d.Passable path) : d.missingDirectories? path
    = some (((List.range (path.length + 1)).map path.take).filter fun p => d.node? p = none) := by
  unfold missingDirectories?
  generalize path.length + 1 = count
  induction count with
  | zero => rfl
  | succ count ih =>
    rw [List.range_succ, List.foldlM_append, ih, List.map_append, List.filter_append]
    have hpath := h _ (List.take_prefix count path)
    rcases hnode : d.node? (path.take count) with _ | _ | id
    · simp [hnode]
    · simp [hnode]
    · exact absurd hnode (hpath id)

namespace MadeWay

theorem refl (d : Disk) (path : Path) : MadeWay path d d := ⟨rfl, rfl, fun _ => .inl rfl⟩

/-- What stood on the disk stands there still. -/
theorem kept (h : MadeWay path d d') {p : Path} {node : Node} (hnode : d.node? p = some node) :
    d'.node? p = some node := by
  rcases h.node? p with heq | ⟨-, hnone, -⟩
  · rw [heq, hnode]
  · rw [hnone] at hnode
    cases hnode

/-- No file comes or goes when directories are made. -/
theorem node?_file_iff (h : MadeWay path d d') (p : Path) (id : FileId) :
    d'.node? p = some (.file id) ↔ d.node? p = some (.file id) := by
  rcases h.node? p with heq | ⟨-, hnone, hdirectory⟩
  · rw [heq]
  · simp [hnone, hdirectory]

theorem sound (h : MadeWay path d d') (hsound : d.Sound) : d'.Sound := by
  refine ⟨fun {p id} hnode => ?_, fun {p q id} hnode hother => ?_⟩
  · rw [h.files]
    exact hsound.lt_size ((h.node?_file_iff p id).mp hnode)
  · exact hsound.injective ((h.node?_file_iff p id).mp hnode) ((h.node?_file_iff q id).mp hother)

/-- So no page does. -/
theorem hasPage_iff (h : MadeWay path d d') (directory : Path) (index : Nat) :
    d'.HasPage directory index ↔ d.HasPage directory index :=
  exists_congr fun id => h.node?_file_iff _ id

/-- Below the path nothing changed. -/
theorem below (h : MadeWay path d d') {p : Path} (hp : path <+: p) (hne : p ≠ path) :
    d'.node? p = d.node? p := by
  rcases h.node? p with heq | ⟨hpre, -, -⟩
  · exact heq
  · exact absurd (hpre.eq_of_length_le hp.length_le) hne

/-- One more directory is made where nothing was. -/
theorem make (h : MadeWay path d d') {p : Path} (hp : p <+: path) (hnone : d.node? p = none)
    (now : Int) : MadeWay path d ((Change.makeDirectory p).apply now d') := by
  refine ⟨h.files, h.refused, fun q => ?_⟩
  rw [Change.node?_makeDirectory]
  split
  next heq => subst heq; exact .inr ⟨hp, hnone, rfl⟩
  next => exact h.node? q

end MadeWay

namespace Fresh

theorem child (h : d.Fresh path) (name : String) : d.Fresh (path ++ [name]) := by
  have hnone (p : Path) (hp : path ++ [name] <+: p) : d.node? p = none := by
    refine h.below p ((List.prefix_append ..).trans hp) ?_
    intro heq
    subst heq
    have hlength := hp.length_le
    simp only [List.length_append, List.length_singleton] at hlength
    omega
  refine ⟨h.sound, fun p hp id hnode => ?_, fun p hp _ => hnone p hp,
    fun p hp => h.not_refused p ((List.prefix_append ..).trans hp)⟩
  rcases List.prefix_concat_iff.mp hp with rfl | hp
  · rw [hnone _ List.prefix_rfl] at hnode
    cases hnode
  · exact h.passable p hp id hnode

/-- Nothing comes below a path when directories are made on the way to one that is not below it. -/
theorem madeWay {other : Path} (h : d.Fresh other) (hmade : MadeWay path d d')
    (hbelow : ∀ p, other <+: p → p ≠ other → ¬ p <+: path) : d'.Fresh other where
  sound := hmade.sound h.sound
  passable p hp id hnode := h.passable p hp id ((hmade.node?_file_iff p id).mp hnode)
  below p hp hne := by
    rcases hmade.node? p with heq | ⟨hpre, -, -⟩
    · rw [heq]
      exact h.below p hp hne
    · exact absurd hpre (hbelow p hp hne)
  not_refused := hmade.refused ▸ h.not_refused

end Fresh

end Disk

open Disk (MadeWay)

namespace PageStore

variable {σ : Type} {s t : Session σ}

/-- Missing directories are made one by one. -/
private theorem forM_makeDirectory_ensures (path : Path) (missing : List Path)
    (hmissing : ∀ p ∈ missing, p <+: path ∧ s.host.disk.node? p = none)
    (ht : Trail (MadeWay path s.host.disk) s.host t.host) (hmemory : t.memory = s.memory) :
    (missing.forM fun p => (perform (.makeDirectory p) : Procedure σ Unit)).Ensures t fun _ u =>
      u.memory = s.memory ∧ Trail (MadeWay path s.host.disk) s.host u.host
        ∧ (∀ p ∈ missing, u.host.disk.node? p = some .directory)
        ∧ ∀ p, t.host.disk.node? p = some .directory → u.host.disk.node? p = some .directory := by
  induction missing generalizing t with
  | nil => exact ⟨hmemory, ht, fun _ hp => absurd hp List.not_mem_nil, fun _ => id⟩
  | cons first rest ih =>
    obtain ⟨⟨hpre, hnone⟩, hrest⟩ := List.forall_mem_cons.mp hmissing
    -- the invariant is that so far only directories on the way were made
    have hmade := ht.last.make hpre hnone t.host.now
    have hfirst (p : Path) : ((Change.makeDirectory first).apply t.host.now t.host.disk).node? p
        = if first = p then some .directory else t.host.disk.node? p :=
      Change.node?_makeDirectory first p
    unfold Ensures
    rw [List.forM_eq_forM, List.forM_cons, leads_bind, leads_perform]
    refine (ih (t := ⟨t.host.perform (.makeDirectory first), t.memory⟩) hrest
      (ht.change (.makeDirectory first) hmade) hmemory).mono ?_
    intro _ u hu
    obtain ⟨hmemory', hu, hall, hkept⟩ := hu
    refine ⟨hmemory', hu, List.forall_mem_cons.mpr ⟨hkept _ ?_, hall⟩, fun p hp => hkept p ?_⟩
    · exact (hfirst first).trans (if_pos rfl)
    · refine (hfirst p).trans ?_
      rw [hp, ite_self]

/-- The directories on the way to a path are made. -/
theorem makeDirectories_ensures {path : Path} (h : s.host.disk.Passable path) :
    (makeDirectories path : Procedure σ Unit).Ensures s fun _ u =>
      u.memory = s.memory ∧ Trail (MadeWay path s.host.disk) s.host u.host
        ∧ ∀ p, p <+: path → u.host.disk.node? p = some .directory := by
  unfold makeDirectories Ensures
  simp only [leads_bind, leads_disk, Disk.missingDirectories?_eq h, leads_ofOption_some]
  refine (forM_makeDirectory_ensures path _ (fun p hp => ?_) (.start (.refl _ _)) rfl).mono ?_
  · obtain ⟨hmem, hnone⟩ := List.mem_filter.mp hp
    obtain ⟨k, -, rfl⟩ := List.mem_map.mp hmem
    exact ⟨List.take_prefix k path, of_decide_eq_true hnone⟩
  · intro _ u hu
    obtain ⟨hmemory, htrail, hmissing, hkept⟩ := hu
    refine ⟨hmemory, htrail, fun p hp => ?_⟩
    rcases hnode : s.host.disk.node? p with _ | _ | id
    · refine hmissing p (List.mem_filter.mpr ⟨List.mem_map.mpr ⟨p.length, ?_, ?_⟩, ?_⟩)
      · exact List.mem_range.mpr (Nat.lt_succ_of_le hp.length_le)
      · exact (List.prefix_iff_eq_take.mp hp).symm
      · exact decide_eq_true hnode
    · exact hkept p hnode
    · exact absurd hnode (h p hp id)

/-- Where all directories are there, none is made. -/
theorem makeDirectories_of_directories {path : Path}
    (h : ∀ p, p <+: path → s.host.disk.node? p = some .directory) :
    (makeDirectories path : Procedure σ Unit).Ensures s fun _ u => u = s := by
  have hpassable : s.host.disk.Passable path := fun p hp id hnode => by
    rw [h p hp] at hnode
    cases hnode
  have hnone : (((List.range (path.length + 1)).map path.take).filter
      fun p => s.host.disk.node? p = none) = [] := by
    refine List.filter_eq_nil_iff.mpr fun p hp hnode => ?_
    obtain ⟨k, -, rfl⟩ := List.mem_map.mp hp
    rw [h _ (List.take_prefix k path)] at hnode
    exact absurd (of_decide_eq_true hnode) (by simp)
  unfold makeDirectories Ensures
  simp only [leads_bind, leads_disk, Disk.missingDirectories?_eq hpassable, hnone,
    leads_ofOption_some]
  rfl

end PageStore

namespace Disk

/-! ## The pages of a directory -/

/-- The directory is there, what bears the name of a page is a file, and every page file bears the
name that is written for it. -/
structure Tidy (d : Disk) (directory : Path) : Prop extends d.Openable directory where
  plain : ∀ {name : String} {node : Node} {index : Nat},
    d.node? (directory ++ [name]) = some node → PageName.index? name = some index →
      name = PageName.ofIndex index
  le_maxIndex : ∀ {index : Nat}, d.HasPage directory index → index ≤ PageName.maxIndex

/-- The directory is there, and every page file in it bears the name that is written for it.
Directories may stand in place of pages. -/
structure Named (d : Disk) (directory : Path) : Prop where
  isDirectory : d.node? directory = some .directory
  plain : ∀ {name : String} {node : Node} {index : Nat},
    d.node? (directory ++ [name]) = some node → PageName.index? name = some index →
      name = PageName.ofIndex index
  le_maxIndex : ∀ {index : Nat}, d.HasPage directory index → index ≤ PageName.maxIndex

/-- The numbers read off the names in a directory. -/
def pageNumbers (d : Disk) (directory : Path) : List Nat :=
  ((d.children? directory).getD []).filterMap fun (name, _) => PageName.index? name

/-- How far the pages of a directory reach. -/
def reach (d : Disk) (directory : Path) (pageSize : Nat) : Nat :=
  match (d.pageNumbers directory).max? with
  | some last => (last + 1) * pageSize
  | none => 0

variable {d d' : Disk} {directory : Path} {pageSize : Nat}

/-- A directory lists the names that stand in it. -/
theorem children?_of_directory (h : d.node? directory = some .directory) :
    ∃ entries, d.children? directory = some entries
      ∧ ∀ name node, (name, node) ∈ entries ↔ d.node? (directory ++ [name]) = some node := by
  unfold children?
  rw [h]
  refine ⟨_, rfl, fun name node => ?_⟩
  simp only [List.mem_filterMap]
  constructor
  · intro hand
    obtain ⟨⟨path, node'⟩, hmem, hsome⟩ := hand
    rw [Std.TreeMap.mem_toList_iff_getElem?_eq_some] at hmem
    split at hsome
    next hparent =>
      obtain ⟨last, hlast, heq⟩ := Option.map_eq_some_iff.mp hsome
      cases heq
      rw [← hparent, List.dropLast_append_getLast? _ hlast]
      exact hmem
    next => cases hsome
  · intro hnode
    refine ⟨(directory ++ [name], node), Std.TreeMap.mem_toList_iff_getElem?_eq_some.mpr hnode, ?_⟩
    simp

/-- A page number is listed if some name in the directory reads as it. -/
theorem mem_pageNumbers (h : d.node? directory = some .directory) (index : Nat) :
    index ∈ d.pageNumbers directory
      ↔ ∃ name node, d.node? (directory ++ [name]) = some node
        ∧ PageName.index? name = some index := by
  obtain ⟨entries, heq, hentries⟩ := children?_of_directory h
  rw [pageNumbers, heq, Option.getD_some, List.mem_filterMap]
  constructor
  · intro hand
    obtain ⟨⟨name, node⟩, hmem, hindex⟩ := hand
    exact ⟨name, node, (hentries name node).mp hmem, hindex⟩
  · intro hand
    obtain ⟨name, node, hnode, hindex⟩ := hand
    exact ⟨(name, node), (hentries name node).mpr hnode, hindex⟩

/-- A page whose number is in range is found by its name. -/
theorem HasPage.mem_pageNumbers (h : d.node? directory = some .directory) {index : Nat}
    (hpage : d.HasPage directory index) (hle : index ≤ PageName.maxIndex) :
    index ∈ d.pageNumbers directory := by
  obtain ⟨id, hnode⟩ := hpage
  exact (Disk.mem_pageNumbers h index).mpr
    ⟨_, _, hnode, PageName.index?_ofIndex_eq_some_iff.mpr ⟨rfl, hle⟩⟩

/-- What is found by its name lies below the reach. -/
theorem le_reach_of_mem {index : Nat} (h : index ∈ d.pageNumbers directory) (pageSize : Nat) :
    (index + 1) * pageSize ≤ d.reach directory pageSize := by
  unfold reach
  split
  next last hlast =>
    have hle := (List.max?_eq_some_iff.mp hlast).2 index h
    exact Nat.mul_le_mul_right _ (Nat.succ_le_succ hle)
  next hnone =>
    rw [List.max?_eq_none_iff.mp hnone] at h
    exact absurd h List.not_mem_nil

/-- Nothing is reached if no name is that of a page. -/
theorem reach_eq_zero_iff (hpos : 0 < pageSize) :
    d.reach directory pageSize = 0 ↔ d.pageNumbers directory = [] := by
  constructor
  · intro hzero
    refine List.eq_nil_iff_forall_not_mem.mpr fun index hmem => ?_
    have hle := le_reach_of_mem hmem pageSize
    have hend : 0 < (index + 1) * pageSize := Nat.mul_pos (Nat.succ_pos _) hpos
    omega
  · intro hnil
    rw [reach, hnil]
    rfl

/-- What lies below the reach lies in a page whose number is in range. -/
theorem div_le_maxIndex_of_lt_reach (hpos : 0 < pageSize) {o : Nat}
    (ho : o < d.reach directory pageSize) : o / pageSize ≤ PageName.maxIndex := by
  unfold reach at ho
  split at ho
  next last hlast =>
    have hmem := List.max?_mem hlast
    obtain ⟨_, -, hindex⟩ := List.mem_filterMap.mp hmem
    have hle := Nat.le_of_lt_succ ((Nat.div_lt_iff_lt_mul hpos).mpr ho)
    exact Nat.le_trans hle (PageName.le_maxIndex_of_index? hindex)
  next => exact absurd ho (Nat.not_lt_zero o)

/-- In a tidy directory the numbers read off the names are those of the pages. -/
theorem Tidy.mem_pageNumbers_iff (h : d.Tidy directory) (index : Nat) :
    index ∈ d.pageNumbers directory ↔ d.HasPage directory index := by
  rw [mem_pageNumbers h.isDirectory]
  constructor
  · intro hand
    obtain ⟨name, node, hnode, hindex⟩ := hand
    obtain rfl := h.plain hnode hindex
    rcases hkind : node with _ | id
    · subst hkind
      exact absurd hnode (h.not_directory index)
    · exact ⟨id, hkind ▸ hnode⟩
  · intro hand
    obtain ⟨id, hnode⟩ := hand
    have hle := h.le_maxIndex ⟨id, hnode⟩
    exact (mem_pageNumbers h.isDirectory index).mp
      (HasPage.mem_pageNumbers h.isDirectory ⟨id, hnode⟩ hle)

/-- A directory just made is tidy, as nothing is in it. -/
theorem MadeWay.tidy {path : Path} (h : MadeWay path d d') (hfresh : d.Fresh path)
    (hdirectory : d'.node? path = some .directory) :
    d'.Tidy path ∧ ∀ index, ¬ d'.HasPage path index := by
  have hnone (name : String) : d'.node? (path ++ [name]) = none := by
    have hbelow : path <+: path ++ [name] := List.prefix_append ..
    have hne : path ++ [name] ≠ path := by simp
    rw [h.below hbelow hne]
    exact hfresh.below _ hbelow hne
  have hnode (name : String) (node : Node) : d'.node? (path ++ [name]) ≠ some node := by
    rw [hnone]
    simp
  refine ⟨⟨⟨hdirectory, fun index => hnode _ _, fun index => ?_⟩, ?_, ?_⟩, ?_⟩
  · rw [h.refused]
    exact hfresh.not_refused _ (List.prefix_append ..)
  · intro name node index hsome
    exact absurd hsome (hnode name node)
  · intro index hand
    obtain ⟨id, hsome⟩ := hand
    exact absurd hsome (hnode _ _)
  · intro index hand
    obtain ⟨id, hsome⟩ := hand
    exact absurd hsome (hnode _ _)

/-- Another directory stays tidy if no directory is made in it. -/
theorem MadeWay.tidy_beside {path : Path} (h : MadeWay path d d') (htidy : d.Tidy directory)
    (hbeside : ∀ name, ¬ directory ++ [name] <+: path) : d'.Tidy directory := by
  have hnode (name : String) : d'.node? (directory ++ [name]) = d.node? (directory ++ [name]) := by
    rcases h.node? (directory ++ [name]) with heq | ⟨hpre, -, -⟩
    · exact heq
    · exact absurd hpre (hbeside name)
  refine ⟨⟨h.kept htidy.isDirectory, fun index hdirectory => ?_, h.refused ▸ htidy.not_refused⟩,
    fun hsome hindex => ?_, ?_⟩
  · exact htidy.not_directory index ((hnode _).symm.trans hdirectory)
  · exact htidy.plain ((hnode _).symm.trans hsome) hindex
  · intro index hand
    obtain ⟨id, hsome⟩ := hand
    exact htidy.le_maxIndex ⟨id, (hnode _).symm.trans hsome⟩

/-- Every page lies below the reach. -/
theorem Tidy.le_reach (h : d.Tidy directory) {index : Nat} (hpage : d.HasPage directory index)
    (pageSize : Nat) : (index + 1) * pageSize ≤ d.reach directory pageSize :=
  le_reach_of_mem ((h.mem_pageNumbers_iff index).mpr hpage) pageSize

/-- The reach is the end of a page, or there is no page. -/
theorem Tidy.reach_cases (h : d.Tidy directory) (pageSize : Nat) :
    (∀ index, ¬ d.HasPage directory index) ∧ d.reach directory pageSize = 0
      ∨ ∃ index, d.HasPage directory index
        ∧ d.reach directory pageSize = (index + 1) * pageSize := by
  unfold reach
  split
  next last hlast =>
    exact .inr ⟨last, (h.mem_pageNumbers_iff last).mp (List.max?_mem hlast), rfl⟩
  next hnone =>
    refine .inl ⟨fun index hpage => ?_, rfl⟩
    have hmem := (h.mem_pageNumbers_iff index).mpr hpage
    rw [List.max?_eq_none_iff.mp hnone] at hmem
    exact absurd hmem List.not_mem_nil

/-- Where there is no page, nothing is reached. -/
theorem Tidy.reach_eq_zero (h : d.Tidy directory) (hnone : ∀ index, ¬ d.HasPage directory index)
    (pageSize : Nat) : d.reach directory pageSize = 0 := by
  rcases h.reach_cases pageSize with ⟨-, hzero⟩ | ⟨index, hpage, -⟩
  · exact hzero
  · exact absurd hpage (hnone index)

/-- A directory with more pages reaches at least as far. -/
theorem Tidy.reach_le (h : d.Tidy directory) (h' : d'.Tidy directory)
    (hpages : ∀ index, d.HasPage directory index → d'.HasPage directory index) :
    d.reach directory pageSize ≤ d'.reach directory pageSize := by
  rcases h.reach_cases pageSize with ⟨-, hzero⟩ | ⟨index, hpage, hreach⟩
  · rw [hzero]
    exact Nat.zero_le _
  · rw [hreach]
    exact h'.le_reach (hpages index hpage) pageSize

/-- How far the pages reach shows in which pages there are. -/
theorem Tidy.reach_congr (h : d.Tidy directory) (h' : d'.Tidy directory)
    (hpages : ∀ index, d'.HasPage directory index ↔ d.HasPage directory index) :
    d'.reach directory pageSize = d.reach directory pageSize :=
  Nat.le_antisymm (h'.reach_le h fun index => (hpages index).mp)
    (h.reach_le h' fun index => (hpages index).mpr)

/-- Dates do not matter to the names. -/
theorem Alike.tidy (h : Alike d d') (htidy : d.Tidy directory) : d'.Tidy directory where
  isDirectory := (h.node? _).symm.trans htidy.isDirectory
  not_directory index hnode := htidy.not_directory index ((h.node? _).trans hnode)
  not_refused := h.refused ▸ htidy.not_refused
  plain hnode hindex := htidy.plain ((h.node? _).trans hnode) hindex
  le_maxIndex := by
    intro index hand
    obtain ⟨id, hnode⟩ := hand
    exact htidy.le_maxIndex ⟨id, (h.node? _).trans hnode⟩

/-- Nor to the reach. -/
theorem Alike.reach (h : Alike d d') :
    d'.reach directory pageSize = d.reach directory pageSize := by
  simp only [Disk.reach, pageNumbers, children?, Disk.node?, h.nodes]

theorem Tidy.named (h : d.Tidy directory) : d.Named directory :=
  ⟨h.isDirectory, h.plain, h.le_maxIndex⟩

theorem Named.tidy (h : d.Named directory) (hopenable : d.Openable directory) : d.Tidy directory :=
  ⟨hopenable, h.plain, h.le_maxIndex⟩

/-- Page files keep the names written for them when pages in range are made. -/
theorem Confined.named {made : Path} {touched written : Nat → Prop}
    (h : Confined made pageSize touched written d d')
    (htouched : ∀ o, touched o → o / pageSize ≤ PageName.maxIndex) (hnamed : d.Named directory) :
    d'.Named directory where
  isDirectory := h.kept hnamed.isDirectory
  plain {name node index} hnode hindex := by
    rcases h.fresh hnode with hold | ⟨o, ho, hpath, -⟩
    · exact hnamed.plain hold hindex
    · have hlast := congrArg List.getLast? hpath
      rw [pagePath, List.getLast?_concat, List.getLast?_concat] at hlast
      obtain rfl := Option.some.inj hlast
      obtain ⟨rfl, -⟩ := PageName.index?_ofIndex_eq_some_iff.mp hindex
      rfl
  le_maxIndex {index} := by
    intro hand
    obtain ⟨id, hnode⟩ := hand
    rcases h.fresh hnode with hold | ⟨o, ho, hpath, -⟩
    · exact hnamed.le_maxIndex ⟨id, hold⟩
    · have hlast := congrArg List.getLast? hpath
      rw [pagePath, pagePath, List.getLast?_concat, List.getLast?_concat] at hlast
      rw [PageName.ofIndex_injective (Option.some.inj hlast)]
      exact htouched o ho

/-- A directory stays tidy when pages in range are made in it. -/
theorem Confined.tidy {made : Path} {touched written : Nat → Prop}
    (h : Confined made pageSize touched written d d')
    (htouched : ∀ o, touched o → o / pageSize ≤ PageName.maxIndex) (htidy : d.Tidy directory) :
    d'.Tidy directory :=
  (h.named htouched htidy.named).tidy (h.openable htidy.toOpenable)

/-- An access below the reach of the pages leaves a directory tidy and the reach as it is. -/
theorem Tidy.confined (h : d.Tidy directory) {touched written : Nat → Prop} (hpos : 0 < pageSize)
    (hconfined : Confined directory pageSize touched written d d')
    (htouched : ∀ o, touched o → o < d.reach directory pageSize) :
    d'.Tidy directory ∧ d'.reach directory pageSize = d.reach directory pageSize := by
  rcases h.reach_cases pageSize with ⟨hnone, hzero⟩ | ⟨last, hlast, hreach⟩
  · -- without pages nothing is below the reach, so nothing is touched and no page is made
    have huntouched (o : Nat) (ho : touched o) : False := by
      have hlt := htouched o ho
      rw [hzero] at hlt
      exact Nat.not_lt_zero o hlt
    have htidy := hconfined.tidy (fun o ho => (huntouched o ho).elim) h
    refine ⟨htidy, ?_⟩
    rcases htidy.reach_cases pageSize with ⟨-, hzero'⟩ | ⟨index, hpage, -⟩
    · rw [hzero, hzero']
    · rcases hconfined.hasPage_or hpage with hold | ⟨o, ho, -⟩
      · exact absurd hold (hnone index)
      · exact (huntouched o ho).elim
  · -- a page that is made is none behind the last one
    have hle (o : Nat) (ho : touched o) : o / pageSize ≤ last := by
      have hlt := htouched o ho
      rw [hreach] at hlt
      exact Nat.le_of_lt_succ ((Nat.div_lt_iff_lt_mul hpos).mpr hlt)
    have htidy := hconfined.tidy (fun o ho => Nat.le_trans (hle o ho) (h.le_maxIndex hlast)) h
    refine ⟨htidy, Nat.le_antisymm ?_ ?_⟩
    · rcases htidy.reach_cases pageSize with ⟨hnone, -⟩ | ⟨index, hpage, hreach'⟩
      · exact absurd (hconfined.hasPage hlast) (hnone last)
      · rw [hreach']
        rcases hconfined.hasPage_or hpage with hold | ⟨o, ho, rfl⟩
        · exact h.le_reach hold pageSize
        · rw [hreach]
          exact Nat.mul_le_mul_right _ (Nat.succ_le_succ (hle o ho))
    · rw [hreach]
      exact htidy.le_reach (hconfined.hasPage hlast) pageSize

end Disk

end PagedQueue
