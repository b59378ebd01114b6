import PagedQueue.Proofs.ByteSpace
import PagedQueue.Proofs.DiskChanges
import PagedQueue.Proofs.PageNames

/-!
# The byte space of a directory of pages

The page files of a directory make up one space of bytes (`Disk.space`): the byte at an offset lies
in the page whose number is the offset divided by the page size, and is zero where there is no such
file or the file ends before.

What an access to pages may do to a disk on its way is `Confined`: new page files may appear for the
pages that the access touches, files may grow, and the bytes of the space change only in the range
that is written. Making a page file and filling it up change no byte at all (`confined_create`,
`confined_extend`), and a copy into a page writes its range of the space and nothing else
(`space_copy`, `confined_copy`).
-/

namespace PagedQueue

/-- The offsets of a range. -/
def InRange (start length o : Nat) : Prop := start ≤ o ∧ o < start + length

namespace Disk

/-- The path of the file of a page. -/
def pagePath (directory : Path) (index : Nat) : Path := directory ++ [PageName.ofIndex index]

@[simp]
theorem pagePath_inj {directory : Path} {i j : Nat} :
    pagePath directory i = pagePath directory j ↔ i = j := by
  simp [pagePath]

@[simp]
theorem dropLast_pagePath (directory : Path) (index : Nat) :
    (pagePath directory index).dropLast = directory :=
  List.dropLast_concat

/-- Whether a directory has the file of a page. -/
def HasPage (d : Disk) (directory : Path) (index : Nat) : Prop :=
  ∃ id, d.node? (pagePath directory index) = some (.file id)

/-- Whether the file of a page is there or can be made, and is not refused. -/
structure Mappable (d : Disk) (directory : Path) (index : Nat) : Prop where
  not_refused : pagePath directory index ∉ d.refused
  obtainable : d.HasPage directory index
    ∨ d.node? (pagePath directory index) = none ∧ d.node? directory = some .directory

/-- A page cannot be mapped: its file is refused, or a directory stands in its place. -/
def Barred (d : Disk) (directory : Path) (index : Nat) : Prop :=
  pagePath directory index ∈ d.refused ∨ d.node? (pagePath directory index) = some .directory

/-- Whether every page of a directory is there or can be made, and none is refused. -/
structure Openable (d : Disk) (directory : Path) : Prop where
  isDirectory : d.node? directory = some .directory
  not_directory : ∀ index, d.node? (pagePath directory index) ≠ some .directory
  not_refused : ∀ index, pagePath directory index ∉ d.refused

/-- The bytes of the pages of a directory, one page behind the other. -/
def space (d : Disk) (directory : Path) (pageSize : Nat) : ByteSpace := fun o =>
  match d.fileAt? (pagePath directory (o / pageSize)) with
  | some f => f.byte (o % pageSize)
  | none => 0

variable {d d' d'' : Disk} {directory : Path} {pageSize : Nat}

/-- In a directory that is there only such pages cannot be mapped. -/
theorem barred_of_not_mappable {index : Nat} (hdirectory : d.node? directory = some .directory)
    (h : ¬ d.Mappable directory index) : d.Barred directory index := by
  by_contra hbarred
  have hallowed : pagePath directory index ∉ d.refused := fun hrefused => hbarred (.inl hrefused)
  rcases hnode : d.node? (pagePath directory index) with _ | _ | id
  · exact h ⟨hallowed, .inr ⟨hnode, hdirectory⟩⟩
  · exact hbarred (.inr hnode)
  · exact h ⟨hallowed, .inl ⟨id, hnode⟩⟩

/-- A page that is there is barred only if its file is refused. -/
theorem Barred.refused {index : Nat} (h : d.Barred directory index)
    (hpage : d.HasPage directory index) :
    pagePath directory index ∈ d.refused := by
  refine h.resolve_right fun hnode => ?_
  obtain ⟨id, hid⟩ := hpage
  rw [hnode] at hid
  cases hid

theorem Openable.mappable (h : d.Openable directory) (index : Nat) :
    d.Mappable directory index := by
  refine ⟨h.not_refused index, ?_⟩
  rcases hnode : d.node? (pagePath directory index) with _ | _ | id
  · exact .inr ⟨rfl, h.isDirectory⟩
  · exact absurd hnode (h.not_directory index)
  · exact .inl ⟨id, hnode⟩

theorem space_eq (d : Disk) (directory : Path) (pageSize o : Nat) :
    d.space directory pageSize o
      = ((d.bytesAt? (pagePath directory (o / pageSize))).map fun bytes =>
          File.byte ⟨bytes, 0⟩ (o % pageSize)).getD 0 := by
  unfold space bytesAt?
  cases d.fileAt? (pagePath directory (o / pageSize)) <;> rfl

theorem Alike.space (h : Alike d d') :
    d.space directory pageSize = d'.space directory pageSize := by
  funext o
  rw [space_eq, space_eq, h.bytesAt?]

/-- A byte of the space is the byte of its page file. -/
theorem space_of_file {id : FileId} {f : File} {o : Nat}
    (hnode : d.node? (pagePath directory (o / pageSize)) = some (.file id))
    (hfile : d.file? id = some f) : d.space directory pageSize o = f.byte (o % pageSize) := by
  rw [Disk.space, fileAt?_of_file hnode, hfile]

/-- Where no page is the space is zero. -/
theorem space_of_no_page {o : Nat} (h : ¬ d.HasPage directory (o / pageSize)) :
    d.space directory pageSize o = 0 := by
  rw [Disk.space, fileAt?_of_not_file fun id hnode => h ⟨id, hnode⟩]

/-- The byte at an offset of the file that a path leads to, if the file reaches so far. -/
def byteAt? (d : Disk) (path : Path) (o : Nat) : Option UInt8 :=
  (d.fileAt? path).bind fun f => if o < f.size then some (f.byte o) else none

/-- Some of the offsets lie at this place: in the page at the path, so far from its beginning. -/
def PlaceOf (directory : Path) (pageSize : Nat) (offsets : Nat → Prop) (path : Path) (o : Nat) :
    Prop :=
  ∃ x, offsets x ∧ path = pagePath directory (x / pageSize) ∧ o = x % pageSize

/-- A file has the bytes below its size. -/
theorem byteAt?_of_file {path : Path} {id : FileId} {f : File} {o : Nat}
    (hnode : d.node? path = some (.file id)) (hfile : d.file? id = some f) :
    d.byteAt? path o = if o < f.size then some (f.byte o) else none := by
  rw [byteAt?, fileAt?_of_file hnode, hfile, Option.bind_some]

theorem PlaceOf.mono {offsets offsets' : Nat → Prop} {path : Path} {o : Nat}
    (h : PlaceOf directory pageSize offsets path o) (hoffsets : ∀ x, offsets x → offsets' x) :
    PlaceOf directory pageSize offsets' path o := by
  obtain ⟨x, hx, hplace⟩ := h
  exact ⟨x, hoffsets x hx, hplace⟩

/-! ## Confined changes -/

/-- How a disk may differ from an earlier one when the pages of the offsets `touched` were opened
and only bytes at the offsets `written` were replaced. -/
structure Confined (directory : Path) (pageSize : Nat) (touched written : Nat → Prop)
    (d d' : Disk) : Prop where
  sound : d'.Sound
  refused : d'.refused = d.refused
  kept : ∀ {path node}, d.node? path = some node → d'.node? path = some node
  fresh : ∀ {path node}, d'.node? path = some node → d.node? path = some node
    ∨ ∃ o, touched o ∧ path = pagePath directory (o / pageSize) ∧ ∃ id, node = .file id
  sizeOf_le : ∀ id, d.sizeOf (.file id) ≤ d'.sizeOf (.file id)
  elsewhere : ∀ path, path.dropLast ≠ directory → d'.bytesAt? path = d.bytesAt? path
  space_eq : ∀ o, ¬ written o → d'.space directory pageSize o = d.space directory pageSize o
  bytes : ∀ {path o byte}, ¬ PlaceOf directory pageSize written path o →
    d.byteAt? path o = some byte → d'.byteAt? path o = some byte

namespace Confined

variable {touched touched' written written' : Nat → Prop}

theorem refl (hsound : d.Sound) : Confined directory pageSize touched written d d where
  sound := hsound
  refused := rfl
  kept := id
  fresh := .inl
  sizeOf_le _ := Nat.le_refl _
  elsewhere _ _ := rfl
  space_eq _ _ := rfl
  bytes _ hbyte := hbyte

theorem mono (h : Confined directory pageSize touched written d d')
    (htouched : ∀ o, touched o → touched' o) (hwritten : ∀ o, written o → written' o) :
    Confined directory pageSize touched' written' d d' where
  sound := h.sound
  refused := h.refused
  kept := h.kept
  fresh hnode := (h.fresh hnode).imp_right fun ⟨o, ho, hrest⟩ => ⟨o, htouched o ho, hrest⟩
  sizeOf_le := h.sizeOf_le
  elsewhere := h.elsewhere
  space_eq o ho := h.space_eq o fun hw => ho (hwritten o hw)
  bytes ho := h.bytes fun hplace => ho (hplace.mono hwritten)

/-- One confined change after another is confined. -/
theorem trans (h : Confined directory pageSize touched written d d')
    (h' : Confined directory pageSize touched written d' d'') :
    Confined directory pageSize touched written d d'' where
  sound := h'.sound
  refused := h'.refused.trans h.refused
  kept hnode := h'.kept (h.kept hnode)
  fresh hnode := (h'.fresh hnode).elim h.fresh .inr
  sizeOf_le id := Nat.le_trans (h.sizeOf_le id) (h'.sizeOf_le id)
  elsewhere path hpath := (h'.elsewhere path hpath).trans (h.elsewhere path hpath)
  space_eq o ho := (h'.space_eq o ho).trans (h.space_eq o ho)
  bytes ho hbyte := h'.bytes ho (h.bytes ho hbyte)

/-- Outside the directory no name appears or goes. -/
theorem node?_elsewhere (h : Confined directory pageSize touched written d d') {path : Path}
    (hpath : path.dropLast ≠ directory) : d'.node? path = d.node? path := by
  cases hnode : d.node? path with
  | some node => exact h.kept hnode
  | none =>
    cases hnode' : d'.node? path with
    | none => rfl
    | some node =>
      rcases h.fresh hnode' with hold | ⟨o, -, rfl, -⟩
      · rw [hnode] at hold
        cases hold
      · exact absurd (dropLast_pagePath ..) hpath

/-- Directories stay what they are, and no other node becomes one. -/
theorem node?_directory_iff (h : Confined directory pageSize touched written d d') (path : Path) :
    d'.node? path = some .directory ↔ d.node? path = some .directory := by
  refine ⟨fun hnode => ?_, h.kept⟩
  rcases h.fresh hnode with hold | ⟨_, _, _, _, hfile⟩
  · exact hold
  · cases hfile

/-- Every directory that could be opened can still be. -/
theorem openable (h : Confined directory pageSize touched written d d') {other : Path}
    (hopenable : d.Openable other) : d'.Openable other :=
  ⟨h.kept hopenable.isDirectory,
   fun index hnode => hopenable.not_directory index ((h.node?_directory_iff _).mp hnode),
   h.refused ▸ hopenable.not_refused⟩

/-- No page is lost. -/
theorem hasPage (h : Confined directory pageSize touched written d d') {other : Path} {index : Nat}
    (hpage : d.HasPage other index) : d'.HasPage other index :=
  hpage.imp fun _ => h.kept

/-- New pages are pages of offsets that were touched. -/
theorem hasPage_or (h : Confined directory pageSize touched written d d') {index : Nat}
    (hpage : d'.HasPage directory index) :
    d.HasPage directory index ∨ ∃ o, touched o ∧ o / pageSize = index := by
  obtain ⟨id, hnode⟩ := hpage
  rcases h.fresh hnode with hold | ⟨o, ho, hpath, -⟩
  · exact .inl ⟨id, hold⟩
  · exact .inr ⟨o, ho, (pagePath_inj.mp hpath).symm⟩

/-- A page that could be mapped can still be. -/
theorem mappable (h : Confined directory pageSize touched written d d') {index : Nat}
    (hmappable : d.Mappable directory index) : d'.Mappable directory index := by
  refine ⟨h.refused ▸ hmappable.not_refused, ?_⟩
  rcases hmappable.obtainable with hpage | ⟨hnone, hdirectory⟩
  · exact .inl (h.hasPage hpage)
  · cases hnode : d'.node? (pagePath directory index) with
    | none => exact .inr ⟨rfl, h.kept hdirectory⟩
    | some node =>
      rcases h.fresh hnode with hold | ⟨_, _, _, id, rfl⟩
      · rw [hnone] at hold
        cases hold
      · exact .inl ⟨id, hnode⟩

/-- The space of another directory stays. -/
theorem space_elsewhere (h : Confined directory pageSize touched written d d') {other : Path}
    (hother : other ≠ directory) (size : Nat) : d'.space other size = d.space other size := by
  funext o
  rw [Disk.space_eq, Disk.space_eq, h.elsewhere _ (by rwa [dropLast_pagePath])]

end Confined

/-! ## The changes of an access -/

variable {touched written : Nat → Prop} {now : Int}

private theorem sizeOf_file (d : Disk) (id : FileId) :
    d.sizeOf (.file id) = ((d.file? id).map File.size).getD 0 := rfl

/-- Making the file of a page changes no byte. -/
theorem confined_create (hsound : d.Sound) {o : Nat} (ho : touched o)
    (hnone : d.node? (pagePath directory (o / pageSize)) = none) :
    Confined directory pageSize touched written d
      ((Change.create (pagePath directory (o / pageSize))).apply now d) := by
  have hfile {path : Path} (hpath : pagePath directory (o / pageSize) ≠ path) :
      ((Change.create (pagePath directory (o / pageSize))).apply now d).fileAt? path
        = d.fileAt? path := by
    unfold fileAt?
    rw [Change.node?_create, if_neg hpath]
    split
    next id heq =>
      rw [Change.file?_create, if_neg (Nat.ne_of_lt (hsound.lt_size heq))]
    next => rfl
  refine ⟨hsound.apply _ now, rfl, fun {path node} hnode => ?_, fun {path node} hnode => ?_,
    fun id => ?_, fun path hpath => ?_, fun p _ => ?_, fun {path i byte} _ hbyte => ?_⟩
  · rw [Change.node?_create, if_neg]
    · exact hnode
    · intro heq
      subst heq
      rw [hnone] at hnode
      cases hnode
  · rw [Change.node?_create] at hnode
    split at hnode
    next heq => exact .inr ⟨o, ho, heq.symm, d.files.size, (Option.some.inj hnode).symm⟩
    next => exact .inl hnode
  · rw [sizeOf_file, sizeOf_file, Change.file?_create]
    split
    next heq => rw [heq, file?_eq_none (Nat.le_refl _)]; exact Nat.zero_le _
    next => exact Nat.le_refl _
  · rw [bytesAt?, bytesAt?, hfile]
    intro heq
    subst heq
    exact hpath (dropLast_pagePath ..)
  · -- no file had the name before, so its bytes were read as zeros
    by_cases hpage : p / pageSize = o / pageSize
    · have hblank : (File.mk .empty now).byte (p % pageSize) = 0 := rfl
      have hnode : ((Change.create (pagePath directory (o / pageSize))).apply now d).node?
          (pagePath directory (p / pageSize)) = some (.file d.files.size) := by
        rw [Change.node?_create, if_pos (by rw [hpage])]
      have hnew : ((Change.create (pagePath directory (o / pageSize))).apply now d).file?
          d.files.size = some ⟨.empty, now⟩ := by
        rw [Change.file?_create, if_pos rfl]
      rw [space_of_file hnode hnew, hblank, space_of_no_page]
      intro hand
      obtain ⟨id, hold⟩ := hand
      rw [hpage, hnone] at hold
      cases hold
    · rw [space, space, hfile]
      exact fun heq => hpage (pagePath_inj.mp heq).symm
  · rw [byteAt?, hfile]
    · exact hbyte
    · intro heq
      subst heq
      rw [byteAt?, fileAt?_of_not_file fun id hnode => by rw [hnone] at hnode; cases hnode] at hbyte
      cases hbyte

/-- A change of the bytes of one file shows at no path but its own. -/
private theorem fileAt?_apply_of_ne (change : Change) (hsound : d.Sound) {path other : Path}
    {id : FileId} (hnode : d.node? path = some (.file id)) (hother : other ≠ path)
    (hnodes : ∀ p, (change.apply now d).node? p = d.node? p)
    (hfiles : ∀ i, i ≠ id → (change.apply now d).file? i = d.file? i) :
    (change.apply now d).fileAt? other = d.fileAt? other := by
  unfold fileAt?
  rw [hnodes]
  split
  next i heq =>
    refine hfiles i ?_
    intro heq
    subst heq
    exact hother (hsound.injective heq hnode)
  next => rfl

/-- Files at other paths are not extended. -/
private theorem fileAt?_extend_of_ne (hsound : d.Sound) {path other : Path} {id : FileId}
    (size : Nat) (hnode : d.node? path = some (.file id)) (hother : other ≠ path) :
    ((Change.extend id size).apply now d).fileAt? other = d.fileAt? other :=
  fileAt?_apply_of_ne _ hsound hnode hother (fun _ => rfl) fun i hi => by
    rw [Change.file?_extend, if_neg hi.symm]

/-- They are not written either. -/
private theorem fileAt?_copy_of_ne (hsound : d.Sound) {path other : Path} {id : FileId}
    (start : Nat) (bytes : List UInt8) (hnode : d.node? path = some (.file id))
    (hother : other ≠ path) :
    ((Change.copy id start bytes).apply now d).fileAt? other = d.fileAt? other :=
  fileAt?_apply_of_ne _ hsound hnode hother (fun _ => rfl) fun i hi => by
    rw [Change.file?_copy, if_neg hi.symm]

/-- Filling the file of a page up with zeros changes no byte. -/
theorem confined_extend (hsound : d.Sound) {index : Nat} {id : FileId} {size : Nat}
    (hnode : d.node? (pagePath directory index) = some (.file id)) :
    Confined directory pageSize touched written d ((Change.extend id size).apply now d) := by
  refine ⟨hsound.apply _ now, rfl, fun hold => hold, fun hnew => .inl hnew, fun i => ?_,
    fun path hpath => ?_, fun p _ => ?_, fun {path i byte} _ hbyte => ?_⟩
  · rw [sizeOf_file, sizeOf_file, Change.file?_extend]
    split
    · cases d.file? i with
      | none => exact Nat.le_refl _
      | some f =>
        simp only [Option.map_some, Option.getD_some, File.size_extend]
        exact Nat.le_max_left ..
    · exact Nat.le_refl _
  · rw [bytesAt?, bytesAt?, fileAt?_extend_of_ne hsound size hnode]
    intro heq
    subst heq
    exact hpath (dropLast_pagePath ..)
  · -- only zeros are added, and behind the end zeros were read
    by_cases hpage : p / pageSize = index
    · obtain ⟨f, hf⟩ := exists_file hsound hnode
      subst hpage
      have hnew : ((Change.extend id size).apply now d).file? id = some (f.extend size now) := by
        rw [Change.file?_extend, if_pos rfl, hf, Option.map_some]
      have hnode' : ((Change.extend id size).apply now d).node? (pagePath directory (p / pageSize))
          = some (.file id) := hnode
      rw [space_of_file hnode' hnew, space_of_file hnode hf, File.byte_extend]
    · rw [space, space, fileAt?_extend_of_ne hsound size hnode]
      exact fun heq => hpage (pagePath_inj.mp heq)
  · by_cases hpath : path = pagePath directory index
    · obtain ⟨f, hf⟩ := exists_file hsound hnode
      subst hpath
      have hnew : ((Change.extend id size).apply now d).file? id = some (f.extend size now) := by
        rw [Change.file?_extend, if_pos rfl, hf, Option.map_some]
      rw [byteAt?_of_file hnode hf] at hbyte
      have hlt : i < f.size := by
        by_contra hge
        rw [if_neg hge] at hbyte
        cases hbyte
      rw [byteAt?_of_file (d := (Change.extend id size).apply now d) hnode hnew, File.byte_extend,
        File.size_extend, if_pos (Nat.lt_of_lt_of_le hlt (Nat.le_max_left ..)), ← hbyte, if_pos hlt]
    · rw [byteAt?, fileAt?_extend_of_ne hsound size hnode hpath]
      exact hbyte

/-- A copy into a page that is as large as a page writes its range of the space. -/
theorem space_copy (hsound : d.Sound) {index : Nat} {id : FileId} {start : Nat} {bytes : List UInt8}
    (hnode : d.node? (pagePath directory index) = some (.file id))
    (hsize : pageSize ≤ d.sizeOf (.file id)) (hle : index * pageSize ≤ start)
    (hlt : start + bytes.length ≤ (index + 1) * pageSize) (now : Int) :
    ((Change.copy id (start - index * pageSize) bytes).apply now d).space directory pageSize
      = (d.space directory pageSize).write start bytes := by
  obtain ⟨f, hf⟩ := exists_file hsound hnode
  have hf_size : pageSize ≤ f.size := by
    rw [sizeOf_file, hf] at hsize
    exact hsize
  rw [Nat.add_mul, Nat.one_mul] at hlt
  funext p
  by_cases hpage : p / pageSize = index
  · subst hpage
    have hp := Nat.div_add_mod p pageSize
    rw [Nat.mul_comm] at hp
    have hnew : ((Change.copy id (start - p / pageSize * pageSize) bytes).apply now d).file? id
        = some (f.overwrite (start - p / pageSize * pageSize) bytes now) := by
      rw [Change.file?_copy, if_pos rfl, hf, Option.map_some]
    have hnode' : ((Change.copy id (start - p / pageSize * pageSize) bytes).apply now d).node?
        (pagePath directory (p / pageSize)) = some (.file id) := hnode
    rw [space_of_file hnode' hnew, File.byte_overwrite]
    -- inside the page, the range of the copy decides
    by_cases hin : start ≤ p ∧ p < start + bytes.length
    · have hsub : p % pageSize - (start - p / pageSize * pageSize) = p - start := by omega
      rw [if_pos (by omega), hsub, ByteSpace.write_of_mem hin.1 hin.2,
        List.getD_eq_getElem _ _ (by omega), List.getD_eq_getElem _ _ (by omega)]
    · rw [ByteSpace.write_of_not_mem hin, space_of_file hnode hf]
      split
      · exact List.getD_eq_default _ _ (by omega)
      · rfl
  · have hother : pagePath directory (p / pageSize) ≠ pagePath directory index :=
      fun heq => hpage (pagePath_inj.mp heq)
    -- the range lies inside the page, so it does not touch others
    have hout : ¬ (start ≤ p ∧ p < start + bytes.length) := by
      intro hand
      obtain ⟨hstart, hstop⟩ := hand
      apply hpage
      exact Nat.div_eq_of_lt_le (by omega) (by rw [Nat.add_mul, Nat.one_mul]; omega)
    rw [ByteSpace.write_of_not_mem hout, space, space,
      fileAt?_copy_of_ne hsound _ bytes hnode hother]

/-- A copy into a page changes no byte but those of its range. -/
theorem confined_copy (hsound : d.Sound) {index : Nat} {id : FileId} {start : Nat}
    {bytes : List UInt8} (hnode : d.node? (pagePath directory index) = some (.file id))
    (hsize : pageSize ≤ d.sizeOf (.file id)) (hle : index * pageSize ≤ start)
    (hlt : start + bytes.length ≤ (index + 1) * pageSize)
    (hwritten : ∀ o, InRange start bytes.length o → written o) (now : Int) :
    Confined directory pageSize touched written d
      ((Change.copy id (start - index * pageSize) bytes).apply now d) := by
  refine ⟨hsound.apply _ now, rfl, fun hold => hold, fun hnew => .inl hnew, fun i => ?_,
    fun path hpath => ?_, fun p hp => ?_, fun {path i byte} hplace hbyte => ?_⟩
  · rw [sizeOf_file, sizeOf_file, Change.file?_copy]
    split
    · cases d.file? i with
      | none => exact Nat.le_refl _
      | some f => simp
    · exact Nat.le_refl _
  · rw [bytesAt?, bytesAt?, fileAt?_copy_of_ne hsound _ bytes hnode]
    intro heq
    subst heq
    exact hpath (dropLast_pagePath ..)
  · rw [space_copy hsound hnode hsize hle hlt now]
    exact ByteSpace.write_of_not_mem fun hin => hp (hwritten p hin)
  · by_cases hpath : path = pagePath directory index
    · obtain ⟨f, hf⟩ := exists_file hsound hnode
      subst hpath
      have hnew : ((Change.copy id (start - index * pageSize) bytes).apply now d).file? id
          = some (f.overwrite (start - index * pageSize) bytes now) := by
        rw [Change.file?_copy, if_pos rfl, hf, Option.map_some]
      rw [byteAt?_of_file hnode hf] at hbyte
      rw [byteAt?_of_file (d := (Change.copy id _ bytes).apply now d) hnode hnew,
        File.size_overwrite, File.byte_overwrite, ← hbyte]
      -- inside the page, a byte that is replaced is at the place of one that may be written
      by_cases hin : start - index * pageSize ≤ i ∧ i < start - index * pageSize + bytes.length
      · rw [Nat.add_mul, Nat.one_mul] at hlt
        have hdiv : (index * pageSize + i) / pageSize = index :=
          Nat.div_eq_of_lt_le (by omega) (by rw [Nat.add_mul, Nat.one_mul]; omega)
        have hmod := Nat.div_add_mod (index * pageSize + i) pageSize
        rw [hdiv, Nat.mul_comm] at hmod
        exact absurd ⟨index * pageSize + i, hwritten _ ⟨by omega, by omega⟩, by rw [hdiv], by omega⟩
          hplace
      · have hgetD : start - index * pageSize ≤ i →
            bytes.getD (i - (start - index * pageSize)) (f.byte i) = f.byte i :=
          fun hge => List.getD_eq_default _ _ (by omega)
        split
        · split
          next hcover => rw [hgetD hcover.1]
          next => rfl
        · rfl
    · rw [byteAt?, fileAt?_copy_of_ne hsound _ bytes hnode hpath]
      exact hbyte

end Disk

end PagedQueue
