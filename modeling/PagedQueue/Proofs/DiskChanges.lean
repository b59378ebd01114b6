import Std.Data.TreeMap.Lemmas
import PagedQueue.Procedure

/-!
# What the elementary changes do to a disk

A disk is sound if every named file exists and no file has two names (`Sound`); every change keeps
it so (`Sound.apply`). What a change does to the nodes and to the files is one equation for each
kind of change.

`Alike` disks have the same nodes and the same bytes in their files, and may differ in when those
were modified. A change takes alike disks to alike disks at whatever times it happens.

`Trail P` says that one host became another by changes and looks at the clock, and that `P` held of
the disk all the way, so after every one of the changes (`Trail.replay`).
-/

namespace PagedQueue

namespace Disk

/-- Every named file exists, and no file has two names. -/
structure Sound (d : Disk) : Prop where
  lt_size : ∀ {path id}, d.node? path = some (.file id) → id < d.files.size
  injective : ∀ {path other id}, d.node? path = some (.file id) → d.node? other = some (.file id) →
    path = other

/-- The bytes of the file that a path leads to. -/
def bytesAt? (d : Disk) (path : Path) : Option ByteArray := (d.fileAt? path).map File.bytes

/-- The file at a path, if a file stands there. -/
theorem fileAt?_of_file {d : Disk} {path : Path} {id : FileId}
    (h : d.node? path = some (.file id)) :
    d.fileAt? path = d.file? id := by
  rw [fileAt?, h]

theorem fileAt?_of_not_file {d : Disk} {path : Path} (h : ∀ id, d.node? path ≠ some (.file id)) :
    d.fileAt? path = none := by
  unfold fileAt?
  split
  next id heq => exact absurd heq (h id)
  next => rfl

theorem file?_eq_none {d : Disk} {id : FileId} (h : d.files.size ≤ id) : d.file? id = none :=
  Array.getElem?_eq_none h

/-- On a sound disk every name of a file leads to one. -/
theorem exists_file {d : Disk} (hsound : d.Sound) {path : Path} {id : FileId}
    (h : d.node? path = some (.file id)) : ∃ f, d.file? id = some f :=
  ⟨_, Array.getElem?_eq_getElem (hsound.lt_size h)⟩

end Disk

namespace Change

open Disk

variable {d : Disk} {now : Int}

/-! ## Nodes -/

/-- A directory that is made stands at its path, and nothing else moves. -/
@[simp]
theorem node?_makeDirectory (path other : Path) :
    ((makeDirectory path).apply now d).node? other
      = if path = other then some .directory else d.node? other := by
  simp [apply, node?, Std.TreeMap.getElem?_insert]

/-- So does a file that is created. -/
@[simp]
theorem node?_create (path other : Path) :
    ((create path).apply now d).node? other
      = if path = other then some (.file d.files.size) else d.node? other := by
  simp [apply, node?, Std.TreeMap.getElem?_insert]

@[simp]
theorem node?_extend (file : FileId) (size : Nat) (path : Path) :
    ((extend file size).apply now d).node? path = d.node? path := rfl

@[simp]
theorem node?_copy (file : FileId) (start : Nat) (bytes : List UInt8) (path : Path) :
    ((copy file start bytes).apply now d).node? path = d.node? path := rfl

/-- What is unlinked is gone, and nothing else. -/
@[simp]
theorem node?_unlink (path other : Path) :
    ((unlink path).apply now d).node? other = if path = other then none else d.node? other := by
  simp [apply, node?, Std.TreeMap.getElem?_erase]

/-! ## Files -/

@[simp]
theorem file?_makeDirectory (path : Path) (id : FileId) :
    ((makeDirectory path).apply now d).file? id = d.file? id := rfl

/-- A file that is created is empty and dated now. -/
@[simp]
theorem file?_create (path : Path) (id : FileId) :
    ((create path).apply now d).file? id
      = if id = d.files.size then some ⟨.empty, now⟩ else d.file? id :=
  Array.getElem?_push

/-- Only the file that is extended changes. -/
@[simp]
theorem file?_extend (file : FileId) (size : Nat) (id : FileId) :
    ((extend file size).apply now d).file? id
      = if file = id then (d.file? id).map (·.extend size now) else d.file? id :=
  Array.getElem?_modify

/-- Only the file that is written changes. -/
@[simp]
theorem file?_copy (file : FileId) (start : Nat) (bytes : List UInt8) (id : FileId) :
    ((copy file start bytes).apply now d).file? id
      = if file = id then (d.file? id).map (·.overwrite start bytes now) else d.file? id :=
  Array.getElem?_modify

/-- A file that loses its name keeps its bytes, for those who map it. -/
@[simp]
theorem file?_unlink (path : Path) (id : FileId) :
    ((unlink path).apply now d).file? id = d.file? id := rfl

/-- No file is ever lost, as a file without a name still has a number. -/
theorem size_le_apply (change : Change) : d.files.size ≤ (change.apply now d).files.size := by
  cases change <;> simp [apply]

end Change

namespace Disk

/-- Every change keeps a disk sound. -/
theorem Sound.apply {d : Disk} (h : d.Sound) (change : Change) (now : Int) :
    (change.apply now d).Sound := by
  have hkept : ∀ {path id}, d.node? path = some (.file id) → id < (change.apply now d).files.size :=
    fun hnode => Nat.lt_of_lt_of_le (h.lt_size hnode) (Change.size_le_apply change)
  cases change with
  | makeDirectory made =>
    have hold : ∀ {path id}, ((Change.makeDirectory made).apply now d).node? path = some
        (.file id) → d.node? path = some (.file id) := by
      intro path id hnode
      rw [Change.node?_makeDirectory] at hnode
      split at hnode
      · cases hnode
      · exact hnode
    exact ⟨fun hnode => hkept (hold hnode), fun hnode hother => h.injective (hold hnode)
      (hold hother)⟩
  | create made =>
    -- the new file has a number that no file had
    have hcases : ∀ {path id}, ((Change.create made).apply now d).node? path = some (.file id) →
        path = made ∧ id = d.files.size ∨ d.node? path = some (.file id) := by
      intro path id hnode
      rw [Change.node?_create] at hnode
      split at hnode
      next heq => cases hnode; exact .inl ⟨heq.symm, rfl⟩
      next => exact .inr hnode
    refine ⟨fun hnode => ?_, fun hnode hother => ?_⟩
    · rcases hcases hnode with ⟨-, rfl⟩ | hold
      · simp [Change.apply]
      · exact hkept hold
    · rcases hcases hnode with ⟨rfl, rfl⟩ | hold <;> rcases hcases hother with ⟨rfl, hid⟩ | hold'
      · rfl
      · exact absurd (h.lt_size hold') (Nat.lt_irrefl _)
      · exact absurd (hid ▸ h.lt_size hold) (Nat.lt_irrefl _)
      · exact h.injective hold hold'
  | extend file size =>
    exact ⟨fun hnode => hkept hnode, fun hnode hother => h.injective hnode hother⟩
  | copy file start bytes =>
    exact ⟨fun hnode => hkept hnode, fun hnode hother => h.injective hnode hother⟩
  | unlink gone =>
    have hold : ∀ {path id}, ((Change.unlink gone).apply now d).node? path = some (.file id) →
        d.node? path = some (.file id) := by
      intro path id hnode
      rw [Change.node?_unlink] at hnode
      split at hnode
      · cases hnode
      · exact hnode
    exact ⟨fun hnode => hkept (hold hnode), fun hnode hother => h.injective (hold hnode)
      (hold hother)⟩

/-! ## Disks that differ in times only -/

/-- The same nodes, the same bytes in the files, and the same files refused. -/
structure Alike (d d' : Disk) : Prop where
  nodes : d.nodes = d'.nodes
  refused : d.refused = d'.refused
  bytes : d.files.map File.bytes = d'.files.map File.bytes

namespace Alike

variable {d d' : Disk}

theorem refl (d : Disk) : Alike d d := ⟨rfl, rfl, rfl⟩

theorem symm (h : Alike d d') : Alike d' d := ⟨h.nodes.symm, h.refused.symm, h.bytes.symm⟩

/-- Disks that are alike name the same files. -/
theorem node? (h : Alike d d') (path : Path) : d.node? path = d'.node? path := by
  rw [Disk.node?, Disk.node?, h.nodes]

theorem files_size (h : Alike d d') : d.files.size = d'.files.size := by
  have hsize := congrArg Array.size h.bytes
  rwa [Array.size_map, Array.size_map] at hsize

/-- They hold the same bytes. -/
theorem file? (h : Alike d d') (id : FileId) :
    (d.file? id).map File.bytes = (d'.file? id).map File.bytes := by
  have hbytes := congrArg (·[id]?) h.bytes
  simp only [Array.getElem?_map] at hbytes
  exact hbytes

theorem bytesAt? (h : Alike d d') (path : Path) : d.bytesAt? path = d'.bytesAt? path := by
  unfold Disk.bytesAt? Disk.fileAt?
  rw [h.node? path]
  split
  · exact h.file? _
  · rfl

/-- A disk that differs only in its dates is as sound. -/
theorem sound (h : Alike d d') (hsound : d.Sound) : d'.Sound :=
  ⟨fun hnode => h.files_size ▸ hsound.lt_size ((h.node? _).trans hnode),
   fun hnode hother => hsound.injective ((h.node? _).trans hnode) ((h.node? _).trans hother)⟩

private theorem map_bytes_modify {f : File → File} {g : ByteArray → ByteArray}
    (hf : ∀ x, (f x).bytes = g x.bytes) (files : Array File) (file : FileId) :
    (files.modify file f).map File.bytes = (files.map File.bytes).modify file g := by
  apply Array.ext_getElem?
  intro i
  simp only [Array.getElem?_map, Array.getElem?_modify]
  split
  · cases files[i]? with
    | none => rfl
    | some x => exact congrArg some (hf x)
  · rfl

/-- A change takes alike disks to alike disks, at whatever times it happens to them. -/
theorem apply (h : Alike d d') (change : Change) (now now' : Int) :
    Alike (change.apply now d) (change.apply now' d') := by
  cases change with
  | makeDirectory path => exact ⟨by simp only [Change.apply, h.nodes], h.refused, h.bytes⟩
  | create path =>
    refine ⟨by simp only [Change.apply, h.nodes, h.files_size], h.refused, ?_⟩
    simp only [Change.apply, Array.map_push, h.bytes]
  | extend file size =>
    refine ⟨h.nodes, h.refused, ?_⟩
    simp only [Change.apply]
    rw [map_bytes_modify (g := (File.extendBytes · size)) fun _ => rfl,
      map_bytes_modify (g := (File.extendBytes · size)) fun _ => rfl, h.bytes]
  | copy file start bytes =>
    refine ⟨h.nodes, h.refused, ?_⟩
    simp only [Change.apply]
    rw [map_bytes_modify (g := (File.overwriteBytes · start bytes)) fun _ => rfl,
      map_bytes_modify (g := (File.overwriteBytes · start bytes)) fun _ => rfl, h.bytes]
  | unlink path => exact ⟨by simp only [Change.apply, h.nodes], h.refused, h.bytes⟩

end Alike

/-- The disk after changes, each at the time that stands beside it. -/
def replay (d : Disk) (changes : List (Int × Change)) : Disk :=
  changes.foldl (fun d (now, change) => change.apply now d) d

/-- Changes made one after another. -/
theorem replay_append (d : Disk) (changes more : List (Int × Change)) :
    d.replay (changes ++ more) = (d.replay changes).replay more :=
  List.foldl_append

end Disk

/-! ## Trails -/

open Disk (Alike)

/-- The first host became the second by changes and looks at the clock, and `P` held of its disk
from the beginning to the end. -/
inductive Trail (P : Disk → Prop) (h : Host) : Host → Prop
  | start (hP : P h.disk) : Trail P h h
  | look {h' : Host} (before : Trail P h h') : Trail P h h'.looked
  | change {h' : Host} (before : Trail P h h') (c : Change) (hP : P (h'.perform c).disk) :
      Trail P h (h'.perform c)

namespace Trail

variable {P Q : Disk → Prop} {h h' h'' : Host}

/-- What holds of every disk of a trail holds of the last. -/
theorem last (t : Trail P h h') : P h'.disk := by
  induction t with
  | start hP => exact hP
  | look _ ih => exact ih
  | change _ _ hP _ => exact hP

/-- A trail of disks that keep more is a trail of disks that keep less. -/
theorem mono (t : Trail P h h') (hPQ : ∀ d, P d → Q d) : Trail Q h h' := by
  induction t with
  | start hP => exact .start (hPQ _ hP)
  | look _ ih => exact .look ih
  | change _ c hP ih => exact .change ih c (hPQ _ hP)

/-- One trail goes on where the other ends. -/
theorem trans (t : Trail P h h') (t' : Trail P h' h'') : Trail P h h'' := by
  induction t' with
  | start _ => exact t
  | look _ ih => exact .look ih
  | change _ c hP ih => exact .change ih c hP

/-- What the journal gained on the way leads from the first disk to the last one, and any first part
of it leads to a disk of which `P` holds, if `P` does not look at times. -/
theorem exists_changes (t : Trail P h h') (halike : ∀ d d', Alike d d' → P d → P d') :
    ∃ changes : List Change, h'.journal = changes.reverse ++ h.journal
      ∧ (∀ stamped : List (Int × Change), stamped.map Prod.snd = changes →
          Alike (h.disk.replay stamped) h'.disk)
      ∧ ∀ done : List (Int × Change), done.map Prod.snd <+: changes → P (h.disk.replay done) := by
  induction t with
  | start hP =>
    refine ⟨[], rfl, fun stamped hstamped => ?_, fun done hdone => ?_⟩
    · rw [List.map_eq_nil_iff.mp hstamped]
      exact Alike.refl _
    · rw [List.map_eq_nil_iff.mp (List.prefix_nil.mp hdone)]
      exact hP
  | look _ ih => exact ih
  | @change h' before c hP ih =>
    obtain ⟨changes, hjournal, hlast, hall⟩ := ih
    -- replayed at other times, the changes lead to a disk that is alike
    have hfull : ∀ stamped : List (Int × Change), stamped.map Prod.snd = changes ++ [c] →
        Alike (h.disk.replay stamped) (h'.perform c).disk := by
      intro stamped hstamped
      obtain ⟨front, back, rfl, hfront, hback⟩ := List.map_eq_append_iff.mp hstamped
      obtain ⟨⟨now, _⟩, rfl, rfl⟩ := List.map_eq_singleton_iff.mp hback
      rw [Disk.replay_append]
      exact (hlast front hfront).apply _ now h'.now
    refine ⟨changes ++ [c], ?_, hfull, fun done hdone => ?_⟩
    · simp [Host.perform, hjournal]
    · rcases List.prefix_concat_iff.mp hdone with heq | hpre
      · exact halike _ _ (hfull done heq).symm hP
      · exact hall done hpre

end Trail

end PagedQueue
