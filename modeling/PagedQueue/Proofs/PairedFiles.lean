import PagedQueue.Proofs.MatchingPages
import PagedQueue.Proofs.TwinRuns

/-!
# Files that cannot be told apart

Two files over one directory of two disks are paired if the directory matches and both are as long
(`PagedFile.Paired`). What is in their caches, what was written before what, and what the clocks
show may differ. Whatever is done with one of them and with the other comes to the same answer and
leaves them paired (`PagedFile.twins_writeBytes`, …); and outside of the directory nothing is
changed, so other files stay what they are.
-/

namespace PagedQueue

open Procedure
open Disk (Matches Spares)
open PageStore (Same Touches)

namespace PagedFile

/-- The file lies over a directory, and since the disk was `d` nothing was changed outside of it. -/
structure StaysIn (directory : Path) (pageSize : Nat) (d : Disk) (s : Session PagedFile) :
    Prop where
  directory_eq : s.memory.store.directory = directory
  pageSize_eq : s.memory.store.pageSize = pageSize
  spares : Spares directory d s.host.disk

/-- Two files over one directory, which matches from a number on. -/
structure Beside (directory : Path) (pageSize low : Nat) (d e : Disk) (s t : Session PagedFile) :
    Prop where
  left : StaysIn directory pageSize d s
  right : StaysIn directory pageSize e t
  pages : s.host.disk.Matches t.host.disk directory pageSize low

/-- Two files that cannot be told apart. -/
structure Paired (directory : Path) (pageSize : Nat) (d e : Disk) (s t : Session PagedFile) : Prop
    extends Beside directory pageSize 0 d e s t where
  leftCoherent : s.memory.store.Coherent s.host.disk
  rightCoherent : t.memory.store.Coherent t.host.disk
  length_eq : s.memory.length = t.memory.length

variable {directory : Path} {pageSize low : Nat} {d e : Disk} {s t u v : Session PagedFile}

namespace StaysIn

/-- A session goes on within its disk as long as nothing beside its files is touched. -/
theorem goOn (h : StaysIn directory pageSize d s) (hsame : Same s.memory.store u.memory.store)
    (hspares : Spares directory s.host.disk u.host.disk) : StaysIn directory pageSize d u :=
  ⟨hsame.directory.trans h.directory_eq, hsame.pageSize.trans h.pageSize_eq, h.spares.trans hspares⟩

/-- What it holds is what stands on its disk. -/
theorem bytesOf_eq (h : StaysIn directory pageSize d s) :
    bytesOf s = s.host.disk.space directory pageSize := by
  rw [bytesOf, PageStore.contents, Session.memory_part, h.directory_eq, h.pageSize_eq]
  rfl

/-- What an access to the pages did it did in the directory. -/
theorem confined {touched written : Nat → Prop} (h : StaysIn directory pageSize d s)
    (hu : Touches touched written (s.part store) (u.part store)) :
    Disk.Confined directory pageSize touched written s.host.disk u.host.disk := by
  have hc := hu.last
  rw [Session.memory_part, h.directory_eq, h.pageSize_eq] at hc
  exact hc

end StaysIn

/-- Pairing does not tell its two sides apart. -/
theorem Paired.symm (h : Paired directory pageSize d e s t) : Paired directory pageSize e d t s :=
  ⟨⟨h.right, h.left, h.pages.symm⟩, h.rightCoherent, h.leftCoherent, h.length_eq.symm⟩

/-- The pages of one range were opened on both sides, and the bytes are the same again. -/
theorem Paired.touched {start length : Nat} {written written' : Nat → Prop}
    (h : Paired directory pageSize d e s t)
    (hu : Touches (InRange start length) written (s.part store) (u.part store))
    (hv : Touches (InRange start length) written' (t.part store) (v.part store))
    (hupages : u.host.disk.HasPages directory pageSize start length)
    (hvpages : v.host.disk.HasPages directory pageSize start length)
    (husized : u.host.disk.Sized directory pageSize)
    (hvsized : v.host.disk.Sized directory pageSize)
    (hbytes : bytesOf u = bytesOf v) (hlength : u.memory.length = v.memory.length) :
    Paired directory pageSize d e u v := by
  have hsame : Same s.memory.store u.memory.store := hu.same
  have hsame' : Same t.memory.store v.memory.store := hv.same
  have hc := h.left.confined hu
  have hc' := h.right.confined hv
  have hleft := h.left.goOn hsame (.of_confined h.pages.left.sound hc)
  have hright := h.right.goOn hsame' (.of_confined h.pages.right.sound hc')
  rw [hleft.bytesOf_eq, hright.bytesOf_eq] at hbytes
  exact ⟨⟨hleft, hright, h.pages.confined hc hc' hupages hvpages husized hvsized hbytes⟩,
    hu.coherent, hv.coherent, hlength⟩

/-- Both disks stay, and only the caches change. -/
theorem Paired.quiet (h : Paired directory pageSize d e s t) (hu : u.host.disk = s.host.disk)
    (hv : v.host.disk = t.host.disk) (hsame : Same s.memory.store u.memory.store)
    (hsame' : Same t.memory.store v.memory.store) (hcoherent : u.memory.store.Coherent u.host.disk)
    (hcoherent' : v.memory.store.Coherent v.host.disk)
    (hlength : u.memory.length = v.memory.length) :
    Paired directory pageSize d e u v where
  left := h.left.goOn hsame (by rw [hu]; exact .refl h.pages.left.sound)
  right := h.right.goOn hsame' (by rw [hv]; exact .refl h.pages.right.sound)
  pages := by
    rw [hu, hv]
    exact h.pages
  leftCoherent := hcoherent
  rightCoherent := hcoherent'
  length_eq := hlength

/-! ## Beside another directory -/

/-- A pairing may be counted from the disks it has come to. -/
theorem Beside.rebase (h : Beside directory pageSize low d e s t) :
    Beside directory pageSize low s.host.disk t.host.disk s t where
  left := ⟨h.left.directory_eq, h.left.pageSize_eq, .refl h.pages.left.sound⟩
  right := ⟨h.right.directory_eq, h.right.pageSize_eq, .refl h.pages.right.sound⟩
  pages := h.pages

/-- So may that of two sides. -/
theorem Paired.rebase (h : Paired directory pageSize d e s t) :
    Paired directory pageSize s.host.disk t.host.disk s t :=
  ⟨h.toBeside.rebase, h.leftCoherent, h.rightCoherent, h.length_eq⟩

section

variable {made : Path} {host host' : Host} (hd : Spares made s.host.disk host.disk)
  (he : Spares made t.host.disk host'.disk) (hother : directory ≠ made)
  (hup : directory.dropLast ≠ made)
include hd he hother hup

/-- Something is done on both disks in another directory. -/
theorem Beside.spared (h : Beside directory pageSize low d e s t) :
    Beside directory pageSize low host.disk host'.disk ⟨host, s.memory⟩ ⟨host', t.memory⟩ where
  left := ⟨h.left.directory_eq, h.left.pageSize_eq, .refl hd.sound⟩
  right := ⟨h.right.directory_eq, h.right.pageSize_eq, .refl he.sound⟩
  pages := h.pages.spared hd he hother hup

/-- It lasts while others change what is none of its files. -/
theorem Paired.spared (h : Paired directory pageSize d e s t) :
    Paired directory pageSize host.disk host'.disk ⟨host, s.memory⟩ ⟨host', t.memory⟩ where
  toBeside := h.toBeside.spared hd he hother hup
  leftCoherent := hd.coherent (h.left.directory_eq.trans_ne hother) h.leftCoherent
  rightCoherent := he.coherent (h.right.directory_eq.trans_ne hother) h.rightCoherent
  length_eq := h.length_eq

end

/-! ## Bytes -/

section

variable (hready : IsReady s)
  (h : s.host.disk.Orderly s.memory.store.directory s.memory.store.pageSize 0)
include hready h

/-- The pages of an orderly directory have their full size. -/
theorem full_of_orderly : Full s.memory.store s := ⟨.refl _, hready.sound, h.sized⟩

/-- A write leaves every page its full size. -/
theorem writeBytes_sized (start : Nat) (bytes : List UInt8) :
    (writeBytes start bytes).Ensures s fun _ u => Wrote start bytes s u
      ∧ u.host.disk.Sized s.memory.store.directory s.memory.store.pageSize :=
  (((writeBytes_leads hready start bytes).and
    (Full.maintains_writeBytes start bytes s (full_of_orderly hready h))).ensures fun _ _ hand =>
      not_failed h.toOpenable hand.1).mono fun _ _ hand => ⟨hand.1, hand.2.sized⟩

theorem writeInt32_sized (start : Nat) (value : Int32) :
    (writeInt32 start value).Ensures s fun _ u => Wrote start (encodeInt32 value) s u
      ∧ u.host.disk.Sized s.memory.store.directory s.memory.store.pageSize :=
  (((writeWord_leads hready start (List.ne_nil_of_length_pos (by simp))).and
    (Full.maintains_writeWord start _ s (full_of_orderly hready h))).ensures fun _ _ hand =>
      not_failed h.toOpenable hand.1).mono fun _ _ hand => ⟨hand.1.1, hand.2.sized⟩

/-- So does a read. -/
theorem readBytes_sized (start length : Nat) :
    (readBytes start length).Ensures s fun bytes u => LookedAt start length s u
      ∧ bytes = (bytesOf s).read start length
      ∧ u.host.disk.Sized s.memory.store.directory s.memory.store.pageSize :=
  (((readBytes_leads hready start length).and
    (Full.maintains_readBytes start length s (full_of_orderly hready h))).ensures fun _ _ hand =>
      not_failed h.toOpenable hand.1).mono fun _ _ hand => ⟨hand.1.1, hand.1.2, hand.2.sized⟩

theorem readInt32_sized (start : Nat) :
    (readInt32 start).Ensures s fun value u => LookedAt start 4 s u
      ∧ value = decodeInt32 ((bytesOf s).read start 4)
      ∧ u.host.disk.Sized s.memory.store.directory s.memory.store.pageSize :=
  (((readInt32_leads hready start).and
    (((Full.maintains_readWord start 4).bind fun _ => maintains_pure _) s
      (full_of_orderly hready h))).ensures fun _ _ hand =>
        not_failed h.toOpenable hand.1).mono fun _ _ hand => ⟨hand.1.1, hand.1.2, hand.2.sized⟩

end

namespace Paired

variable (h : Paired directory pageSize d e s t)
include h

theorem isReady : IsReady s := ⟨h.pages.left.sound, h.leftCoherent⟩

theorem orderly : s.host.disk.Orderly s.memory.store.directory s.memory.store.pageSize 0 := by
  rw [h.left.directory_eq, h.left.pageSize_eq]
  exact h.pages.left

/-- Paired files hold the same bytes. -/
theorem bytesOf_eq : bytesOf s = bytesOf t := by
  rw [h.left.bytesOf_eq, h.right.bytesOf_eq, h.pages.space]

/-- The same was written on both sides. -/
theorem wrote {start : Nat} {bytes : List UInt8} (hu : Wrote start bytes s u)
    (hv : Wrote start bytes t v)
    (husized : u.host.disk.Sized s.memory.store.directory s.memory.store.pageSize)
    (hvsized : v.host.disk.Sized t.memory.store.directory t.memory.store.pageSize) :
    Paired directory pageSize d e u v := by
  have hupages := hu.hasPages
  have hvpages := hv.hasPages
  rw [h.left.directory_eq, h.left.pageSize_eq] at husized hupages
  rw [h.right.directory_eq, h.right.pageSize_eq] at hvsized hvpages
  refine h.touched hu.touches hv.touches hupages hvpages husized hvsized ?_ ?_
  · rw [hu.bytesOf_eq, hv.bytesOf_eq, h.bytesOf_eq]
  · rw [hu.length_eq, hv.length_eq, h.length_eq]

/-- The same range was read on both sides. -/
theorem lookedAt {start length : Nat} (hu : LookedAt start length s u)
    (hv : LookedAt start length t v)
    (husized : u.host.disk.Sized s.memory.store.directory s.memory.store.pageSize)
    (hvsized : v.host.disk.Sized t.memory.store.directory t.memory.store.pageSize) :
    Paired directory pageSize d e u v := by
  have hupages := hu.hasPages
  have hvpages := hv.hasPages
  rw [h.left.directory_eq, h.left.pageSize_eq] at husized hupages
  rw [h.right.directory_eq, h.right.pageSize_eq] at hvsized hvpages
  refine h.touched hu.touches hv.touches hupages hvpages husized hvsized ?_ ?_
  · rw [hu.bytesOf_eq, hv.bytesOf_eq, h.bytesOf_eq]
  · rw [hu.length_eq, hv.length_eq, h.length_eq]

end Paired

/-- Paired files take the same bytes alike. -/
theorem twins_writeBytes (start : Nat) (bytes : List UInt8) :
    Twins (Paired directory pageSize d e) Eq (writeBytes start bytes) (writeBytes start bytes) :=
  fun _ _ h => .of_ensures (writeBytes_sized h.isReady h.orderly start bytes)
    (writeBytes_sized h.symm.isReady h.symm.orderly start bytes)
    fun _ _ _ _ hu hv => ⟨rfl, h.wrote hu.1 hv.1 hu.2 hv.2⟩

/-- A count is written alike. -/
theorem Paired.writeInt32 {failed : Session PagedFile → Session PagedFile → Prop}
    (h : Paired directory pageSize d e s t) (start : Nat) (value : Int32) :
    (writeInt32 start value).Agree (writeInt32 start value) s t
      (fun a u b v => a = b ∧ Paired directory pageSize d e u v) failed :=
  .of_ensures (writeInt32_sized h.isReady h.orderly start value)
    (writeInt32_sized h.symm.isReady h.symm.orderly start value)
    fun _ _ _ _ hu hv => ⟨rfl, h.wrote hu.1 hv.1 hu.2 hv.2⟩

theorem twins_writeInt32 (start : Nat) (value : Int32) :
    Twins (Paired directory pageSize d e) Eq (writeInt32 start value) (writeInt32 start value) :=
  fun _ _ h => h.writeInt32 start value

/-- They answer the same bytes. -/
theorem twins_readBytes (start length : Nat) :
    Twins (Paired directory pageSize d e) Eq (readBytes start length) (readBytes start length) :=
  fun _ _ h => .of_ensures (readBytes_sized h.isReady h.orderly start length)
    (readBytes_sized h.symm.isReady h.symm.orderly start length)
    fun _ _ _ _ hu hv => ⟨by rw [hu.2.1, hv.2.1, h.bytesOf_eq], h.lookedAt hu.1 hv.1 hu.2.2 hv.2.2⟩

theorem twins_readInt32 (start : Nat) :
    Twins (Paired directory pageSize d e) Eq (readInt32 start) (readInt32 start) :=
  fun _ _ h => .of_ensures (readInt32_sized h.isReady h.orderly start)
    (readInt32_sized h.symm.isReady h.symm.orderly start)
    fun _ _ _ _ hu hv => ⟨by rw [hu.2.1, hv.2.1, h.bytesOf_eq], h.lookedAt hu.1 hv.1 hu.2.2 hv.2.2⟩

/-! ## What is read off the directory -/

/-- The pages are listed, and nothing changes. -/
theorem twins_pageIndexes :
    Twins (Paired directory pageSize d e) (fun a b => ∀ index, index ∈ a ↔ index ∈ b)
    (onStore PageStore.pageIndexes) (onStore PageStore.pageIndexes) := by
  have hlists {s t : Session PagedFile} {d e : Disk} (h : Paired directory pageSize d e s t) :
      (onStore PageStore.pageIndexes).Ensures s fun indexes u => u = s
        ∧ ∀ index, index ∈ indexes ↔ index ∈ s.host.disk.pageNumbers directory := by
    unfold onStore Ensures
    rw [leads_within]
    refine (PageStore.pageIndexes_ensures (s := s.part store) h.orderly.isDirectory).leads.mono
      (fun indexes u hu => ?_) fun _ _ => False.elim
    obtain ⟨rfl, hindexes⟩ := hu
    rw [Session.memory_part, h.left.directory_eq] at hindexes
    exact ⟨rfl, hindexes⟩
  intro s t h
  refine .of_ensures (hlists h) (hlists h.symm) fun _ _ _ _ hu hv => ?_
  obtain ⟨rfl, hindexes⟩ := hu
  obtain ⟨rfl, hindexes'⟩ := hv
  exact ⟨fun index => by rw [hindexes, hindexes', h.pages.mem_pageNumbers_iff], h⟩

/-- Their pages take the same room on their disks. -/
theorem twins_totalSize : Twins (Paired directory pageSize d e) Eq (onStore PageStore.totalSize)
    (onStore PageStore.totalSize) := by
  have hcounts {s t : Session PagedFile} {d e : Disk} (h : Paired directory pageSize d e s t) :
      (onStore PageStore.totalSize).Ensures s fun total u => u = s
        ∧ total = (s.host.disk.pageNumbers directory).length * pageSize := by
    unfold onStore Ensures
    rw [leads_within]
    refine (PageStore.totalSize_ensures (s := s.part store) h.orderly).leads.mono
      (fun total u hu => ?_) fun _ _ => False.elim
    obtain ⟨rfl, rfl⟩ := hu
    refine ⟨rfl, ?_⟩
    rw [Session.memory_part, h.left.directory_eq, h.left.pageSize_eq]
    rfl
  intro s t h
  refine .of_ensures (hcounts h) (hcounts h.symm) fun _ _ _ _ hu hv => ?_
  obtain ⟨rfl, rfl⟩ := hu
  obtain ⟨rfl, rfl⟩ := hv
  exact ⟨by rw [h.pages.length_pageNumbers], h⟩

/-- They recover the same length. -/
theorem twins_recoverLength :
    Twins (Paired directory pageSize d e) Eq recoverLength recoverLength := by
  intro s t h
  refine .of_ensures (recoverLength_ensures h.orderly.isDirectory)
    (recoverLength_ensures h.symm.orderly.isDirectory) fun length _ length' _ hu hv => ?_
  obtain ⟨hlength, rfl⟩ := hu
  obtain ⟨hlength', rfl⟩ := hv
  rw [h.left.directory_eq, h.left.pageSize_eq] at hlength
  rw [h.right.directory_eq, h.right.pageSize_eq, ← h.pages.reach_eq] at hlength'
  have heq : length = length' := hlength.trans hlength'.symm
  exact ⟨heq, h.quiet rfl rfl (.refl _) (.refl _) h.leftCoherent h.rightCoherent heq⟩

/-! ## What shows nowhere -/

/-- Something happens in the caches alone. -/
theorem twins_quiet {p : Procedure PagedFile Unit} (hp : ∀ s : Session PagedFile, IsReady s →
    p.Ensures s fun _ u => u.host.disk = s.host.disk ∧ Same s.memory.store u.memory.store
      ∧ u.memory.store.Coherent u.host.disk ∧ u.memory.length = s.memory.length) :
    Twins (Paired directory pageSize d e) Eq p p := by
  intro s t h
  refine .of_ensures (hp s h.isReady) (hp t h.symm.isReady) fun _ _ _ _ hu hv => ⟨rfl, ?_⟩
  obtain ⟨hu, hsame, hcoherent, hlength⟩ := hu
  obtain ⟨hv, hsame', hcoherent', hlength'⟩ := hv
  exact h.quiet hu hv hsame hsame' hcoherent hcoherent' (by rw [hlength, hlength', h.length_eq])

/-- They are forced out alike. -/
theorem twins_flush : Twins (Paired directory pageSize d e) Eq flush flush :=
  twins_quiet fun _ h => ⟨rfl, PageStore.same_flush _, h.coherent.flush, rfl⟩

/-- They are closed alike. -/
theorem twins_close : Twins (Paired directory pageSize d e) Eq close close :=
  twins_quiet fun _ _ => ⟨rfl, (PageStore.same_flush _).trans (PageStore.same_dropAll _),
    PageStore.coherent_dropAll _ _, rfl⟩

/-- Their pages are swept and forced out alike. -/
theorem twins_checkpointPages : Twins (Paired directory pageSize d e) Eq
    (onStore Queue.checkpointPages) (onStore Queue.checkpointPages) := by
  refine twins_quiet fun s h => ?_
  have hstart : PageStore.Access (· = s.host.disk) (s.part store) ⟨s.host, s.memory.store.flush⟩ :=
    ⟨PageStore.same_flush _, h.sound, h.coherent.flush, .start rfl⟩
  unfold onStore Queue.checkpointPages Ensures
  simp only [leads_within, leads_bind, leads_update, leads_discard]
  refine (PageStore.sweep_ensures hstart).leads.mono (fun _ u hu => ?_) fun _ _ => False.elim
  exact ⟨hu.1.last, hu.1.same, hu.1.coherent, trivial⟩

/-! ## Deleting all pages -/

/-- A file that is emptied forgets all but the pages whose number no name is read as. -/
theorem reset_leaves (hdirectory : s.host.disk.node? s.memory.store.directory = some .directory)
    (hpages : ∀ index ∈ s.host.disk.pageNumbers s.memory.store.directory,
      s.host.disk.HasPage s.memory.store.directory index) :
    reset.Ensures s fun _ u => Same s.memory.store u.memory.store
      ∧ u.memory.store.Coherent u.host.disk ∧ u.memory.length = 0
      ∧ ∃ gone, (∀ index, index ∈ gone ↔ index ∈ s.host.disk.pageNumbers s.memory.store.directory)
        ∧ Disk.Pruned s.memory.store.directory gone s.host.disk u.host.disk := by
  unfold reset onStore Ensures
  simp only [leads_bind, leads_update, leads_within]
  refine (PageStore.deleteAll_of_numbers (s := s.part store) hdirectory hpages).leads.mono
    (fun _ u hu => ?_) fun _ _ => False.elim
  obtain ⟨gone, -, hgone, hmemory, hpruned, -⟩ := hu
  rw [hmemory]
  exact ⟨PageStore.same_dropAll _, PageStore.coherent_dropAll _ _, trivial, gone, hgone, hpruned⟩

/-- Files that are emptied are paired, whatever they were before. -/
theorem Beside.reset (h : Beside directory pageSize (PageName.maxIndex + 1) d e s t) :
    PagedFile.reset.Agree PagedFile.reset s t (fun _ u _ v => Paired directory pageSize d e u v)
      fun _ _ => False := by
  have hempties {s t : Session PagedFile} {d e : Disk}
      (h : Beside directory pageSize (PageName.maxIndex + 1) d e s t) :=
    reset_leaves (s := s) (h.left.directory_eq ▸ h.pages.left.isDirectory) fun index hmem =>
      h.left.directory_eq ▸ ((h.pages.left.mem_pageNumbers_iff index).mp
        (h.left.directory_eq ▸ hmem)).1
  refine .of_ensures (hempties h) (hempties ⟨h.right, h.left, h.pages.symm⟩) fun _ u _ v hu hv => ?_
  obtain ⟨hsame, hcoherent, hlength, gone, hgone, hpruned⟩ := hu
  obtain ⟨hsame', hcoherent', hlength', gone', hgone', hpruned'⟩ := hv
  rw [h.left.directory_eq] at hgone hpruned
  rw [h.right.directory_eq] at hgone' hpruned'
  exact {
    left := h.left.goOn hsame (.of_pruned hpruned h.pages.left.sound)
    right := h.right.goOn hsame' (.of_pruned hpruned' h.pages.right.sound)
    pages := h.pages.pruned hpruned hpruned' hgone hgone'
    leftCoherent := hcoherent
    rightCoherent := hcoherent'
    length_eq := hlength.trans hlength'.symm }

/-- Files that match from some number on match from any later one. -/
theorem Beside.mono {high : Nat} (h : Beside directory pageSize low d e s t) (hle : low ≤ high) :
    Beside directory pageSize high d e s t where
  left := h.left
  right := h.right
  pages := {
    left := { h.pages.left with
      sizeOf_eq := fun hlow => h.pages.left.sizeOf_eq (Nat.le_trans hle hlow) }
    right := { h.pages.right with
      sizeOf_eq := fun hlow => h.pages.right.sizeOf_eq (Nat.le_trans hle hlow) }
    hasPage_iff := fun hlow => h.pages.hasPage_iff (Nat.le_trans hle hlow)
    space_eq := fun hlow => h.pages.space_eq (Nat.le_trans hle hlow) }

end PagedFile

end PagedQueue
