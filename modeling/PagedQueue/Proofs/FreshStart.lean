import PagedQueue.Proofs.IdleQueues
import PagedQueue.Proofs.PairedOpening
import PagedQueue.Proofs.TornRecords

/-!
# Starting afresh

A queue that starts from nothing cannot be told from one that is loaded where nothing is
(`starts_afresh`): whatever it knew, whatever was in its caches and whatever was on disk, the two
are paired from then on, and come to the same answers for good. All that is asked is that no push is
under way and that the page files are those of a queue, so that they can be deleted.
-/

namespace PagedQueue

open Procedure

namespace Queue

variable {s opened : Session Queue} {settings : Settings} {records payloads : PagedFile}

/-- Where nothing is, a queue over empty directories is opened, and it starts from nothing. -/
theorem load_starts_empty {host : Host} (hvalid : settings.validate = .ok ())
    (hfresh : host.disk.Fresh (rootOf settings)) :
    (load settings : Procedure Unit Queue).Ensures ⟨host, ()⟩ fun q t => ∃ opened : Session Queue,
      Mounted opened ∧ opened.host.disk.Clear (rootOf settings)
        ∧ (∃ records payloads : PagedFile, opened.memory = blank settings records payloads)
        ∧ startEmpty.outcome opened = (.ok (), ⟨t.host, q⟩) := by
  unfold load Ensures
  simp only [leads_bind, leads_launch, leads_pure]
  refine ((openFiles_of_fresh (s := ⟨host, ()⟩) hvalid hfresh fun _ => 0).leads.and
    (openFiles_leads hfresh.sound)).mono ?_ fun _ _ hand => hand.1
  intro q t hand
  obtain ⟨⟨-, hopened, -, -, hnone⟩, hmounted, records, payloads, rfl, -⟩ := hand
  unfold recoverOrStart
  rw [leads_bind]
  refine (recordPages_ensures
    (by rw [hmounted.recordDirectory]; exact hmounted.grounds.records)).leads.mono ?_
    fun _ _ => False.elim
  intro indexes u hu
  obtain ⟨rfl, hempty⟩ := hu
  rw [leads_ite, if_pos (hempty.mpr hnone)]
  refine ((startEmpty_ensures hopened).leads.and (leads_answer _ _)).mono (fun _ u hu => ?_)
    fun _ _ hand => hand.1
  exact ⟨_, hmounted, hopened.kept.clear, ⟨records, payloads, rfl⟩, outcome_ok_iff.mpr hu.2⟩

/-- Between two operations a queue can start from nothing, and so can one over empty directories. Of
the entries that were ever made, all lie in front of those to come. -/
theorem Reached.startable (h : Reached s) (hopen : s.memory.isClosed = false)
    (hgrounds : s.host.disk.Grounds (rootOf s.memory.settings))
    (hclear : s.host.disk.Clear (rootOf s.memory.settings)) (hopened : Mounted opened)
    (hempty : opened.host.disk.Clear (rootOf s.memory.settings))
    (hblank : opened.memory = blank s.memory.settings records payloads) :
    Startable s.memory.index.entries.size s opened := by
  have hsane := h.sane
  have hsettings : opened.memory.settings = s.memory.settings := by rw [hblank]; rfl
  have hgrounds' := hopened.grounds
  have hrecordDirectory := hopened.recordDirectory
  have hpayloadDirectory := hopened.payloadDirectory
  have hrecordSize := hopened.recordSize
  have hpayloadSize := hopened.payloadSize
  rw [hsettings] at hgrounds' hrecordDirectory hpayloadDirectory hrecordSize hpayloadSize
  exact {
    settings_eq := hsettings.symm
    isClosed_eq := hopen.trans hopened.isOpen.symm
    tabled := {
      size_eq := by rw [hblank]; rfl
      getElem?_eq := fun id => by
        rw [hblank, Array.getElem?_eq_none (Nat.le_add_right ..)]
        rfl
      pending_eq := fun uuid => by
        rw [hblank]
        exact (h.idle uuid).trans Std.TreeSet.contains_emptyc.symm }
    valid := hsane.valid
    grounds := hgrounds
    grounds' := hgrounds'
    records := {
      left := ⟨hsane.recordDirectory, hsane.recordSize, .refl hgrounds.sound⟩
      right := ⟨hrecordDirectory, hrecordSize, .refl hgrounds'.sound⟩
      pages := .of_tidy hclear.records hgrounds.sound hempty.records hgrounds'.sound _ }
    payloads := {
      left := ⟨hsane.payloadDirectory, hsane.payloadSize, .refl hgrounds.sound⟩
      right := ⟨hpayloadDirectory, hpayloadSize, .refl hgrounds'.sound⟩
      pages := .of_tidy hclear.payloads hgrounds.sound hempty.payloads hgrounds'.sound _ } }

end Queue

open Queue QueueStep in
/-- An open queue starts from nothing. It has come up in any way, there may be anything in its
caches, and the disk is as it may be but for the names in the directories of the queue. Then it
comes to the same answers as a queue with the same settings that is loaded where nothing is,
whatever is done with both. -/
theorem starts_afresh {s : Session Queue} (h : Reached s) (hopen : s.memory.isClosed = false)
    (hgrounds : s.host.disk.Grounds (rootOf s.memory.settings))
    (hclear : s.host.disk.Clear (rootOf s.memory.settings))
    (host : Host) (hfresh : host.disk.Fresh (rootOf s.memory.settings)) :
    ∃ started fresh left, startEmpty.outcome s = (.ok (), started)
      ∧ (load s.memory.settings).outcome (⟨host, ()⟩ : Session Unit) = (.ok fresh, left)
      ∧ ∀ steps, answers steps started = answers steps ⟨left.host, fresh⟩ := by
  obtain ⟨fresh, left, hload, opened, hopened, hempty, ⟨records, payloads, hblank⟩, hstart⟩ :=
    (load_starts_empty h.sane.valid hfresh).outcome
  obtain ⟨_, started, _, _, hstarted, hstart', hpaired⟩ :=
    ((startEmpty_agree (h.startable hopen hgrounds hclear hopened hempty hblank)).mono
      (fun _ _ _ _ => id) fun _ _ hand => Bool.false_ne_true (hopen.symm.trans hand.1)).exists_ok
  cases hstart.symm.trans hstart'
  exact ⟨started, fresh, left, hstarted, hload, answers_eq ⟨_, hpaired⟩⟩

/-- A message is put in and taken, and all records are read. -/
def Queue.taken (s : Session Queue) : Session Queue :=
  QueueStep.after [.act (.call (.push ⟨⟨1⟩, .text, [7]⟩)), .act (.call .pop), .records] s

open Queue QueueStep in
/-- A queue in which a message is taken starts from nothing. -/
theorem starts_afresh_taken : ∃ s started fresh left, loaded? narrow bareHost = some s
    ∧ (taken s).memory.size = 1 ∧ startEmpty.outcome (taken s) = (.ok (), started)
    ∧ (load (taken s).memory.settings).outcome (⟨bareHost, ()⟩ : Session Unit) = (.ok fresh, left)
    ∧ ∀ steps, answers steps started = answers steps ⟨left.host, fresh⟩ := by
  have hdecide : (loaded? narrow bareHost).any (fun s => decide ((taken s).memory.isClosed = false
      ∧ (taken s).memory.size = 1)) = true := by decide +kernel
  obtain ⟨s, hs, htaken⟩ := (Option.any_eq_true _ _).mp hdecide
  obtain ⟨hopen, hsize⟩ := of_decide_eq_true htaken
  obtain ⟨queue, opened, hload, rfl⟩ := load_of_loaded? hs
  -- nothing else has changed the disk, so the directories are as the queue made them
  have hvalid : narrow.validate = .ok () := rfl
  have hrest := atRest_of_load_fresh hvalid (Disk.fresh_new _) hload
  obtain ⟨hcount, hcursor⟩ := empty_of_load_fresh hvalid (Disk.fresh_new _) hload
  obtain ⟨-, _, _, hrests⟩ := after_rests hrest.rests
    [.act (.call (.push ⟨⟨1⟩, .text, [7]⟩)), .act (.call .pop), .records] (by
      simp only [AllFit, Fits, QueueAction.Fits, QueueCall.Fits, hcount, hcursor, and_true]
      decide)
  obtain ⟨started, fresh, left, hstarted, hfresh, hanswers⟩ :=
    starts_afresh (s := taken ⟨opened.host, queue⟩)
    ((Reached.loaded hload).after _) hopen hrests.toTracks.kept.grounds hrests.toTracks.clear
    bareHost (Disk.fresh_new _)
  exact ⟨_, started, fresh, left, hs, hsize, hstarted, hfresh, hanswers⟩

end PagedQueue
