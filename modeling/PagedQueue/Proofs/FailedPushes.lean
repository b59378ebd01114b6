import PagedQueue.Proofs.HamperedRuns

/-!
# Pushes that fail

A directory that stands in the place of a page keeps the page from being made, and a push that needs
it fails. The queue goes on without the message. But when it is loaded again a message whose push
failed may come up torn, if its record straddles two pages and other pushes have raised the count
over it, and then it comes up in place of a later message of its UUID. Nothing else comes up that
was not put in, and all other messages come up as they were (`hampered_queue_comes_up`).
-/

namespace PagedQueue

open Procedure

namespace Queue

/-- A directory stands in the place of a page of the records. -/
def blocked (s : Session Queue) (index : Nat) : Session Queue :=
  let path := Disk.pagePath (recordDirectory s.memory.settings) index
  ⟨{ s.host with disk := (Change.makeDirectory path).apply 0 s.host.disk }, s.memory⟩

/-- The directory is gone. -/
def unblocked (s : Session Queue) (index : Nat) : Session Queue :=
  let path := Disk.pagePath (recordDirectory s.memory.settings) index
  ⟨{ s.host with disk := (Change.unlink path).apply 0 s.host.disk }, s.memory⟩

/-- A push ends in the middle of its record, since the next page cannot be made. -/
def afterFailure (s : Session Queue) : Except Fault Bool × Session Queue :=
  (push stopped).outcome (blocked s 4)

/-- The page can be made again, and a push goes through. -/
def afterSuccess (s : Session Queue) : Except Fault Bool × Session Queue :=
  (push finished).outcome (unblocked (afterFailure s).2 4)

/-- The queue is closed and loaded again. -/
def afterReload? (s : Session Queue) : Option (Session Queue) :=
  loaded? narrow (close.outcome (afterSuccess s).2).2.host

/-- One push fails, another one goes through, and both messages come up. -/
def FailsInVain (s t : Session Queue) : Prop :=
  (afterFailure s).1 = .error (.pageMap (Disk.pagePath ["queue", "meta"] 4))
    ∧ (afterSuccess s).1 = .ok true
    ∧ t.memory.status? stopped.uuid = some .new
    ∧ (contents.outcome t).1.toOption = some [(torn, .new), (finished, .new)]

instance (s t : Session Queue) : Decidable (FailsInVain s t) := by
  unfold FailsInVain
  infer_instance

end Queue

namespace Queue

/-- A host whose clock goes on, so that pages are unmapped once they are overdue. -/
def tickingHost : Host := { bareHost with clock := ⟨fun tick => 1000 * tick, 0⟩ }

/-- A message is put in, a push is refused the page of the count, and another one goes through when
the page is not refused any more. -/
def afterRefusal (s : Session Queue) : Except Fault Bool × Except Fault Bool × Session Queue :=
  let first := ((push ⟨⟨3⟩, .text, []⟩).outcome s).2
  let countPage := Disk.pagePath (recordDirectory s.memory.settings) 0
  let (failed, s) := (push stopped).outcome
    (withDisk first { first.host.disk with refused := [countPage] })
  let (entered, s) := (push finished).outcome (withDisk s { s.host.disk with refused := [] })
  (failed, entered, s)

end Queue

open Queue in
/-- The message of a push that failed at the count comes up whole. -/
theorem failed_pushes_come_up_whole : ∃ s t, loaded? narrow tickingHost = some s
    ∧ (afterRefusal s).1 = .error (.pageMap (Disk.pagePath ["queue", "meta"] 0))
    ∧ (afterRefusal s).2.1 = .ok true
    ∧ loaded? narrow (close.outcome (afterRefusal s).2.2).2.host = some t
    ∧ (contents.outcome t).1.toOption
      = some [(⟨⟨3⟩, .text, []⟩, .new), (stopped, .new), (finished, .new)] := by
  have hdecide : (loaded? narrow tickingHost).any (fun s =>
      (loaded? narrow (close.outcome (afterRefusal s).2.2).2.host).any fun t =>
        decide ((afterRefusal s).1 = .error (.pageMap (Disk.pagePath ["queue", "meta"] 0))
          ∧ (afterRefusal s).2.1 = .ok true
          ∧ (contents.outcome t).1.toOption
            = some [(⟨⟨3⟩, .text, []⟩, .new), (stopped, .new), (finished, .new)])) = true := by
    decide +kernel
  obtain ⟨s, hs, hdecide⟩ := (Option.any_eq_true _ _).mp hdecide
  obtain ⟨t, ht, hdecide⟩ := (Option.any_eq_true _ _).mp hdecide
  obtain ⟨hfailed, hentered, hfound⟩ := of_decide_eq_true hdecide
  exact ⟨s, t, hs, hfailed, hentered, ht, hfound⟩

/-- A directory in which no directory is can be opened, if nothing is refused. -/
theorem Disk.openable_of_children {d : Disk} {directory : Path} (hcalm : d.refused = [])
    (h : (d.children? directory).any (·.all fun entry => entry.2 ≠ .directory) = true) :
    d.Openable directory := by
  obtain ⟨entries, hentries, hfiles⟩ := (Option.any_eq_true _ _).mp h
  have hdirectory : d.node? directory = some .directory := by
    unfold children? at hentries
    split at hentries
    next heq => exact heq
    next => cases hentries
  obtain ⟨entries', heq, hmem⟩ := children?_of_directory hdirectory
  cases hentries.symm.trans heq
  refine ⟨hdirectory, fun index hnode => ?_, fun _ => hcalm ▸ List.not_mem_nil⟩
  have hfile := List.all_eq_true.mp hfiles _ ((hmem _ _).mpr hnode)
  exact of_decide_eq_true hfile rfl

namespace Queue

/-- A message can be put in, as far as numbers are concerned. -/
def Roomy (s : Session Queue) : Prop :=
  s.memory.index.next < 0x7FFFFFFF ∧ s.memory.payloads.cursor < 0x8000000000000000

instance (s : Session Queue) : Decidable (Roomy s) := inferInstanceAs (Decidable (_ ∧ _))

/-- One push meets a directory in the place of a page, which is gone when the other one is made. -/
def Stumbles (s t : Session Queue) : Prop :=
  s.host.disk.node? (Disk.pagePath (recordDirectory s.memory.settings) 4) = none
    ∧ (afterFailure s).2.host.disk.node?
        (Disk.pagePath (recordDirectory (afterFailure s).2.memory.settings) 4) = some .directory
    ∧ Roomy (blocked s 4) ∧ Roomy (unblocked (afterFailure s).2 4)
    ∧ ((afterSuccess s).2.host.disk.children? (recordDirectory narrow)).any
        (·.all fun entry => entry.2 ≠ .directory) = true
    ∧ (afterSuccess s).2.memory.recordCount = 2
    ∧ (afterSuccess s).2.host.disk.refused = []
    ∧ FailsInVain s t

instance (s t : Session Queue) : Decidable (Stumbles s t) := by
  unfold Stumbles
  infer_instance

end Queue

end PagedQueue
