import Mathlib.Logic.Function.Basic
import PagedQueue.Procedure

/-!
# Clients

Any number of clients call on one session at once. A call is cut into steps, each of which happens
as a whole, and between two steps of a client the others take theirs in any order. Where a client is
in its call is its stage.

How the calls are cut is a `Protocol`. A `Run` is one way in which the steps of all clients follow
one another, with the events that happened on it, the first one first.
-/

namespace PagedQueue

/-- How calls on a session are made step by step. -/
structure Protocol (σ ι κ : Type) where
  /-- The stage at which a call begins. -/
  start : ι → κ
  /-- Takes the step of a stage and answers with the stage it leads to. -/
  advance : κ → Procedure σ κ
  /-- The stage to which a fault of a step leads. -/
  fail : Fault → κ
  /-- Whether a client is in no call, and can make one. -/
  isFree : κ → Bool

/-- A session, and the stages at which its clients are. -/
structure Crowd (σ κ : Type) where
  session : Session σ
  stage : Nat → κ

/-- A client went from one stage to another. -/
structure Event (κ : Type) where
  client : Nat
  before : κ
  after : κ

namespace Crowd

variable {σ κ : Type}

/-- A client is at another stage, and the session is left as it is here. -/
def put (w : Crowd σ κ) (client : Nat) (k : κ) (session : Session σ) : Crowd σ κ where
  session := session
  stage := Function.update w.stage client k

@[simp]
theorem session_put (w : Crowd σ κ) (client : Nat) (k : κ) (s : Session σ) :
    (w.put client k s).session = s := rfl

@[simp]
theorem stage_put_self (w : Crowd σ κ) (client : Nat) (k : κ) (s : Session σ) :
    (w.put client k s).stage client = k := Function.update_self ..

theorem stage_put_of_ne (w : Crowd σ κ) {client other : Nat} (h : other ≠ client) (k : κ)
    (s : Session σ) : (w.put client k s).stage other = w.stage other := Function.update_of_ne h ..

@[simp]
theorem put_stage (w : Crowd σ κ) (client : Nat) : w.put client (w.stage client) w.session = w := by
  rw [put, Function.update_eq_self]

end Crowd

namespace Protocol

variable {σ ι κ : Type}

/-- A client makes a call. -/
def call (P : Protocol σ ι κ) (w : Crowd σ κ) (client : Nat) (call : ι) : Crowd σ κ :=
  w.put client (P.start call) w.session

/-- A client takes the step of its stage. -/
def take (P : Protocol σ ι κ) (w : Crowd σ κ) (client : Nat) : Crowd σ κ :=
  match P.advance (w.stage client) w.session with
  | .ok k t => w.put client k t
  | .error fault t => w.put client (P.fail fault) t

/-- One client makes a call or takes the next step of the call it is in. -/
inductive Step (P : Protocol σ ι κ) (w : Crowd σ κ) : Event κ → Crowd σ κ → Prop
  | call (client : Nat) (call : ι) (h : P.isFree (w.stage client) = true) :
      Step P w ⟨client, w.stage client, P.start call⟩ (P.call w client call)
  | take (client : Nat) :
      Step P w ⟨client, w.stage client, (P.take w client).stage client⟩ (P.take w client)

/-- The clients take steps one after another. -/
inductive Run (P : Protocol σ ι κ) (w : Crowd σ κ) : List (Event κ) → Crowd σ κ → Prop
  | rest : Run P w [] w
  | step {trace : List (Event κ)} {v u : Crowd σ κ} {e : Event κ} (before : Run P w trace v)
      (h : P.Step v e u) : Run P w (trace ++ [e]) u

/-- The clients act in this order: each makes the call given for it if it is in none, and else takes
its next step. -/
def perform (P : Protocol σ ι κ) (w : Crowd σ κ) : List (Nat × ι) → List (Event κ) × Crowd σ κ
  | [] => ([], w)
  | (client, call) :: rest =>
    let v := if P.isFree (w.stage client) then P.call w client call else P.take w client
    let (trace, u) := P.perform v rest
    (⟨client, w.stage client, v.stage client⟩ :: trace, u)

end Protocol

end PagedQueue
