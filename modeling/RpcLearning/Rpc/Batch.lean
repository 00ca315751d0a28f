import RpcLearning.Lib.Machine
import RpcLearning.Rpc.RpcServer

/-!
# Batches

`handleRequestBatch` and `ThreadSafeBatchResponse` (`RpcServer/Server/RpcServer.cpp`): the responses
to the elements of an array are collected in an object that `handleRequestBatch` shares with the
`done` callbacks it gives to the procedures.  The last of them to let go of it calls the `done` of
the batch.  When a procedure calls its own is up to the procedure; it may be after
`handleRequestBatch` has returned.
-/

namespace RpcLearning.Rpc

open Json

/-- A batch on its way.  An element that is a request is known by its index. -/
structure Batch (π ν : Type) where
  /-- How many elements the loop has come to. -/
  i : Nat
  /-- `handleRequestBatch` has not returned. -/
  running : Bool
  /-- Procedures that have still to call their `done`. -/
  waiting : List Nat
  /-- Procedures that have called their `done` and still hold it. -/
  answered : List Nat
  /-- The responses, each with the index of the element it is for. -/
  responses : List (Nat × Value)
  started : List (Started π ν)
  /-- What the `done` of the batch has been called with. -/
  done : List Value

inductive BatchStep where
  /-- The next round of the loop, or its end. -/
  | next
  /-- A procedure calls its `done` with a result. -/
  | answer (i : Nat) (result : Value)
  /-- A procedure lets go of its `done`. -/
  | drop (i : Nat)

variable {π ν : Type}

namespace Batch

def new : Batch π ν := ⟨0, true, [], [], [], [], []⟩

/-- Nobody holds the responses any longer. -/
def Finished (b : Batch π ν) : Prop := b.running = false ∧ b.waiting = [] ∧ b.answered = []

instance (b : Batch π ν) : Decidable b.Finished := inferInstanceAs (Decidable (_ ∧ _))

/-- One reference less; after the last one, `~ThreadSafeData` calls `done`. -/
def release (b : Batch π ν) : Batch π ν :=
  { b with done := if b.Finished then b.done ++ [.array (b.responses.map Prod.snd)] else b.done }

def addResponse (i : Nat) (response : Value) (b : Batch π ν) : Batch π ν :=
  { b with responses := b.responses ++ [(i, response)] }

/-- `handleRequestBatch` returns. -/
def leave (b : Batch π ν) : Batch π ν := { b with running := false }.release

/-- A callback is run; a procedure's gets a `done`. -/
def start (i : Nat) (started : Started π ν) (b : Batch π ν) : Batch π ν :=
  { b with
    started := b.started ++ [started]
    waiting :=
      match started with
      | .call _ _ => b.waiting ++ [i]
      | _ => b.waiting }

/-- Both handlers of `handleRequestBatch`, which stand behind the loop. -/
def handle (i : Nat) (b : Batch π ν) : ServerException → Run (Batch π ν)
  | .request e => do
    let response ← BaseServer.wrapException e
    .ok (b.addResponse i response).leave
  | .notify _ => .ok b.leave

/-- `UserDoneCallback::operator()` on the callback that adds the response. -/
def answer (requests : List Value) (i : Nat) (result : Value) (b : Batch π ν) :
    Run (Batch π ν) := do
  let response ← userDone (requests.getD i .null) result
  .ok ({ b with waiting := b.waiting.erase i,
                answered := b.answered ++ [i] }.addResponse i response)

def drop (i : Nat) (b : Batch π ν) : Batch π ν := { b with answered := b.answered.erase i }.release

end Batch

namespace RpcServer

variable (server : RpcServer π ν) (requests : List Value)

/-- A round of the loop, up to the callback. -/
def handleElement (request : Value) : Exec ServerException (Started π ν) :=
  if request.getType ≠ .TYPE_OBJECT then
    .throw (.anonymous .RPC_INVALID_REQUEST (lit "request should be json object"))
  else server.handleSingle request

def next (b : Batch π ν) : Run (Batch π ν) :=
  match requests[b.i]? with
  | none => .ok b.leave
  | some request =>
    Exec.catchAll (Batch.handle b.i { b with i := b.i + 1 }) do
      let started ← server.handleElement request
      .ok ({ b with i := b.i + 1 }.start b.i started)

def enabledBatch (b : Batch π ν) : BatchStep → Prop
  | .next => b.running = true
  | .answer i _ => i ∈ b.waiting
  | .drop i => i ∈ b.answered

def performBatch (b : Batch π ν) : BatchStep → Run (Batch π ν)
  | .next => server.next requests b
  | .answer i result => b.answer requests i result
  | .drop i => .ok (b.drop i)

/-- `handleRequestBatch`, and the procedures it has called. -/
def handleRequestBatch : Machine (Batch π ν) BatchStep :=
  ⟨enabledBatch, server.performBatch requests⟩

/-! ## What becomes of an element -/

/-- A notification is an object without an id. -/
def isNotification (v : Value) : Bool := decide (v.getType = .TYPE_OBJECT) && isNotify v

/-- An element is answered, by its procedure or for its exception. -/
def responds (v : Value) : Bool :=
  match server.handleElement v with
  | .ok (.call _ _) => true
  | .error (.thrown (.request _)) => true
  | _ => false

variable {v : Value}

theorem handleElement_of_isNotification (h : isNotification v) :
    server.handleElement v = (do
      let callBack ← server.handleNotifySingle v
      .ok (.notify callBack v)) := by
  obtain ⟨ht, hn⟩ := Bool.and_eq_true_iff.mp h
  rw [handleElement, if_neg (not_not.mpr (of_decide_eq_true ht)), handleSingle, if_pos hn]

/-- An element that is not a notification is called, or rejected as a request. -/
theorem handleElement_of_not_isNotification (h : isNotification v = false) :
    (∃ callBack, v.hasMember (lit "id") ∧ server.handleElement v = .ok (.call callBack v)) ∨
      ∃ e, server.handleElement v = .throw (.request e) := by
  by_cases ht : v.getType = .TYPE_OBJECT
  · have hn : isNotify v = false := by simpa [isNotification, ht] using h
    rw [handleElement, if_neg (not_not.mpr ht), handleSingle, hn, if_neg Bool.false_ne_true]
    rcases server.settles_handleRequestSingle v with ⟨callBack, hok⟩ | ⟨e, he, hthrow⟩
    · exact .inl ⟨callBack, by simpa [isNotify] using hn, by rw [hok]; rfl⟩
    · cases e with
      | request e => exact .inr ⟨e, by rw [hthrow]; rfl⟩
      | notify e => cases he
  · exact .inr ⟨_, if_pos ht⟩

/-- What handling an element comes to. -/
inductive Outcome (server : RpcServer π ν) (v : Value) : Prop
  | call (callBack : π) (hn : isNotification v = false) (hid : v.hasMember (lit "id"))
      (h : server.handleElement v = .ok (.call callBack v))
  | notify (callBack : ν) (hn : isNotification v = true)
      (h : server.handleElement v = .ok (.notify callBack v))
  | request (e : RequestException) (h : server.handleElement v = .throw (.request e))
  | dropped (e : NotifyException) (hn : isNotification v = true)
      (h : server.handleElement v = .throw (.notify e))

theorem outcome (server : RpcServer π ν) (v : Value) : Outcome server v := by
  cases hn : isNotification v with
  | false =>
      rcases handleElement_of_not_isNotification (server) hn with
        ⟨callBack, hid, h⟩ | ⟨e, h⟩
      · exact .call callBack hn hid h
      · exact .request e h
  | true =>
      have h := handleElement_of_isNotification (server) hn
      rcases server.settles_handleNotifySingle v with ⟨callBack, hok⟩ | ⟨e, -, hthrow⟩
      · exact .notify callBack hn (by rw [h, hok]; rfl)
      · cases e with
        | request e => exact .request e (by rw [h, hthrow]; rfl)
        | notify e => exact .dropped e hn (by rw [h, hthrow]; rfl)

end RpcServer

end RpcLearning.Rpc
