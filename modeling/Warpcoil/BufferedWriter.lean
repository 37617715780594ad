import Warpcoil.Library.Transition

/-! `buffered_writer` and the stream it writes to. Handlers are opaque; what one of them
does to the writer is a further event, which may come at any time, so also while handlers
run. -/
namespace Warpcoil
open Transition
variable {η : Type*}

/-- `boost::system::error_code`. -/
inductive ErrorCode where
  | success
  | invalidInput
  | system (value : Nat)
deriving DecidableEq, Repr

/-- `not_sending` or `sending`; the weak pointer is the address of the handler queue. -/
inductive SendState where
  | notSending
  | sending (beingWritten : List UInt8) (bufferHandlerQueue : Nat)
deriving DecidableEq, Repr

/-- An `async_write` that has not completed, with what its completion handler holds: the
shared handler queue, and the handlers `on_result` runs, in this order. -/
structure PendingWrite (η : Type*) where
  number : Nat
  data : List UInt8
  bufferHandlerQueue : Nat
  onResult : List η
deriving DecidableEq, Repr

/-- What is left to do in `finish_send`. -/
inductive SendFrame (η : Type*) where
  | onResult (handlers : List η) (ec : ErrorCode)
  | continueSend (bufferHandlerQueue : Nat)
deriving DecidableEq, Repr

/-- The fields after `stack` only record what has happened: the bytes appended, the
`send_buffer` calls with the number of bytes appended before each, the ranges given to
`async_write`, the results of completed writes with the bytes the destination took, and
the handlers invoked. -/
structure BufferedWriter (η : Type*) where
  buffer : List UInt8 := []
  state : SendState := .notSending
  queues : List (List η) := []
  outstanding : List (PendingWrite η) := []
  stack : List (SendFrame η) := []
  appended : List UInt8 := []
  sent : List (η × Nat) := []
  handed : List (List UInt8) := []
  completed : List (Nat × ErrorCode) := []
  accepted : List UInt8 := []
  invoked : List (η × ErrorCode) := []
deriving DecidableEq, Repr

namespace BufferedWriter

/-- Append through a sink that `buffer_sink` returned. -/
def append (w : BufferedWriter η) (bytes : List UInt8) : BufferedWriter η :=
  { w with buffer := w.buffer ++ bytes, appended := w.appended ++ bytes }

/-- The queue it returns is the newest one, the range the one it put into the state. -/
def prepareSendState (w : BufferedWriter η) : BufferedWriter η :=
  { w with buffer := [], queues := w.queues ++ [[]],
           state := .sending w.buffer w.queues.length }

/-- `prepare_send_state`, and `async_write` of the range it returned. -/
def asyncWrite (w : BufferedWriter η) (onResult : List η) : BufferedWriter η :=
  let pending := ⟨w.handed.length, w.buffer, w.queues.length, onResult⟩
  { w.prepareSendState with outstanding := w.outstanding ++ [pending],
                            handed := w.handed ++ [w.buffer] }

/-- The newest handler stands at the head of its queue. -/
def sendBuffer (w : BufferedWriter η) (onResult : η) : BufferedWriter η :=
  let w := { w with sent := w.sent ++ [(onResult, w.appended.length)] }
  match w.state with
  | .notSending => w.asyncWrite [onResult]
  | .sending _ queue => { w with queues := w.queues.modify queue (onResult :: ·) }

/-- `result_handler::handle_result`: a handler runs after the `next` it holds. -/
def handleResult : List η → List η
  | [] => []
  | handler :: next => handleResult next ++ [handler]

def queueAt (w : BufferedWriter η) (queue : Nat) : List η :=
  w.queues.getD queue []

/-- The handlers are moved out of the queue, and the newest sends for all of them. -/
def continueSend (w : BufferedWriter η) (queue : Nat) : BufferedWriter η :=
  let handlers := w.queueAt queue
  { w with queues := w.queues.set queue [] }.asyncWrite (handleResult handlers)

def finishSend (w : BufferedWriter η) (ec : ErrorCode) (queue : Nat) (onResult : List η) :
    BufferedWriter η :=
  if w.buffer = [] then
    { w with state := .notSending, stack := .onResult onResult ec :: w.stack }
  else if w.queueAt queue = [] then
    -- the buffer was appended to, but send_buffer has not been called for the new data
    { w with state := .notSending, stack := .onResult onResult ec :: w.stack }
  else
    { w with stack := .onResult onResult ec :: .continueSend queue :: w.stack }

/-- The next thing that `finish_send` does. -/
def proceed (w : BufferedWriter η) : Option (BufferedWriter η) :=
  match w.stack with
  | [] => none
  | .onResult [] _ :: stack => some { w with stack }
  | .onResult (handler :: handlers) ec :: stack =>
    some { w with stack := .onResult handlers ec :: stack,
                  invoked := w.invoked ++ [(handler, ec)] }
  | .continueSend queue :: stack => some ({ w with stack }.continueSend queue)

inductive Event (η : Type*) where
  | append (bytes : List UInt8)
  | sendBuffer (onResult : η)
  | written (index : Nat) (transferred : Nat) (ec : ErrorCode)
  | proceed

/-- A completion is delivered by the event loop, when nothing is left of the last one.
A write succeeds when all its bytes have been transferred. -/
def step (w : BufferedWriter η) : Event η → Option (BufferedWriter η)
  | .append bytes => some (w.append bytes)
  | .sendBuffer onResult => if w.buffer = [] then none else some (w.sendBuffer onResult)
  | .written index transferred ec =>
    match w.stack, w.outstanding[index]? with
    | [], some pending =>
      if transferred ≤ pending.data.length ∧
          (ec = .success → transferred = pending.data.length) then
        some ({ w with outstanding := w.outstanding.eraseIdx index,
                       completed := w.completed ++ [(pending.number, ec)],
                       accepted := w.accepted ++ pending.data.take transferred }.finishSend
          ec pending.bufferHandlerQueue pending.onResult)
      else none
    | _, _ => none
  | .proceed => w.proceed

end BufferedWriter

end Warpcoil
