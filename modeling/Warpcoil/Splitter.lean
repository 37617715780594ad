import Warpcoil.Calm

/-! `message_splitter` on its own. Whoever uses it is arbitrary: user code may call its four
functions at any moment, inside the handlers too, and the holder of the lock does with the
buffer what it likes. An assertion that does not hold ends the program. -/
namespace Warpcoil
open Incremental Transition Platform

/-- The three operations that a header is parsed by. -/
inductive HeaderPart where
  | messageType | response | request
deriving DecidableEq, Repr

def HeaderPart.continuation : HeaderPart → Continuation
  | .messageType => .messageType
  | .response => .response
  | .request => .request

structure HeaderOperation where
  parser : Parser
  part : HeaderPart
  seen : List UInt8

def HeaderOperation.operation (operation : HeaderOperation) : ParseOperation :=
  ⟨operation.parser, operation.part.continuation, operation.seen⟩

def HeaderPart.fresh (part : HeaderPart) : HeaderOperation :=
  ⟨part.continuation.parserType.fresh, part, []⟩

/-- What one of the two waiters is called with. -/
inductive Handed where
  | response (request : Except ErrorCode RequestId)
  | request (request : Except ErrorCode (RequestId × Identifier))

/-- The frames of the splitter. Those of its users are left out: a frame that stands at the
top has called a handler, which runs or has returned. -/
inductive SplitterFrame where
  /-- `parse_operation::start`. -/
  | start (operation : HeaderOperation)
  /-- `parse_request_operation`, after the request handler. -/
  | requestContinue (continue_ : Bool)
  /-- `parse_response_operation`, after the response handler. -/
  | responseContinue (continue_ : Bool)
  /-- `on_error`, after the response handler. -/
  | errorContinue (isWaitingForRequest : Bool) (ec : ErrorCode)

/-- `aborted` is the assertion that did not hold. The last two fields only record: what the
waiters were handed, and whether the last header parse was begun for both waiters with no call
of `wait_for_request` or `wait_for_response` since. -/
structure Splitter where
  buffer : List UInt8 := []
  locked : Bool := false
  beginParseMessage : Bool := false
  waitingForRequest : Bool := false
  waitingForResponse : Bool := false
  parsingHeader : Bool := false
  reads : List HeaderOperation := []
  stack : List SplitterFrame := []
  aborted : Option Assertion := none
  thrown : Option Exception := none
  handed : List Handed := []
  crowded : Bool := false

namespace Splitter

def push (s : Splitter) (frames : List SplitterFrame) : Splitter :=
  { s with stack := frames ++ s.stack }

def abort (s : Splitter) (a : Assertion) : Splitter := { s with aborted := some a }

def throw (s : Splitter) (e : Exception) : Splitter := { s with stack := [], thrown := some e }

def hand (s : Splitter) (handed : Handed) : Splitter := { s with handed := s.handed ++ [handed] }

def beginParseValue (s : Splitter) (part : HeaderPart) : Splitter := s.push [.start part.fresh]

/-- The function that `set_begin_parse_message` makes. -/
def callBeginParseMessage (s : Splitter) : Splitter :=
  if s.parsingHeader || !(s.waitingForResponse || s.waitingForRequest) then
    s.abort .beginParseMessage
  else if s.locked then s
  else { s with beginParseMessage := false, parsingHeader := true,
                crowded := s.waitingForResponse && s.waitingForRequest }.beginParseValue
    .messageType

def waitForResponse (s : Splitter) : Splitter :=
  if s.waitingForResponse then s.abort .waitForResponse
  else
    let s := { s with waitingForResponse := true, beginParseMessage := true, crowded := false }
    if s.parsingHeader then s else s.callBeginParseMessage

def waitForRequest (s : Splitter) : Splitter :=
  if s.waitingForRequest then s.abort .waitForRequest
  else
    let s := { s with waitingForRequest := true, beginParseMessage := true, crowded := false }
    if s.parsingHeader then s else s.callBeginParseMessage

def lockInput (s : Splitter) : Splitter :=
  if s.parsingHeader || s.locked then s.abort .lockInput else { s with locked := true }

def unlockInput (s : Splitter) : Splitter :=
  if s.parsingHeader || !s.locked then s.abort .unlockInput
  else
    let s := { s with locked := false }
    if !s.waitingForResponse && !s.waitingForRequest then s
    else if s.beginParseMessage then s.callBeginParseMessage
    else s.abort .unlockBegin

def onError (s : Splitter) (ec : ErrorCode) : Splitter :=
  let frame := SplitterFrame.errorContinue s.waitingForRequest ec
  if s.waitingForResponse then
    ({ s with waitingForResponse := false }.push [frame]).hand (.response (.error ec))
  else s.push [frame]

def onMessageType (s : Splitter) : Except ErrorCode Value → Splitter
  | .error ec => s.onError ec
  | .ok type =>
    if type = .integer MessageType.response.toNat then
      if s.waitingForResponse then s.beginParseValue .response
      else s.onError .invalidInput
    else if type = .integer MessageType.request.toNat then
      if s.waitingForRequest then s.beginParseValue .request
      else s.onError .invalidInput
    else s.onError .invalidInput

def onResponse (s : Splitter) (request : Except ErrorCode Value) : Splitter :=
  if !s.waitingForResponse then s.abort .responseWaiting
  else match request with
  | .error ec => s.onError ec
  | .ok (.integer id) =>
    if !s.parsingHeader then s.abort .responseHeader
    else ({ s with parsingHeader := false, waitingForResponse := false }.push
      [.responseContinue s.waitingForRequest]).hand (.response (.ok (UInt64.ofNat id)))
  | .ok _ => s

def onRequest (s : Splitter) (request : Except ErrorCode Value) : Splitter :=
  if !s.waitingForRequest then s.abort .requestWaiting
  else match request with
  | .error ec => s.onError ec
  | .ok (.tuple [.integer id, .utf8 name]) =>
    if !s.parsingHeader then s.abort .requestHeader
    else ({ s with parsingHeader := false, waitingForRequest := false }.push
      [.requestContinue s.waitingForResponse]).hand (.request (.ok (UInt64.ofNat id, name)))
  | .ok _ => s

/-- What a `parse_operation` does with `m_on_result`. -/
def call (s : Splitter) (part : HeaderPart) (result : Except ErrorCode Value) : Splitter :=
  match part with
  | .messageType => s.onMessageType result
  | .response => s.onResponse result
  | .request => s.onRequest result

/-- The rest of `parse_request_operation` after the handler. -/
def continueRequest (s : Splitter) (continue_ : Bool) : Splitter :=
  if continue_ && s.waitingForResponse && !s.parsingHeader then
    if s.beginParseMessage then s.callBeginParseMessage else s.abort .requestBegin
  else s

/-- The rest of `parse_response_operation` after the handler. -/
def continueResponse (s : Splitter) (continue_ : Bool) : Splitter :=
  if continue_ && s.waitingForRequest && !s.parsingHeader then
    if s.beginParseMessage then s.callBeginParseMessage else s.abort .responseBegin
  else s

/-- The rest of `on_error` after the response handler. -/
def continueError (s : Splitter) (isWaitingForRequest : Bool) (ec : ErrorCode) : Splitter :=
  if isWaitingForRequest then
    if s.waitingForRequest then
      { s with waitingForRequest := false }.hand (.request (.error ec))
    else s.throw .badFunctionCall
  else s

variable [Platform]

/-- `parse_operation::start`. -/
def start (s : Splitter) (operation : HeaderOperation) : Splitter :=
  match operation.parser.checkForImmediateCompletion with
  | some v => s.call operation.part (.ok v)
  | none =>
    match operation.parser.read s.buffer with
    | .complete v rest => { s with buffer := rest }.call operation.part (.ok v)
    | .more parser =>
      { s with buffer := [],
               reads := s.reads ++
                 [{ operation with parser, seen := operation.seen ++ s.buffer }] }
    | .fail .invalidInput => s.call operation.part (.error .invalidInput)
    | .fail .lengthError => s.throw .lengthError

def resume (s : Splitter) : SplitterFrame → Splitter
  | .start operation => s.start operation
  | .requestContinue continue_ => s.continueRequest continue_
  | .responseContinue continue_ => s.continueResponse continue_
  | .errorContinue isWaitingForRequest ec => s.continueError isWaitingForRequest ec

/-- The event loop or a handler runs, not the splitter. -/
def userRuns (s : Splitter) : Bool :=
  match s.stack with
  | .start _ :: _ => false
  | [] | .requestContinue _ :: _ | .responseContinue _ :: _ | .errorContinue _ _ :: _ => true

inductive Event where
  | waitForResponse
  | waitForRequest
  | lockInput
  | unlockInput
  /-- The holder of the lock leaves `rest` in the buffer. -/
  | payload (rest : List UInt8)
  /-- The innermost frame goes on; a handler that it has called returns. -/
  | resume
  | read (index : Nat) (bytes : List UInt8)
  | readError (index : Nat) (ec : ErrorCode)

def step (s : Splitter) (event : Event) : Option Splitter :=
  if s.aborted.isSome || s.thrown.isSome then none
  else match event with
  | .waitForResponse => if s.userRuns then some s.waitForResponse else none
  | .waitForRequest => if s.userRuns then some s.waitForRequest else none
  | .lockInput => if s.userRuns then some s.lockInput else none
  | .unlockInput => if s.userRuns then some s.unlockInput else none
  | .payload rest => if s.userRuns && s.locked then some { s with buffer := rest } else none
  | .resume =>
    match s.stack with
    | [] => none
    | frame :: stack => some (Splitter.resume { s with stack } frame)
  | .read index bytes =>
    match s.stack, s.reads[index]? with
    | [], some operation =>
      if bytes.length ≤ 512 then
        some (Splitter.push { s with reads := s.reads.eraseIdx index,
                                     buffer := s.buffer ++ bytes } [.start operation])
      else none
    | _, _ => none
  | .readError index ec =>
    match s.stack, s.reads[index]? with
    | [], some operation =>
      if ec = .success then none
      else some (Splitter.call { s with reads := s.reads.eraseIdx index } operation.part
        (.error ec))
    | _, _ => none

/-- The steps, with what made each of them possible. -/
inductive Taken (s : Splitter) : Event → Splitter → Prop
  | waitForResponse (runs : s.userRuns = true) : Taken s .waitForResponse s.waitForResponse
  | waitForRequest (runs : s.userRuns = true) : Taken s .waitForRequest s.waitForRequest
  | lockInput (runs : s.userRuns = true) : Taken s .lockInput s.lockInput
  | unlockInput (runs : s.userRuns = true) : Taken s .unlockInput s.unlockInput
  | payload {rest : List UInt8} (runs : s.userRuns = true) (locked : s.locked = true) :
      Taken s (.payload rest) { s with buffer := rest }
  | resume {frame : SplitterFrame} {stack : List SplitterFrame}
      (stack_eq : s.stack = frame :: stack) :
      Taken s .resume (Splitter.resume { s with stack } frame)
  | read {index : Nat} {bytes : List UInt8} {operation : HeaderOperation}
      (stack_eq : s.stack = []) (reads : s.reads[index]? = some operation)
      (length_le : bytes.length ≤ 512) :
      Taken s (.read index bytes)
        (Splitter.push { s with reads := s.reads.eraseIdx index, buffer := s.buffer ++ bytes }
          [.start operation])
  | readError {index : Nat} {ec : ErrorCode} {operation : HeaderOperation}
      (stack_eq : s.stack = []) (reads : s.reads[index]? = some operation)
      (ec_ne : ec ≠ .success) :
      Taken s (.readError index ec)
        (Splitter.call { s with reads := s.reads.eraseIdx index } operation.part (.error ec))

theorem taken_of_step {s s' : Splitter} {event : Event} (h : step s event = some s') :
    (s.aborted = none ∧ s.thrown = none) ∧ Taken s event s' := by
  have hended : (s.aborted.isSome || s.thrown.isSome) = false := by
    cases hended : s.aborted.isSome || s.thrown.isSome with
    | false => rfl
    | true => simp [step, hended] at h
  have hrunning : s.aborted = none ∧ s.thrown = none := by simpa using hended
  refine ⟨hrunning, ?_⟩
  unfold step at h
  rw [hended, if_neg Bool.false_ne_true] at h
  cases event with
  | waitForResponse =>
    dsimp only at h
    split_ifs at h with hruns
    cases h
    exact .waitForResponse hruns
  | waitForRequest =>
    dsimp only at h
    split_ifs at h with hruns
    cases h
    exact .waitForRequest hruns
  | lockInput =>
    dsimp only at h
    split_ifs at h with hruns
    cases h
    exact .lockInput hruns
  | unlockInput =>
    dsimp only at h
    split_ifs at h with hruns
    cases h
    exact .unlockInput hruns
  | payload rest =>
    dsimp only at h
    split_ifs at h with hguard
    cases h
    rw [Bool.and_eq_true] at hguard
    exact .payload hguard.1 hguard.2
  | resume =>
    dsimp only at h
    split at h
    · cases h
    · next frame stack hstack => cases h; exact .resume hstack
  | read index bytes =>
    dsimp only at h
    split at h
    · next operation hstack hreads =>
      split_ifs at h with hlength
      cases h
      exact .read hstack hreads hlength
    · cases h
  | readError index ec =>
    dsimp only at h
    split at h
    · next operation hstack hreads =>
      split_ifs at h with hec
      cases h
      exact .readError hstack hreads hec
    · cases h

end Splitter

end Warpcoil
