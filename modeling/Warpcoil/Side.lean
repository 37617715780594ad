import Warpcoil.BufferedWriter
import Warpcoil.Messages

/-! One end of a connection: a `message_splitter` with what waits at it (the
`expected_response_registry` of a client, the generated server) and the `buffered_writer`
that both send through.

The code is made of functions that call each other without returning to the event loop, and
user code that calls back into them. `stack` is the call stack: what its frames have left to
do, the innermost first. A step runs the innermost frame up to its next call. -/
namespace Warpcoil

structure ExpectedResponse where
  resultParser : ParserType
  handler : Nat

/-- The handler a `parse_operation` calls with its result. -/
inductive Continuation where
  | messageType
  | response
  | request
  | result (expected : ExpectedResponse)
  | argument (id : RequestId) (name : Identifier) (method : Method) (handler : Nat)

/-- The type of the parser that `begin_parse_value` is called with beside such a handler. -/
def Continuation.parserType : Continuation → ParserType
  | .messageType => messageTypeParser
  | .response => requestIdParser
  | .request => requestHeaderParser
  | .result expected => expected.resultParser
  | .argument _ _ method _ => method.argumentParser

/-- `seen` records the bytes the parser was shown before the current buffer. -/
structure ParseOperation where
  parser : Parser
  onResult : Continuation
  seen : List UInt8

/-- A `parse_operation` that has not been started. -/
def Continuation.operation (onResult : Continuation) : ParseOperation :=
  ⟨onResult.parserType.fresh, onResult, []⟩

inductive ResponseState where
  | notExpectingResponse | parsingHeader | parsingResult
deriving DecidableEq, Repr

/-- The handlers that are given to `send_buffer`. -/
inductive Sent where
  | request
  | response (handler : Nat)
deriving DecidableEq, Repr

inductive Exception where
  | lengthError | unknownMethodName | badFunctionCall
deriving DecidableEq, Repr

inductive Frame where
  /-- `parse_operation::start`. -/
  | start (operation : ParseOperation)
  /-- `parse_request_operation`, after the request handler. -/
  | requestContinue (continue_ : Bool)
  /-- `parse_response_operation`, after the response handler. -/
  | responseContinue (continue_ : Bool)
  /-- `message_splitter::on_error`, after the response handler. -/
  | errorContinue (isWaitingForRequest : Bool) (ec : ErrorCode)
  /-- The loop of `expected_response_registry::on_error`. -/
  | errors (handlers : List Nat) (ec : ErrorCode)
  /-- `parse_result_operation`, after `unlock_input` and at its last statement. -/
  | resultUnlocked (handler : Nat) (result : Value)
  | resultReady (handler : Nat) (result : Value)
  /-- The handler of the arguments, after `unlock_input`. -/
  | argumentUnlocked (id : RequestId) (name : Identifier) (method : Method) (handler : Nat)
      (argument : Except ErrorCode Value)
  /-- The completion handler of an `async_write`. -/
  | writer
  /-- A handler or a method of the implementation, which the user wrote. -/
  | user

/-- The assertions of the splitter and of the registry, by the functions they stand in. The
ones named `…Begin` are those on `begin_parse_message`. -/
inductive Assertion where
  | waitForResponse | waitForRequest | lockInput | unlockInput | unlockBegin | beginParseMessage
  | requestWaiting | requestHeader | requestBegin
  | responseWaiting | responseHeader | responseBegin
  | registryHeader | registryResult
deriving DecidableEq, Repr

/-- A call of a generated client. -/
structure Call where
  id : RequestId
  name : Identifier
  method : Method
  arguments : List Value
  accepted : Bool

/-- A call of the implementation. -/
structure Invocation where
  id : RequestId
  name : Identifier
  method : Method
  argument : Value
  handler : Nat

/-- What a completed parse handed to its handler. -/
structure Parsed where
  onResult : Continuation
  value : Value

/-- What has happened at a side. `violated` are the assertions that did not hold. `failed` is set by
the first error on the incoming side and by the first error that a completion handler of the server
is given. `strays` are the ids of the response headers that named no pending call, `dropped` the
result handlers that were destroyed without a call, `messages` what was appended for calls and
responses, `answers` the results that were appended. -/
structure History where
  violated : List Assertion := []
  failed : Bool := false
  received : List UInt8 := []
  parsed : List Parsed := []
  calls : List Call := []
  messages : List (Emission UInt8) := []
  strays : List RequestId := []
  dropped : List Nat := []
  completed : List (Nat × Except ErrorCode Value) := []
  serves : Nat := 0
  responses : List (Nat × Emission UInt8) := []
  answers : List (Nat × Value) := []
  served : List (Nat × ErrorCode) := []

/-- A result handler is the number of its client call, a handler of `serve_one_request` the
number of that call. -/
structure Side where
  -- message_splitter
  buffer : List UInt8 := []
  locked : Bool := false
  beginParseMessage : Bool := false
  waitingForRequest : Option Nat := none
  waitingForResponse : Bool := false
  parsingHeader : Bool := false
  -- the parse operations whose async_read_some has not completed
  reads : List ParseOperation := []
  -- expected_response_registry
  state : ResponseState := .notExpectingResponse
  expectedResponses : List (RequestId × ExpectedResponse) := []
  -- client_pipeline
  nextRequestId : RequestId := 0
  output : BufferedWriter Sent := {}
  -- the calls of the implementation, and which of them still hold their callback
  invoked : List Invocation := []
  unanswered : List Nat := []
  stack : List Frame := []
  thrown : Option Exception := none
  history : History := {}

namespace Side

def push (s : Side) (frames : List Frame) : Side :=
  { s with stack := frames ++ s.stack }

def note (s : Side) (f : History → History) : Side := { s with history := f s.history }

def assert (s : Side) (assertion : Assertion) (condition : Bool) : Side :=
  s.note fun h =>
    { h with violated := if condition then h.violated else h.violated ++ [assertion] }

def fail (s : Side) : Side := s.note fun h => { h with failed := true }

/-- Nothing on the way to the event loop catches. -/
def throw (s : Side) (e : Exception) : Side :=
  { s.fail with stack := [], thrown := some e }

/-! `begin_parse_value` and `message_splitter`. -/

def beginParseValue (s : Side) (onResult : Continuation) : Side :=
  s.push [.start onResult.operation]

/-- The function that `set_begin_parse_message` makes. -/
def callBeginParseMessage (s : Side) : Side :=
  if s.beginParseMessage then
    let s := s.assert .beginParseMessage
      (!s.parsingHeader && (s.waitingForResponse || s.waitingForRequest.isSome))
    if s.locked then s
    else { s with beginParseMessage := false, parsingHeader := true }.beginParseValue
      .messageType
  else s.throw .badFunctionCall

def waitForResponse (s : Side) : Side :=
  let s := { s.assert .waitForResponse !s.waitingForResponse with
    waitingForResponse := true, beginParseMessage := true }
  if s.parsingHeader then s else s.callBeginParseMessage

def waitForRequest (s : Side) (handler : Nat) : Side :=
  let s := { s.assert .waitForRequest s.waitingForRequest.isNone with
    waitingForRequest := some handler, beginParseMessage := true }
  if s.parsingHeader then s else s.callBeginParseMessage

def lockInput (s : Side) : Side :=
  { s.assert .lockInput (!s.parsingHeader && !s.locked) with locked := true }

def unlockInput (s : Side) : Side :=
  let s := { s.assert .unlockInput (!s.parsingHeader && s.locked) with locked := false }
  if !s.waitingForResponse && s.waitingForRequest.isNone then s
  else (s.assert .unlockBegin s.beginParseMessage).callBeginParseMessage

/-! `expected_response_registry`. -/

/-- `std::map::insert`: an element with the same key stays. -/
def insertExpected (id : RequestId) (expected : ExpectedResponse) :
    List (RequestId × ExpectedResponse) → List (RequestId × ExpectedResponse)
  | [] => [(id, expected)]
  | (key, other) :: rest =>
    if id < key then (id, expected) :: (key, other) :: rest
    else if id = key then (key, other) :: rest
    else (key, other) :: insertExpected id expected rest

def registryOnError (s : Side) (ec : ErrorCode) : Side :=
  let frame := Frame.errors (s.expectedResponses.map fun e => e.2.handler) ec
  Side.push { s.fail with expectedResponses := [], state := .notExpectingResponse } [frame]

def parseHeader (s : Side) : Side :=
  { s with state := .parsingHeader }.waitForResponse

/-- The handler that `parse_header` waits with. -/
def onHeader (s : Side) (request : Except ErrorCode RequestId) : Side :=
  let s := s.assert .registryHeader (s.state = .parsingHeader)
  match request with
  | .error ec => s.registryOnError ec
  | .ok id =>
    match s.expectedResponses.find? fun e => decide (e.1 = id) with
    | none =>
      let s := s.note fun h => { h with strays := h.strays ++ [id] }
      { s with state := .notExpectingResponse }.registryOnError .invalidInput
    | some (_, expected) =>
      { s with expectedResponses := s.expectedResponses.eraseP fun e => decide (e.1 = id),
               state := .parsingResult }.lockInput.beginParseValue (.result expected)

def expectResponse (s : Side) (id : RequestId) (expected : ExpectedResponse) : Side :=
  let s := { s with expectedResponses := insertExpected id expected s.expectedResponses }
  match s.state with
  | .notExpectingResponse => s.parseHeader
  | .parsingHeader | .parsingResult => s

/-- `handler(result)` for the handler of a client call. -/
def callResultHandler (s : Side) (handler : Nat) (result : Except ErrorCode Value) : Side :=
  (s.note fun h => { h with completed := h.completed ++ [(handler, result)] }).push [.user]

/-! The generated server. -/

/-- `handle_result(ec)` for the handler of a `serve_one_request`. -/
def complete (s : Side) (handler : Nat) (ec : ErrorCode) : Side :=
  (s.note fun h => { h with served := h.served ++ [(handler, ec)],
                            failed := h.failed || !decide (ec = .success) }).push [.user]

def onRequest (servers : InterfaceDefinition) (s : Side) (handler : Nat)
    (request : Except ErrorCode (RequestId × Identifier)) : Side :=
  match request with
  | .error ec => s.complete handler ec
  | .ok (id, name) =>
    match servers.find name with
    | none => s.throw .unknownMethodName
    | some m => s.lockInput.beginParseValue (.argument id name m handler)

/-- The two handlers that are passed to `send_buffer`. -/
def onSent (s : Side) (handler : Sent) (ec : ErrorCode) : Side :=
  match handler with
  | .request => if ec = .success then s else s.registryOnError ec
  | .response handler => s.complete handler ec

/-! The operations of the splitter. -/

def onError (s : Side) (ec : ErrorCode) : Side :=
  let frame := Frame.errorContinue s.waitingForRequest.isSome ec
  if s.waitingForResponse then
    ({ s.fail with waitingForResponse := false }.push [frame]).onHeader (.error ec)
  else s.fail.push [frame]

def onMessageType (s : Side) : Except ErrorCode Value → Side
  | .error ec => s.onError ec
  | .ok type =>
    if type = .integer MessageType.response.toNat then
      if s.waitingForResponse then s.beginParseValue .response
      else s.onError .invalidInput
    else if type = .integer MessageType.request.toNat then
      if s.waitingForRequest.isSome then s.beginParseValue .request
      else s.onError .invalidInput
    else s.onError .invalidInput

/-- The results of `requestIdParser` are integers, those of `requestHeaderParser` pairs. -/
def onResponse (s : Side) (request : Except ErrorCode Value) : Side :=
  let s := s.assert .responseWaiting s.waitingForResponse
  match request with
  | .error ec => s.onError ec
  | .ok (.integer id) =>
    let s := s.assert .responseHeader s.parsingHeader
    if s.waitingForResponse then
      ({ s with parsingHeader := false, waitingForResponse := false }.push
        [.responseContinue s.waitingForRequest.isSome]).onHeader (.ok (UInt64.ofNat id))
    else s.throw .badFunctionCall
  | .ok _ => s

def onRequestHeader (servers : InterfaceDefinition) (s : Side)
    (request : Except ErrorCode Value) : Side :=
  let s := s.assert .requestWaiting s.waitingForRequest.isSome
  match request with
  | .error ec => s.onError ec
  | .ok (.tuple [.integer id, .utf8 name]) =>
    let s := s.assert .requestHeader s.parsingHeader
    match s.waitingForRequest with
    | some handler =>
      onRequest servers ({ s with parsingHeader := false, waitingForRequest := none }.push
        [.requestContinue s.waitingForResponse]) handler (.ok (UInt64.ofNat id, name))
    | none => s.throw .badFunctionCall
  | .ok _ => s

def onResult (s : Side) (handler : Nat) (result : Except ErrorCode Value) : Side :=
  let s := s.assert .registryResult (s.state = .parsingResult)
  match result with
  | .error ec =>
    (s.note fun h => { h with dropped := h.dropped ++ [handler] }).registryOnError ec
  | .ok v => (s.push [.resultUnlocked handler v]).unlockInput

/-- What a `parse_operation` does with `m_on_result`. -/
def call (servers : InterfaceDefinition) (s : Side) (onResult : Continuation)
    (result : Except ErrorCode Value) : Side :=
  match onResult with
  | .messageType => s.onMessageType result
  | .response => s.onResponse result
  | .request => s.onRequestHeader servers result
  | .result expected => s.onResult expected.handler result
  | .argument id name m handler =>
    (s.push [.argumentUnlocked id name m handler result]).unlockInput

/-- The handler of a completed parse runs with `rest` in the receive buffer. -/
def callWith (servers : InterfaceDefinition) (s : Side) (onResult : Continuation) (v : Value)
    (rest : List UInt8) : Side :=
  let s := Side.note { s with buffer := rest } fun h =>
    { h with parsed := h.parsed ++ [⟨onResult, v⟩] }
  s.call servers onResult (.ok v)

variable [Platform]

/-- `parse_operation::start`. A byte that is refused stays in the buffer. -/
def start (servers : InterfaceDefinition) (s : Side) (operation : ParseOperation) : Side :=
  match operation.parser.checkForImmediateCompletion with
  | some v => s.callWith servers operation.onResult v s.buffer
  | none =>
    match operation.parser.read s.buffer with
    | .complete v rest => s.callWith servers operation.onResult v rest
    | .more parser =>
      { s with buffer := [],
               reads := s.reads ++
                 [{ operation with parser, seen := operation.seen ++ s.buffer }] }
    | .fail .invalidInput => s.fail.call servers operation.onResult (.error .invalidInput)
    | .fail .lengthError => s.throw .lengthError

/-! The rest of a function after a call that it made. -/

def continueRequest (s : Side) (continue_ : Bool) : Side :=
  if continue_ && s.waitingForResponse && !s.parsingHeader then
    (s.assert .requestBegin s.beginParseMessage).callBeginParseMessage
  else s

def continueResponse (s : Side) (continue_ : Bool) : Side :=
  if continue_ && s.waitingForRequest.isSome && !s.parsingHeader then
    (s.assert .responseBegin s.beginParseMessage).callBeginParseMessage
  else s

def continueError (servers : InterfaceDefinition) (s : Side) (isWaitingForRequest : Bool)
    (ec : ErrorCode) : Side :=
  if isWaitingForRequest then
    match s.waitingForRequest with
    | some handler =>
      onRequest servers { s with waitingForRequest := none } handler (.error ec)
    | none => s.throw .badFunctionCall
  else s

def continueErrors (s : Side) (ec : ErrorCode) : List Nat → Side
  | [] => s
  | handler :: handlers => (s.push [.errors handlers ec]).callResultHandler handler (.error ec)

def continueResult (s : Side) (handler : Nat) (v : Value) : Side :=
  let s := s.push [.resultReady handler v]
  if s.expectedResponses.isEmpty then { s with state := .notExpectingResponse }
  else s.parseHeader

def continueArgument (s : Side) (id : RequestId) (name : Identifier) (m : Method)
    (handler : Nat) (argument : Except ErrorCode Value) : Side :=
  match argument with
  | .error ec => s.complete handler ec
  | .ok v =>
    Side.push { s with invoked := s.invoked ++ [⟨id, name, m, v, handler⟩],
                       unanswered := s.unanswered ++ [s.invoked.length] } [.user]

def continueWriter (s : Side) : Side :=
  match s.output.proceed with
  | none => s
  | some output =>
    let next := Side.push { s with output } [.writer]
    match s.output.stack with
    | .onResult (handler :: _) ec :: _ => next.onSent handler ec
    | _ => next

/-- What is left to do in a frame that has been taken from the stack. -/
def resume (servers : InterfaceDefinition) (s : Side) : Frame → Side
  | .start operation => s.start servers operation
  | .requestContinue continue_ => s.continueRequest continue_
  | .responseContinue continue_ => s.continueResponse continue_
  | .errorContinue isWaitingForRequest ec => s.continueError servers isWaitingForRequest ec
  | .errors handlers ec => s.continueErrors ec handlers
  | .resultUnlocked handler v => s.continueResult handler v
  | .resultReady handler v => s.callResultHandler handler (.ok v)
  | .argumentUnlocked id name m handler argument => s.continueArgument id name m handler argument
  | .writer => s.continueWriter
  | .user => s

/-! What user code and the event loop can do. -/

/-- `client_pipeline::request` of a generated method. -/
def request (s : Side) (name : Identifier) (m : Method) (arguments : List Value) : Side :=
  let id := s.nextRequestId
  let handler := s.history.calls.length
  let message := requestMessage id name m arguments
  let s := Side.note
    { s with nextRequestId := id + 1, output := s.output.append message.output } fun h =>
    { h with calls := h.calls ++ [⟨id, name, m, arguments, message.ok⟩],
              messages := h.messages ++ [message] }
  if message.ok then
    Side.expectResponse { s with output := s.output.sendBuffer .request } id
      ⟨m.resultParser, handler⟩
  else
    -- build_request itself calls the handler before it returns failure
    s.callResultHandler handler (.error .invalidInput)

def serveOneRequest (s : Side) : Side :=
  (s.note fun h => { h with serves := h.serves + 1 }).waitForRequest s.history.serves

/-- The callback that the server passed to the implementation. -/
def answer (s : Side) (index : Nat) (invocation : Invocation)
    (result : Except ErrorCode Value) : Side :=
  let s : Side := { s with unanswered := s.unanswered.erase index }
  match result with
  | .error ec => s.complete invocation.handler ec
  | .ok v =>
    let message := responseMessage invocation.id invocation.method v
    let s := Side.note { s with output := s.output.append message.output } fun h =>
      { h with responses := h.responses ++ [(index, message)],
               answers := h.answers ++ [(index, v)],
               messages := h.messages ++ [message] }
    if message.ok then
      { s with output := s.output.sendBuffer (.response invocation.handler) }
    else s.complete invocation.handler .invalidInput

def userRuns (s : Side) : Bool :=
  match s.stack with
  | [] | .user :: _ => true
  | _ => false

inductive Event where
  | call (name : Identifier) (arguments : List Value)
  | serve
  | answer (index : Nat) (result : Except ErrorCode Value)
  | return
  | resume
  | read (index : Nat) (bytes : List UInt8)
  | readError (index : Nat) (ec : ErrorCode)
  | written (index : Nat) (transferred : Nat) (ec : ErrorCode)

/-- The result that an implementation may give: an error, or an object of the method's
result type. -/
def admissible (m : Method) : Except ErrorCode Value → Bool
  | .ok v => v.fits m.result
  | .error ec => !decide (ec = .success)

/-- User code runs in the event loop or in an innermost frame. The event loop delivers a
completion when no frame is left. A generated client has no method with a name of more than
255 bytes. -/
def step (clients servers : InterfaceDefinition) (s : Side) (event : Event) : Option Side :=
  if s.thrown.isSome then none
  else match event with
  | .call name arguments =>
    match clients.find name with
    | some m =>
      if s.userRuns && decide (name.length ≤ 255) && Value.fitsAll m.parameters arguments then
        some (s.request name m arguments)
      else none
    | none => none
  | .serve => if s.userRuns then some s.serveOneRequest else none
  | .answer index result =>
    match s.invoked[index]? with
    | some invocation =>
      if s.userRuns && decide (index ∈ s.unanswered) && admissible invocation.method result then
        some (s.answer index invocation result)
      else none
    | none => none
  | .return =>
    match s.stack with
    | .user :: stack => some { s with stack }
    | _ => none
  | .resume =>
    match s.stack with
    | [] | .user :: _ => none
    | frame :: stack => some (Side.resume servers { s with stack } frame)
  | .read index bytes =>
    match s.stack, s.reads[index]? with
    | [], some operation =>
      if bytes.length ≤ 512 then
        some (({ s with reads := s.reads.eraseIdx index, buffer := s.buffer ++ bytes }.note
          fun h => { h with received := h.received ++ bytes }).push [.start operation])
      else none
    | _, _ => none
  | .readError index ec =>
    match s.stack, s.reads[index]? with
    | [], some operation =>
      if ec = .success then none
      else some (Side.call servers { s.fail with reads := s.reads.eraseIdx index }
        operation.onResult (.error ec))
    | _, _ => none
  | .written index transferred ec =>
    match s.stack, s.output.step (.written index transferred ec) with
    | [], some output => some (Side.push { s with output } [.writer])
    | _, _ => none

/-- The steps of a side, with what made each of them possible. -/
inductive Taken (clients servers : InterfaceDefinition) (s : Side) : Event → Side → Prop
  | call {name : Identifier} {m : Method} {arguments : List Value} (runs : s.userRuns = true)
      (find : clients.find name = some m) (short : name.length ≤ 255)
      (fits : Value.fitsAll m.parameters arguments = true) :
      Taken clients servers s (.call name arguments) (s.request name m arguments)
  | serve (runs : s.userRuns = true) : Taken clients servers s .serve s.serveOneRequest
  | answer {index : Nat} {invocation : Invocation} {result : Except ErrorCode Value}
      (runs : s.userRuns = true) (invoked : s.invoked[index]? = some invocation)
      (unanswered : index ∈ s.unanswered)
      (admitted : admissible invocation.method result = true) :
      Taken clients servers s (.answer index result) (s.answer index invocation result)
  | return {stack : List Frame} (stack_eq : s.stack = .user :: stack) :
      Taken clients servers s .return { s with stack }
  | resume {frame : Frame} {stack : List Frame} (stack_eq : s.stack = frame :: stack)
      (frame_ne : frame ≠ .user) :
      Taken clients servers s .resume (Side.resume servers { s with stack } frame)
  | read {index : Nat} {bytes : List UInt8} {operation : ParseOperation}
      (stack_eq : s.stack = []) (reads : s.reads[index]? = some operation)
      (length_le : bytes.length ≤ 512) :
      Taken clients servers s (.read index bytes)
        (Side.push (Side.note { s with reads := s.reads.eraseIdx index,
                                       buffer := s.buffer ++ bytes }
          fun h => { h with received := h.received ++ bytes }) [.start operation])
  | readError {index : Nat} {ec : ErrorCode} {operation : ParseOperation}
      (stack_eq : s.stack = []) (reads : s.reads[index]? = some operation)
      (ec_ne : ec ≠ .success) :
      Taken clients servers s (.readError index ec)
        (Side.call servers { s.fail with reads := s.reads.eraseIdx index } operation.onResult
          (.error ec))
  | written {index transferred : Nat} {ec : ErrorCode} {output : BufferedWriter Sent}
      (stack_eq : s.stack = [])
      (written : s.output.step (.written index transferred ec) = some output) :
      Taken clients servers s (.written index transferred ec)
        (Side.push { s with output } [.writer])

theorem taken_of_step {clients servers : InterfaceDefinition} {s s' : Side} {event : Event}
    (h : step clients servers s event = some s') :
    s.thrown = none ∧ Taken clients servers s event s' := by
  have hthrown : s.thrown = none := by
    cases hs : s.thrown with
    | none => rfl
    | some e => simp [step, hs] at h
  refine ⟨hthrown, ?_⟩
  have hnone : s.thrown.isSome = false := by rw [hthrown]; rfl
  unfold step at h
  rw [hnone, if_neg Bool.false_ne_true] at h
  cases event with
  | call name arguments =>
    dsimp only at h
    split at h
    · next m hfind =>
      split_ifs at h with hguard
      cases h
      simp only [Bool.and_eq_true, decide_eq_true_eq] at hguard
      exact .call hguard.1.1 hfind hguard.1.2 hguard.2
    · cases h
  | serve =>
    dsimp only at h
    split_ifs at h with hguard
    cases h
    exact .serve hguard
  | answer index result =>
    dsimp only at h
    split at h
    · next invocation hinvoked =>
      split_ifs at h with hguard
      cases h
      simp only [Bool.and_eq_true, decide_eq_true_eq] at hguard
      exact .answer hguard.1.1 hinvoked hguard.1.2 hguard.2
    · cases h
  | «return» =>
    dsimp only at h
    split at h
    · next stack hstack => cases h; exact .return hstack
    · cases h
  | resume =>
    dsimp only at h
    split at h
    · cases h
    · cases h
    · next frame stack hnot hstack =>
      cases h
      refine .resume hstack ?_
      rintro rfl
      exact hnot rfl
  | read index bytes =>
    dsimp only at h
    split at h
    · next operation hstack hreads =>
      split_ifs at h with hlength
      cases h
      exact .read hstack hreads hlength
    · cases h
  | readError index ec =>
    dsimp only at h
    split at h
    · next operation hstack hreads =>
      split_ifs at h with hec
      cases h
      exact .readError hstack hreads hec
    · cases h
  | written index transferred ec =>
    dsimp only at h
    split at h
    · next output hstack hwritten => cases h; exact .written hstack hwritten
    · cases h

end Side

end Warpcoil
