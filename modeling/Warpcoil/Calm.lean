import Warpcoil.Custody
import Warpcoil.Uninterrupted

/-! A side on which no assertion has failed: at most one parse operation, whose kind decides the
flags of the splitter, and what each frame does then. -/
namespace Warpcoil
open Incremental Transition

def Frame.operation : Frame → List ParseOperation
  | .start operation => [operation]
  | .requestContinue _ | .responseContinue _ | .errorContinue _ _ | .errors _ _
  | .resultUnlocked _ _ | .resultReady _ _ | .argumentUnlocked _ _ _ _ _ | .writer | .user => []

/-- A frame that only errors push. -/
def Frame.isError : Frame → Bool
  | .errorContinue _ _ | .errors _ _ | .argumentUnlocked _ _ _ _ (.error _) => true
  | .start _ | .requestContinue _ | .responseContinue _ | .resultUnlocked _ _ | .resultReady _ _
  | .argumentUnlocked _ _ _ _ (.ok _) | .writer | .user => false

def Continuation.isHeader : Continuation → Bool
  | .messageType | .response | .request => true
  | .result _ | .argument _ _ _ _ => false

/-- The results for which the registry is in the state `parsingResult`. -/
def Continuation.results : Continuation → Nat
  | .result _ => 1
  | .messageType | .response | .request | .argument _ _ _ _ => 0

def Frame.results : Frame → Nat
  | .start operation => operation.onResult.results
  | .resultUnlocked _ _ => 1
  | .requestContinue _ | .responseContinue _ | .errorContinue _ _ | .errors _ _
  | .resultReady _ _ | .argumentUnlocked _ _ _ _ _ | .writer | .user => 0

namespace Side

/-- The parse operations that have not completed. -/
def active (s : Side) : List ParseOperation := s.stack.flatMap Frame.operation ++ s.reads

def results (s : Side) : Nat :=
  (s.stack.map Frame.results).sum + (s.reads.map fun operation => operation.onResult.results).sum

/-- Who has to be waiting while a parse operation runs. -/
def awaited (s : Side) : Continuation → Bool
  | .messageType => s.waitingForResponse || s.waitingForRequest.isSome
  | .response => s.waitingForResponse
  | .request => s.waitingForRequest.isSome
  | .result _ => true
  | .argument _ _ _ _ => s.waitingForRequest.isNone

inductive Phase (s : Side) : Prop
  | idle (active : s.active = []) (parsingHeader : s.parsingHeader = false)
      (locked : s.locked = false) (response : s.waitingForResponse = false)
      (request : s.waitingForRequest = none)
  | header {operation : ParseOperation} (active : s.active = [operation])
      (kind : operation.onResult.isHeader = true)
      (awaited : s.awaited operation.onResult = true)
      (parsingHeader : s.parsingHeader = true) (locked : s.locked = false)
      (begins : s.waitingForResponse = true → s.waitingForRequest.isSome = true →
        s.beginParseMessage = true)
  | payload {operation : ParseOperation} (active : s.active = [operation])
      (kind : operation.onResult.isHeader = false)
      (awaited : s.awaited operation.onResult = true)
      (parsingHeader : s.parsingHeader = false) (locked : s.locked = true)
      (begins : (s.waitingForResponse || s.waitingForRequest.isSome) = true →
        s.beginParseMessage = true)

inductive Registry (s : Side) : Prop
  | notExpecting (state : s.state = .notExpectingResponse)
      (response : s.waitingForResponse = false) (expected : s.expectedResponses = [])
      (results : s.results = 0)
  | header (state : s.state = .parsingHeader) (response : s.waitingForResponse = true)
      (expected : s.expectedResponses ≠ []) (results : s.results = 0)
  | result (state : s.state = .parsingResult) (response : s.waitingForResponse = false)
      (results : s.results = 1)

/-! What the functions do at such a side. -/

def begun (s : Side) : Side :=
  { s with beginParseMessage := false, parsingHeader := true }.beginParseValue .messageType

/-- A new waiter starts to parse, or waits for its turn. -/
def summon (s : Side) : Side :=
  if s.active.isEmpty then s.begun else { s with beginParseMessage := true }

/-- The end of a payload lets those go on who wait. -/
def release (s : Side) : Side :=
  if s.waitingForResponse || s.waitingForRequest.isSome then { s with locked := false }.begun
  else { s with locked := false }

def entered (s : Side) (onResult : Continuation) (v : Value) (rest : List UInt8) : Side :=
  Side.note { s with buffer := rest } fun h => { h with parsed := h.parsed ++ [⟨onResult, v⟩] }

/-- The registry waits for the next header. -/
def awaitHeader (s : Side) : Side :=
  { s with state := .parsingHeader, waitingForResponse := true }

/-- The registry locks the input for the result of a pending call. -/
def takeResponse (s : Side) (id : RequestId) : Side :=
  { s with parsingHeader := false, waitingForResponse := false,
           expectedResponses := s.expectedResponses.eraseP fun e => decide (e.1 = id),
           state := .parsingResult, locked := true }

/-- The server locks the input for the arguments of a request. -/
def takeRequest (s : Side) : Side :=
  { s with parsingHeader := false, waitingForRequest := none, locked := true }

theorem assert_of (s : Side) (a : Assertion) {c : Bool} (h : c = true) : s.assert a c = s := by
  rw [h, assert, note, if_pos rfl]

theorem callBeginParseMessage_eq {s : Side} (hbegin : s.beginParseMessage = true)
    (hheader : s.parsingHeader = false)
    (hwaiting : (s.waitingForResponse || s.waitingForRequest.isSome) = true) :
    s.callBeginParseMessage = if s.locked then s else s.begun := by
  unfold callBeginParseMessage
  rw [if_pos hbegin, assert_of s _ (by rw [hheader, hwaiting]; rfl)]
  rfl

/-- A side without parse operations is idle. -/
theorem Phase.idle_of {s : Side} (h : s.Phase) (hactive : s.active = []) :
    s.parsingHeader = false ∧ s.locked = false ∧ s.waitingForResponse = false ∧
      s.waitingForRequest = none := by
  cases h with
  | idle _ parsingHeader locked response request =>
    exact ⟨parsingHeader, locked, response, request⟩
  | header active | payload active => simp [active] at hactive

theorem Phase.busy_of {s : Side} (h : s.Phase) (hactive : s.active ≠ []) :
    s.parsingHeader = true ∨ s.parsingHeader = false ∧ s.locked = true := by
  cases h with
  | idle active => exact (hactive active).elim
  | header _ _ _ parsingHeader => exact .inl parsingHeader
  | payload _ _ _ parsingHeader locked => exact .inr ⟨parsingHeader, locked⟩

/-- The flags of a side that parses a header. -/
theorem Phase.of_header {s : Side} (h : s.Phase) {operation : ParseOperation}
    (hactive : s.active = [operation]) (hkind : operation.onResult.isHeader = true) :
    s.parsingHeader = true ∧ s.locked = false ∧
      (s.waitingForResponse = true → s.waitingForRequest.isSome = true →
        s.beginParseMessage = true) := by
  cases h with
  | idle active => rw [active] at hactive; cases hactive
  | header _ _ _ parsingHeader locked begins => exact ⟨parsingHeader, locked, begins⟩
  | payload active kind =>
    rw [active, List.cons.injEq] at hactive
    rw [hactive.1, hkind] at kind
    cases kind

theorem Phase.of_payload {s : Side} (h : s.Phase) {operation : ParseOperation}
    (hactive : s.active = [operation]) (hkind : operation.onResult.isHeader = false) :
    s.parsingHeader = false ∧ s.locked = true ∧
      ((s.waitingForResponse || s.waitingForRequest.isSome) = true →
        s.beginParseMessage = true) := by
  cases h with
  | idle active => rw [active] at hactive; cases hactive
  | payload _ _ _ parsingHeader locked begins => exact ⟨parsingHeader, locked, begins⟩
  | header active kind =>
    rw [active, List.cons.injEq] at hactive
    rw [hactive.1, hkind] at kind
    cases kind

theorem wait_eq {s : Side} (hbegin : s.beginParseMessage = true)
    (hwaiting : (s.waitingForResponse || s.waitingForRequest.isSome) = true)
    (hidle : s.active = [] → s.parsingHeader = false ∧ s.locked = false)
    (hbusy : s.active ≠ [] → s.parsingHeader = true ∨ s.parsingHeader = false ∧ s.locked = true) :
    (if s.parsingHeader then s else s.callBeginParseMessage) = s.summon := by
  have hsame : { s with beginParseMessage := true } = s := by rw [← hbegin]
  unfold summon
  by_cases hactive : s.active = []
  · obtain ⟨hheader, hlocked⟩ := hidle hactive
    rw [hactive, callBeginParseMessage_eq hbegin hheader hwaiting, hheader, hlocked]
    rfl
  · have hempty : s.active.isEmpty = false := List.isEmpty_eq_false_iff.mpr hactive
    rw [hempty, if_neg Bool.false_ne_true, hsame]
    rcases hbusy hactive with hheader | ⟨hheader, hlocked⟩
    · rw [if_pos hheader]
    · rw [hheader, callBeginParseMessage_eq hbegin hheader hwaiting, hlocked]
      rfl

theorem waitForResponse_eq {s : Side} (h : s.Phase) (hfree : s.waitingForResponse = false) :
    s.waitForResponse = summon { s with waitingForResponse := true } := by
  have hassert : s.assert .waitForResponse (!s.waitingForResponse) = s :=
    assert_of s _ (by rw [hfree]; rfl)
  unfold waitForResponse
  rw [hassert]
  exact wait_eq (s := { s with waitingForResponse := true, beginParseMessage := true }) rfl rfl
    (fun hactive => ⟨(h.idle_of hactive).1, (h.idle_of hactive).2.1⟩) h.busy_of

theorem waitForRequest_eq {s : Side} (h : s.Phase) (hfree : s.waitingForRequest = none)
    (handler : Nat) :
    s.waitForRequest handler = summon { s with waitingForRequest := some handler } := by
  have hassert : s.assert .waitForRequest s.waitingForRequest.isNone = s :=
    assert_of s _ (by rw [hfree]; rfl)
  unfold waitForRequest
  rw [hassert]
  exact wait_eq (s := { s with waitingForRequest := some handler, beginParseMessage := true }) rfl
    (Bool.or_true _) (fun hactive => ⟨(h.idle_of hactive).1, (h.idle_of hactive).2.1⟩) h.busy_of

theorem unlockInput_eq {s : Side} (hlocked : s.locked = true) (hheader : s.parsingHeader = false)
    (hbegins : (s.waitingForResponse || s.waitingForRequest.isSome) = true →
      s.beginParseMessage = true) : s.unlockInput = s.release := by
  have hassert : s.assert .unlockInput (!s.parsingHeader && s.locked) = s :=
    assert_of s _ (by rw [hheader, hlocked]; rfl)
  have hnone : s.waitingForRequest.isNone = !s.waitingForRequest.isSome := by
    cases s.waitingForRequest <;> rfl
  unfold unlockInput release
  rw [hassert]
  dsimp only
  rw [hnone, ← Bool.not_or]
  cases hwaiting : s.waitingForResponse || s.waitingForRequest.isSome with
  | false => rfl
  | true =>
    rw [Bool.not_true, if_neg Bool.false_ne_true, assert_of _ _ (hbegins hwaiting)]
    exact (callBeginParseMessage_eq (s := { s with locked := false }) (hbegins hwaiting) hheader
      hwaiting).trans rfl

theorem callBeginParseMessage_locked {s : Side} (a : Assertion)
    (hbegin : s.beginParseMessage = true) (hheader : s.parsingHeader = false)
    (hlocked : s.locked = true)
    (hwaiting : (s.waitingForResponse || s.waitingForRequest.isSome) = true) :
    (s.assert a s.beginParseMessage).callBeginParseMessage = s := by
  rw [assert_of s _ hbegin, callBeginParseMessage_eq hbegin hheader hwaiting, hlocked]
  rfl

/-- Whoever waits after a header has been handed over waits for the payload. -/
theorem continueRequest_eq {s : Side} (h : s.Phase) (continue_ : Bool) :
    s.continueRequest continue_ = s := by
  unfold continueRequest
  split_ifs with hguard
  · simp only [Bool.and_eq_true, Bool.not_eq_true'] at hguard
    have hwaiting : (s.waitingForResponse || s.waitingForRequest.isSome) = true := by
      rw [hguard.1.2]
      rfl
    cases h with
    | idle _ _ _ response => rw [response] at hguard; simp at hguard
    | header _ _ _ parsingHeader => rw [parsingHeader] at hguard; simp at hguard
    | payload _ _ _ parsingHeader locked begins =>
      exact callBeginParseMessage_locked _ (begins hwaiting) parsingHeader locked hwaiting
  · rfl

theorem continueResponse_eq {s : Side} (h : s.Phase) (continue_ : Bool) :
    s.continueResponse continue_ = s := by
  unfold continueResponse
  split_ifs with hguard
  · simp only [Bool.and_eq_true, Bool.not_eq_true'] at hguard
    have hwaiting : (s.waitingForResponse || s.waitingForRequest.isSome) = true := by
      rw [hguard.1.2]
      exact Bool.or_true _
    cases h with
    | idle _ _ _ _ request => rw [request] at hguard; simp at hguard
    | header _ _ _ parsingHeader => rw [parsingHeader] at hguard; simp at hguard
    | payload _ _ _ parsingHeader locked begins =>
      exact callBeginParseMessage_locked _ (begins hwaiting) parsingHeader locked hwaiting
  · rfl

theorem lockInput_eq {s : Side} (hheader : s.parsingHeader = false) (hlocked : s.locked = false) :
    s.lockInput = { s with locked := true } := by
  rw [lockInput, assert_of s _ (by rw [hheader, hlocked]; rfl)]

theorem onHeader_ok {s : Side} {id key : RequestId} {expected : ExpectedResponse}
    (hstate : s.state = .parsingHeader) (hheader : s.parsingHeader = false)
    (hlocked : s.locked = false)
    (hfind : s.expectedResponses.find? (fun e => decide (e.1 = id)) = some (key, expected)) :
    s.onHeader (.ok id) = beginParseValue
      { s with expectedResponses := s.expectedResponses.eraseP fun e => decide (e.1 = id),
               state := .parsingResult, locked := true } (.result expected) := by
  unfold onHeader
  rw [assert_of s _ (decide_eq_true hstate)]
  dsimp only
  rw [hfind]
  exact congrArg (beginParseValue · (.result expected)) (lockInput_eq hheader hlocked)

theorem onResponse_ok {s : Side} (id : Nat) (hwaiting : s.waitingForResponse = true)
    (hheader : s.parsingHeader = true) :
    s.onResponse (.ok (.integer id)) =
      onHeader (push { s with parsingHeader := false, waitingForResponse := false }
        [.responseContinue s.waitingForRequest.isSome]) (.ok (UInt64.ofNat id)) := by
  unfold onResponse
  rw [assert_of s _ hwaiting]
  dsimp only
  rw [assert_of s _ hheader, if_pos hwaiting]

theorem onRequestHeader_ok {servers : InterfaceDefinition} {s : Side} {id : Nat}
    {name : Identifier} {m : Method} {handler : Nat} (hwaiting : s.waitingForRequest = some handler)
    (hheader : s.parsingHeader = true) (hlocked : s.locked = false)
    (hfind : servers.find name = some m) :
    onRequestHeader servers s (.ok (.tuple [.integer id, .utf8 name])) =
      beginParseValue
        (push { s with parsingHeader := false, waitingForRequest := none, locked := true }
          [.requestContinue s.waitingForResponse])
        (.argument (UInt64.ofNat id) name m handler) := by
  unfold onRequestHeader
  rw [assert_of s _ (by rw [hwaiting]; rfl)]
  dsimp only
  rw [assert_of s _ hheader, hwaiting]
  dsimp only
  unfold onRequest
  dsimp only
  rw [hfind]
  exact congrArg (beginParseValue · (.argument (UInt64.ofNat id) name m handler))
    (lockInput_eq rfl hlocked)

theorem onResult_ok {s : Side} (handler : Nat) (v : Value) (hstate : s.state = .parsingResult) :
    s.onResult handler (.ok v) = (s.push [.resultUnlocked handler v]).unlockInput := by
  unfold onResult
  rw [assert_of s _ (decide_eq_true hstate)]

/-- No assertion has failed and nothing has been thrown, and what is on the way is no error. -/
structure Calm [Platform] (s : Side) : Prop where
  thrown : s.thrown = none
  asserts : s.history.violated = []
  frames : ∀ frame ∈ s.stack, frame.isError = false
  sound : ∀ operation ∈ s.active, operation.Sound
  phase : s.Phase
  registry : s.Registry

variable [Platform]

/-- What a parse operation finds next, when the read ends, if it is shown no more. -/
abbrev reading (s : Side) (operation : ParseOperation) :
    Reading Parser UInt8 Value ParseFailure :=
  operation.onResult.parserType.parse (operation.seen ++ s.buffer)

/-- What a frame does at a calm side from whose stack it has been taken. -/
inductive Resumed (servers : InterfaceDefinition) (s : Side) : Frame → Side → Prop
  | more {operation : ParseOperation} {parser : Parser}
      (reads : s.reading operation = .more parser) :
      Resumed servers s (.start operation)
        { s with buffer := [],
                 reads := s.reads ++
                   [{ operation with parser, seen := operation.seen ++ s.buffer }] }
  | responseType {operation : ParseOperation} {rest : List UInt8}
      (kind : operation.onResult = .messageType)
      (reads : s.reading operation = .complete (.integer 1) rest)
      (waiting : s.waitingForResponse = true) :
      Resumed servers s (.start operation)
        ((s.entered .messageType (.integer 1) rest).beginParseValue .response)
  | requestType {operation : ParseOperation} {rest : List UInt8}
      (kind : operation.onResult = .messageType)
      (reads : s.reading operation = .complete (.integer 0) rest)
      (waiting : s.waitingForRequest.isSome = true) :
      Resumed servers s (.start operation)
        ((s.entered .messageType (.integer 0) rest).beginParseValue .request)
  | responseHeader {operation : ParseOperation} {rest : List UInt8} {id : Nat}
      {key : RequestId} {expected : ExpectedResponse} (kind : operation.onResult = .response)
      (reads : s.reading operation = .complete (.integer id) rest)
      (find : s.expectedResponses.find? (fun e => decide (e.1 = UInt64.ofNat id)) =
        some (key, expected)) :
      Resumed servers s (.start operation)
        ((((s.entered .response (.integer id) rest).takeResponse (UInt64.ofNat id)).push
          [.responseContinue s.waitingForRequest.isSome]).beginParseValue (.result expected))
  | requestHeader {operation : ParseOperation} {rest : List UInt8} {id : Nat}
      {name : Identifier} {m : Method} {handler : Nat} (kind : operation.onResult = .request)
      (reads : s.reading operation = .complete (.tuple [.integer id, .utf8 name]) rest)
      (waiting : s.waitingForRequest = some handler) (find : servers.find name = some m) :
      Resumed servers s (.start operation)
        ((((s.entered .request (.tuple [.integer id, .utf8 name]) rest).takeRequest).push
          [.requestContinue s.waitingForResponse]).beginParseValue
            (.argument (UInt64.ofNat id) name m handler))
  | result {operation : ParseOperation} {expected : ExpectedResponse} {v : Value}
      {rest : List UInt8} (kind : operation.onResult = .result expected)
      (reads : s.reading operation = .complete v rest) :
      Resumed servers s (.start operation)
        (((s.entered (.result expected) v rest).push
          [.resultUnlocked expected.handler v]).release)
  | argument {operation : ParseOperation} {id : RequestId} {name : Identifier} {m : Method}
      {handler : Nat} {v : Value} {rest : List UInt8}
      (kind : operation.onResult = .argument id name m handler)
      (reads : s.reading operation = .complete v rest) :
      Resumed servers s (.start operation)
        (((s.entered (.argument id name m handler) v rest).push
          [.argumentUnlocked id name m handler (.ok v)]).release)
  | requestContinue {continue_ : Bool} : Resumed servers s (.requestContinue continue_) s
  | responseContinue {continue_ : Bool} : Resumed servers s (.responseContinue continue_) s
  | lastResult {handler : Nat} {v : Value} (expected : s.expectedResponses = []) :
      Resumed servers s (.resultUnlocked handler v)
        { s.push [.resultReady handler v] with state := .notExpectingResponse }
  | nextHeader {handler : Nat} {v : Value} (expected : s.expectedResponses ≠ []) :
      Resumed servers s (.resultUnlocked handler v)
        (s.push [.resultReady handler v]).awaitHeader.summon
  | resultReady {handler : Nat} {v : Value} :
      Resumed servers s (.resultReady handler v) (s.callResultHandler handler (.ok v))
  | implementation {id : RequestId} {name : Identifier} {m : Method} {handler : Nat} {v : Value} :
      Resumed servers s (.argumentUnlocked id name m handler (.ok v))
        (Side.push { s with invoked := s.invoked ++ [⟨id, name, m, v, handler⟩],
                            unanswered := s.unanswered ++ [s.invoked.length] } [.user])
  | writerDone (proceeds : s.output.proceed = none) : Resumed servers s .writer s
  | writer {output : BufferedWriter Sent} (proceeds : s.output.proceed = some output)
      (top : ∀ handler handlers ec stack,
        s.output.stack ≠ .onResult (.response handler :: handlers) ec :: stack) :
      Resumed servers s .writer (Side.push { s with output } [.writer])
  | responseSent {output : BufferedWriter Sent} {handler : Nat} {handlers : List Sent}
      {stack : List (SendFrame Sent)} (proceeds : s.output.proceed = some output)
      (top : s.output.stack = .onResult (.response handler :: handlers) .success :: stack) :
      Resumed servers s .writer
        ((Side.push { s with output } [.writer]).complete handler .success)

/-- What ends the calm when a frame is resumed. -/
inductive Disturbed (servers : InterfaceDefinition) (s : Side) : Frame → Prop
  | refused {operation : ParseOperation} {e : ParseFailure}
      (reads : s.reading operation = .fail e) : Disturbed servers s (.start operation)
  | messageType {operation : ParseOperation} {n : Nat} {rest : List UInt8}
      (kind : operation.onResult = .messageType)
      (reads : s.reading operation = .complete (.integer n) rest)
      (response : ¬ (n = 1 ∧ s.waitingForResponse = true))
      (request : ¬ (n = 0 ∧ s.waitingForRequest.isSome = true)) :
      Disturbed servers s (.start operation)
  | stray {operation : ParseOperation} {id : Nat} {rest : List UInt8}
      (kind : operation.onResult = .response)
      (reads : s.reading operation = .complete (.integer id) rest)
      (find : s.expectedResponses.find? (fun e => decide (e.1 = UInt64.ofNat id)) = none) :
      Disturbed servers s (.start operation)
  | unknown {operation : ParseOperation} {id : Nat} {name : Identifier} {rest : List UInt8}
      (kind : operation.onResult = .request)
      (reads : s.reading operation = .complete (.tuple [.integer id, .utf8 name]) rest)
      (find : servers.find name = none) : Disturbed servers s (.start operation)
  | writeError {handler : Sent} {handlers : List Sent} {ec : ErrorCode}
      {stack : List (SendFrame Sent)} (ec_ne : ec ≠ .success)
      (top : s.output.stack = .onResult (handler :: handlers) ec :: stack) :
      Disturbed servers s .writer

/-- A side that is about to start a parse operation: no other one runs. -/
structure Ready (s : Side) (operation : ParseOperation) : Prop where
  sound : operation.Sound
  active : s.active = []
  awaited : s.awaited operation.onResult = true
  header : operation.onResult.isHeader = true → s.parsingHeader = true ∧ s.locked = false
  payload : operation.onResult.isHeader = false → s.parsingHeader = false ∧ s.locked = true ∧
    ((s.waitingForResponse || s.waitingForRequest.isSome) = true → s.beginParseMessage = true)
  response : operation.onResult = .response → s.state = .parsingHeader
  result : ∀ expected, operation.onResult = .result expected → s.state = .parsingResult

theorem Calm.ready {s : Side} (h : s.Calm) {operation : ParseOperation} {stack : List Frame}
    (hstack : s.stack = .start operation :: stack) : Ready { s with stack } operation := by
  have hactive : s.active = operation :: active { s with stack } := by
    rw [active, hstack]
    rfl
  have hresults : s.results = operation.onResult.results + results { s with stack } := by
    rw [results, hstack, List.map_cons, List.sum_cons, Nat.add_assoc]
    rfl
  have hsound := h.sound operation (by rw [hactive]; exact List.mem_cons_self)
  have hresult (expected) (hk : operation.onResult = .result expected) :
      s.state = .parsingResult := by
    rw [hk, Continuation.results] at hresults
    cases h.registry with
    | notExpecting _ _ _ results | header _ _ _ results => omega
    | result state => exact state
  have hresponse (hk : operation.onResult = .response) (hawaited : s.awaited .response = true) :
      s.state = .parsingHeader := by
    change s.waitingForResponse = true at hawaited
    cases h.registry with
    | header state => exact state
    | notExpecting _ response | result _ response => rw [response] at hawaited; cases hawaited
  cases h.phase with
  | idle active => rw [active] at hactive; cases hactive
  | header active kind awaited parsingHeader locked =>
    rw [active, List.cons.injEq] at hactive
    obtain ⟨rfl, hrest⟩ := hactive
    exact ⟨hsound, hrest.symm, awaited, fun _ => ⟨parsingHeader, locked⟩,
      fun hk => (Bool.false_ne_true (hk.symm.trans kind)).elim,
      fun hk => hresponse hk (hk ▸ awaited), hresult⟩
  | payload active kind awaited parsingHeader locked begins =>
    rw [active, List.cons.injEq] at hactive
    obtain ⟨rfl, hrest⟩ := hactive
    exact ⟨hsound, hrest.symm, awaited, fun hk => (Bool.false_ne_true (kind.symm.trans hk)).elim,
      fun _ => ⟨parsingHeader, locked, begins⟩, fun hk => hresponse hk (hk ▸ awaited), hresult⟩

/-! The results of the header parsers have the types that their handlers take. -/

theorem messageType_complete {bs rest : List UInt8} {v : Value}
    (h : messageTypeParser.parse bs = .complete v rest) :
    ∃ b, bs = b :: rest ∧ v = .integer b.toNat := by
  have hforget := parse_messageType bs
  rw [h, Reading.forget_complete] at hforget
  cases bs with
  | nil => cases hforget
  | cons b tail =>
    simp only [Reading.complete.injEq] at hforget
    exact ⟨b, by rw [hforget.2], hforget.1⟩

theorem requestId_complete {bs rest : List UInt8} {v : Value}
    (h : requestIdParser.parse bs = .complete v rest) :
    8 ≤ bs.length ∧ rest = bs.drop 8 ∧ v = .integer (BigEndian.ofBytes (bs.take 8)) := by
  have hforget := parse_requestId bs
  rw [h, Reading.forget_complete] at hforget
  split_ifs at hforget with hlength
  simp only [Reading.complete.injEq] at hforget
  exact ⟨by omega, hforget.2, hforget.1⟩

theorem requestHeader_complete {bs rest : List UInt8} {v : Value}
    (h : requestHeaderParser.parse bs = .complete v rest) :
    ∃ n tail, 8 ≤ bs.length ∧ bs.drop 8 = n :: tail ∧ n.toNat ≤ tail.length ∧
      Platform.isValid (tail.take n.toNat) = true ∧ rest = tail.drop n.toNat ∧
      v = .tuple [.integer (BigEndian.ofBytes (bs.take 8)), .utf8 (tail.take n.toNat)] := by
  have hforget := parse_requestHeader bs
  rw [h, Reading.forget_complete] at hforget
  split_ifs at hforget with hlength
  split at hforget
  · cases hforget
  · next n tail hdrop =>
    split_ifs at hforget with hname hvalid
    simp only [Reading.complete.injEq] at hforget
    exact ⟨n, tail, by omega, hdrop, by omega, hvalid, hforget.2, hforget.1⟩

/-! The handlers of the parse operations, one by one. -/

theorem resumed_messageType {servers : InterfaceDefinition} {s : Side}
    {operation : ParseOperation} {n : Nat} {rest : List UInt8}
    (hkind : operation.onResult = .messageType)
    (hread : s.reading operation = .complete (.integer n) rest) :
    Resumed servers s (.start operation) (callWith servers s .messageType (.integer n) rest) ∨
      Disturbed servers s (.start operation) := by
  by_cases hresponse : n = 1 ∧ s.waitingForResponse = true
  · obtain ⟨rfl, hwaiting⟩ := hresponse
    have hnext : callWith servers s .messageType (.integer 1) rest =
        (s.entered .messageType (.integer 1) rest).beginParseValue .response := by
      have hguard : (s.entered .messageType (.integer 1) rest).waitingForResponse = true :=
        hwaiting
      change onMessageType (s.entered .messageType (.integer 1) rest) (.ok (.integer 1)) = _
      unfold onMessageType
      exact (if_pos rfl).trans (if_pos hguard)
    rw [hnext]
    exact .inl (.responseType hkind hread hwaiting)
  · by_cases hrequest : n = 0 ∧ s.waitingForRequest.isSome = true
    · obtain ⟨rfl, hwaiting⟩ := hrequest
      have hnext : callWith servers s .messageType (.integer 0) rest =
          (s.entered .messageType (.integer 0) rest).beginParseValue .request := by
        have hguard :
            (s.entered .messageType (.integer 0) rest).waitingForRequest.isSome = true := hwaiting
        change onMessageType (s.entered .messageType (.integer 0) rest) (.ok (.integer 0)) = _
        unfold onMessageType
        exact (if_neg (by decide)).trans ((if_pos rfl).trans (if_pos hguard))
      rw [hnext]
      exact .inl (.requestType hkind hread hwaiting)
    · exact .inr (.messageType hkind hread hresponse hrequest)

theorem resumed_response {servers : InterfaceDefinition} {s : Side}
    {operation : ParseOperation} (h : s.Ready operation) {id : Nat} {rest : List UInt8}
    (hkind : operation.onResult = .response)
    (hread : s.reading operation = .complete (.integer id) rest) :
    Resumed servers s (.start operation) (callWith servers s .response (.integer id) rest) ∨
      Disturbed servers s (.start operation) := by
  have hwaiting : s.waitingForResponse = true := by
    have hawaited := h.awaited
    rwa [hkind] at hawaited
  obtain ⟨hheader, hlocked⟩ := h.header (by rw [hkind]; rfl)
  cases hfind : s.expectedResponses.find? (fun e => decide (e.1 = UInt64.ofNat id)) with
  | none => exact .inr (.stray hkind hread hfind)
  | some found =>
    obtain ⟨key, expected⟩ := found
    have hnext : callWith servers s .response (.integer id) rest =
        (((s.entered .response (.integer id) rest).takeResponse (UInt64.ofNat id)).push
          [.responseContinue s.waitingForRequest.isSome]).beginParseValue (.result expected) :=
      (onResponse_ok (s := s.entered .response (.integer id) rest) id hwaiting hheader).trans
        (onHeader_ok (h.response hkind) rfl hlocked hfind)
    rw [hnext]
    exact .inl (.responseHeader hkind hread hfind)

theorem resumed_request {servers : InterfaceDefinition} {s : Side}
    {operation : ParseOperation} (h : s.Ready operation) {id : Nat} {name : Identifier}
    {rest : List UInt8} (hkind : operation.onResult = .request)
    (hread : s.reading operation = .complete (.tuple [.integer id, .utf8 name]) rest) :
    Resumed servers s (.start operation)
        (callWith servers s .request (.tuple [.integer id, .utf8 name]) rest) ∨
      Disturbed servers s (.start operation) := by
  have hsome : s.waitingForRequest.isSome = true := by
    have hawaited := h.awaited
    rwa [hkind] at hawaited
  obtain ⟨handler, hwaiting⟩ := Option.isSome_iff_exists.mp hsome
  obtain ⟨hheader, hlocked⟩ := h.header (by rw [hkind]; rfl)
  cases hfind : servers.find name with
  | none => exact .inr (.unknown hkind hread hfind)
  | some m =>
    have hnext : callWith servers s .request (.tuple [.integer id, .utf8 name]) rest =
        (((s.entered .request (.tuple [.integer id, .utf8 name]) rest).takeRequest).push
          [.requestContinue s.waitingForResponse]).beginParseValue
            (.argument (UInt64.ofNat id) name m handler) :=
      onRequestHeader_ok (s := s.entered .request (.tuple [.integer id, .utf8 name]) rest)
        hwaiting hheader hlocked hfind
    rw [hnext]
    exact .inl (.requestHeader hkind hread hwaiting hfind)

theorem resumed_start (servers : InterfaceDefinition) {s : Side} {operation : ParseOperation}
    (h : s.Ready operation) :
    Resumed servers s (.start operation) (start servers s operation) ∨
      Disturbed servers s (.start operation) := by
  rw [start_eq servers s h.sound]
  cases hread : operation.onResult.parserType.parse (operation.seen ++ s.buffer) with
  | more parser => exact .inl (.more hread)
  | fail e => exact .inr (.refused hread)
  | complete v rest =>
    obtain ⟨parser, k, seen⟩ := operation
    change Resumed servers s _ (callWith servers s k v rest) ∨ _
    cases k with
    | messageType =>
      obtain ⟨b, -, rfl⟩ := messageType_complete hread
      exact resumed_messageType rfl hread
    | response =>
      obtain ⟨-, -, rfl⟩ := requestId_complete hread
      exact resumed_response h rfl hread
    | request =>
      obtain ⟨n, tail, -, -, -, -, -, rfl⟩ := requestHeader_complete hread
      exact resumed_request h rfl hread
    | result expected =>
      obtain ⟨hheader, hlocked, hbegins⟩ := h.payload rfl
      have hnext : callWith servers s (.result expected) v rest = _ :=
        (onResult_ok (s := s.entered (.result expected) v rest) expected.handler v
          (h.result expected rfl)).trans (unlockInput_eq hlocked hheader hbegins)
      rw [hnext]
      exact .inl (.result rfl hread)
    | argument id name m handler =>
      obtain ⟨hheader, hlocked, hbegins⟩ := h.payload rfl
      have hnext : callWith servers s (.argument id name m handler) v rest = _ :=
        unlockInput_eq (s := (s.entered (.argument id name m handler) v rest).push
          [.argumentUnlocked id name m handler (.ok v)]) hlocked hheader hbegins
      rw [hnext]
      exact .inl (.argument rfl hread)

theorem Calm.popped {s : Side} (h : s.Calm) {frame : Frame} {stack : List Frame}
    (hstack : s.stack = frame :: stack) (hframe : frame.operation = []) :
    active { s with stack } = s.active ∧ Phase { s with stack } := by
  have hactive : active { s with stack } = s.active := by
    rw [active, active, hstack, List.flatMap_cons, hframe]
    rfl
  refine ⟨hactive, ?_⟩
  cases h.phase with
  | idle active parsingHeader locked response request =>
    exact .idle (hactive.trans active) parsingHeader locked response request
  | header active kind awaited parsingHeader locked begins =>
    exact .header (hactive.trans active) kind awaited parsingHeader locked begins
  | payload active kind awaited parsingHeader locked begins =>
    exact .payload (hactive.trans active) kind awaited parsingHeader locked begins

theorem resumed_writer (servers : InterfaceDefinition) (s : Side) :
    Resumed servers s .writer s.continueWriter ∨ Disturbed servers s .writer := by
  unfold continueWriter
  cases hproceed : s.output.proceed with
  | none => exact .inl (.writerDone hproceed)
  | some output =>
    dsimp only
    split
    · next handler handlers ec stack htop =>
      by_cases hec : ec = .success
      · subst hec
        cases handler with
        | request =>
          refine .inl (.writer hproceed fun handler handlers ec stack hresponse => ?_)
          rw [htop] at hresponse
          cases hresponse
        | response handler => exact .inl (.responseSent hproceed htop)
      · exact .inr (.writeError hec htop)
    · next hnot =>
      refine .inl (.writer hproceed fun handler handlers ec stack hresponse => ?_)
      exact hnot _ _ _ _ hresponse

/-- At a calm side a frame does what `Resumed` says, or ends the calm. -/
theorem Calm.resumed (servers : InterfaceDefinition) {s : Side} (h : s.Calm) {frame : Frame}
    {stack : List Frame} (hstack : s.stack = frame :: stack) (hne : frame ≠ .user) :
    Resumed servers { s with stack } frame (resume servers { s with stack } frame) ∨
      Disturbed servers { s with stack } frame := by
  have herror := h.frames frame (by rw [hstack]; exact List.mem_cons_self)
  cases frame with
  | start operation => exact resumed_start servers (h.ready hstack)
  | requestContinue continue_ =>
    have hnext := continueRequest_eq (h.popped hstack rfl).2 continue_
    rw [resume, hnext]
    exact .inl .requestContinue
  | responseContinue continue_ =>
    have hnext := continueResponse_eq (h.popped hstack rfl).2 continue_
    rw [resume, hnext]
    exact .inl .responseContinue
  | errorContinue | errors => cases herror
  | resultUnlocked handler v =>
    have hresponse : s.waitingForResponse = false := by
      cases h.registry with
      | result _ response => exact response
      | notExpecting _ _ _ results | header _ _ _ results =>
        rw [Side.results, hstack, List.map_cons, List.sum_cons, Frame.results] at results
        omega
    refine .inl ?_
    by_cases hexpected : s.expectedResponses = []
    · have hnext : resume servers { s with stack } (.resultUnlocked handler v) =
          { push { s with stack } [.resultReady handler v] with
            state := .notExpectingResponse } :=
        if_pos (List.isEmpty_iff.mpr hexpected)
      rw [hnext]
      exact .lastResult hexpected
    · have hphase : Phase { push { s with stack } [.resultReady handler v] with
          state := .parsingHeader } := by
        cases (h.popped hstack rfl).2 with
        | idle active parsingHeader locked response request =>
          exact .idle active parsingHeader locked response request
        | header active kind awaited parsingHeader locked begins =>
          exact .header active kind awaited parsingHeader locked begins
        | payload active kind awaited parsingHeader locked begins =>
          exact .payload active kind awaited parsingHeader locked begins
      have hnext : resume servers { s with stack } (.resultUnlocked handler v) =
          (push { s with stack } [.resultReady handler v]).awaitHeader.summon :=
        (if_neg (fun hempty => hexpected (List.isEmpty_iff.mp hempty))).trans
          (waitForResponse_eq hphase hresponse)
      rw [hnext]
      exact .nextHeader hexpected
  | resultReady handler v => exact .inl .resultReady
  | argumentUnlocked id name m handler argument =>
    cases argument with
    | error ec => cases herror
    | ok v => exact .inl .implementation
  | writer => exact resumed_writer servers { s with stack }
  | user => exact (hne rfl).elim

end Side

end Warpcoil
