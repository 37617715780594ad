import Warpcoil.HostileInput

/-! A client whose incoming stream fails. The handlers of the calls that wait for a response are
in the map of expected responses, but the one whose result is being parsed is with its parse
operation, which drops it. -/
namespace Warpcoil
open Incremental Platform Transition

/-- What is expected is the result of the call with such an id. -/
def ExpectedResponse.BelongsTo (expected : ExpectedResponse) (calls : List Call)
    (id : RequestId) : Prop :=
  ∃ call : Call, calls[expected.handler]? = some call ∧ call.id = id ∧
    expected.resultParser = call.method.resultParser

/-- The result was parsed behind a header with the id of the call. -/
def Gave (parsed : List Parsed) (calls : List Call) (handler : Nat) (v : Value) : Prop :=
  ∃ (before after : List Parsed) (id : Nat) (expected : ExpectedResponse),
    parsed = before ++ ⟨.response, .integer id⟩ :: ⟨.result expected, v⟩ :: after ∧
      expected.handler = handler ∧ expected.BelongsTo calls (UInt64.ofNat id)

/-- An operation of the client. The parsers of its headers are integers, and the header before a
result was parsed last. -/
def ParseOperation.calls (parsed : List Parsed) (calls : List Call) (operation : ParseOperation) :
    Prop :=
  match operation.onResult with
  | .messageType | .response => ∃ p, operation.parser = .integer p
  | .result expected => ∃ (before : List Parsed) (id : Nat),
    parsed = before ++ [⟨.response, .integer id⟩] ∧ expected.BelongsTo calls (UInt64.ofNat id)
  | .request | .argument _ _ _ _ => False

/-- A frame of the client. -/
def Frame.calls (parsed : List Parsed) (calls : List Call) : Frame → Prop
  | .start operation => operation.calls parsed calls
  | .responseContinue continue_ => continue_ = false
  | .errorContinue isWaitingForRequest _ => isWaitingForRequest = false
  | .resultUnlocked handler v | .resultReady handler v => Gave parsed calls handler v
  | .errors _ _ | .writer | .user => True
  | .requestContinue _ | .argumentUnlocked _ _ _ _ _ => False

/-- The frame goes on to call the handler, with such a result. -/
def Frame.owes (call : Nat × Except ErrorCode Value) : Frame → Prop
  | .errors handlers ec => call.1 ∈ handlers ∧ call.2 = .error ec
  | .resultUnlocked handler v | .resultReady handler v => (handler, .ok v) = call
  | .start _ | .requestContinue _ | .responseContinue _ | .errorContinue _ _
  | .argumentUnlocked _ _ _ _ _ | .writer | .user => False

theorem Continuation.isHeader_of_token {k : Continuation} {handler : Nat}
    (h : Token.call handler ∈ k.tokens) : k.isHeader = false := by
  cases k with
  | result | argument => rfl
  | messageType | response | request => cases h

/-- A frame that holds the handler will call it, or parses the result. -/
theorem Frame.owes_of_token {frame : Frame} {handler : Nat}
    (h : Token.call handler ∈ frame.tokens) :
    (∃ result, frame.owes (handler, result)) ∨
      ∃ operation, frame = .start operation ∧ operation.onResult.isHeader = false := by
  cases frame with
  | start operation => exact .inr ⟨operation, rfl, Continuation.isHeader_of_token h⟩
  | errors handlers ec =>
    obtain ⟨other, hother, heq⟩ := List.mem_map.mp h
    exact .inl ⟨.error ec, Token.call.inj heq ▸ hother, rfl⟩
  | resultUnlocked other v =>
    exact .inl ⟨.ok v, (Token.call.inj (List.mem_singleton.mp h)) ▸ rfl⟩
  | resultReady other v => exact .inl ⟨.ok v, (Token.call.inj (List.mem_singleton.mp h)) ▸ rfl⟩
  | argumentUnlocked => cases List.mem_singleton.mp h
  | requestContinue | responseContinue | errorContinue | writer | user => cases h

section
variable {parsed parsed' : List Parsed} {calls calls' : List Call}

theorem Continuation.calls_messageType (parsed : List Parsed) (calls : List Call) :
    Continuation.messageType.operation.calls parsed calls := ⟨_, rfl⟩

theorem Continuation.calls_response (parsed : List Parsed) (calls : List Call) :
    Continuation.response.operation.calls parsed calls := ⟨_, rfl⟩

theorem ExpectedResponse.BelongsTo.mono {expected : ExpectedResponse} {id : RequestId}
    (h : expected.BelongsTo calls id) (hcalls : calls <+: calls') :
    expected.BelongsTo calls' id := by
  obtain ⟨call, hcall, hid, hparser⟩ := h
  exact ⟨call, BufferedWriter.getElem?_of_starts hcalls hcall, hid, hparser⟩

theorem Gave.mono {handler : Nat} {v : Value} (h : Gave parsed calls handler v)
    (hparsed : parsed <+: parsed') (hcalls : calls <+: calls') :
    Gave parsed' calls' handler v := by
  obtain ⟨before, after, id, expected, rfl, hhandler, hbelongs⟩ := h
  obtain ⟨more, rfl⟩ := hparsed
  exact ⟨before, after ++ more, id, expected, by simp, hhandler, hbelongs.mono hcalls⟩

theorem ParseOperation.calls.mono {operation : ParseOperation}
    (h : operation.calls parsed calls) (hcalls : calls <+: calls') :
    operation.calls parsed calls' := by
  unfold ParseOperation.calls at h ⊢
  cases hkind : operation.onResult with
  | messageType | response =>
    rw [hkind] at h
    exact h
  | result expected =>
    rw [hkind] at h
    obtain ⟨before, id, hparsed, hbelongs⟩ := h
    exact ⟨before, id, hparsed, hbelongs.mono hcalls⟩
  | request | argument =>
    rw [hkind] at h
    exact h.elim

/-- A frame stays one of the client when there are more calls, and when something is parsed that
is not its own. -/
theorem Frame.calls.mono {frame : Frame} (h : frame.calls parsed calls)
    (hparsed : parsed' = parsed ∨ frame.operation = [] ∧ parsed <+: parsed')
    (hcalls : calls <+: calls') : frame.calls parsed' calls' := by
  have hstarts : parsed <+: parsed' := by
    rcases hparsed with rfl | ⟨-, hstarts⟩
    · exact List.prefix_rfl
    · exact hstarts
  cases frame with
  | start operation =>
    rcases hparsed with rfl | ⟨hnone, -⟩
    · exact ParseOperation.calls.mono h hcalls
    · cases hnone
  | resultUnlocked handler v => exact Gave.mono h hstarts hcalls
  | resultReady handler v => exact Gave.mono h hstarts hcalls
  | _ => exact h

end

/-- The parsers of the headers refuse nothing. -/
theorem Parser.read_integer [Platform] (p : IntegerParser) (bytes : List UInt8) :
    (∃ p', (Parser.integer p).read bytes = .more (.integer p')) ∨
      ∃ n rest, (Parser.integer p).read bytes = .complete (.integer n) rest := by
  induction bytes generalizing p with
  | nil => exact .inl ⟨p, rfl⟩
  | cons b bytes ih =>
    simp only [Parser.read, Incremental.read, Parser.parseByte, IntegerParser.parseByte] at ih ⊢
    by_cases hlast : p.bytesReceived + 1 = p.unsigned.sizeof
    · simp only [if_pos hlast]
      exact .inr ⟨_, _, rfl⟩
    · simp only [if_neg hlast]
      exact ih _

namespace Side

/-- A side that only calls, and has lost no handler. -/
structure Calling (s : Side) : Prop
    extends s.Tended (Frame.calls s.history.parsed s.history.calls)
      (ParseOperation.calls s.history.parsed s.history.calls) where
  thrown : s.thrown = none
  request : s.waitingForRequest = none
  known : ∀ e ∈ s.expectedResponses, e.2.BelongsTo s.history.calls e.1
  invoked : s.invoked = []
  sent : ∀ call ∈ s.output.sent, call.1 = .request
  own : ∀ call ∈ s.history.completed, ∀ v, call.2 = .ok v →
    Gave s.history.parsed s.history.calls call.1 v
  dropped : s.history.dropped = []

/-- `t` goes on from `s` above what was on the stack. -/
structure Onto (s t : Side) : Prop where
  calling : t.Calling
  stack : s.stack <:+ t.stack
  completed : s.history.completed <+: t.history.completed

/-- The handlers of the calls that wait for a response. -/
def pendingHandlers (s : Side) : List Nat := s.expectedResponses.map fun e => e.2.handler

/-- The handler has been called with the result, or a frame will call it. -/
def Owes (s : Side) (call : Nat × Except ErrorCode Value) : Prop :=
  call ∈ s.history.completed ∨ ∃ frame ∈ s.stack, frame.owes call

theorem Onto.trans {s t u : Side} (h : s.Onto t) (h' : t.Onto u) : s.Onto u :=
  ⟨h'.calling, h.stack.trans h'.stack, h.completed.trans h'.completed⟩

/-- What is not on the stack and not called may differ before. -/
theorem Onto.rebase {s s' t : Side} (h : s'.Onto t) (hstack : s'.stack = s.stack)
    (hcompleted : s'.history.completed = s.history.completed) : s.Onto t :=
  ⟨h.calling, hstack ▸ h.stack, hcompleted ▸ h.completed⟩

theorem Onto.owes {s t : Side} (h : s.Onto t) {call : Nat × Except ErrorCode Value}
    (howes : s.Owes call) : t.Owes call := by
  rcases howes with hcompleted | ⟨frame, hframe, howes⟩
  · exact .inl (h.completed.subset hcompleted)
  · exact .inr ⟨frame, h.stack.subset hframe, howes⟩

variable {s : Side}

theorem Calling.onto (h : s.Calling) : s.Onto s :=
  ⟨h, List.suffix_rfl, List.prefix_rfl⟩

theorem Calling.hasWaiter (h : s.Calling) : s.hasWaiter = s.waitingForResponse := by
  rw [Side.hasWaiter, h.request]
  exact Bool.or_false _

theorem Calling.waits (h : s.Calling) {operation : ParseOperation} (hmem : operation ∈ s.active)
    (hheader : operation.onResult.isHeader = true) : s.waitingForResponse = true :=
  h.hasWaiter.symm.trans (h.awaits operation hmem hheader)

/-- Who calls goes on calling when only the splitter is used. -/
theorem Calling.attends {t : Side} (h : s.Calling) (hattends : Attends
      (Frame.calls s.history.parsed s.history.calls)
      (ParseOperation.calls s.history.parsed s.history.calls) s t) : s.Onto t := by
  obtain ⟨htended, haside, hstack⟩ := hattends
  simp only [aside, Prod.mk.injEq] at haside
  obtain ⟨hthrown, -, hrequest, hexpected, hinvoked, houtput, hparsed, hcalls, hcompleted, -,
    hdropped⟩ := haside
  rw [← hparsed, ← hcalls] at htended
  refine ⟨{ htended with
    thrown := hthrown ▸ h.thrown, request := hrequest ▸ h.request, invoked := hinvoked ▸ h.invoked
    sent := houtput ▸ h.sent, dropped := hdropped ▸ h.dropped, known := ?_, own := ?_ }, hstack, ?_⟩
  · rw [hexpected, hcalls]
    exact h.known
  · rw [hcompleted, hparsed, hcalls]
    exact h.own
  · exact hcompleted ▸ List.prefix_rfl

theorem Calling.push (h : s.Calling) {frame : Frame}
    (hcalls : frame.calls s.history.parsed s.history.calls) (hnone : frame.operation = []) :
    s.Onto (s.push [frame]) :=
  h.attends (h.toTended.push hcalls hnone)

theorem Calling.start (h : s.Calling) {operation : ParseOperation}
    (hcalls : operation.calls s.history.parsed s.history.calls)
    (hwaits : operation.onResult.isHeader = true → s.waitingForResponse = true) :
    s.Onto (s.push [.start operation]) :=
  h.attends (h.toTended.start hcalls fun hheader => h.hasWaiter.trans (hwaits hheader))

theorem Calling.waitForResponse (h : s.Calling) : s.Onto s.waitForResponse := by
  have hwaiting : Calling { s.assert .waitForResponse !s.waitingForResponse with
      waitingForResponse := true, beginParseMessage := true } :=
    { h with armed := fun _ => .inr rfl, awaits := fun _ _ _ => rfl }
  unfold Side.waitForResponse
  dsimp only
  split_ifs
  · exact ⟨hwaiting, List.suffix_rfl, List.prefix_rfl⟩
  · have hframe := Continuation.calls_messageType s.history.parsed s.history.calls
    exact (hwaiting.attends (hwaiting.toTended.callBeginParseMessage hframe rfl rfl)).rebase rfl rfl

theorem Calling.parseHeader (h : s.Calling) : s.Onto s.parseHeader :=
  (Calling.waitForResponse (s := { s with state := .parsingHeader }) { h with }).rebase rfl rfl

theorem Calling.unlockInput (h : s.Calling) (hheader : s.parsingHeader = false) :
    s.Onto s.unlockInput :=
  h.attends (h.toTended.unlockInput
    (Continuation.calls_messageType s.history.parsed s.history.calls) hheader)

theorem Calling.registryOnError (h : s.Calling) (ec : ErrorCode) :
    s.Onto (s.registryOnError ec) ∧
      ∀ handler ∈ s.pendingHandlers, (s.registryOnError ec).Owes (handler, .error ec) := by
  refine ⟨?_, fun handler hhandler => .inr ⟨_, List.mem_cons_self, hhandler, rfl⟩⟩
  have hempty : Calling { s.fail with
      expectedResponses := [], state := .notExpectingResponse } :=
    { h with known := fun _ hmem => absurd hmem List.not_mem_nil }
  exact (@Calling.push _ hempty (.errors s.pendingHandlers ec) trivial rfl).rebase rfl rfl

theorem Calling.callResultHandler (h : s.Calling) (handler : Nat)
    {result : Except ErrorCode Value}
    (hgave : ∀ v, result = .ok v → Gave s.history.parsed s.history.calls handler v) :
    s.Onto (s.callResultHandler handler result) ∧
      (s.callResultHandler handler result).Owes (handler, result) := by
  have hcalled : Calling (s.note fun h =>
      { h with completed := h.completed ++ [(handler, result)] }) := by
    refine { h with own := ?_ }
    intro call hcall
    rcases List.mem_append.mp hcall with hold | hnew
    · exact h.own call hold
    · rw [List.mem_singleton.mp hnew]
      exact hgave
  have honto := @Calling.push _ hcalled .user trivial rfl
  have hmem : (handler, result) ∈ s.history.completed ++ [(handler, result)] :=
    List.mem_append_right _ (List.mem_singleton_self _)
  exact ⟨⟨honto.calling, honto.stack, (List.prefix_append _ _).trans honto.completed⟩,
    .inl hmem⟩

/-- The handler of a header, which `on_error` calls with an error. -/
theorem Calling.onError (h : s.Calling) (hidle : s.active = [])
    (hwaits : s.waitingForResponse = true) (ec : ErrorCode) :
    s.Onto (s.onError ec) ∧
      ∀ handler ∈ s.pendingHandlers, (s.onError ec).Owes (handler, .error ec) := by
  have hnone : s.waitingForRequest.isSome = false := by rw [h.request, Option.isSome_none]
  have htold : Calling { s.fail with waitingForResponse := false } :=
    { h with toTended := h.toTended.told hidle hnone rfl rfl }
  have hframe : Frame.calls s.history.parsed s.history.calls
      (.errorContinue s.waitingForRequest.isSome ec) := by
    rw [Frame.calls, hnone]
  have hpush := htold.push hframe rfl
  obtain ⟨honto, howes⟩ := Calling.registryOnError (s := Side.assert (Side.push
    { s.fail with waitingForResponse := false } [.errorContinue s.waitingForRequest.isSome ec])
    .registryHeader (decide (s.state = .parsingHeader))) { hpush.calling with } ec
  have heq : s.onError ec = Side.registryOnError (Side.assert (Side.push
      { s.fail with waitingForResponse := false } [.errorContinue s.waitingForRequest.isSome ec])
      .registryHeader (decide (s.state = .parsingHeader))) ec := by
    rw [Side.onError]
    exact if_pos hwaits
  rw [heq]
  exact ⟨(hpush.trans (honto.rebase rfl rfl)).rebase rfl rfl, howes⟩

theorem Calling.onMessageType (h : s.Calling) (hidle : s.active = [])
    (hwaits : s.waitingForResponse = true) (type : Value) :
    s.Onto (s.onMessageType (.ok type)) ∧
      (type ≠ .integer MessageType.response.toNat →
        ∀ handler ∈ s.pendingHandlers,
          (s.onMessageType (.ok type)).Owes (handler, .error .invalidInput)) := by
  by_cases htype : type = .integer MessageType.response.toNat
  · have heq : s.onMessageType (.ok type) = s.beginParseValue .response := by
      simp only [Side.onMessageType, if_pos htype, if_pos hwaits]
    rw [heq]
    exact ⟨h.start (Continuation.calls_response _ _) fun _ => hwaits,
      fun hne => absurd htype hne⟩
  · have heq : s.onMessageType (.ok type) = s.onError .invalidInput := by
      simp only [Side.onMessageType, if_neg htype, h.request, Option.isSome_none,
        Bool.false_eq_true, if_false, ite_self]
    obtain ⟨honto, howes⟩ := h.onError hidle hwaits .invalidInput
    rw [heq]
    exact ⟨honto, fun _ => howes⟩

/-- The call that is pending under the id, if there is one. -/
def named (s : Side) (id : RequestId) : Option (RequestId × ExpectedResponse) :=
  s.expectedResponses.find? fun e => decide (e.1 = id)

/-- The handler that `parse_header` waits with, behind a header. -/
theorem Calling.onHeader (h : s.Calling) {before : List Parsed} {id : Nat}
    (hparsed : s.history.parsed = before ++ [⟨.response, .integer id⟩]) :
    s.Onto (s.onHeader (.ok (UInt64.ofNat id))) ∧
      (s.named (UInt64.ofNat id) = none → ∀ handler ∈ s.pendingHandlers,
        (s.onHeader (.ok (UInt64.ofNat id))).Owes (handler, .error .invalidInput)) := by
  cases hfind : s.named (UInt64.ofNat id) with
  | none =>
    have hstray : Calling { (s.assert .registryHeader (decide (s.state = .parsingHeader))).note
        (fun h => { h with strays := h.strays ++ [UInt64.ofNat id] }) with
        state := .notExpectingResponse } := { h with }
    obtain ⟨honto, howes⟩ := hstray.registryOnError .invalidInput
    have heq : s.onHeader (.ok (UInt64.ofNat id)) = Side.registryOnError
        { (s.assert .registryHeader (decide (s.state = .parsingHeader))).note
          (fun h => { h with strays := h.strays ++ [UInt64.ofNat id] }) with
          state := .notExpectingResponse } .invalidInput := by
      simp only [named] at hfind
      simp only [Side.onHeader, Side.assert, note, hfind]
    rw [heq]
    exact ⟨honto.rebase rfl rfl, fun _ => howes⟩
  | some e =>
    obtain ⟨key, expected⟩ := e
    have hfound : s.expectedResponses.find? (fun e => decide (e.1 = UInt64.ofNat id)) =
        some (key, expected) := hfind
    have hmem := List.mem_of_find?_eq_some hfound
    have hkey := List.find?_some hfound
    simp only [decide_eq_true_eq] at hkey
    have htaken : Calling (lockInput { s.assert .registryHeader
        (decide (s.state = .parsingHeader)) with
        expectedResponses := s.expectedResponses.eraseP fun e => decide (e.1 = UInt64.ofNat id),
        state := .parsingResult }) :=
      { h with known := fun e he => h.known e (List.mem_of_mem_eraseP he) }
    have honto := @Calling.start _ htaken (Continuation.result expected).operation
      ⟨before, id, hparsed, hkey ▸ h.known _ hmem⟩ fun hheader => absurd hheader Bool.false_ne_true
    have heq : s.onHeader (.ok (UInt64.ofNat id)) = (lockInput { s.assert .registryHeader
        (decide (s.state = .parsingHeader)) with
        expectedResponses := s.expectedResponses.eraseP fun e => decide (e.1 = UInt64.ofNat id),
        state := .parsingResult }).beginParseValue (.result expected) := by
      simp only [named] at hfind
      simp only [Side.onHeader, Side.assert, note, hfind]
    rw [heq]
    exact ⟨honto.rebase rfl rfl, fun hnone => absurd hnone (Option.some_ne_none _)⟩

theorem Calling.onResponse (h : s.Calling) (hidle : s.active = [])
    (hwaits : s.waitingForResponse = true) {before : List Parsed} {id : Nat}
    (hparsed : s.history.parsed = before ++ [⟨.response, .integer id⟩]) :
    s.Onto (s.onResponse (.ok (.integer id))) ∧
      (s.named (UInt64.ofNat id) = none → ∀ handler ∈ s.pendingHandlers,
        (s.onResponse (.ok (.integer id))).Owes (handler, .error .invalidInput)) := by
  have hnone : s.waitingForRequest.isSome = false := by rw [h.request, Option.isSome_none]
  have htold : Calling { (s.assert .responseWaiting s.waitingForResponse).assert .responseHeader
      s.parsingHeader with parsingHeader := false, waitingForResponse := false } :=
    { h with toTended := h.toTended.told hidle hnone rfl rfl }
  have hframe : Frame.calls s.history.parsed s.history.calls
      (.responseContinue s.waitingForRequest.isSome) := by
    rw [Frame.calls, hnone]
  have hpush := htold.push hframe rfl
  obtain ⟨honto, howes⟩ := hpush.calling.onHeader hparsed
  have heq : s.onResponse (.ok (.integer id)) = Side.onHeader (Side.push
      { (s.assert .responseWaiting s.waitingForResponse).assert .responseHeader
        s.parsingHeader with parsingHeader := false, waitingForResponse := false }
      [.responseContinue s.waitingForRequest.isSome]) (.ok (UInt64.ofNat id)) := by
    rw [Side.onResponse]
    exact if_pos hwaits
  rw [heq]
  exact ⟨(hpush.trans honto).rebase rfl rfl, howes⟩

/-- The result of a call has been parsed. -/
theorem Calling.onResult (h : s.Calling) (hheader : s.parsingHeader = false) {handler : Nat}
    {v : Value} (hgave : Gave s.history.parsed s.history.calls handler v) :
    s.Onto (s.onResult handler (.ok v)) := by
  have hchecked : Calling (s.assert .registryResult (decide (s.state = .parsingResult))) :=
    { h with }
  have hpush := @Calling.push _ hchecked (.resultUnlocked handler v) hgave rfl
  exact (hpush.trans (hpush.calling.unlockInput hheader)).rebase rfl rfl

/-- Something else has been parsed, when nothing is being parsed. -/
theorem Calling.parsed (h : s.Calling) (hidle : s.active = []) (rest : List UInt8) (p : Parsed) :
    Calling (Side.note { s with buffer := rest } fun h =>
      { h with parsed := h.parsed ++ [p] }) := by
  have hnone (frame : Frame) (hframe : frame ∈ s.stack) : frame.operation = [] := by
    rw [active, List.append_eq_nil_iff, List.flatMap_eq_nil_iff] at hidle
    exact hidle.1 frame hframe
  have hreads : s.reads = [] := (List.append_eq_nil_iff.mp hidle).2
  have hstarts : s.history.parsed <+: s.history.parsed ++ [p] := List.prefix_append _ _
  refine { h with frames := ?_, reads := ?_, own := ?_ }
  · exact fun frame hframe =>
      (h.frames frame hframe).mono (.inr ⟨hnone frame hframe, hstarts⟩) List.prefix_rfl
  · intro operation hoperation
    rw [show s.reads = [] from hreads] at hoperation
    cases hoperation
  · exact fun call hcall v hv => (h.own call hcall v hv).mono hstarts List.prefix_rfl

variable [Platform]

omit [Platform] in
/-- A header is an integer that is read as far as it has come. -/
theorem outcome_header [Platform] {operation : ParseOperation} {parsed : List Parsed}
    {calls : List Call} (h : operation.calls parsed calls)
    (hheader : operation.onResult.isHeader = true) (buffer : List UInt8) :
    (∃ p, operation.outcome buffer = .more (.integer p)) ∨
      ∃ n rest, operation.outcome buffer = .complete (.integer n) rest := by
  have hparser : ∃ p, operation.parser = .integer p := by
    unfold ParseOperation.calls at h
    cases hkind : operation.onResult with
    | messageType | response =>
      rw [hkind] at h
      exact h
    | request | result | argument =>
      rw [hkind] at h hheader
      first | exact h.elim | cases hheader
  obtain ⟨p, hparser⟩ := hparser
  have houtcome : operation.outcome buffer = (Parser.integer p).read buffer := by
    rw [ParseOperation.outcome, hparser]
    rfl
  rw [houtcome]
  exact Parser.read_integer p buffer

/-- The incoming stream fails with what the operation finds next: it is no message type, it is
the id of no pending call, or it is refused. -/
def breaks (s : Side) (operation : ParseOperation) : Bool :=
  match operation.outcome s.buffer with
  | .complete v _ =>
    match operation.onResult, v with
    | .messageType, type => type ≠ .integer MessageType.response.toNat
    | .response, .integer id => (s.named (UInt64.ofNat id)).isNone
    | _, _ => false
  | .more _ => false
  | .fail _ => true

/-- The operation has read what is there, and asks for more. -/
theorem Calling.more (h : s.Calling) {operation : ParseOperation} {parser : Parser}
    (hcalls : operation.calls s.history.parsed s.history.calls)
    (hwaits : operation.onResult.isHeader = true → s.waitingForResponse = true)
    (hmore : operation.outcome s.buffer = .more parser) :
    s.Onto { s with buffer := [],
                    reads := s.reads ++
                      [{ operation with parser, seen := operation.seen ++ s.buffer }] } := by
  have hnext : ParseOperation.calls s.history.parsed s.history.calls
      { operation with parser, seen := operation.seen ++ s.buffer } := by
    unfold ParseOperation.calls
    cases hkind : operation.onResult with
    | messageType | response =>
      rcases outcome_header hcalls (by rw [hkind]; rfl) s.buffer with
        ⟨p, hmore'⟩ | ⟨n, rest, hcomplete⟩
      · exact ⟨p, (Reading.more.inj (hmore'.symm.trans hmore)).symm⟩
      · cases hcomplete.symm.trans hmore
    | request | result | argument =>
      unfold ParseOperation.calls at hcalls
      rw [hkind] at hcalls
      exact hcalls
  exact ⟨{ h with toTended := h.toTended.more hnext fun hheader =>
    h.hasWaiter.trans (hwaits hheader) }, List.suffix_rfl, List.prefix_rfl⟩

/-- A parse operation takes its next step. -/
theorem Calling.starts (servers : InterfaceDefinition) (h : s.Calling)
    {operation : ParseOperation} (hopened : s.Opened operation.onResult)
    (hcalls : operation.calls s.history.parsed s.history.calls)
    (hwaits : operation.onResult.isHeader = true → s.waitingForResponse = true)
    (hkept : ∀ e, operation.onResult.isHeader = false → operation.outcome s.buffer ≠ .fail e) :
    s.Onto (s.start servers operation) ∧
      (s.breaks operation = true → ∀ handler ∈ s.pendingHandlers,
        (s.start servers operation).Owes (handler, .error .invalidInput)) := by
  have hidle : s.active = [] := hopened.active
  rw [start_outcome, breaks]
  cases houtcome : operation.outcome s.buffer with
  | more parser =>
    exact ⟨h.more hcalls hwaits houtcome, fun hbreaks => absurd hbreaks Bool.false_ne_true⟩
  | fail e =>
    cases hheader : operation.onResult.isHeader with
    | false => exact absurd houtcome (hkept e hheader)
    | true =>
      rcases outcome_header hcalls hheader s.buffer with ⟨p, hmore⟩ | ⟨n, rest, hcomplete⟩
      · cases houtcome.symm.trans hmore
      · cases houtcome.symm.trans hcomplete
  | complete v rest =>
    have hparsed := h.parsed hidle rest ⟨operation.onResult, v⟩
    dsimp only
    unfold callWith
    cases hkind : operation.onResult with
    | messageType =>
      rw [hkind] at hwaits hparsed
      obtain ⟨honto, howes⟩ := hparsed.onMessageType hidle (hwaits rfl) v
      exact ⟨honto.rebase rfl rfl, fun hbreaks => howes (of_decide_eq_true hbreaks)⟩
    | response =>
      rw [hkind] at hwaits hparsed
      rcases outcome_header hcalls (by rw [hkind]; rfl) s.buffer with
        ⟨p, hmore⟩ | ⟨n, rest', hcomplete⟩
      · cases houtcome.symm.trans hmore
      · obtain ⟨rfl, -⟩ := Reading.complete.inj (houtcome.symm.trans hcomplete)
        obtain ⟨honto, howes⟩ := hparsed.onResponse hidle (hwaits rfl) rfl
        exact ⟨honto.rebase rfl rfl, fun hbreaks => howes (Option.isNone_iff_eq_none.mp hbreaks)⟩
    | result expected =>
      unfold ParseOperation.calls at hcalls
      rw [hkind] at hcalls hparsed hopened
      obtain ⟨before, id, hbefore, hbelongs⟩ := hcalls
      have hgave : Gave (s.history.parsed ++ [⟨.result expected, v⟩]) s.history.calls
          expected.handler v :=
        ⟨before, [], id, expected, by rw [hbefore, List.append_assoc]; rfl, rfl, hbelongs⟩
      exact ⟨(hparsed.onResult hopened.parsingHeader hgave).rebase rfl rfl,
        fun hbreaks => absurd hbreaks Bool.false_ne_true⟩
    | request | argument =>
      unfold ParseOperation.calls at hcalls
      rw [hkind] at hcalls
      exact hcalls.elim

omit [Platform] in
theorem Calling.pop (h : s.Calling) {frame : Frame} {stack : List Frame}
    (hstack : s.stack = frame :: stack) : Calling { s with stack } :=
  { h with toTended := h.toTended.pop hstack }

omit [Platform] in
theorem Calling.continueErrors (h : s.Calling) (ec : ErrorCode) (handlers : List Nat) :
    s.Onto (s.continueErrors ec handlers) ∧
      ∀ handler ∈ handlers, (s.continueErrors ec handlers).Owes (handler, .error ec) := by
  cases handlers with
  | nil => exact ⟨h.onto, fun _ hmem => absurd hmem List.not_mem_nil⟩
  | cons first handlers =>
    have hpush := @Calling.push _ h (.errors handlers ec) trivial rfl
    obtain ⟨honto, hfirst⟩ := @Calling.callResultHandler _ hpush.calling first (.error ec)
      fun v hv => by cases hv
    refine ⟨hpush.trans honto, fun handler hhandler => ?_⟩
    rcases List.mem_cons.mp hhandler with rfl | hrest
    · exact hfirst
    · exact honto.owes (.inr ⟨_, List.mem_cons_self, hrest, rfl⟩)

omit [Platform] in
theorem Calling.continueResult (h : s.Calling) {handler : Nat} {v : Value}
    (hgave : Gave s.history.parsed s.history.calls handler v) :
    s.Onto (s.continueResult handler v) ∧
      (s.continueResult handler v).Owes (handler, .ok v) := by
  have hpush := @Calling.push _ h (.resultReady handler v) hgave rfl
  have howes : (s.push [.resultReady handler v]).Owes (handler, .ok v) :=
    .inr ⟨_, List.mem_cons_self, rfl⟩
  unfold Side.continueResult
  dsimp only
  split_ifs
  · have honto : (s.push [.resultReady handler v]).Onto
        { s.push [.resultReady handler v] with state := .notExpectingResponse } :=
      ⟨{ hpush.calling with }, List.suffix_rfl, List.prefix_rfl⟩
    exact ⟨hpush.trans honto, honto.owes howes⟩
  · have honto := hpush.calling.parseHeader
    exact ⟨hpush.trans honto, honto.owes howes⟩

omit [Platform] in
theorem Calling.continueWriter (h : s.Calling) (hordered : s.output.Ordered) :
    s.Onto s.continueWriter := by
  unfold Side.continueWriter
  cases hproceed : s.output.proceed with
  | none => exact h.onto
  | some output =>
    have hnext : Calling { s with output } :=
      { h with sent := (BufferedWriter.proceed_sent hproceed) ▸ h.sent }
    have hpush := (@Calling.push _ hnext .writer trivial rfl).rebase (s := s) rfl rfl
    dsimp only
    split
    · next handler handlers ec stack hstack =>
      obtain ⟨call, hcall, rfl⟩ := calls_back_sent hordered hstack
      rw [h.sent call hcall, onSent]
      split_ifs
      · exact hpush
      · exact hpush.trans (hpush.calling.registryOnError ec).1
    · exact hpush

/-- The incoming stream fails. -/
def streamFails (s : Side) : Event → Bool
  | .readError _ _ => true
  | .resume =>
    match s.stack with
    | .start operation :: _ => s.breaks operation
    | _ => false
  | .call _ _ | .serve | .answer _ _ | .return | .read _ _ | .written _ _ _ => false

/-- The error that the stream fails with. -/
def streamError : Event → ErrorCode
  | .readError _ ec => ec
  | .call _ _ | .serve | .answer _ _ | .return | .resume | .read _ _ | .written _ _ _ =>
    .invalidInput

/-- No result fails while it is being parsed, and no call is given the id of a pending one. -/
def keepsHandlers (s : Side) : Event → Bool
  | .call _ _ => s.expectedResponses.all fun e => decide (e.1 ≠ s.nextRequestId)
  | .resume =>
    match s.stack with
    | .start operation :: _ => operation.onResult.isHeader || !s.breaks operation
    | _ => true
  | .readError index _ =>
    match s.reads[index]? with
    | some operation => operation.onResult.isHeader
    | none => true
  | .serve | .answer _ _ | .return | .read _ _ | .written _ _ _ => true

theorem Calling.resume (servers : InterfaceDefinition) (h : s.Calling) (hexclusive : s.Exclusive)
    (hordered : s.output.Ordered) {frame : Frame} {stack : List Frame}
    (hstack : s.stack = frame :: stack) (hkeeps : s.keepsHandlers .resume = true) :
    Onto { s with stack } (Side.resume servers { s with stack } frame) ∧
      (∀ call, frame.owes call → (Side.resume servers { s with stack } frame).Owes call) ∧
      (s.streamFails .resume = true → ∀ handler ∈ s.pendingHandlers,
        (Side.resume servers { s with stack } frame).Owes (handler, .error .invalidInput)) := by
  have hpop := h.pop hstack
  have hcalls : frame.calls s.history.parsed s.history.calls :=
    h.frames frame (hstack ▸ List.mem_cons_self)
  unfold keepsHandlers at hkeeps
  unfold streamFails
  rw [hstack] at hkeeps ⊢
  have hquiet {P : Prop} (hfails : false = true) : P := absurd hfails Bool.false_ne_true
  cases frame with
  | start operation =>
    have hperm := active_start hstack
    have hkept (e : ParseFailure) (hheader : operation.onResult.isHeader = false) :
        operation.outcome s.buffer ≠ .fail e := by
      intro hfail
      simp [hheader, breaks, hfail] at hkeeps
    obtain ⟨honto, howes⟩ := hpop.starts servers (hexclusive.opened hperm rfl) hcalls
      (h.waits (hperm.mem_iff.mpr List.mem_cons_self)) hkept
    exact ⟨honto, fun _ hmem => hmem.elim, howes⟩
  | responseContinue continue_ =>
    obtain rfl : continue_ = false := hcalls
    exact ⟨hpop.onto, fun _ hmem => hmem.elim, hquiet⟩
  | errorContinue isWaitingForRequest ec =>
    obtain rfl : isWaitingForRequest = false := hcalls
    exact ⟨hpop.onto, fun _ hmem => hmem.elim, hquiet⟩
  | errors handlers ec =>
    obtain ⟨honto, howes⟩ := hpop.continueErrors ec handlers
    refine ⟨honto, ?_, hquiet⟩
    rintro ⟨handler, result⟩ ⟨hmem, rfl⟩
    exact howes handler hmem
  | resultUnlocked handler v =>
    obtain ⟨honto, howes⟩ := hpop.continueResult hcalls
    exact ⟨honto, fun call hcall => (show (handler, .ok v) = call from hcall) ▸ howes, hquiet⟩
  | resultReady handler v =>
    obtain ⟨honto, howes⟩ := @Calling.callResultHandler _ hpop handler (.ok v)
      fun w hw => Except.ok.inj hw ▸ hcalls
    exact ⟨honto, fun call hcall => (show (handler, .ok v) = call from hcall) ▸ howes, hquiet⟩
  | writer => exact ⟨hpop.continueWriter hordered, fun _ hmem => hmem.elim, hquiet⟩
  | user => exact ⟨hpop.onto, fun _ hmem => hmem.elim, hquiet⟩
  | requestContinue | argumentUnlocked => exact hcalls.elim

omit [Platform] in
theorem Calling.without (h : s.Calling) (index : Nat) :
    Calling { s with reads := s.reads.eraseIdx index } :=
  { h with toTended := h.toTended.without index }

omit [Platform] in
/-- The read of a header fails. -/
theorem Calling.call_error (servers : InterfaceDefinition) (h : s.Calling) (hidle : s.active = [])
    (hwaits : s.waitingForResponse = true) {operation : ParseOperation} {parsed : List Parsed}
    {calls : List Call} (hcalls : operation.calls parsed calls)
    (hheader : operation.onResult.isHeader = true) (ec : ErrorCode) :
    s.Onto (Side.call servers s operation.onResult (.error ec)) ∧
      ∀ handler ∈ s.pendingHandlers,
        (Side.call servers s operation.onResult (.error ec)).Owes (handler, .error ec) := by
  cases hkind : operation.onResult with
  | messageType => exact h.onError hidle hwaits ec
  | response =>
    obtain ⟨honto, howes⟩ := Calling.onError
      (s := s.assert .responseWaiting s.waitingForResponse) { h with } hidle hwaits ec
    exact ⟨honto.rebase rfl rfl, howes⟩
  | request | argument =>
    unfold ParseOperation.calls at hcalls
    rw [hkind] at hcalls
    exact hcalls.elim
  | result =>
    rw [hkind] at hheader
    cases hheader

omit [Platform] in
theorem Calling.expectResponse (h : s.Calling) {id : RequestId} {expected : ExpectedResponse}
    (hfresh : ∀ e ∈ s.expectedResponses, e.1 ≠ id)
    (hbelongs : expected.BelongsTo s.history.calls id) :
    s.Onto (s.expectResponse id expected) := by
  have hexpected : Calling { s with
      expectedResponses := insertExpected id expected s.expectedResponses } := by
    refine { h with known := ?_ }
    intro e he
    rcases List.mem_cons.mp ((perm_insertExpected hfresh).mem_iff.mp he) with rfl | hold
    · exact hbelongs
    · exact h.known e hold
  unfold Side.expectResponse
  dsimp only
  split
  · exact hexpected.parseHeader.rebase rfl rfl
  · exact hexpected.onto.rebase rfl rfl
  · exact hexpected.onto.rebase rfl rfl

/-- The call has been noted, and its message is appended. -/
def noted (s : Side) (name : Identifier) (m : Method) (arguments : List Value)
    (message : Emission UInt8) : Side :=
  Side.note
    { s with nextRequestId := s.nextRequestId + 1, output := s.output.append message.output }
    fun h => { h with
      calls := h.calls ++ [⟨s.nextRequestId, name, m, arguments, message.ok⟩],
      messages := h.messages ++ [message] }

omit [Platform] in
theorem Calling.noted (h : s.Calling) (name : Identifier) (m : Method) (arguments : List Value)
    (message : Emission UInt8) : (s.noted name m arguments message).Calling := by
  have hgrows : s.history.calls <+:
      s.history.calls ++ [⟨s.nextRequestId, name, m, arguments, message.ok⟩] :=
    List.prefix_append _ _
  exact { h with
    frames := fun frame hframe => (h.frames frame hframe).mono (.inl rfl) hgrows
    reads := fun operation hread => (h.reads operation hread).mono hgrows
    known := fun e he => (h.known e he).mono hgrows
    own := fun call hcall v hv => (h.own call hcall v hv).mono List.prefix_rfl hgrows }

omit [Platform] in
theorem Calling.sendBuffer (h : s.Calling) :
    Calling { s with output := s.output.sendBuffer .request } := by
  refine { h with sent := ?_ }
  intro call hcall
  rw [sendBuffer_sent] at hcall
  rcases List.mem_append.mp hcall with hold | hnew
  · exact h.sent call hold
  · rw [List.mem_singleton.mp hnew]

theorem Calling.called (h : s.Calling) (hfresh : s.Fresh) (name : Identifier) (m : Method)
    (arguments : List Value) : s.Onto (s.request name m arguments) := by
  have hnoted := h.noted name m arguments (requestMessage s.nextRequestId name m arguments)
  have hbelongs : ExpectedResponse.BelongsTo ⟨m.resultParser, s.history.calls.length⟩
      (s.noted name m arguments
        (requestMessage s.nextRequestId name m arguments)).history.calls s.nextRequestId :=
    ⟨_, List.getElem?_concat_length, rfl, rfl⟩
  unfold Side.request
  dsimp only
  split_ifs
  · exact (hnoted.sendBuffer.expectResponse hfresh hbelongs).rebase rfl rfl
  · exact (@Calling.callResultHandler _ hnoted s.history.calls.length (.error .invalidInput)
      fun v hv => by cases hv).1.rebase rfl rfl

/-- What a step does to the handlers; a failure of the stream makes the pending ones owed. -/
theorem step_calling {clients servers : InterfaceDefinition} {s' : Side} {event : Event}
    (h : s.Calling) (hexclusive : s.Exclusive) (hordered : s.output.Ordered)
    (hclient : event ≠ .serve) (hkeeps : s.keepsHandlers event = true)
    (htaken : Taken clients servers s event s') :
    s'.Calling ∧ (∀ call, s.Owes call → s'.Owes call) ∧
      (s.streamFails event = true →
        ∀ n ∈ s.pendingHandlers, s'.Owes (n, .error (streamError event))) := by
  have hquiet {P : Prop} (hfails : false = true) : P := absurd hfails Bool.false_ne_true
  cases htaken with
  | @call name m arguments =>
    have hfresh : s.Fresh := fun e he => of_decide_eq_true (List.all_eq_true.mp hkeeps e he)
    have honto := h.called hfresh name m arguments
    exact ⟨honto.calling, fun _ => honto.owes, hquiet⟩
  | serve => exact absurd rfl hclient
  | answer _ hinvoked =>
    rw [h.invoked] at hinvoked
    cases hinvoked
  | @«return» stack hstack =>
    refine ⟨h.pop hstack, fun n howes => ?_, hquiet⟩
    rcases howes with hcompleted | ⟨frame, hframe, howes⟩
    · exact .inl hcompleted
    · rw [hstack] at hframe
      rcases List.mem_cons.mp hframe with rfl | hrest
      · exact howes.elim
      · exact .inr ⟨frame, hrest, howes⟩
  | @resume frame stack hstack =>
    obtain ⟨honto, hown, hpending⟩ := h.resume servers hexclusive hordered hstack hkeeps
    refine ⟨honto.calling, fun n howes => ?_, hpending⟩
    rcases howes with hcompleted | ⟨other, hother, howes⟩
    · exact honto.owes (.inl hcompleted)
    · rw [hstack] at hother
      rcases List.mem_cons.mp hother with rfl | hrest
      · exact hown n howes
      · exact honto.owes (.inr ⟨other, hrest, howes⟩)
  | @read index bytes operation hstack hreads =>
    have hmem := List.mem_of_getElem? hreads
    have hreceived : Calling (Side.note { s with reads := s.reads.eraseIdx index,
                                                 buffer := s.buffer ++ bytes }
        fun h => { h with received := h.received ++ bytes }) := { h.without index with }
    have honto := (hreceived.start (h.reads operation hmem)
      (h.waits (List.mem_append_right _ hmem))).rebase (s := s) rfl rfl
    exact ⟨honto.calling, fun _ => honto.owes, hquiet⟩
  | @readError index ec operation hstack hreads hec =>
    have hmem := List.mem_of_getElem? hreads
    have hheader : operation.onResult.isHeader = true := by
      rw [keepsHandlers, hreads] at hkeeps
      exact hkeeps
    have hopened := hexclusive.opened (t := { s.fail with reads := s.reads.eraseIdx index })
      (active_perm hstack hreads rfl) rfl
    have hfailed : Calling { s.fail with reads := s.reads.eraseIdx index } :=
      { h.without index with }
    obtain ⟨honto, hpending⟩ := hfailed.call_error servers hopened.active
      (h.waits (List.mem_append_right _ hmem) hheader) (h.reads operation hmem) hheader ec
    exact ⟨honto.calling, fun _ => (honto.rebase (s := s) rfl rfl).owes, fun _ => hpending⟩
  | @written index transferred ec output hstack hwritten =>
    obtain ⟨-, -, -, -, -, hsent⟩ := BufferedWriter.written_eq hwritten
    have hnext : Calling { s with output } := { h with sent := hsent ▸ h.sent }
    have honto := (@Calling.push _ hnext .writer trivial rfl).rebase (s := s) rfl rfl
    exact ⟨honto.calling, fun _ => honto.owes, hquiet⟩

omit [Platform] in
/-- Where the handler of a call is. -/
theorem Calling.placed (h : s.Calling) (hcustody : s.Custody) {n : Nat}
    (hn : n < s.history.calls.length) :
    (∃ result, s.Owes (n, result)) ∨ n ∈ s.pendingHandlers ∨
      ∃ operation ∈ s.active, operation.onResult.isHeader = false := by
  have hcount : 0 < s.places.count (.call n) := by
    have htally := hcustody.tally (.call n)
    rw [created, if_pos hn] at htally
    rw [← tally]
    omega
  have hmem := List.count_pos_iff.mp hcount
  simp only [places, held, h.request, h.dropped, List.mem_append, List.mem_flatMap, List.mem_map,
    Option.toList_none, List.map_nil, List.not_mem_nil, or_false, reduceCtorEq, and_false,
    exists_false, Token.call.injEq] at hmem
  rcases hmem with (((((⟨frame, hframe, htoken⟩ | ⟨operation, hread, htoken⟩) | hpending) |
    ⟨index, -, htoken⟩) | ⟨call, hcall, htoken⟩) | hcompleted)
  · rcases Frame.owes_of_token htoken with ⟨result, howes⟩ | ⟨operation, rfl, hresult⟩
    · exact .inl ⟨result, .inr ⟨frame, hframe, howes⟩⟩
    · refine .inr (.inr ⟨operation, ?_, hresult⟩)
      exact List.mem_append_left _ (List.mem_flatMap.mpr ⟨_, hframe, List.mem_singleton_self _⟩)
  · exact .inr (.inr ⟨operation, List.mem_append_right _ hread,
      Continuation.isHeader_of_token htoken⟩)
  · exact .inr (.inl (List.mem_map.mpr hpending))
  · simp [callback] at htoken
  · rw [h.sent call hcall] at htoken
    cases htoken
  · obtain ⟨⟨handler, result⟩, hcall, rfl⟩ := hcompleted
    exact .inl ⟨result, .inl hcall⟩

/-- Where the stream fails a header is being read. -/
theorem header_of_streamFails {clients servers : InterfaceDefinition} {s' : Side} {event : Event}
    (hfails : s.streamFails event = true) (hkeeps : s.keepsHandlers event = true)
    (htaken : Taken clients servers s event s') :
    ∃ operation ∈ s.active, operation.onResult.isHeader = true := by
  cases htaken with
  | @resume frame stack hstack =>
    unfold streamFails at hfails
    unfold keepsHandlers at hkeeps
    rw [hstack] at hfails hkeeps
    cases frame with
    | start operation =>
      have hbreaks : s.breaks operation = true := hfails
      refine ⟨operation, (active_start hstack).mem_iff.mpr List.mem_cons_self, ?_⟩
      simpa [hbreaks] using hkeeps
    | _ => cases hfails
  | @readError index ec operation hstack hreads =>
    rw [keepsHandlers, hreads] at hkeeps
    exact ⟨operation, List.mem_append_right _ (List.mem_of_getElem? hreads), hkeeps⟩
  | _ => cases hfails

/-- Once the stream has failed every earlier handler has been called or is about to be. -/
theorem owes_of_streamFails {clients servers : InterfaceDefinition} {s' : Side} {event : Event}
    (h : s.Calling) (hcustody : s.Custody) (hexclusive : s.Exclusive)
    (hordered : s.output.Ordered) (hclient : event ≠ .serve)
    (hkeeps : s.keepsHandlers event = true) (hfails : s.streamFails event = true)
    (htaken : Taken clients servers s event s') {n : Nat} (hn : n < s.history.calls.length) :
    (∃ result, s'.Owes (n, result)) ∧
      (n ∈ s.pendingHandlers → s'.Owes (n, .error (streamError event))) := by
  obtain ⟨-, hstays, hpending⟩ :=
    step_calling h hexclusive hordered hclient hkeeps htaken
  refine ⟨?_, hpending hfails n⟩
  rcases h.placed hcustody hn with ⟨result, howes⟩ | hwaits | ⟨operation, hmem, hresult⟩
  · exact ⟨result, hstays _ howes⟩
  · exact ⟨_, hpending hfails n hwaits⟩
  · obtain ⟨other, hother, hheader⟩ := header_of_streamFails hfails hkeeps htaken
    have hkind := (hexclusive.kind hmem).1
    rw [(hexclusive.kind hother).1, hheader, hresult] at hkind
    cases hkind

theorem run_calling {clients servers : InterfaceDefinition} {s' : Side} {events : List Event}
    (h : s.Calling) (hcustody : s.Custody) (hreached : Reaches (step clients servers) {} s)
    (hclient : Event.serve ∉ events)
    (hkeeps : Along (step clients servers) (fun s event => s.keepsHandlers event = true) s events)
    (hrun : run (step clients servers) s events = some s') :
    s'.Calling ∧ s'.Custody ∧ ∀ call, s.Owes call → s'.Owes call := by
  induction events generalizing s with
  | nil =>
    cases hrun
    exact ⟨h, hcustody, fun _ => id⟩
  | cons event events ih =>
    obtain ⟨t, hstep, hrest⟩ := run_cons.mp hrun
    obtain ⟨hne, hnotin⟩ := not_or.mp (List.mem_cons.not.mp hclient)
    obtain ⟨ht, howes, -⟩ := step_calling h
      ((exclusive_step clients servers).reaches exclusive_initial hreached)
      (output_ordered hreached) (Ne.symm hne) hkeeps.1 (taken_of_step hstep).2
    have hcustody' := custody_step hcustody hstep ht.thrown
      (fun name arguments hcall => fun e he => by
        have hkept := hkeeps.1
        rw [hcall] at hkept
        exact of_decide_eq_true (List.all_eq_true.mp hkept e he))
      (fun hserve => absurd hserve.symm hne)
    obtain ⟨hcalling, hcustody'', howes'⟩ := ih ht hcustody' (hreached.trans (.single hstep))
      hnotin (hkeeps.2 t hstep) hrest
    exact ⟨hcalling, hcustody'', fun call hcall => howes' call (howes call hcall)⟩

omit [Platform] in
theorem calling_initial : ({} : Side).Calling where
  toTended := tended_initial _ _
  thrown := rfl
  request := rfl
  known := List.forall_mem_nil _
  invoked := rfl
  sent := List.forall_mem_nil _
  own := List.forall_mem_nil _
  dropped := rfl

/-- A client in whose runs no result fails while it is being parsed, and no call is given the id of
a pending one, loses no handler and calls none twice. However the stream fails, when the call stack
is empty again every handler from before has been called once: those that waited with the error, the
others with what was parsed for their id, or an error from before. -/
theorem calls_completed_once (clients servers : InterfaceDefinition) (events : List Event)
    (s : Side) (hclient : Event.serve ∉ events)
    (hkeeps : Along (step clients servers) (fun s event => s.keepsHandlers event = true) {} events)
    (hrun : run (step clients servers) {} events = some s) :
    s.thrown = none ∧ s.history.dropped = [] ∧ (s.history.completed.map Prod.fst).Nodup ∧
      (∀ call ∈ s.history.completed, ∀ v, call.2 = .ok v →
        Gave s.history.parsed s.history.calls call.1 v) ∧
      ∀ before event after t, events = before ++ event :: after →
        run (step clients servers) {} before = some t → t.streamFails event = true →
        s.stack = [] → ∀ n < t.history.calls.length,
          (s.history.completed.map Prod.fst).count n = 1 ∧
            (n ∈ t.pendingHandlers → (n, .error (streamError event)) ∈ s.history.completed) := by
  obtain ⟨h, hcustody, -⟩ :=
    run_calling calling_initial custody_initial (Reaches.refl _ _) hclient hkeeps hrun
  have hnodup := hcustody.completed_nodup (output_ordered ⟨events, hrun⟩)
  refine ⟨h.thrown, h.dropped, hnodup, h.own, ?_⟩
  intro before event after t hevents hbefore hfails hstack n hn
  subst hevents
  obtain ⟨hkept, hkeptRest⟩ := Along.append_iff.mp hkeeps
  obtain ⟨hkeptEvent, hkeptAfter⟩ := hkeptRest t hbefore
  rw [run_append, hbefore, Option.bind_some] at hrun
  obtain ⟨t', hstep, hrest⟩ := run_cons.mp hrun
  simp only [List.mem_append, List.mem_cons, not_or] at hclient
  obtain ⟨hclientBefore, hclientEvent, hclientAfter⟩ := hclient
  have hreached : Reaches (step clients servers) {} t := ⟨before, hbefore⟩
  obtain ⟨ht, htcustody, -⟩ :=
    run_calling calling_initial custody_initial (Reaches.refl _ _) hclientBefore hkept hbefore
  have hexclusive := (exclusive_step clients servers).reaches exclusive_initial hreached
  have htaken := (taken_of_step hstep).2
  obtain ⟨⟨result, howes⟩, hpending⟩ := owes_of_streamFails ht htcustody hexclusive
    (output_ordered hreached) (Ne.symm hclientEvent) hkeptEvent hfails htaken hn
  have hsingle : run (step clients servers) t [event] = some t' :=
    run_cons.mpr ⟨t', hstep, rfl⟩
  obtain ⟨ht', htcustody', -⟩ := run_calling ht htcustody hreached
    (fun hmem => hclientEvent (List.mem_singleton.mp hmem)) ⟨hkeptEvent, fun _ _ => trivial⟩
    hsingle
  obtain ⟨-, -, hstays⟩ := run_calling ht' htcustody' (hreached.trans (.single hstep)) hclientAfter
    (hkeptAfter t' hstep) hrest
  -- an empty stack owes nothing any more
  have hpaid (call : Nat × Except ErrorCode Value) (howes : t'.Owes call) :
      call ∈ s.history.completed := by
    rcases hstays call howes with hcompleted | ⟨frame, hframe, -⟩
    · exact hcompleted
    · rw [hstack] at hframe
      cases hframe
  refine ⟨List.count_eq_one_of_mem hnodup ?_, fun hwaits => hpaid _ (hpending hwaits)⟩
  exact List.mem_map_of_mem (hpaid _ howes)

/-- Two calls, of which one gets its result before the stream ends inside the next header. -/
def brokenHeader : List Event :=
  [.call [0x66] [.integer 7], .resume, .call [0x66] [.integer 9],
    .read 0 [1, 0, 0, 0, 0, 0, 0, 0, 0, 5, 1, 0], .resume, .resume, .resume, .resume, .resume,
    .resume, .resume, .return, .resume]

omit [Platform] in
theorem calls_completed_once_header :
    letI := Platform.reference
    ∃ s, run (step exampleInterface exampleInterface) {} (brokenHeader ++
        .readError 0 (.system 2) :: [.resume, .return, .resume, .resume]) = some s ∧
      s.stack = [] ∧ (∀ n < 2, (s.history.completed.map Prod.fst).count n = 1) ∧
      (1, .error (.system 2)) ∈ s.history.completed := by
  letI := Platform.reference
  have hidle : (run (step exampleInterface exampleInterface) {} (brokenHeader ++
      .readError 0 (.system 2) :: [.resume, .return, .resume, .resume])).any
      (fun s => s.stack.isEmpty) = true := by decide +kernel
  have hbefore : (run (step exampleInterface exampleInterface) {} brokenHeader).any
      (fun t => decide (t.history.calls.length = 2 ∧ 1 ∈ t.pendingHandlers)) = true := by
    decide +kernel
  obtain ⟨s, hrun, hs⟩ := (Option.any_eq_true _ _).mp hidle
  obtain ⟨t, ht, htwo⟩ := (Option.any_eq_true _ _).mp hbefore
  obtain ⟨hcalls, hwaits⟩ := of_decide_eq_true htwo
  obtain ⟨-, -, -, -, hcompleted⟩ := calls_completed_once exampleInterface exampleInterface _ s
    (by simp [brokenHeader]) (by decide +kernel) hrun
  have hstack := List.isEmpty_iff.mp hs
  have hfailed := hcompleted brokenHeader _ _ t rfl ht rfl hstack
  refine ⟨s, hrun, hstack, fun n hn => (hfailed n (hcalls ▸ hn)).1, ?_⟩
  exact (hfailed 1 (hcalls ▸ Nat.one_lt_two)).2 hwaits

omit [Platform] in
/-- The stream ends between the header of a response and its result: the handler is dropped. -/
theorem calls_completed_once_payload :
    letI := Platform.reference
    let events : List Event := [.call [0x66] [.integer 7], .resume,
      .read 0 [1, 0, 0, 0, 0, 0, 0, 0, 0], .resume, .resume, .resume, .resume,
      .readError 0 (.system 2), .resume]
    ∃ s, run (step exampleInterface exampleInterface) {} events = some s ∧
      s.stack = [] ∧ s.reads.length = 0 ∧ s.history.calls.length = 1 ∧
      s.history.dropped = [0] ∧ s.history.completed.length = 0 := by
  letI := Platform.reference
  intro events
  have hlost : (run (step exampleInterface exampleInterface) {} events).any (fun s =>
      s.stack.isEmpty && decide (s.reads.length = 0) && decide (s.history.calls.length = 1) &&
        decide (s.history.dropped = [0]) && decide (s.history.completed.length = 0)) = true := by
    decide +kernel
  obtain ⟨s, hrun, hs⟩ := (Option.any_eq_true _ _).mp hlost
  simp only [Bool.and_eq_true, decide_eq_true_eq, List.isEmpty_iff] at hs
  obtain ⟨⟨⟨⟨hstack, hreads⟩, hcalls⟩, hdropped⟩, hcompleted⟩ := hs
  exact ⟨s, hrun, hstack, hreads, hcalls, hdropped, hcompleted⟩

end Side
end Warpcoil
