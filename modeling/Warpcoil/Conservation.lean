import Warpcoil.SendOrder
import Warpcoil.Side

/-! What the functions of a side leave alone, and the handlers they pass on. -/
namespace Warpcoil.Side
open Transition

/-- The part of a side that no parse operation touches. -/
def ledger (s : Side) :=
  (s.output, s.nextRequestId, s.invoked, s.unanswered, s.history.received, s.history.calls,
    s.history.messages, s.history.completed, s.history.serves, s.history.responses)

/-- What only the event loop and calls of the user write. -/
def diary (s : Side) :=
  (s.nextRequestId, s.history.received, s.history.calls, s.history.messages, s.history.serves,
    s.history.responses)

/-- The part that the handler of a parse operation does not touch. -/
def record (s : Side) := (s.buffer, s.reads, s.history.parsed, s.ledger)

@[simp] theorem push_record (s : Side) (frames : List Frame) : (s.push frames).record = s.record :=
  rfl
@[simp] theorem assert_record (s : Side) (a : Assertion) (c : Bool) :
    (s.assert a c).record = s.record := rfl
@[simp] theorem throw_record (s : Side) (e : Exception) : (s.throw e).record = s.record := rfl
@[simp] theorem fail_record (s : Side) : s.fail.record = s.record := rfl
@[simp] theorem beginParseValue_record (s : Side) (k : Continuation) :
    (s.beginParseValue k).record = s.record := rfl

@[simp] theorem callBeginParseMessage_record (s : Side) :
    s.callBeginParseMessage.record = s.record := by
  unfold callBeginParseMessage
  dsimp only
  split_ifs <;> rfl

@[simp] theorem waitForResponse_record (s : Side) : s.waitForResponse.record = s.record := by
  unfold waitForResponse
  dsimp only
  split_ifs
  · rfl
  · exact callBeginParseMessage_record _

@[simp] theorem waitForRequest_record (s : Side) (handler : Nat) :
    (s.waitForRequest handler).record = s.record := by
  unfold waitForRequest
  dsimp only
  split_ifs
  · rfl
  · exact callBeginParseMessage_record _

@[simp] theorem lockInput_record (s : Side) : s.lockInput.record = s.record := rfl

@[simp] theorem unlockInput_record (s : Side) : s.unlockInput.record = s.record := by
  unfold unlockInput
  dsimp only
  split_ifs
  · rfl
  · exact callBeginParseMessage_record _

@[simp] theorem registryOnError_record (s : Side) (ec : ErrorCode) :
    (s.registryOnError ec).record = s.record := rfl

@[simp] theorem parseHeader_record (s : Side) : s.parseHeader.record = s.record :=
  waitForResponse_record _

@[simp] theorem onHeader_record (s : Side) (request : Except ErrorCode RequestId) :
    (s.onHeader request).record = s.record := by
  unfold onHeader
  dsimp only
  split
  · exact (registryOnError_record _ _).trans (assert_record _ _ _)
  · split
    · exact (registryOnError_record _ _).trans rfl
    · exact (beginParseValue_record _ _).trans ((lockInput_record _).trans rfl)

@[simp] theorem complete_record (s : Side) (handler : Nat) (ec : ErrorCode) :
    (s.complete handler ec).record = s.record := rfl

@[simp] theorem onRequest_record (servers : InterfaceDefinition) (s : Side) (handler : Nat)
    (request : Except ErrorCode (RequestId × Identifier)) :
    (onRequest servers s handler request).record = s.record := by
  unfold onRequest
  split
  · exact complete_record _ _ _
  · split
    · exact throw_record _ _
    · exact (beginParseValue_record _ _).trans (lockInput_record _)

@[simp] theorem onSent_record (s : Side) (handler : Sent) (ec : ErrorCode) :
    (s.onSent handler ec).record = s.record := by
  unfold onSent
  split
  · split_ifs <;> rfl
  · rfl

@[simp] theorem onError_record (s : Side) (ec : ErrorCode) : (s.onError ec).record = s.record := by
  unfold onError
  dsimp only
  split_ifs
  · exact onHeader_record _ _
  · rfl

@[simp] theorem onMessageType_record (s : Side) (type : Except ErrorCode Value) :
    (s.onMessageType type).record = s.record := by
  unfold onMessageType
  split
  · exact onError_record _ _
  · split_ifs
    · rfl
    · exact onError_record _ _
    · rfl
    · exact onError_record _ _
    · exact onError_record _ _

@[simp] theorem onResponse_record (s : Side) (request : Except ErrorCode Value) :
    (s.onResponse request).record = s.record := by
  unfold onResponse
  dsimp only
  split
  · exact onError_record _ _
  · split_ifs
    · exact (onHeader_record _ _).trans rfl
    · exact (throw_record _ _).trans rfl
  · rfl

@[simp] theorem onRequestHeader_record (servers : InterfaceDefinition) (s : Side)
    (request : Except ErrorCode Value) :
    (onRequestHeader servers s request).record = s.record := by
  unfold onRequestHeader
  dsimp only
  split
  · exact onError_record _ _
  · split
    · exact (onRequest_record _ _ _ _).trans rfl
    · exact (throw_record _ _).trans rfl
  · rfl

@[simp] theorem onResult_record (s : Side) (handler : Nat) (result : Except ErrorCode Value) :
    (s.onResult handler result).record = s.record := by
  unfold onResult
  dsimp only
  split
  · exact (registryOnError_record _ _).trans rfl
  · exact (unlockInput_record _).trans rfl

/-- The handler of a parse operation appends nothing to the output and makes no call. -/
@[simp] theorem call_record (servers : InterfaceDefinition) (s : Side) (k : Continuation)
    (result : Except ErrorCode Value) : (call servers s k result).record = s.record := by
  cases k with
  | messageType => exact onMessageType_record _ _
  | response => exact onResponse_record _ _
  | request => exact onRequestHeader_record _ _ _
  | result expected => exact onResult_record _ _ _
  | argument id name m handler => exact unlockInput_record _

theorem ledger_eq {s t : Side} (h : s.record = t.record) : s.ledger = t.ledger :=
  congrArg (fun r => r.2.2.2) h

@[simp] theorem continueRequest_record (s : Side) (continue_ : Bool) :
    (s.continueRequest continue_).record = s.record := by
  unfold continueRequest
  split_ifs
  · exact callBeginParseMessage_record _
  · rfl

@[simp] theorem continueResponse_record (s : Side) (continue_ : Bool) :
    (s.continueResponse continue_).record = s.record := by
  unfold continueResponse
  split_ifs
  · exact callBeginParseMessage_record _
  · rfl

@[simp] theorem continueError_record (servers : InterfaceDefinition) (s : Side)
    (isWaitingForRequest : Bool) (ec : ErrorCode) :
    (continueError servers s isWaitingForRequest ec).record = s.record := by
  unfold continueError
  split_ifs
  · split
    · exact onRequest_record _ _ _ _
    · rfl
  · rfl

@[simp] theorem continueResult_record (s : Side) (handler : Nat) (v : Value) :
    (s.continueResult handler v).record = s.record := by
  unfold continueResult
  dsimp only
  split_ifs
  · rfl
  · exact parseHeader_record _

@[simp] theorem expectResponse_record (s : Side) (id : RequestId) (expected : ExpectedResponse) :
    (s.expectResponse id expected).record = s.record := by
  unfold expectResponse
  dsimp only
  split
  · exact parseHeader_record _
  · rfl
  · rfl

@[simp] theorem callWith_ledger (servers : InterfaceDefinition) (s : Side) (k : Continuation)
    (v : Value) (rest : List UInt8) : (callWith servers s k v rest).ledger = s.ledger := by
  unfold callWith
  exact (ledger_eq (call_record _ _ _ _)).trans rfl

variable [Platform]

@[simp] theorem start_ledger (servers : InterfaceDefinition) (s : Side)
    (operation : ParseOperation) : (start servers s operation).ledger = s.ledger := by
  unfold start
  split
  · exact callWith_ledger _ _ _ _ _
  · split
    · exact callWith_ledger _ _ _ _ _
    · rfl
    · exact ledger_eq (call_record _ _ _ _)
    · rfl

/-- Only the completion handler of a write touches the output. -/
theorem resume_output (servers : InterfaceDefinition) (s : Side) (frame : Frame)
    (h : frame ≠ .writer) : (resume servers s frame).output = s.output := by
  have houtput {t u : Side} (h : t.record = u.record) : t.output = u.output :=
    congrArg (fun r => r.2.2.2.1) h
  cases frame with
  | start operation => exact congrArg (fun l => l.1) (start_ledger servers s operation)
  | requestContinue continue_ => exact houtput (continueRequest_record s continue_)
  | responseContinue continue_ => exact houtput (continueResponse_record s continue_)
  | errorContinue isWaitingForRequest ec => exact houtput (continueError_record servers s _ ec)
  | errors handlers ec => cases handlers <;> rfl
  | resultUnlocked handler v => exact houtput (continueResult_record s handler v)
  | argumentUnlocked id name m handler argument => cases argument <;> rfl
  | resultReady | user => rfl
  | writer => exact (h rfl).elim

omit [Platform] in
theorem diary_of_ledger {s t : Side} (h : s.ledger = t.ledger) : s.diary = t.diary :=
  congrArg (fun l => (l.2.1, l.2.2.2.2.1, l.2.2.2.2.2.1, l.2.2.2.2.2.2.1,
    l.2.2.2.2.2.2.2.2.1, l.2.2.2.2.2.2.2.2.2)) h

/-- No frame makes calls or responses. -/
theorem resume_diary (servers : InterfaceDefinition) (s : Side) (frame : Frame) :
    (resume servers s frame).diary = s.diary := by
  have hdiary {t u : Side} (h : t.record = u.record) : t.diary = u.diary :=
    diary_of_ledger (ledger_eq h)
  cases frame with
  | start operation => exact diary_of_ledger (start_ledger servers s operation)
  | requestContinue continue_ => exact hdiary (continueRequest_record s continue_)
  | responseContinue continue_ => exact hdiary (continueResponse_record s continue_)
  | errorContinue isWaitingForRequest ec => exact hdiary (continueError_record servers s _ ec)
  | errors handlers ec => cases handlers <;> rfl
  | resultUnlocked handler v => exact hdiary (continueResult_record s handler v)
  | argumentUnlocked id name m handler argument => cases argument <;> rfl
  | resultReady | user => rfl
  | writer =>
    unfold resume continueWriter
    dsimp only
    split
    · rfl
    · split
      · exact (hdiary (onSent_record _ _ _)).trans rfl
      · rfl

omit [Platform] in
theorem continueWriter_output (s : Side) :
    s.continueWriter.output = s.output ∨ s.output.proceed = some s.continueWriter.output := by
  have houtput {t u : Side} (h : t.record = u.record) : t.output = u.output :=
    congrArg (fun r => r.2.2.2.1) h
  unfold continueWriter
  split
  · exact .inl rfl
  · next output hproceed =>
    dsimp only
    split
    · next handler _ ec _ _ =>
      have hsent := houtput (onSent_record (Side.push { s with output } [.writer]) handler ec)
      exact .inr (hproceed.trans (congrArg some hsent.symm))
    · exact .inr hproceed

/-! The writer of a side is a `buffered_writer`, and its sink receives the messages. -/

omit [Platform] in
theorem messageHeader_length (type : MessageType) (id : RequestId) :
    (messageHeader type id).length = 9 := by
  simp [messageHeader, writeInteger_eq, Uint.sizeof]

theorem requestMessage_starts (id : RequestId) (name : Identifier) (m : Method)
    (arguments : List Value) :
    messageHeader .request id <+: (requestMessage id name m arguments).output :=
  Emission.output_prefix_seq (.emit (messageHeader .request id)) _

theorem responseMessage_starts (id : RequestId) (m : Method) (result : Value) :
    messageHeader .response id <+: (responseMessage id m result).output :=
  Emission.output_prefix_seq (.emit (messageHeader .response id)) _

omit [Platform] in
theorem ne_nil_of_header {type : MessageType} {id : RequestId} {bytes : List UInt8}
    (h : messageHeader type id <+: bytes) : bytes ≠ [] := by
  intro hnil
  have hle := h.length_le
  rw [messageHeader_length, hnil] at hle
  exact absurd hle (by decide)

omit [Platform] in
theorem reaches_send (w : BufferedWriter Sent) {bytes : List UInt8} (h : bytes ≠ [])
    (handler : Sent) :
    Reaches BufferedWriter.step w ((w.append bytes).sendBuffer handler) := by
  have happend : BufferedWriter.step w (.append bytes) = some (w.append bytes) := rfl
  have hsend : BufferedWriter.step (w.append bytes) (.sendBuffer handler) =
      some ((w.append bytes).sendBuffer handler) := by
    have hne : (w.append bytes).buffer ≠ [] := by simp [BufferedWriter.append, h]
    simp [BufferedWriter.step, hne]
  exact (Reaches.single happend).trans (Reaches.single hsend)

theorem output_request (s : Side) (name : Identifier) (m : Method) (arguments : List Value) :
    (s.request name m arguments).output =
      if (requestMessage s.nextRequestId name m arguments).ok then
        (s.output.append (requestMessage s.nextRequestId name m arguments).output).sendBuffer
          .request
      else s.output.append (requestMessage s.nextRequestId name m arguments).output := by
  unfold request
  dsimp only
  split_ifs
  · exact congrArg (fun r => r.2.2.2.1) (expectResponse_record _ _ _)
  · rfl

theorem output_answer (s : Side) (index : Nat) (invocation : Invocation)
    (result : Except ErrorCode Value) :
    (s.answer index invocation result).output =
      match result with
      | .error _ => s.output
      | .ok v =>
        if (responseMessage invocation.id invocation.method v).ok then
          (s.output.append (responseMessage invocation.id invocation.method v).output).sendBuffer
            (.response invocation.handler)
        else s.output.append (responseMessage invocation.id invocation.method v).output := by
  cases result with
  | error ec => rfl
  | ok v =>
    unfold answer
    dsimp only
    split_ifs <;> rfl

/-- A step of a side takes its writer through steps of a `buffered_writer`. -/
theorem output_component (clients servers : InterfaceDefinition) :
    Component (step clients servers) BufferedWriter.step Side.output := by
  have houtput {t u : Side} (h : t.record = u.record) : t.output = u.output :=
    congrArg (fun r => r.2.2.2.1) h
  intro s event s' hstep
  obtain ⟨-, htaken⟩ := taken_of_step hstep
  cases htaken with
  | @call name m arguments =>
    have hne := ne_nil_of_header
      (requestMessage_starts s.nextRequestId name m arguments)
    rw [output_request]
    split_ifs
    · exact reaches_send _ hne _
    · exact Reaches.single (e := .append _) rfl
  | serve =>
    have hserve : s.serveOneRequest.output = s.output := by
      unfold serveOneRequest
      exact (houtput (waitForRequest_record _ _)).trans rfl
    exact hserve ▸ Reaches.refl _ _
  | @answer index invocation result =>
    rw [output_answer]
    cases result with
    | error ec => exact Reaches.refl _ _
    | ok v =>
      have hne := ne_nil_of_header
        (responseMessage_starts invocation.id invocation.method v)
      dsimp only
      split_ifs
      · exact reaches_send _ hne _
      · exact Reaches.single (e := .append _) rfl
  | «return» => exact Reaches.refl _ _
  | @resume frame stack hstack hframe =>
    by_cases hwriter : frame = .writer
    · subst hwriter
      rcases continueWriter_output { s with stack } with hsame | hproceed
      · rw [resume, hsame]
        exact Reaches.refl _ _
      · exact Reaches.single (e := .proceed) hproceed
    · rw [resume_output servers _ frame hwriter]
      exact Reaches.refl _ _
  | read => exact Reaches.refl _ _
  | readError =>
    rw [houtput (call_record _ _ _ _)]
    exact Reaches.refl _ _
  | written hstack hwritten => exact Reaches.single hwritten

theorem output_ordered {clients servers : InterfaceDefinition} {s : Side}
    (h : Reaches (step clients servers) {} s) : s.output.Ordered :=
  BufferedWriter.ordered_step.reaches BufferedWriter.ordered_initial
    ((output_component clients servers).reaches h)

end Warpcoil.Side
