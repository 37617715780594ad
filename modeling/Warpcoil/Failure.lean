import Warpcoil.Regular

/-! The first error of a side is remembered, and a side without one is regular. -/
namespace Warpcoil.Side
open Transition

/-- What happens between two states calls no handler of a `serve_one_request` and forgets no
failure. -/
structure Onward (s t : Side) : Prop where
  served : t.history.served = s.history.served
  failed : s.history.failed = true → t.history.failed = true

theorem Onward.refl (s : Side) : s.Onward s := ⟨rfl, id⟩

theorem Onward.trans {s t u : Side} (h : s.Onward t) (h' : t.Onward u) : s.Onward u :=
  ⟨h'.served.trans h.served, fun hs => h'.failed (h.failed hs)⟩

theorem Onward.after {s t u : Side} (h : t.Onward u)
    (hserved : t.history.served = s.history.served)
    (hfailed : s.history.failed = true → t.history.failed = true) : s.Onward u :=
  Onward.trans ⟨hserved, hfailed⟩ h

theorem throw_onward (s : Side) (e : Exception) : s.Onward (s.throw e) := ⟨rfl, fun _ => rfl⟩

theorem callBeginParseMessage_onward (s : Side) : s.Onward s.callBeginParseMessage := by
  unfold callBeginParseMessage
  dsimp only
  split_ifs
  · exact ⟨rfl, id⟩
  · exact ⟨rfl, id⟩
  · exact throw_onward s _

theorem waitForResponse_onward (s : Side) : s.Onward s.waitForResponse := by
  unfold waitForResponse
  dsimp only
  split_ifs
  · exact ⟨rfl, id⟩
  · exact (callBeginParseMessage_onward _).after rfl id

theorem waitForRequest_onward (s : Side) (handler : Nat) :
    s.Onward (s.waitForRequest handler) := by
  unfold waitForRequest
  dsimp only
  split_ifs
  · exact ⟨rfl, id⟩
  · exact (callBeginParseMessage_onward _).after rfl id

theorem unlockInput_onward (s : Side) : s.Onward s.unlockInput := by
  unfold unlockInput
  dsimp only
  split_ifs
  · exact ⟨rfl, id⟩
  · exact (callBeginParseMessage_onward _).after rfl id

theorem registryOnError_onward (s : Side) (ec : ErrorCode) : s.Onward (s.registryOnError ec) :=
  ⟨rfl, fun _ => rfl⟩

theorem registryOnError_failed (s : Side) (ec : ErrorCode) :
    (s.registryOnError ec).history.failed = true := rfl

theorem parseHeader_onward (s : Side) : s.Onward s.parseHeader :=
  (waitForResponse_onward _).after rfl id

theorem onHeader_onward (s : Side) (request : Except ErrorCode RequestId) :
    s.Onward (s.onHeader request) := by
  unfold onHeader
  dsimp only
  split
  · exact (registryOnError_onward _ _).after rfl id
  · split
    · exact (registryOnError_onward _ _).after rfl id
    · exact ⟨rfl, id⟩

theorem onError_onward (s : Side) (ec : ErrorCode) : s.Onward (s.onError ec) := by
  unfold onError
  dsimp only
  split_ifs
  · exact (onHeader_onward _ _).after rfl fun _ => rfl
  · exact ⟨rfl, fun _ => rfl⟩

theorem onError_failed (s : Side) (ec : ErrorCode) : (s.onError ec).history.failed = true := by
  unfold onError
  dsimp only
  split_ifs
  · exact (onHeader_onward _ _).failed rfl
  · rfl

theorem onMessageType_onward (s : Side) (type : Except ErrorCode Value) :
    s.Onward (s.onMessageType type) := by
  unfold onMessageType
  split
  · exact onError_onward _ _
  · split_ifs
    · exact ⟨rfl, id⟩
    · exact onError_onward _ _
    · exact ⟨rfl, id⟩
    · exact onError_onward _ _
    · exact onError_onward _ _

theorem onResponse_onward (s : Side) (request : Except ErrorCode Value) :
    s.Onward (s.onResponse request) := by
  unfold onResponse
  dsimp only
  split
  · exact (onError_onward _ _).after rfl id
  · split_ifs
    · exact (onHeader_onward _ _).after rfl id
    · exact (throw_onward _ _).after rfl id
  · exact ⟨rfl, id⟩

theorem onRequestHeader_onward (servers : InterfaceDefinition) (s : Side)
    (request : Except ErrorCode Value) : s.Onward (onRequestHeader servers s request) := by
  unfold onRequestHeader
  dsimp only
  split
  · exact (onError_onward _ _).after rfl id
  · split
    · unfold onRequest
      dsimp only
      split
      · exact (throw_onward _ _).after rfl id
      · exact ⟨rfl, id⟩
    · exact (throw_onward _ _).after rfl id
  · exact ⟨rfl, id⟩

theorem onResult_onward (s : Side) (handler : Nat) (result : Except ErrorCode Value) :
    s.Onward (s.onResult handler result) := by
  unfold onResult
  dsimp only
  split
  · exact (registryOnError_onward _ _).after rfl id
  · exact (unlockInput_onward _).after rfl id

/-- The handlers of the parse operations. -/
theorem call_onward (servers : InterfaceDefinition) (s : Side) (k : Continuation)
    (result : Except ErrorCode Value) : s.Onward (call servers s k result) := by
  cases k with
  | messageType => exact onMessageType_onward _ _
  | response => exact onResponse_onward _ _
  | request => exact onRequestHeader_onward _ _ _
  | result expected => exact onResult_onward _ _ _
  | argument id name m handler => exact (unlockInput_onward _).after rfl fun h => h

theorem callWith_onward (servers : InterfaceDefinition) (s : Side) (k : Continuation) (v : Value)
    (rest : List UInt8) : s.Onward (callWith servers s k v rest) :=
  (call_onward _ _ _ _).after rfl id

theorem continueRequest_onward (s : Side) (continue_ : Bool) :
    s.Onward (s.continueRequest continue_) := by
  unfold continueRequest
  split_ifs
  · exact (callBeginParseMessage_onward _).after rfl id
  · exact .refl s

theorem continueResponse_onward (s : Side) (continue_ : Bool) :
    s.Onward (s.continueResponse continue_) := by
  unfold continueResponse
  split_ifs
  · exact (callBeginParseMessage_onward _).after rfl id
  · exact .refl s

theorem continueResult_onward (s : Side) (handler : Nat) (v : Value) :
    s.Onward (s.continueResult handler v) := by
  unfold continueResult
  dsimp only
  split_ifs
  · exact ⟨rfl, id⟩
  · exact (parseHeader_onward _).after rfl id

theorem expectResponse_onward (s : Side) (id : RequestId) (expected : ExpectedResponse) :
    s.Onward (s.expectResponse id expected) := by
  unfold expectResponse
  dsimp only
  split
  · exact (parseHeader_onward _).after rfl fun h => h
  · exact ⟨rfl, fun h => h⟩
  · exact ⟨rfl, fun h => h⟩

variable [Platform]

theorem start_onward (servers : InterfaceDefinition) (s : Side) (operation : ParseOperation) :
    s.Onward (start servers s operation) := by
  unfold start
  split
  · exact callWith_onward _ _ _ _ _
  · split
    · exact callWith_onward _ _ _ _ _
    · exact ⟨rfl, id⟩
    · exact (call_onward _ _ _ _).after rfl fun _ => rfl
    · exact throw_onward _ _

theorem request_onward (s : Side) (name : Identifier) (m : Method) (arguments : List Value) :
    s.Onward (s.request name m arguments) := by
  unfold request
  dsimp only
  split_ifs
  · exact (expectResponse_onward _ _ _).after rfl id
  · exact ⟨rfl, id⟩

/-- Between two states a handler of a `serve_one_request` is called, and nothing is thrown. -/
structure Completes (s t : Side) : Prop where
  thrown : t.thrown = none
  served : ∃ call, t.history.served = s.history.served ++ [call]
  failed : s.history.failed = true → t.history.failed = true

omit [Platform] in
theorem complete_completes {s t : Side} (hthrown : t.thrown = none) (honward : s.Onward t)
    (handler : Nat) (ec : ErrorCode) : s.Completes (t.complete handler ec) :=
  ⟨hthrown, ⟨(handler, ec), congrArg (· ++ _) honward.served⟩,
    fun h => Bool.or_eq_true_iff.mpr (.inl (honward.failed h))⟩

omit [Platform] in
theorem continueError_onward (servers : InterfaceDefinition) {s : Side} (hthrown : s.thrown = none)
    (isWaitingForRequest : Bool) (ec : ErrorCode) :
    s.Onward (continueError servers s isWaitingForRequest ec) ∨
      s.Completes (continueError servers s isWaitingForRequest ec) := by
  unfold continueError
  split_ifs
  · split
    · refine .inr ?_
      apply complete_completes
      · exact hthrown
      · exact ⟨rfl, id⟩
    · exact .inl (throw_onward _ _)
  · exact .inl (.refl s)

omit [Platform] in
theorem onSent_onward {s t : Side} (hthrown : t.thrown = none) (honward : s.Onward t)
    (handler : Sent) (ec : ErrorCode) :
    s.Onward (t.onSent handler ec) ∨ s.Completes (t.onSent handler ec) := by
  unfold onSent
  split
  · split_ifs
    · exact .inl honward
    · exact .inl (honward.trans (registryOnError_onward _ _))
  · exact .inr (complete_completes hthrown honward _ _)

omit [Platform] in
theorem continueWriter_onward {s : Side} (hthrown : s.thrown = none) :
    s.Onward s.continueWriter ∨ s.Completes s.continueWriter := by
  unfold continueWriter
  dsimp only
  split
  · exact .inl (.refl s)
  · split
    · apply onSent_onward
      · exact hthrown
      · exact ⟨rfl, id⟩
    · exact .inl ⟨rfl, id⟩

/-- What a frame does goes on, or calls a handler. -/
theorem resume_onward (servers : InterfaceDefinition) {s : Side} (hthrown : s.thrown = none)
    (frame : Frame) :
    s.Onward (resume servers s frame) ∨ s.Completes (resume servers s frame) := by
  cases frame with
  | start operation => exact .inl (start_onward _ _ _)
  | requestContinue continue_ => exact .inl (continueRequest_onward _ _)
  | responseContinue continue_ => exact .inl (continueResponse_onward _ _)
  | errorContinue isWaitingForRequest ec => exact continueError_onward servers hthrown _ _
  | errors handlers ec => cases handlers <;> exact .inl ⟨rfl, id⟩
  | resultUnlocked handler v => exact .inl (continueResult_onward _ _ _)
  | resultReady handler v => exact .inl ⟨rfl, id⟩
  | argumentUnlocked id name m handler argument =>
    cases argument with
    | error ec => exact .inr (complete_completes hthrown ⟨rfl, fun h => h⟩ _ _)
    | ok v => exact .inl ⟨rfl, fun h => h⟩
  | writer => exact continueWriter_onward hthrown
  | user => exact .inl (.refl s)

theorem step_onward {clients servers : InterfaceDefinition} {s s' : Side} {event : Event}
    (hstep : step clients servers s event = some s') :
    s.Onward s' ∨ s.Completes s' := by
  obtain ⟨hthrown, htaken⟩ := taken_of_step hstep
  cases htaken with
  | call => exact .inl (request_onward _ _ _ _)
  | serve => exact .inl ((waitForRequest_onward _ _).after rfl id)
  | @answer index invocation result =>
    cases result with
    | error ec =>
      refine .inr ?_
      apply complete_completes
      · exact hthrown
      · exact ⟨rfl, id⟩
    | ok v =>
      unfold answer
      dsimp only
      split_ifs
      · exact .inl ⟨rfl, id⟩
      · refine .inr ?_
        apply complete_completes
        · exact hthrown
        · exact ⟨rfl, id⟩
  | «return» => exact .inl ⟨rfl, id⟩
  | @resume frame stack =>
    rcases resume_onward servers (s := { s with stack }) hthrown frame with honward | hhandler
    · exact .inl (honward.after rfl id)
    · exact .inr ⟨hhandler.thrown, hhandler.served, hhandler.failed⟩
  | read => exact .inl ⟨rfl, id⟩
  | readError => exact .inl ((call_onward _ _ _ _).after rfl fun _ => rfl)
  | written => exact .inl ⟨rfl, id⟩

/-- Failures are remembered. -/
theorem failed_step {clients servers : InterfaceDefinition} {s s' : Side} {event : Event}
    (hstep : step clients servers s event = some s') (h : s.history.failed = true) :
    s'.history.failed = true := by
  rcases step_onward hstep with honward | hcompletes
  · exact honward.failed h
  · exact hcompletes.failed h

/-- A handler that has been called stays called. -/
theorem served_step {clients servers : InterfaceDefinition} {s s' : Side} {event : Event}
    (hstep : step clients servers s event = some s') :
    s.history.served <+: s'.history.served := by
  rcases step_onward hstep with honward | hcompletes
  · exact honward.served ▸ List.prefix_refl _
  · obtain ⟨call, hserved⟩ := hcompletes.served
    rw [hserved]
    exact List.prefix_append _ _

/-! What ends the calm is a failure. -/

omit [Platform] in
theorem callWith_failed {servers : InterfaceDefinition} {s : Side} {n : Nat} {rest : List UInt8}
    (hresponse : ¬ (n = 1 ∧ s.waitingForResponse = true))
    (hrequest : ¬ (n = 0 ∧ s.waitingForRequest.isSome = true)) :
    (callWith servers s .messageType (.integer n) rest).history.failed = true := by
  change (onMessageType (s.entered .messageType (.integer n) rest)
    (.ok (.integer n))).history.failed
    = true
  have hone : Value.integer n = .integer MessageType.response.toNat ↔ n = 1 := by
    rw [Value.integer.injEq]
    rfl
  have hzero : Value.integer n = .integer MessageType.request.toNat ↔ n = 0 := by
    rw [Value.integer.injEq]
    rfl
  unfold onMessageType
  simp only [hone, hzero]
  split_ifs with hn hwaiting hm hwaiting
  · exact (hresponse ⟨hn, hwaiting⟩).elim
  · exact onError_failed _ _
  · exact (hrequest ⟨hm, hwaiting⟩).elim
  · exact onError_failed _ _
  · exact onError_failed _ _

omit [Platform] in
theorem onResponse_failed {s : Side} {id : Nat}
    (hfind : s.expectedResponses.find? (fun e => decide (e.1 = UInt64.ofNat id)) = none) :
    (s.onResponse (.ok (.integer id))).history.failed = true := by
  unfold onResponse
  dsimp only
  split_ifs
  · unfold onHeader
    dsimp only
    split
    · rfl
    · next hsome => exact absurd (hfind.symm.trans hsome) (by simp)
  · rfl

omit [Platform] in
theorem onRequestHeader_failed {servers : InterfaceDefinition} {s : Side} {id : Nat}
    {name : Identifier} (hfind : servers.find name = none) :
    (onRequestHeader servers s (.ok (.tuple [.integer id, .utf8 name]))).history.failed = true := by
  unfold onRequestHeader
  dsimp only
  split
  · unfold onRequest
    dsimp only
    rw [hfind]
    rfl
  · rfl

omit [Platform] in
theorem onSent_failed {s : Side} {handler : Sent} {ec : ErrorCode} (hec : ec ≠ .success) :
    (s.onSent handler ec).history.failed = true := by
  unfold onSent
  split
  · rw [if_neg hec]
    exact registryOnError_failed _ _
  · exact Bool.or_eq_true_iff.mpr (.inr (by simp [hec]))

omit [Platform] in
theorem continueWriter_failed {s : Side} {handler : Sent} {handlers : List Sent}
    {ec : ErrorCode} {stack : List (SendFrame Sent)} (hec : ec ≠ .success)
    (htop : s.output.stack = .onResult (handler :: handlers) ec :: stack) :
    s.continueWriter.history.failed = true := by
  unfold continueWriter BufferedWriter.proceed
  simp only [htop]
  exact onSent_failed hec

theorem start_eq_complete (servers : InterfaceDefinition) {s : Side} {operation : ParseOperation}
    (h : operation.Sound) {v : Value} {rest : List UInt8}
    (hread : s.reading operation = .complete v rest) :
    s.start servers operation = s.callWith servers operation.onResult v rest := by
  have hparse : operation.onResult.parserType.parse (operation.seen ++ s.buffer) =
      .complete v rest := hread
  rw [start_eq servers s h, hparse]

theorem Calm.disturbed_failed {servers : InterfaceDefinition} {s : Side} (h : s.Calm)
    {frame : Frame} {stack : List Frame} (hstack : s.stack = frame :: stack)
    (hdisturbed : Disturbed servers { s with stack } frame) :
    (resume servers { s with stack } frame).history.failed = true := by
  have hstart {operation : ParseOperation} (hframe : frame = .start operation) :
      Ready { s with stack } operation := h.ready (hframe ▸ hstack)
  cases hdisturbed with
  | @refused operation e reads =>
    have hparse : operation.onResult.parserType.parse (operation.seen ++ s.buffer) = .fail e :=
      reads
    rw [resume, start_eq servers _ (hstart rfl).sound, hparse]
    cases e with
    | invalidInput => exact (call_onward _ _ _ _).failed rfl
    | lengthError => rfl
  | @messageType operation n rest kind reads response request =>
    rw [resume, start_eq_complete servers (hstart rfl).sound reads, kind]
    exact callWith_failed response request
  | @stray operation id rest kind reads find =>
    rw [resume, start_eq_complete servers (hstart rfl).sound reads, kind]
    exact onResponse_failed find
  | @unknown operation id name rest kind reads find =>
    rw [resume, start_eq_complete servers (hstart rfl).sound reads, kind]
    exact onRequestHeader_failed find
  | @writeError handler handlers ec stack' ec_ne top =>
    exact continueWriter_failed ec_ne top

theorem Calm.upset_failed {clients servers : InterfaceDefinition} {s s' : Side} {event : Event}
    (h : s.Calm) (hstep : step clients servers s event = some s')
    (hupset : Upset servers s event) : s'.history.failed = true := by
  obtain ⟨-, htaken⟩ := taken_of_step hstep
  cases hupset with
  | resume hstack hdisturbed =>
    cases htaken with
    | resume hstack' =>
      obtain ⟨rfl, rfl⟩ := List.cons.inj (hstack.symm.trans hstack')
      exact h.disturbed_failed hstack hdisturbed
  | readError =>
    cases htaken with
    | readError => exact (call_onward _ _ _ _).failed rfl
  | @answerError index ec =>
    cases htaken with
    | answer runs invoked unanswered admitted =>
      have hec : ec ≠ .success := by simpa [admissible] using admitted
      exact Bool.or_eq_true_iff.mpr (.inr (by simp [hec]))
  | @answerRefused index invocation v invoked refused =>
    cases htaken with
    | answer runs invoked' =>
      obtain rfl := Option.some.inj (invoked.symm.trans invoked')
      have hneg : ¬ (responseMessage invocation.id invocation.method v).ok = true := by
        rw [refused]
        exact Bool.false_ne_true
      unfold answer
      dsimp only
      rw [if_neg hneg]
      exact Bool.or_eq_true_iff.mpr (.inr rfl)

end Warpcoil.Side
