import Warpcoil.Calm

/-! Only one parse operation works on the input at a time, whatever goes wrong. -/
namespace Warpcoil
open Transition

/-- The assertions of `lock_input` and `unlock_input`. -/
def Assertion.isLock : Assertion → Bool
  | .lockInput | .unlockInput => true
  | .waitForResponse | .waitForRequest | .unlockBegin | .beginParseMessage | .requestWaiting
  | .requestHeader | .requestBegin | .responseWaiting | .responseHeader | .responseBegin
  | .registryHeader | .registryResult => false

/-- What decides who may parse. -/
structure Gate where
  active : List ParseOperation
  parsingHeader : Bool
  locked : Bool
  violated : List Assertion

namespace Side

def gate (s : Side) : Gate :=
  ⟨s.active, s.parsingHeader, s.locked, s.history.violated.filter Assertion.isLock⟩

/-- Nothing is parsed, or one operation whose kind the flags tell. An error can leave one of
the flags behind. -/
structure Exclusive (s : Side) : Prop where
  violated : s.gate.violated = []
  active : s.gate.active = [] ∧ (s.gate.parsingHeader && s.gate.locked) = false ∨
    ∃ operation : ParseOperation, s.gate.active = [operation] ∧
      s.gate.parsingHeader = operation.onResult.isHeader ∧
      s.gate.locked = !operation.onResult.isHeader

/-- An operation of this kind has just stopped. -/
structure Opened (s : Side) (k : Continuation) : Prop where
  violated : s.gate.violated = []
  active : s.gate.active = []
  parsingHeader : s.gate.parsingHeader = k.isHeader
  locked : s.gate.locked = !k.isHeader

theorem Exclusive.of_gate {s t : Side} (h : s.Exclusive) (hgate : t.gate = s.gate) :
    t.Exclusive :=
  ⟨hgate ▸ h.violated, hgate ▸ h.active⟩

theorem Opened.of_gate {s t : Side} {k : Continuation} (h : s.Opened k)
    (hgate : t.gate = s.gate) : t.Opened k :=
  ⟨hgate ▸ h.violated, hgate ▸ h.active, hgate ▸ h.parsingHeader, hgate ▸ h.locked⟩

theorem Opened.exclusive {s : Side} {k : Continuation} (h : s.Opened k) : s.Exclusive :=
  ⟨h.violated, .inl ⟨h.active, by rw [h.parsingHeader, h.locked]; cases k.isHeader <;> rfl⟩⟩

/-- A side whose flags are both clear parses nothing. -/
theorem Exclusive.active_nil {s : Side} (h : s.Exclusive) (hheader : s.parsingHeader = false)
    (hlocked : s.locked = false) : s.active = [] := by
  obtain ⟨hactive, -⟩ | ⟨operation, -, hkind, hkind'⟩ := h.active
  · exact hactive
  · simp only [gate, hheader, hlocked] at hkind hkind'
    rw [← hkind] at hkind'
    cases hkind'

/-- The flags are clear while a header is handed over. -/
structure Cleared (s : Side) : Prop where
  violated : s.gate.violated = []
  active : s.gate.active = []
  parsingHeader : s.gate.parsingHeader = false
  locked : s.gate.locked = false

theorem Cleared.of_gate {s t : Side} (h : s.Cleared) (hgate : t.gate = s.gate) :
    t.Cleared :=
  ⟨hgate ▸ h.violated, hgate ▸ h.active, hgate ▸ h.parsingHeader, hgate ▸ h.locked⟩

theorem Cleared.exclusive {s : Side} (h : s.Cleared) : s.Exclusive :=
  ⟨h.violated, .inl ⟨h.active, by rw [h.parsingHeader]; rfl⟩⟩

theorem Opened.cleared {s t : Side} {k : Continuation} (h : s.Opened k)
    (hkind : k.isHeader = true) (ht : t.gate = { s.gate with parsingHeader := false }) :
    t.Cleared := by
  refine ⟨?_, ?_, ?_, ?_⟩
  · exact (congrArg Gate.violated ht).trans h.violated
  · exact (congrArg Gate.active ht).trans h.active
  · exact congrArg Gate.parsingHeader ht
  · have := (congrArg Gate.locked ht).trans h.locked
    rwa [hkind] at this

theorem assert_gate (s : Side) {a : Assertion} (h : a.isLock = false) (c : Bool) :
    (s.assert a c).gate = s.gate := by
  simp only [gate, assert, note]
  congr 1
  cases c with
  | true => rfl
  | false => simp [List.filter_append, h]

theorem push_gate (s : Side) {frames : List Frame} (h : frames.flatMap Frame.operation = []) :
    (s.push frames).gate = s.gate := by
  simp only [gate, active, push, List.flatMap_append, h, List.nil_append]

/-- An exception takes what has not been started with it. -/
theorem Exclusive.throw {s : Side} (h : s.Exclusive) (e : Exception) : (s.throw e).Exclusive := by
  refine ⟨h.violated, ?_⟩
  obtain ⟨hactive, hflags⟩ | ⟨operation, hactive, hheader, hlocked⟩ := h.active
  · exact .inl ⟨(List.append_eq_nil_iff.mp hactive).2, hflags⟩
  · change s.reads = [] ∧ _ ∨ ∃ operation, s.reads = [operation] ∧ _
    change s.stack.flatMap Frame.operation ++ s.reads = [operation] at hactive
    rcases List.append_eq_singleton_iff.mp hactive with ⟨-, hreads⟩ | ⟨-, hreads⟩
    · exact .inr ⟨operation, hreads, hheader, hlocked⟩
    · refine .inl ⟨hreads, ?_⟩
      change (s.gate.parsingHeader && s.gate.locked) = false
      rw [hheader, hlocked]
      cases operation.onResult.isHeader <;> rfl

theorem push_start_exclusive {s : Side} {k : Continuation} (h : s.Opened k)
    {operation : ParseOperation} (hkind : operation.onResult.isHeader = k.isHeader) :
    (s.push [.start operation]).Exclusive := by
  refine ⟨h.violated, .inr ⟨operation, ?_, ?_, ?_⟩⟩
  · change [operation] ++ s.stack.flatMap Frame.operation ++ s.reads = [operation]
    rw [List.append_assoc]
    exact congrArg ([operation] ++ ·) h.active
  · exact h.parsingHeader.trans hkind.symm
  · exact h.locked.trans (congrArg (! ·) hkind.symm)

theorem beginParseValue_exclusive {s : Side} {k k' : Continuation} (h : s.Opened k)
    (hkind : k'.isHeader = k.isHeader) : (s.beginParseValue k').Exclusive :=
  push_start_exclusive h hkind

theorem callBeginParseMessage_exclusive {s : Side} (h : s.Exclusive)
    (hheader : s.parsingHeader = false) : s.callBeginParseMessage.Exclusive := by
  unfold callBeginParseMessage
  dsimp only
  split_ifs with hbegin hlocked
  · exact h.of_gate (assert_gate s rfl _)
  · have hgate := assert_gate s (a := .beginParseMessage) rfl
      (!s.parsingHeader && (s.waitingForResponse || s.waitingForRequest.isSome))
    have hfalse : s.locked = false := Bool.eq_false_iff.mpr hlocked
    apply beginParseValue_exclusive (k := .messageType)
    · exact ⟨(congrArg Gate.violated hgate).trans h.violated, h.active_nil hheader hfalse, rfl,
        hfalse⟩
    · rfl
  · exact h.throw _

theorem waitForResponse_exclusive {s : Side} (h : s.Exclusive) :
    s.waitForResponse.Exclusive := by
  have hgate := assert_gate s (a := .waitForResponse) rfl (!s.waitingForResponse)
  unfold waitForResponse
  dsimp only
  split_ifs with hheader
  · exact h.of_gate hgate
  · apply callBeginParseMessage_exclusive
    · exact h.of_gate hgate
    · exact Bool.eq_false_iff.mpr hheader

theorem waitForRequest_exclusive {s : Side} (h : s.Exclusive) (handler : Nat) :
    (s.waitForRequest handler).Exclusive := by
  have hgate := assert_gate s (a := .waitForRequest) rfl s.waitingForRequest.isNone
  unfold waitForRequest
  dsimp only
  split_ifs with hheader
  · exact h.of_gate hgate
  · apply callBeginParseMessage_exclusive
    · exact h.of_gate hgate
    · exact Bool.eq_false_iff.mpr hheader

theorem parseHeader_exclusive {s : Side} (h : s.Exclusive) : s.parseHeader.Exclusive :=
  waitForResponse_exclusive (h.of_gate rfl)

/-- `lock_input` and the payload that is parsed under it. -/
theorem lockInput_exclusive {s : Side} {k : Continuation} (h : s.Cleared)
    (hkind : k.isHeader = false) : (s.lockInput.beginParseValue k).Exclusive := by
  rw [lockInput_eq h.parsingHeader h.locked]
  apply beginParseValue_exclusive (k := k)
  · exact ⟨h.violated, h.active, h.parsingHeader.trans hkind.symm, (congrArg (! ·) hkind).symm⟩
  · rfl

/-- `unlock_input` at the end of a payload. -/
theorem unlockInput_exclusive {s : Side} {k : Continuation} (h : s.Opened k)
    (hkind : k.isHeader = false) : s.unlockInput.Exclusive := by
  have hheader : s.parsingHeader = false := h.parsingHeader.trans hkind
  have hlocked : s.locked = true := h.locked.trans (congrArg (! ·) hkind)
  have hassert : s.assert .unlockInput (!s.parsingHeader && s.locked) = s :=
    assert_of s _ (by rw [hheader, hlocked]; rfl)
  have hunlocked : Exclusive { s with locked := false } :=
    ⟨h.violated, .inl ⟨h.active, Bool.and_false _⟩⟩
  unfold unlockInput
  rw [hassert]
  dsimp only
  split_ifs
  · exact hunlocked
  · apply callBeginParseMessage_exclusive
    · exact hunlocked.of_gate (assert_gate _ rfl _)
    · exact hheader

theorem registryOnError_gate (s : Side) (ec : ErrorCode) :
    (s.registryOnError ec).gate = s.gate :=
  (push_gate _ rfl).trans rfl

theorem complete_gate (s : Side) (handler : Nat) (ec : ErrorCode) :
    (s.complete handler ec).gate = s.gate :=
  (push_gate _ rfl).trans rfl

theorem callResultHandler_gate (s : Side) (handler : Nat) (result : Except ErrorCode Value) :
    (s.callResultHandler handler result).gate = s.gate :=
  (push_gate _ rfl).trans rfl

theorem onHeader_error_gate (s : Side) (ec : ErrorCode) :
    (s.onHeader (.error ec)).gate = s.gate :=
  (registryOnError_gate _ ec).trans (assert_gate s rfl _)

theorem onError_gate (s : Side) (ec : ErrorCode) : (s.onError ec).gate = s.gate := by
  unfold onError
  dsimp only
  split_ifs
  · exact (onHeader_error_gate _ ec).trans ((push_gate _ rfl).trans rfl)
  · exact (push_gate _ rfl).trans rfl

theorem onMessageType_exclusive {s : Side} (h : s.Opened .messageType)
    (type : Except ErrorCode Value) : (s.onMessageType type).Exclusive := by
  unfold onMessageType
  split
  · exact h.exclusive.of_gate (onError_gate _ _)
  · split_ifs
    · exact beginParseValue_exclusive h rfl
    · exact h.exclusive.of_gate (onError_gate _ _)
    · exact beginParseValue_exclusive h rfl
    · exact h.exclusive.of_gate (onError_gate _ _)
    · exact h.exclusive.of_gate (onError_gate _ _)

theorem onHeader_exclusive {s : Side} (h : s.Cleared) (request : Except ErrorCode RequestId) :
    (s.onHeader request).Exclusive := by
  have hassert := h.of_gate (assert_gate s (a := .registryHeader) rfl
    (s.state = .parsingHeader))
  unfold onHeader
  dsimp only
  split
  · exact hassert.exclusive.of_gate (registryOnError_gate _ _)
  · split
    · exact hassert.exclusive.of_gate ((registryOnError_gate _ _).trans rfl)
    · apply lockInput_exclusive
      · exact hassert.of_gate rfl
      · rfl

theorem onRequest_exclusive {servers : InterfaceDefinition} {s : Side} (h : s.Cleared)
    (handler : Nat) (request : Except ErrorCode (RequestId × Identifier)) :
    (onRequest servers s handler request).Exclusive := by
  unfold onRequest
  split
  · exact h.exclusive.of_gate (complete_gate _ _ _)
  · split
    · exact h.exclusive.throw _
    · exact lockInput_exclusive h rfl

theorem onResponse_exclusive {s : Side} (h : s.Opened .response)
    (request : Except ErrorCode Value) : (s.onResponse request).Exclusive := by
  have hwaiting := assert_gate s (a := .responseWaiting) rfl s.waitingForResponse
  unfold onResponse
  dsimp only
  split
  · exact h.exclusive.of_gate ((onError_gate _ _).trans hwaiting)
  · have hheader := (assert_gate (s.assert .responseWaiting s.waitingForResponse)
      (a := .responseHeader) rfl s.parsingHeader).trans hwaiting
    split_ifs
    · apply onHeader_exclusive
      apply (h.of_gate hheader).cleared rfl
      exact (push_gate _ rfl).trans rfl
    · exact (h.exclusive.of_gate hheader).throw _
  · exact h.exclusive.of_gate hwaiting

theorem onRequestHeader_exclusive (servers : InterfaceDefinition) {s : Side}
    (h : s.Opened .request) (request : Except ErrorCode Value) :
    (onRequestHeader servers s request).Exclusive := by
  have hwaiting := assert_gate s (a := .requestWaiting) rfl s.waitingForRequest.isSome
  unfold onRequestHeader
  dsimp only
  split
  · exact h.exclusive.of_gate ((onError_gate _ _).trans hwaiting)
  · have hheader := (assert_gate (s.assert .requestWaiting s.waitingForRequest.isSome)
      (a := .requestHeader) rfl s.parsingHeader).trans hwaiting
    split
    · apply onRequest_exclusive
      apply (h.of_gate hheader).cleared rfl
      exact (push_gate _ rfl).trans rfl
    · exact (h.exclusive.of_gate hheader).throw _
  · exact h.exclusive.of_gate hwaiting

theorem onResult_exclusive {s : Side} {expected : ExpectedResponse}
    (h : s.Opened (.result expected)) (handler : Nat) (result : Except ErrorCode Value) :
    (s.onResult handler result).Exclusive := by
  have hassert := assert_gate s (a := .registryResult) rfl (s.state = .parsingResult)
  unfold onResult
  dsimp only
  split
  · exact h.exclusive.of_gate ((registryOnError_gate _ _).trans hassert)
  · apply unlockInput_exclusive (k := .result expected)
    · exact h.of_gate ((push_gate _ rfl).trans hassert)
    · rfl

/-- The handler of an operation that has just stopped. -/
theorem call_exclusive (servers : InterfaceDefinition) {s : Side} {k : Continuation}
    (h : s.Opened k) (result : Except ErrorCode Value) : (call servers s k result).Exclusive := by
  cases k with
  | messageType => exact onMessageType_exclusive h result
  | response => exact onResponse_exclusive h result
  | request => exact onRequestHeader_exclusive servers h result
  | result expected => exact onResult_exclusive h expected.handler result
  | argument id name m handler =>
    exact unlockInput_exclusive (h.of_gate (push_gate _ rfl)) rfl

theorem callWith_exclusive (servers : InterfaceDefinition) {s : Side} {k : Continuation}
    (h : s.Opened k) (v : Value) (rest : List UInt8) :
    (callWith servers s k v rest).Exclusive := by
  unfold callWith
  apply call_exclusive
  exact h.of_gate rfl

theorem continueRequest_exclusive {s : Side} (h : s.Exclusive) (continue_ : Bool) :
    (s.continueRequest continue_).Exclusive := by
  unfold continueRequest
  split_ifs with hguard
  · simp only [Bool.and_eq_true, Bool.not_eq_true'] at hguard
    exact callBeginParseMessage_exclusive (h.of_gate (assert_gate s rfl _)) hguard.2
  · exact h

theorem continueResponse_exclusive {s : Side} (h : s.Exclusive) (continue_ : Bool) :
    (s.continueResponse continue_).Exclusive := by
  unfold continueResponse
  split_ifs with hguard
  · simp only [Bool.and_eq_true, Bool.not_eq_true'] at hguard
    exact callBeginParseMessage_exclusive (h.of_gate (assert_gate s rfl _)) hguard.2
  · exact h

theorem continueError_exclusive {servers : InterfaceDefinition} {s : Side} (h : s.Exclusive)
    (isWaitingForRequest : Bool) (ec : ErrorCode) :
    (continueError servers s isWaitingForRequest ec).Exclusive := by
  unfold continueError
  split_ifs
  · split
    · exact h.of_gate ((complete_gate _ _ _).trans rfl)
    · exact h.throw _
  · exact h

theorem continueResult_exclusive {s : Side} (h : s.Exclusive) (handler : Nat) (v : Value) :
    (s.continueResult handler v).Exclusive := by
  unfold continueResult
  dsimp only
  split_ifs
  · exact h.of_gate (push_gate _ rfl)
  · exact parseHeader_exclusive (h.of_gate (push_gate _ rfl))

theorem continueWriter_gate (s : Side) : s.continueWriter.gate = s.gate := by
  unfold continueWriter
  dsimp only
  split
  · rfl
  · have hpush (output : BufferedWriter Sent) :
        (Side.push { s with output } [.writer]).gate = s.gate := (push_gate _ rfl).trans rfl
    split
    · unfold onSent
      split
      · split_ifs
        · exact hpush _
        · exact (registryOnError_gate _ _).trans (hpush _)
      · exact (complete_gate _ _ _).trans (hpush _)
    · exact hpush _

theorem expectResponse_exclusive {s : Side} (h : s.Exclusive) (id : RequestId)
    (expected : ExpectedResponse) : (s.expectResponse id expected).Exclusive := by
  unfold expectResponse
  dsimp only
  split
  · exact parseHeader_exclusive (h.of_gate rfl)
  · exact h.of_gate rfl
  · exact h.of_gate rfl

variable [Platform]

theorem start_exclusive (servers : InterfaceDefinition) {s : Side} {operation : ParseOperation}
    (h : s.Opened operation.onResult) : (start servers s operation).Exclusive := by
  unfold start
  split
  · exact callWith_exclusive servers h _ _
  · split
    · exact callWith_exclusive servers h _ _
    · next parser hread =>
      have hactive := List.append_eq_nil_iff.mp h.active
      refine ⟨h.violated, .inr ⟨{ operation with parser, seen := operation.seen ++ s.buffer },
        ?_, h.parsingHeader, h.locked⟩⟩
      change s.stack.flatMap Frame.operation ++ (s.reads ++ _) = _
      rw [hactive.1, hactive.2]
      rfl
    · apply call_exclusive
      exact h.of_gate rfl
    · exact h.exclusive.throw _

omit [Platform] in
/-- What is left when the only operation has been taken out. -/
theorem Exclusive.opened {s t : Side} (h : s.Exclusive) {operation : ParseOperation}
    (hactive : s.active.Perm (operation :: t.active))
    (hgate : { t.gate with active := s.active } = s.gate) :
    t.Opened operation.onResult := by
  obtain ⟨hnil, -⟩ | ⟨other, hother, hheader, hlocked⟩ := h.active
  · rw [show s.active = [] from hnil] at hactive
    exact absurd hactive.length_eq (by simp)
  · rw [show s.active = [other] from hother, List.singleton_perm] at hactive
    obtain ⟨rfl, hnil⟩ := List.cons.inj hactive
    refine ⟨?_, hnil.symm, ?_, ?_⟩
    · exact (congrArg Gate.violated hgate).trans h.violated
    · exact (congrArg Gate.parsingHeader hgate).trans hheader
    · exact (congrArg Gate.locked hgate).trans hlocked

omit [Platform] in
theorem active_perm {s t : Side} {index : Nat} {operation : ParseOperation}
    (hstack : s.stack = []) (hreads : s.reads[index]? = some operation)
    (ht : t.active = s.stack.flatMap Frame.operation ++ s.reads.eraseIdx index) :
    s.active.Perm (operation :: t.active) := by
  obtain ⟨hlt, rfl⟩ := List.getElem?_eq_some_iff.mp hreads
  rw [ht, active, hstack]
  exact (List.getElem_cons_eraseIdx_perm hlt).symm

omit [Platform] in
theorem active_start {s : Side} {operation : ParseOperation} {stack : List Frame}
    (hstack : s.stack = .start operation :: stack) :
    s.active.Perm (operation :: active { s with stack }) := by
  simp only [active, hstack]
  exact List.Perm.refl _

theorem resume_exclusive (servers : InterfaceDefinition) {s : Side} {frame : Frame}
    {stack : List Frame} (h : s.Exclusive) (hstack : s.stack = frame :: stack) :
    (resume servers { s with stack } frame).Exclusive := by
  have hpop (hnone : frame.operation = []) : Exclusive { s with stack } := by
    apply h.of_gate
    simp only [gate, active, hstack, List.flatMap_cons, hnone, List.nil_append]
  cases frame with
  | start operation =>
    apply start_exclusive
    exact h.opened (active_start hstack) rfl
  | requestContinue continue_ => exact continueRequest_exclusive (hpop rfl) _
  | responseContinue continue_ => exact continueResponse_exclusive (hpop rfl) _
  | errorContinue isWaitingForRequest ec => exact continueError_exclusive (hpop rfl) _ _
  | errors handlers ec =>
    cases handlers with
    | nil => exact hpop rfl
    | cons handler handlers =>
      exact (hpop rfl).of_gate ((callResultHandler_gate _ _ _).trans (push_gate _ rfl))
  | resultUnlocked handler v => exact continueResult_exclusive (hpop rfl) _ _
  | resultReady handler v => exact (hpop rfl).of_gate (callResultHandler_gate _ _ _)
  | argumentUnlocked id name m handler argument =>
    cases argument with
    | error ec => exact (hpop rfl).of_gate (complete_gate _ _ _)
    | ok v => exact (hpop rfl).of_gate ((push_gate _ rfl).trans rfl)
  | writer => exact (hpop rfl).of_gate (continueWriter_gate _)
  | user => exact hpop rfl

theorem request_exclusive {s : Side} (h : s.Exclusive) (name : Identifier) (m : Method)
    (arguments : List Value) : (s.request name m arguments).Exclusive := by
  unfold request
  dsimp only
  split_ifs
  · apply expectResponse_exclusive
    exact h.of_gate rfl
  · apply Exclusive.of_gate (s := s)
    · exact h
    · exact (callResultHandler_gate _ _ _).trans rfl

theorem answer_gate (s : Side) (index : Nat) (invocation : Invocation)
    (result : Except ErrorCode Value) : (s.answer index invocation result).gate = s.gate := by
  unfold answer
  dsimp only
  split
  · exact (complete_gate _ _ _).trans rfl
  · split_ifs
    · rfl
    · exact (complete_gate _ _ _).trans rfl

theorem exclusive_step (clients servers : InterfaceDefinition) :
    Preserved (step clients servers) Exclusive := by
  intro s event s' h hstep
  obtain ⟨-, htaken⟩ := taken_of_step hstep
  cases htaken with
  | call => exact request_exclusive h _ _ _
  | serve =>
    apply waitForRequest_exclusive
    exact h.of_gate rfl
  | answer => exact h.of_gate (answer_gate _ _ _ _)
  | «return» hstack =>
    apply h.of_gate
    simp only [gate, active, hstack, List.flatMap_cons, Frame.operation, List.nil_append]
  | resume hstack => exact resume_exclusive servers h hstack
  | @read index bytes operation hstack hreads =>
    apply push_start_exclusive (k := operation.onResult)
    · exact h.opened (active_perm hstack hreads rfl) rfl
    · rfl
  | readError hstack hreads =>
    apply call_exclusive
    exact h.opened (active_perm hstack hreads rfl) rfl
  | written => exact h.of_gate ((push_gate _ rfl).trans rfl)

omit [Platform] in
theorem exclusive_initial : ({} : Side).Exclusive :=
  ⟨rfl, .inl ⟨rfl, rfl⟩⟩

omit [Platform] in
theorem Exclusive.length_le {s : Side} (h : s.Exclusive) :
    s.active.length ≤ 1 ∧ s.reads.length ≤ 1 := by
  have hlength : s.active.length ≤ 1 := by
    obtain ⟨hactive, -⟩ | ⟨operation, hactive, -⟩ := h.active
    · rw [show s.active = [] from hactive]
      exact Nat.zero_le 1
    · rw [show s.active = [operation] from hactive]
      exact Nat.le_refl 1
  refine ⟨hlength, ?_⟩
  rw [Side.active, List.length_append] at hlength
  omega

omit [Platform] in
theorem Exclusive.kind {s : Side} (h : s.Exclusive) {operation : ParseOperation}
    (hmem : operation ∈ s.active) :
    s.parsingHeader = operation.onResult.isHeader ∧
      s.locked = !operation.onResult.isHeader := by
  obtain ⟨hactive, -⟩ | ⟨other, hactive, hheader, hlocked⟩ := h.active
  · rw [show s.active = [] from hactive] at hmem
    cases hmem
  · rw [show s.active = [other] from hactive, List.mem_singleton] at hmem
    rw [hmem]
    exact ⟨hheader, hlocked⟩

omit [Platform] in
theorem Exclusive.holds {s : Side} (h : s.Exclusive) {a : Assertion} (ha : a.isLock = true) :
    a ∉ s.history.violated := by
  intro hmem
  have hfilter : a ∈ s.gate.violated := List.mem_filter.mpr ⟨hmem, ha⟩
  rw [h.violated] at hfilter
  cases hfilter

/-- In every run at most one parse operation is active: a header while `parsing_header` is set
or a payload while the input is locked. So `async_read_some` is not called while a read is
outstanding, and the assertions of `lock_input` and `unlock_input` hold. -/
theorem one_parser_at_a_time (clients servers : InterfaceDefinition) (events : List Event)
    (s : Side) (hrun : run (step clients servers) {} events = some s) :
    s.active.length ≤ 1 ∧ s.reads.length ≤ 1 ∧
      (∀ operation ∈ s.active,
        s.parsingHeader = operation.onResult.isHeader ∧
          s.locked = !operation.onResult.isHeader) ∧
      (∀ event s', step clients servers s event = some s' →
        s.reads.length < s'.reads.length → s.reads = []) ∧
      .lockInput ∉ s.history.violated ∧ .unlockInput ∉ s.history.violated := by
  have h := (exclusive_step clients servers).run exclusive_initial hrun
  refine ⟨h.length_le.1, h.length_le.2, fun _ => h.kind, ?_, h.holds rfl, h.holds rfl⟩
  intro event s' hstep hlt
  have h' := exclusive_step clients servers s event s' h hstep
  have hle := h'.length_le.2
  exact List.length_eq_zero_iff.mp (by omega)

omit [Platform] in
/-- The arguments of a request are parsed, with the input locked, while a call waits for its
response and another one is made. -/
theorem one_parser_at_a_time_argument :
    letI := Platform.reference
    let events : List Event := [.call [0x66] [.integer 7], .resume, .serve,
      .read 0 [0, 0, 0, 0, 0, 0, 0, 0, 5, 1, 0x66], .resume, .resume, .resume, .resume,
      .call [0x66] [.integer 9]]
    ∃ s, run (step exampleInterface exampleInterface) {} events = some s ∧
      s.locked = true ∧ s.expectedResponses.length = 2 ∧ s.active.length ≤ 1 ∧
      s.reads.length ≤ 1 ∧ .lockInput ∉ s.history.violated ∧
      .unlockInput ∉ s.history.violated := by
  letI := Platform.reference
  intro events
  have hsome : (run (step exampleInterface exampleInterface) {} events).any (fun s =>
      s.locked && decide (s.expectedResponses.length = 2)) = true := by decide +kernel
  obtain ⟨s, hrun, hs⟩ := (Option.any_eq_true _ _).mp hsome
  rw [Bool.and_eq_true, decide_eq_true_eq] at hs
  obtain ⟨hactive, hreads, -, -, hasserts⟩ :=
    one_parser_at_a_time exampleInterface exampleInterface events s hrun
  exact ⟨s, hrun, hs.1, hs.2, hactive, hreads, hasserts⟩

end Side

end Warpcoil
