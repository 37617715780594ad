import Warpcoil.Exclusive

/-! A client that is alone with its splitter: the registry's state and the splitter's flags. -/
namespace Warpcoil
open Incremental Transition

def Continuation.isClient : Continuation → Bool
  | .messageType | .response | .result _ => true
  | .request | .argument _ _ _ _ => false

/-- The frames at a side that never serves. -/
def Frame.isClient : Frame → Bool
  | .start operation => operation.onResult.isClient
  | .errorContinue isWaitingForRequest _ => !isWaitingForRequest
  | .responseContinue _ | .errors _ _ | .resultUnlocked _ _ | .resultReady _ _ | .writer
  | .user => true
  | .requestContinue _ | .argumentUnlocked _ _ _ _ _ => false

/-- The assertions on the state of the registry and on its waiting. -/
def Assertion.isRegistry : Assertion → Bool
  | .waitForResponse | .registryHeader | .registryResult => true
  | .waitForRequest | .lockInput | .unlockInput | .unlockBegin | .beginParseMessage
  | .requestWaiting | .requestHeader | .requestBegin | .responseWaiting | .responseHeader
  | .responseBegin => false

namespace Side

/-- What the registry and the splitter know of each other. -/
structure Pace where
  state : ResponseState
  waitingForResponse : Bool
  waitingForRequest : Option Nat
  locked : Bool
  active : List ParseOperation
  results : Nat
  client : Bool
  violated : List Assertion

def pace (s : Side) : Pace :=
  ⟨s.state, s.waitingForResponse, s.waitingForRequest, s.locked, s.active, s.results,
    s.stack.all Frame.isClient && s.reads.all fun operation => operation.onResult.isClient,
    s.history.violated.filter Assertion.isRegistry⟩

structure Aligned (s : Side) (state : ResponseState) (response : Bool) (results : Nat) :
    Prop where
  state : s.pace.state = state
  response : s.pace.waitingForResponse = response
  results : s.pace.results = results
  request : s.pace.waitingForRequest = none
  locked : s.pace.locked = true → ∃ operation ∈ s.pace.active,
    operation.onResult.isHeader = false
  client : s.pace.client = true
  violated : s.pace.violated = []

/-- The registry waits at the splitter in one of its states and has a result in another. -/
inductive Lockstep (s : Side) : Prop
  | notExpecting (h : s.Aligned .notExpectingResponse false 0)
  | header (h : s.Aligned .parsingHeader true 0)
  | result (h : s.Aligned .parsingResult false 1)

variable {s t : Side} {state : ResponseState} {response : Bool} {results : Nat}

theorem Aligned.of_pace (h : s.Aligned state response results) (ht : t.pace = s.pace) :
    t.Aligned state response results := by
  obtain ⟨h1, h2, h3, h4, h5, h6, h7⟩ := h
  rw [← ht] at h1 h2 h3 h4 h5 h6 h7
  exact ⟨h1, h2, h3, h4, h5, h6, h7⟩

/-- What leaves the registry in its state. -/
theorem Lockstep.map (h : s.Lockstep) (ht : ∀ {state : ResponseState} {response : Bool}
    {results : Nat}, s.Aligned state response results → t.Aligned state response results) :
    t.Lockstep := by
  cases h with
  | notExpecting h => exact .notExpecting (ht h)
  | header h => exact .header (ht h)
  | result h => exact .result (ht h)

theorem Lockstep.of_pace (h : s.Lockstep) (ht : t.pace = s.pace) : t.Lockstep :=
  h.map fun h => h.of_pace ht

/-- What holds in each of the three states. -/
theorem Lockstep.aligned (h : s.Lockstep) :
    s.Aligned s.state s.waitingForResponse s.results := by
  cases h with
  | notExpecting h | header h | result h =>
    exact ⟨rfl, rfl, rfl, h.request, h.locked, h.client, h.violated⟩

theorem assert_pace (s : Side) (a : Assertion) {c : Bool} (h : a.isRegistry = false ∨ c = true) :
    (s.assert a c).pace = s.pace := by
  simp only [pace, assert, note]
  congr 1
  cases c with
  | true => rfl
  | false => simpa [List.filter_append] using h

/-- A frame that neither parses nor serves. -/
theorem push_pace (s : Side) {frame : Frame} (hoperation : frame.operation = [])
    (hresults : frame.results = 0) (hclient : frame.isClient = true) :
    (s.push [frame]).pace = s.pace := by
  simp [pace, active, Side.results, push, hoperation, hresults, hclient]

theorem complete_pace (s : Side) (handler : Nat) (ec : ErrorCode) :
    (s.complete handler ec).pace = s.pace :=
  (push_pace _ rfl rfl rfl).trans rfl

theorem callResultHandler_pace (s : Side) (handler : Nat) (result : Except ErrorCode Value) :
    (s.callResultHandler handler result).pace = s.pace :=
  (push_pace _ rfl rfl rfl).trans rfl

theorem registryOnError_lockstep (h : s.Aligned state false 0) (ec : ErrorCode) :
    (s.registryOnError ec).Lockstep := by
  apply Lockstep.notExpecting
  have hpace : (s.registryOnError ec).pace = { s.pace with state := .notExpectingResponse } :=
    (push_pace _ rfl rfl rfl).trans rfl
  refine ⟨?_, ?_, ?_, ?_, ?_, ?_, ?_⟩ <;> rw [hpace]
  · exact h.response
  · exact h.results
  · exact h.request
  · exact h.locked
  · exact h.client
  · exact h.violated

/-- A parse operation of the client is started. -/
theorem push_start_aligned {operation : ParseOperation} (h : s.Aligned state response results)
    (hclient : operation.onResult.isClient = true) :
    (s.push [.start operation]).Aligned state response
      (operation.onResult.results + results) := by
  refine ⟨h.state, h.response, ?_, h.request, ?_, ?_, h.violated⟩
  · have hsum := h.results
    simp only [pace, Side.results] at hsum
    simp only [pace, Side.results, push, List.singleton_append, List.map_cons, List.sum_cons,
      Frame.results]
    omega
  · intro hlocked
    obtain ⟨other, hmem, hkind⟩ := h.locked hlocked
    exact ⟨other, List.mem_cons_of_mem _ hmem, hkind⟩
  · have hall := h.client
    simp only [pace, Bool.and_eq_true] at hall ⊢
    exact ⟨by simp [push, Frame.isClient, hclient, hall.1], hall.2⟩

theorem beginParseValue_aligned {k : Continuation} (h : s.Aligned state response results)
    (hclient : k.isClient = true) :
    (s.beginParseValue k).Aligned state response (k.results + results) :=
  push_start_aligned h (show k.operation.onResult.isClient = true from hclient)

theorem callBeginParseMessage_aligned (h : s.Aligned state response results)
    (hbegin : s.beginParseMessage = true) :
    s.callBeginParseMessage.Aligned state response results := by
  have hassert := assert_pace s .beginParseMessage
    (c := !s.parsingHeader && (s.waitingForResponse || s.waitingForRequest.isSome)) (.inl rfl)
  unfold callBeginParseMessage
  rw [if_pos hbegin]
  dsimp only
  split_ifs
  · exact h.of_pace hassert
  · have hbegun := beginParseValue_aligned (k := .messageType)
      (h.of_pace (t := { s.assert .beginParseMessage _ with
        beginParseMessage := false, parsingHeader := true }) hassert) rfl
    rwa [show Continuation.messageType.results + results = results from Nat.zero_add _] at hbegun

/-- `wait_for_response` of a registry that does not wait yet. -/
theorem waitForResponse_aligned (h : s.Aligned state false results) :
    s.waitForResponse.Aligned state true results := by
  have hassert : (s.assert .waitForResponse !s.waitingForResponse).pace = s.pace :=
    assert_pace s _ (.inr (congrArg (! ·) h.response))
  have hwaits : Aligned { s.assert .waitForResponse !s.waitingForResponse with
      waitingForResponse := true, beginParseMessage := true } state true results := by
    have h' := h.of_pace hassert
    exact ⟨h'.state, rfl, h'.results, h'.request, h'.locked, h'.client, h'.violated⟩
  unfold waitForResponse
  dsimp only
  split_ifs
  · exact hwaits
  · exact callBeginParseMessage_aligned hwaits rfl

theorem parseHeader_lockstep (h : s.Aligned state false 0) : s.parseHeader.Lockstep := by
  apply Lockstep.header
  apply waitForResponse_aligned
  exact ⟨rfl, h.response, h.results, h.request, h.locked, h.client, h.violated⟩

/-- The registry locks the input for a result. -/
theorem lockInput_lockstep (h : s.Aligned .parsingResult false 0) (expected : ExpectedResponse) :
    (s.lockInput.beginParseValue (.result expected)).Lockstep := by
  have hassert := h.of_pace (assert_pace s .lockInput
    (c := !s.parsingHeader && !s.locked) (.inl rfl))
  -- the clause on the lock is that of the new operation
  have hunlocked : Aligned { s.assert .lockInput (!s.parsingHeader && !s.locked) with
      locked := false } .parsingResult false 0 :=
    ⟨hassert.state, hassert.response, hassert.results, hassert.request,
      (fun hlocked => by cases hlocked), hassert.client, hassert.violated⟩
  have hbegun := beginParseValue_aligned (k := .result expected) hunlocked rfl
  exact .result ⟨hbegun.state, hbegun.response, hbegun.results, hbegun.request,
    fun _ => ⟨_, List.mem_cons_self .., rfl⟩, hbegun.client, hbegun.violated⟩

/-- The header of a response is handed to the registry. -/
theorem onHeader_lockstep (h : s.Aligned .parsingHeader false 0)
    (request : Except ErrorCode RequestId) : (s.onHeader request).Lockstep := by
  have hassert := h.of_pace (assert_pace s .registryHeader
    (c := decide (s.state = .parsingHeader)) (.inr (decide_eq_true h.state)))
  unfold onHeader
  dsimp only
  split
  · exact registryOnError_lockstep hassert _
  · split
    · refine registryOnError_lockstep (?_ : Aligned _ .notExpectingResponse false 0) _
      exact ⟨rfl, hassert.response, hassert.results, hassert.request, hassert.locked,
        hassert.client, hassert.violated⟩
    · apply lockInput_lockstep
      exact ⟨rfl, hassert.response, hassert.results, hassert.request, hassert.locked,
        hassert.client, hassert.violated⟩

/-- Only a registry that parses a header waits. -/
theorem Lockstep.header_of (h : s.Lockstep) (hresponse : s.waitingForResponse = true) :
    s.Aligned .parsingHeader true 0 := by
  cases h with
  | header h => exact h
  | notExpecting h | result h =>
    rw [show s.waitingForResponse = false from h.response] at hresponse
    cases hresponse

/-- An error takes the waiting response with it. -/
theorem onError_lockstep (h : s.Lockstep) (ec : ErrorCode) : (s.onError ec).Lockstep := by
  have hframe : s.waitingForRequest.isSome = false := by
    rw [show s.waitingForRequest = none from h.aligned.request]
    rfl
  unfold onError
  dsimp only
  rw [hframe]
  split_ifs with hresponse
  · -- only a registry that parses a header waits
    have hheader := h.header_of hresponse
    apply onHeader_lockstep
    apply Aligned.of_pace (s := { s.fail with waitingForResponse := false })
    · exact ⟨hheader.state, rfl, hheader.results, hheader.request, hheader.locked,
        hheader.client, hheader.violated⟩
    · exact push_pace _ rfl rfl rfl
  · exact h.of_pace ((push_pace _ rfl rfl rfl).trans rfl)

theorem onMessageType_lockstep (h : s.Lockstep) (type : Except ErrorCode Value) :
    (s.onMessageType type).Lockstep := by
  unfold onMessageType
  split
  · exact onError_lockstep h _
  · split_ifs with htype hresponse htype' hrequest
    · exact .header (beginParseValue_aligned (k := .response) (h.header_of hresponse) rfl)
    · exact onError_lockstep h _
    · rw [show s.waitingForRequest = none from h.aligned.request] at hrequest
      cases hrequest
    · exact onError_lockstep h _
    · exact onError_lockstep h _

/-- Unless an exception ended the run. -/
def Kept (s : Side) : Prop :=
  s.Lockstep ∨ s.thrown ≠ none ∧ s.pace.violated = []

theorem Aligned.throw (h : s.Aligned state response results) (e : Exception) :
    (s.throw e).Kept :=
  .inr ⟨nofun, h.violated⟩

theorem onResponse_kept (h : s.Lockstep) (request : Except ErrorCode Value) :
    (s.onResponse request).Kept := by
  have hwaiting := h.of_pace (assert_pace s .responseWaiting (c := s.waitingForResponse) (.inl rfl))
  unfold onResponse
  dsimp only
  cases request with
  | error ec => exact .inl (onError_lockstep hwaiting _)
  | ok v =>
    cases v with
    | integer id =>
      have hasserted := hwaiting.of_pace (assert_pace _ .responseHeader
        (c := (s.assert .responseWaiting s.waitingForResponse).parsingHeader) (.inl rfl))
      dsimp only
      split_ifs with hresponse
      · have hheader := hasserted.header_of hresponse
        apply Or.inl
        apply onHeader_lockstep
        refine Aligned.of_pace (s := { Side.assert _ .responseHeader _ with
          parsingHeader := false, waitingForResponse := false }) ?_ (push_pace _ rfl rfl rfl)
        exact ⟨hheader.state, rfl, hheader.results, hheader.request, hheader.locked,
          hheader.client, hheader.violated⟩
      · exact hasserted.aligned.throw _
    | utf8 | vector | variant | tuple | struct => exact .inl hwaiting

/-- The handlers of the header operations. -/
theorem call_kept {servers : InterfaceDefinition} {k : Continuation} (h : s.Lockstep)
    (hheader : k.isHeader = true) (hclient : k.isClient = true)
    (result : Except ErrorCode Value) : (call servers s k result).Kept := by
  cases k with
  | messageType => exact .inl (onMessageType_lockstep h result)
  | response => exact onResponse_kept h result
  | request => cases hclient
  | result expected => cases hheader
  | argument id name m handler => cases hclient

theorem callWith_kept {servers : InterfaceDefinition} {k : Continuation} (h : s.Lockstep)
    (hheader : k.isHeader = true) (hclient : k.isClient = true) (v : Value)
    (rest : List UInt8) : (callWith servers s k v rest).Kept := by
  unfold callWith
  apply call_kept
  · exact h.of_pace rfl
  · exact hheader
  · exact hclient

/-- `unlock_input` finds nobody waiting. -/
theorem unlockInput_lockstep (h : Aligned { s with locked := false } .parsingResult false 1) :
    s.unlockInput.Lockstep := by
  have hassert := assert_pace { s with locked := false } .unlockInput
    (c := !s.parsingHeader && s.locked) (.inl rfl)
  have hresponse : s.waitingForResponse = false := h.response
  have hrequest : s.waitingForRequest = none := h.request
  unfold unlockInput
  dsimp only
  rw [if_pos (by simp [assert, note, hresponse, hrequest])]
  exact .result (h.of_pace hassert)

theorem push_resultUnlocked_aligned (h : s.Aligned state response results) (handler : Nat)
    (v : Value) :
    (s.push [.resultUnlocked handler v]).Aligned state response (1 + results) := by
  refine ⟨h.state, h.response, ?_, h.request, h.locked, h.client, h.violated⟩
  have hsum := h.results
  simp only [pace, Side.results] at hsum
  simp only [pace, Side.results, push, List.singleton_append, List.map_cons, List.sum_cons,
    Frame.results]
  omega

/-- A result has been parsed: the input is unlocked before the registry goes on. -/
theorem onResult_lockstep (h : Aligned { s with locked := false } .parsingResult false 0)
    (handler : Nat) (v : Value) : (s.onResult handler (.ok v)).Lockstep := by
  have hassert := h.of_pace (assert_pace { s with locked := false } .registryResult
    (c := decide (s.state = .parsingResult)) (.inr (decide_eq_true h.state)))
  exact unlockInput_lockstep (push_resultUnlocked_aligned hassert handler v)

theorem continueResponse_lockstep (h : s.Lockstep) (continue_ : Bool) :
    (s.continueResponse continue_).Lockstep := by
  have hrequest : s.waitingForRequest = none := h.aligned.request
  unfold continueResponse
  rw [if_neg (by simp [hrequest])]
  exact h

/-- The registry goes on after a result. -/
theorem continueResult_lockstep (h : s.Aligned .parsingResult false 0) (handler : Nat)
    (v : Value) : (s.continueResult handler v).Lockstep := by
  have hpace : (s.push [.resultReady handler v]).pace = s.pace := push_pace s rfl rfl rfl
  have hpush := h.of_pace hpace
  unfold continueResult
  dsimp only
  split_ifs
  · exact .notExpecting ⟨rfl, hpush.response, hpush.results, hpush.request, hpush.locked,
      hpush.client, hpush.violated⟩
  · exact parseHeader_lockstep hpush

theorem expectResponse_lockstep (h : s.Lockstep) (id : RequestId)
    (expected : ExpectedResponse) : (s.expectResponse id expected).Lockstep := by
  have hinsert := h.of_pace (t := { s with
    expectedResponses := insertExpected id expected s.expectedResponses }) rfl
  unfold expectResponse
  dsimp only
  split
  · next hstate =>
    cases hinsert with
    | notExpecting h => exact parseHeader_lockstep h
    | header h | result h => cases hstate.symm.trans h.state
  · exact hinsert
  · exact hinsert

/-- A send that fails while the registry expects nothing changes nothing. -/
theorem onSent_lockstep (h : s.Lockstep) (handler : Sent) (ec : ErrorCode)
    (hsent : handler = .request → ec ≠ .success → s.state = .notExpectingResponse) :
    (s.onSent handler ec).Lockstep := by
  unfold onSent
  cases handler with
  | request =>
    dsimp only
    split_ifs with hec
    · exact h
    · have hstate := hsent rfl hec
      cases h with
      | notExpecting h => exact registryOnError_lockstep h _
      | header h | result h => cases hstate.symm.trans h.state
  | response handler => exact h.of_pace (complete_pace _ _ _)

/-- What the innermost frame of the writer is about to call. -/
def callsBack (s : Side) : Option (Sent × ErrorCode) :=
  match s.output.stack with
  | .onResult (handler :: _) ec :: _ => some (handler, ec)
  | _ => none

theorem continueWriter_lockstep (h : s.Lockstep)
    (hsent : ∀ ec, s.callsBack = some (.request, ec) → ec ≠ .success →
      s.state = .notExpectingResponse) : s.continueWriter.Lockstep := by
  unfold continueWriter
  cases hproceed : s.output.proceed with
  | none => exact h
  | some output =>
    have hpush := h.of_pace (t := Side.push { s with output } [.writer])
      ((push_pace _ rfl rfl rfl).trans rfl)
    dsimp only
    split
    · next handler handlers ec frames hstack =>
      apply onSent_lockstep hpush
      rintro rfl
      apply hsent
      rw [callsBack, hstack]
    · exact hpush

/-- What is left when an operation on a header has been taken out. -/
theorem Lockstep.without_header (h : s.Lockstep) {operation : ParseOperation}
    (hkind : operation.onResult.isHeader = true)
    (hactive : s.active.Perm (operation :: t.active)) (hresults : s.results = t.results)
    (ht : t.pace = { s.pace with active := t.active, results := t.results }) : t.Lockstep := by
  apply h.map
  intro state response results h
  refine ⟨?_, ?_, hresults.symm.trans h.results, ?_, ?_, ?_, ?_⟩
  · exact (congrArg Pace.state ht).trans h.state
  · exact (congrArg Pace.waitingForResponse ht).trans h.response
  · exact (congrArg Pace.waitingForRequest ht).trans h.request
  · intro hlocked
    obtain ⟨other, hmem, hother⟩ := h.locked ((congrArg Pace.locked ht).symm.trans hlocked)
    rcases List.mem_cons.mp (hactive.mem_iff.mp hmem) with rfl | hrest
    · rw [hkind] at hother; cases hother
    · exact ⟨other, hrest, hother⟩
  · exact (congrArg Pace.client ht).trans h.client
  · exact (congrArg Pace.violated ht).trans h.violated

/-- While a result is parsed the registry has no other one. -/
theorem Lockstep.without_result (h : s.Lockstep) (hresults : s.results = 1 + t.results)
    (ht : t.pace = { s.pace with active := t.active, results := t.results }) :
    Aligned { t with locked := false } .parsingResult false 0 := by
  cases h with
  | notExpecting h | header h =>
    have hzero : s.results = 0 := h.results
    omega
  | result h =>
    have hone : s.results = 1 := h.results
    refine ⟨?_, ?_, ?_, ?_, (fun hlocked => by cases hlocked), ?_, ?_⟩
    · exact (congrArg Pace.state ht).trans h.state
    · exact (congrArg Pace.waitingForResponse ht).trans h.response
    · change t.results = 0
      omega
    · exact (congrArg Pace.waitingForRequest ht).trans h.request
    · exact (congrArg Pace.client ht).trans h.client
    · exact (congrArg Pace.violated ht).trans h.violated

/-- The operation goes on with the next read. -/
theorem read_more_aligned (h : s.Aligned state response results) {operation : ParseOperation}
    (hclient : operation.onResult.isClient = true) :
    Aligned { s with buffer := [], reads := s.reads ++ [operation] } state response
      (results + operation.onResult.results) := by
  refine ⟨h.state, h.response, ?_, h.request, ?_, ?_, h.violated⟩
  · have hsum := h.results
    simp only [pace, Side.results] at hsum
    simp only [pace, Side.results, List.map_append, List.map_cons, List.map_nil,
      List.sum_append, List.sum_cons, List.sum_nil]
    omega
  · intro hlocked
    obtain ⟨other, hmem, hother⟩ := h.locked hlocked
    refine ⟨other, ?_, hother⟩
    simp only [pace, active] at hmem ⊢
    rw [← List.append_assoc]
    exact List.mem_append_left _ hmem
  · have hall := h.client
    simp only [pace, Bool.and_eq_true] at hall ⊢
    exact ⟨hall.1, by simp [hclient, hall.2]⟩

variable [Platform]

/-- An operation on a header takes its next step. -/
theorem start_header (servers : InterfaceDefinition) (h : s.Lockstep)
    {operation : ParseOperation} (hheader : operation.onResult.isHeader = true)
    (hclient : operation.onResult.isClient = true) : (start servers s operation).Kept := by
  have hzero : operation.onResult.results = 0 := by
    cases hk : operation.onResult <;> simp_all [Continuation.results, Continuation.isHeader]
  unfold start
  split
  · exact callWith_kept h hheader hclient _ _
  · split
    · exact callWith_kept h hheader hclient _ _
    · next parser hread =>
      apply Or.inl
      apply h.map
      intro state response results h
      have hmore := read_more_aligned h
        (show ({ operation with parser, seen := operation.seen ++ s.buffer } :
          ParseOperation).onResult.isClient = true from hclient)
      rwa [hzero] at hmore
    · apply call_kept
      · exact h.of_pace rfl
      · exact hheader
      · exact hclient
    · exact h.aligned.throw _

/-- The parser of this operation refuses a byte of the buffer. -/
def refuses (s : Side) (operation : ParseOperation) : Bool :=
  match operation.parser.checkForImmediateCompletion, operation.parser.read s.buffer with
  | none, .fail .invalidInput => true
  | _, _ => false

/-- An operation on a result takes its next step, and no byte is refused. -/
theorem start_result (servers : InterfaceDefinition)
    (h : Aligned { s with locked := false } .parsingResult false 0)
    {operation : ParseOperation} {expected : ExpectedResponse}
    (hresult : operation.onResult = .result expected)
    (haccepted : s.refuses operation = false) :
    (start servers s operation).Kept := by
  have hdone (v : Value) (rest : List UInt8) :
      (callWith servers s (.result expected) v rest).Kept := by
    apply Or.inl
    apply onResult_lockstep
    exact h.of_pace rfl
  unfold start
  rw [hresult]
  split
  · exact hdone _ _
  · next hcheck =>
    split
    · exact hdone _ _
    · next parser hread =>
      have hmore := read_more_aligned h
        (show (⟨parser, .result expected, operation.seen ++ s.buffer⟩ :
          ParseOperation).onResult.isClient = true from rfl)
      refine .inl (.result ⟨hmore.state, hmore.response, hmore.results, hmore.request, ?_,
        hmore.client, hmore.violated⟩)
      intro _
      refine ⟨⟨parser, .result expected, operation.seen ++ s.buffer⟩, ?_, rfl⟩
      simp [pace, active]
    · next hfail =>
      rw [refuses, hcheck, hfail] at haccepted
      cases haccepted
    · exact .inr ⟨Option.some_ne_none _, h.violated⟩

/-- A send that fails is reported while the registry expects nothing, and no result fails to be
read or is refused. -/
def spared (s : Side) : Event → Bool
  | .resume =>
    match s.stack with
    | .writer :: _ =>
      match s.callsBack with
      | some (.request, ec) => decide (ec = .success) || decide (s.state = .notExpectingResponse)
      | _ => true
    | .start operation :: _ => operation.onResult.isHeader || !s.refuses operation
    | _ => true
  | .readError index _ =>
    match s.reads[index]? with
    | some operation => operation.onResult.isHeader
    | none => true
  | .call _ _ | .serve | .answer _ _ | .return | .read _ _ | .written _ _ _ => true

omit [Platform] in
theorem Lockstep.client (h : s.Lockstep) :
    (∀ frame ∈ s.stack, frame.isClient = true) ∧
      ∀ operation ∈ s.reads, operation.onResult.isClient = true := by
  have hall := h.aligned.client
  simp only [pace, Bool.and_eq_true, List.all_eq_true] at hall
  exact hall

omit [Platform] in
/-- A frame that has been taken from the stack. -/
theorem Lockstep.pop (h : s.Lockstep) {frame : Frame} {stack : List Frame}
    (hstack : s.stack = frame :: stack) (hoperation : frame.operation = [])
    (hresults : frame.results = 0) : Lockstep { s with stack } := by
  have hframe := h.client.1 frame (by rw [hstack]; exact List.mem_cons_self ..)
  apply h.of_pace
  simp [pace, active, Side.results, hstack, hoperation, hresults, hframe]

omit [Platform] in
/-- The registry goes on after the result whose frame has been taken. -/
theorem Lockstep.pop_result (h : s.Lockstep) {handler : Nat} {v : Value} {stack : List Frame}
    (hstack : s.stack = .resultUnlocked handler v :: stack) :
    Aligned { s with stack } .parsingResult false 0 := by
  have hsum : s.results = 1 + Side.results { s with stack } := by
    simp [Side.results, hstack, Frame.results, Nat.add_assoc]
  have hactive : active { s with stack } = s.active := by
    simp [active, hstack, Frame.operation]
  have hclient : (pace { s with stack }).client = s.pace.client := by
    simp [pace, hstack, Frame.isClient]
  cases h with
  | notExpecting h | header h =>
    have hzero : s.results = 0 := h.results
    omega
  | result h =>
    have hone : s.results = 1 := h.results
    refine ⟨h.state, h.response, ?_, h.request, ?_, hclient.trans h.client, h.violated⟩
    · change Side.results { s with stack } = 0
      omega
    · change s.locked = true → ∃ operation ∈ active { s with stack }, _
      rw [hactive]
      exact h.locked

theorem resume_kept (servers : InterfaceDefinition) (h : s.Lockstep) {frame : Frame}
    {stack : List Frame} (hstack : s.stack = frame :: stack)
    (hspared : s.spared .resume = true) : (resume servers { s with stack } frame).Kept := by
  have hframe := h.client.1 frame (by rw [hstack]; exact List.mem_cons_self ..)
  cases frame with
  | start operation =>
    have hpace (n : Nat) (hn : operation.onResult.results = n) :
        s.results = n + Side.results { s with stack } := by
      simp [Side.results, hstack, Frame.results, hn, Nat.add_assoc]
    cases hkind : operation.onResult with
    | result expected =>
      refine start_result servers (h.without_result (hpace 1 (by rw [hkind]; rfl)) ?_) hkind ?_
      · simp [pace, hstack, hframe]
      · simp only [spared, hstack, hkind, Continuation.isHeader, Bool.false_or,
          Bool.not_eq_true'] at hspared
        exact hspared
    | messageType | response =>
      have hheader : operation.onResult.isHeader = true := by rw [hkind]; rfl
      refine start_header servers (h.without_header hheader (active_start hstack) ?_ ?_) hheader
        hframe
      · rw [hpace 0 (by rw [hkind]; rfl), Nat.zero_add]
      · simp [pace, hstack, hframe]
    | request | argument =>
      rw [Frame.isClient, hkind] at hframe
      cases hframe
  | requestContinue | argumentUnlocked => cases hframe
  | responseContinue continue_ => exact .inl (continueResponse_lockstep (h.pop hstack rfl rfl) _)
  | errorContinue isWaitingForRequest ec =>
    have hfalse : isWaitingForRequest = false := by simpa [Frame.isClient] using hframe
    rw [hfalse]
    exact .inl (h.pop hstack rfl rfl)
  | errors handlers ec =>
    have hpop := h.pop hstack rfl rfl
    cases handlers with
    | nil => exact .inl hpop
    | cons handler handlers =>
      exact .inl (hpop.of_pace ((callResultHandler_pace _ _ _).trans (push_pace _ rfl rfl rfl)))
  | resultUnlocked handler v =>
    exact .inl (continueResult_lockstep (h.pop_result hstack) handler v)
  | resultReady handler v =>
    exact .inl ((h.pop hstack rfl rfl).of_pace (callResultHandler_pace _ _ _))
  | writer =>
    apply Or.inl
    apply continueWriter_lockstep (h.pop hstack rfl rfl)
    intro ec hcalls hec
    have hback : s.callsBack = some (.request, ec) := hcalls
    simp only [spared, hstack, hback, hec, decide_false, Bool.false_or, decide_eq_true_eq]
      at hspared
    exact hspared
  | user => exact .inl (h.pop hstack rfl rfl)

theorem request_lockstep (h : s.Lockstep) (name : Identifier) (m : Method)
    (arguments : List Value) : (s.request name m arguments).Lockstep := by
  unfold request
  dsimp only
  split_ifs
  · apply expectResponse_lockstep
    exact h.of_pace rfl
  · apply h.of_pace
    exact (callResultHandler_pace _ _ _).trans rfl

theorem answer_pace (s : Side) (index : Nat) (invocation : Invocation)
    (result : Except ErrorCode Value) : (s.answer index invocation result).pace = s.pace := by
  unfold answer
  dsimp only
  split
  · exact (complete_pace _ _ _).trans rfl
  · split_ifs
    · rfl
    · exact (complete_pace _ _ _).trans rfl

omit [Platform] in
/-- There is only one read that can complete. -/
theorem Exclusive.only_read (h : s.Exclusive) {index : Nat} {operation : ParseOperation}
    (hreads : s.reads[index]? = some operation) :
    s.reads = [operation] ∧ index = 0 := by
  have hlength := h.length_le.2
  obtain ⟨hlt, hget⟩ := List.getElem?_eq_some_iff.mp hreads
  have hzero : index = 0 := by omega
  subst hzero
  obtain ⟨other, hother⟩ := List.length_eq_one_iff.mp (by omega : s.reads.length = 1)
  simp only [hother, List.getElem_cons_zero] at hget
  rw [hother, hget]
  exact ⟨rfl, rfl⟩

theorem kept_step {clients servers : InterfaceDefinition} {s s' : Side} {event : Event}
    (h : s.Lockstep) (hexclusive : s.Exclusive) (hclient : event ≠ .serve)
    (hspared : s.spared event = true) (hstep : step clients servers s event = some s') :
    s'.Kept := by
  obtain ⟨-, htaken⟩ := taken_of_step hstep
  cases htaken with
  | call => exact .inl (request_lockstep h _ _ _)
  | serve => exact (hclient rfl).elim
  | answer => exact .inl (h.of_pace (answer_pace _ _ _ _))
  | «return» hstack => exact .inl (h.pop hstack rfl rfl)
  | resume hstack => exact resume_kept servers h hstack hspared
  | @read index bytes operation hstack hreads =>
    obtain ⟨honly, rfl⟩ := hexclusive.only_read hreads
    apply Or.inl
    apply h.of_pace
    simp [pace, active, Side.results, push, note, hstack, honly, Frame.operation,
      Frame.results, Frame.isClient]
  | @readError index ec operation hstack hreads =>
    obtain ⟨honly, rfl⟩ := hexclusive.only_read hreads
    have hmem : operation ∈ s.reads := by rw [honly]; exact List.mem_singleton_self _
    have hoperation := h.client.2 operation hmem
    have hkind : operation.onResult.isHeader = true := by simpa [spared, hreads] using hspared
    have hzero : operation.onResult.results = 0 := by
      cases hk : operation.onResult <;> simp_all [Continuation.results, Continuation.isHeader]
    apply call_kept _ hkind hoperation
    apply h.without_header hkind (active_perm hstack hreads rfl)
    · simp [Side.results, fail, note, hstack, honly, hzero]
    · simp [pace, fail, note, hstack, honly, hoperation]
  | written => exact .inl (h.of_pace ((push_pace _ rfl rfl rfl).trans rfl))

omit [Platform] in
theorem lockstep_initial : ({} : Side).Lockstep :=
  .notExpecting ⟨rfl, rfl, rfl, rfl, nofun, rfl, rfl⟩

theorem kept_run {clients servers : InterfaceDefinition} {events : List Event} {s : Side}
    (hclient : Event.serve ∉ events)
    (hspared : Along (step clients servers) (fun s event => s.spared event = true) {} events)
    (hrun : run (step clients servers) {} events = some s) : s.Exclusive ∧ s.Kept := by
  suffices hall : ∀ (t : Side), t.Exclusive ∧ t.Kept →
      Along (step clients servers) (fun s event => s.spared event = true) t events →
      run (step clients servers) t events = some s → s.Exclusive ∧ s.Kept from
    hall {} ⟨exclusive_initial, .inl lockstep_initial⟩ hspared hrun
  clear hspared hrun
  induction events with
  | nil =>
    intro t ht _ hrun
    cases hrun
    exact ht
  | cons event events ih =>
    intro t ht hspared hrun
    obtain ⟨u, hu, hrest⟩ := run_cons.mp hrun
    apply ih (fun hmem => hclient (List.mem_cons_of_mem _ hmem)) u _ (hspared.2 u hu) hrest
    refine ⟨exclusive_step clients servers t event u ht.1 hu, ?_⟩
    rcases ht.2 with hlockstep | ⟨hthrown, -⟩
    · exact kept_step hlockstep ht.1 (fun h => hclient (h ▸ List.mem_cons_self ..)) hspared.1 hu
    · exact (hthrown (taken_of_step hu).1).elim

omit [Platform] in
/-- Between events the lock is held for the result that is parsed. -/
theorem Lockstep.idle (h : s.Lockstep) (hexclusive : s.Exclusive) (hstack : s.stack = []) :
    (s.state = .parsingHeader ↔ s.waitingForResponse = true) ∧
      (s.state = .parsingResult ↔ s.locked = true) ∧
      (s.state = .notExpectingResponse ↔ s.waitingForResponse = false ∧ s.locked = false) := by
  have hsum : s.results = (s.reads.map fun operation => operation.onResult.results).sum := by
    simp [Side.results, hstack]
  have hactive : s.active = s.reads := by simp [active, hstack]
  -- the only payload of a client is a result
  have hlocked (hlocked : s.locked = true) : s.results ≠ 0 := by
    obtain ⟨operation, hmem, hkind⟩ := h.aligned.locked hlocked
    have hread : operation ∈ s.reads := hactive ▸ hmem
    have hclient := h.client.2 operation hread
    have hone : operation.onResult.results = 1 := by
      cases hk : operation.onResult <;>
        simp_all [Continuation.isHeader, Continuation.isClient, Continuation.results]
    intro hzero
    rw [hsum, List.sum_eq_zero_iff_forall_eq_nat] at hzero
    have := hzero _ (List.mem_map_of_mem hread)
    omega
  have hresult (hone : s.results = 1) : s.locked = true := by
    cases hreads : s.reads with
    | nil => rw [hsum, hreads] at hone; cases hone
    | cons operation rest =>
      have hmem : operation ∈ s.active := by rw [hactive, hreads]; exact List.mem_cons_self ..
      have hlength := hexclusive.length_le.2
      have hrest : rest = [] := by
        rw [hreads, List.length_cons] at hlength
        exact List.length_eq_zero_iff.mp (by omega)
      rw [hsum, hreads, hrest] at hone
      have hkind : operation.onResult.isHeader = false := by
        cases hk : operation.onResult <;> simp_all [Continuation.isHeader, Continuation.results]
      rw [(hexclusive.kind hmem).2, hkind]
      rfl
  have hunlocked (hzero : s.results = 0) : s.locked = false := by
    by_contra hne
    exact hlocked (Bool.not_eq_false _ ▸ hne) hzero
  cases h with
  | notExpecting h =>
    have hstate : s.state = .notExpectingResponse := h.state
    have hresponse : s.waitingForResponse = false := h.response
    simp [hstate, hresponse, hunlocked h.results]
  | header h =>
    have hstate : s.state = .parsingHeader := h.state
    have hresponse : s.waitingForResponse = true := h.response
    simp [hstate, hresponse, hunlocked h.results]
  | result h =>
    have hstate : s.state = .parsingResult := h.state
    have hresponse : s.waitingForResponse = false := h.response
    simp [hstate, hresponse, hresult h.results]

/-- A client in whose runs every failing send is reported while the registry expects nothing,
and no result is lost: the registry and the splitter agree between events, and the assertions
on their states hold. -/
theorem registry_in_step (clients servers : InterfaceDefinition) (events : List Event) (s : Side)
    (hclient : Event.serve ∉ events)
    (hspared : Along (step clients servers) (fun s event => s.spared event = true) {} events)
    (hrun : run (step clients servers) {} events = some s) :
    (s.stack = [] → s.thrown = none →
      (s.state = .parsingHeader ↔ s.waitingForResponse = true) ∧
      (s.state = .parsingResult ↔ s.locked = true) ∧
      (s.state = .notExpectingResponse ↔ s.waitingForResponse = false ∧ s.locked = false)) ∧
    .waitForResponse ∉ s.history.violated ∧ .registryHeader ∉ s.history.violated ∧
      .registryResult ∉ s.history.violated := by
  obtain ⟨hexclusive, hkept⟩ := kept_run hclient hspared hrun
  have hviolated : s.pace.violated = [] := by
    rcases hkept with hlockstep | hthrown
    · exact hlockstep.aligned.violated
    · exact hthrown.2
  have hholds (a : Assertion) (ha : a.isRegistry = true) : a ∉ s.history.violated := by
    intro hmem
    have hfilter : a ∈ s.pace.violated := List.mem_filter.mpr ⟨hmem, ha⟩
    rw [hviolated] at hfilter
    cases hfilter
  refine ⟨?_, hholds _ rfl, hholds _ rfl, hholds _ rfl⟩
  intro hstack hnone
  rcases hkept with hlockstep | hthrown
  · exact hlockstep.idle hexclusive hstack
  · exact (hthrown.1 hnone).elim

omit [Platform] in
/-- A send that fails after its response has come. -/
theorem registry_in_step_late :
    letI := Platform.reference
    let events : List Event := [.call [0x66] [.integer 7], .resume,
      .read 0 [1, 0, 0, 0, 0, 0, 0, 0, 0, 5], .resume, .resume, .resume, .resume, .resume,
      .return, .resume, .written 0 0 (.system 32), .resume, .resume, .resume, .resume]
    ∃ s, run (step exampleInterface exampleInterface) {} events = some s ∧
      s.stack = [] ∧ (s.state = .parsingHeader ↔ s.waitingForResponse = true) := by
  letI := Platform.reference
  intro events
  have hidle : (run (step exampleInterface exampleInterface) {} events).any
      (fun s => s.stack.isEmpty && s.thrown.isNone) = true := by decide +kernel
  obtain ⟨s, hrun, hs⟩ := (Option.any_eq_true _ _).mp hidle
  obtain ⟨hstack, hthrown⟩ : s.stack = [] ∧ s.thrown = none := by simpa using hs
  have hkept := registry_in_step exampleInterface exampleInterface events s (by simp [events])
    (by decide +kernel) hrun
  exact ⟨s, hrun, hstack, (hkept.1 hstack hthrown).1⟩

omit [Platform] in
/-- A send that fails before its response has come leaves the splitter waiting, and the next
call waits a second time. -/
theorem registry_out_of_step :
    letI := Platform.reference
    ∃ s t, run (step exampleInterface exampleInterface) {} [.call [0x66] [.integer 7], .resume,
        .written 0 0 (.system 32), .resume, .resume, .return, .resume, .resume, .resume] = some s ∧
      s.stack = [] ∧ s.thrown = none ∧ s.state = .notExpectingResponse ∧
      s.waitingForResponse = true ∧
      step exampleInterface exampleInterface s (.call [0x66] [.integer 7]) = some t ∧
      .waitForResponse ∈ t.history.violated := by
  letI := Platform.reference
  exact ⟨_, _, rfl, rfl, rfl, rfl, rfl, rfl, by decide⟩

end Side

end Warpcoil
