import Mathlib.Data.List.Count
import Mathlib.Data.List.Perm.Basic
import Warpcoil.RejectedValue

/-! Every handler that is owed a call is in one place, whatever a side does: in the map of
expected responses, with a parse operation, in a frame, with the splitter, with the
implementation, with the writer, dropped, or called. -/
namespace Warpcoil
open Transition

/-- The handler of a client call, or of a `serve_one_request`. -/
inductive Token where
  | call (handler : Nat)
  | serve (handler : Nat)
deriving DecidableEq

def Continuation.tokens : Continuation → List Token
  | .result expected => [.call expected.handler]
  | .argument _ _ _ handler => [.serve handler]
  | .messageType | .response | .request => []

def Frame.tokens : Frame → List Token
  | .start operation => operation.onResult.tokens
  | .errors handlers _ => handlers.map .call
  | .resultUnlocked handler _ | .resultReady handler _ => [.call handler]
  | .argumentUnlocked _ _ _ handler _ => [.serve handler]
  | .requestContinue _ | .responseContinue _ | .errorContinue _ _ | .writer | .user => []

def Sent.tokens : Sent → List Token
  | .request => []
  | .response handler => [.serve handler]

/-- The callback that an unanswered call of the implementation holds. -/
def callback (invoked : List Invocation) (index : Nat) : List Token :=
  (invoked[index]?).toList.map fun invocation => .serve invocation.handler

namespace Side

/-- Where the handlers are that are neither called yet nor with the writer. -/
def held (s : Side) : List Token :=
  s.stack.flatMap Frame.tokens ++ s.reads.flatMap (fun operation => operation.onResult.tokens) ++
    s.expectedResponses.map (fun e => .call e.2.handler) ++
    s.waitingForRequest.toList.map .serve ++ s.unanswered.flatMap (callback s.invoked)

/-- Where all handlers are. What the writer has called is still among what was sent. -/
def places (s : Side) : List Token :=
  s.held ++ s.output.sent.flatMap (fun sent => sent.1.tokens) ++ s.history.dropped.map .call ++
    s.history.completed.map (fun c => .call c.1) ++ s.history.served.map (fun c => .serve c.1)

def tally (s : Side) (t : Token) : Nat := s.places.count t

@[simp] theorem push_tally (s : Side) (frames : List Frame) (t : Token) :
    (s.push frames).tally t = (frames.flatMap Frame.tokens).count t + s.tally t := by
  simp only [tally, places, held, push, List.flatMap_append, List.append_assoc, List.count_append]

/-- A frame without a handler changes nothing. -/
theorem push_tally_nil {frame : Frame} (h : frame.tokens = []) (s : Side) (t : Token) :
    (s.push [frame]).tally t = s.tally t := by
  rw [push_tally, List.flatMap_singleton, h, List.count_nil, Nat.zero_add]

@[simp] theorem assert_tally (s : Side) (a : Assertion) (c : Bool) (t : Token) :
    (s.assert a c).tally t = s.tally t := rfl
@[simp] theorem fail_tally (s : Side) (t : Token) : s.fail.tally t = s.tally t := rfl
@[simp] theorem lockInput_tally (s : Side) (t : Token) : s.lockInput.tally t = s.tally t := rfl
@[simp] theorem throw_thrown (s : Side) (e : Exception) : (s.throw e).thrown = some e := rfl

@[simp] theorem beginParseValue_tally (s : Side) (k : Continuation) (t : Token) :
    (s.beginParseValue k).tally t = k.tokens.count t + s.tally t := by
  rw [beginParseValue, push_tally, List.flatMap_singleton]
  rfl

theorem callBeginParseMessage_tally {s : Side} (h : s.callBeginParseMessage.thrown = none)
    (t : Token) : s.callBeginParseMessage.tally t = s.tally t := by
  unfold callBeginParseMessage at h ⊢
  dsimp only at h ⊢
  split_ifs at h ⊢
  · rfl
  · exact (push_tally_nil rfl _ t).trans rfl
  · cases h

theorem waitForResponse_tally {s : Side} (h : s.waitForResponse.thrown = none) (t : Token) :
    s.waitForResponse.tally t = s.tally t := by
  unfold waitForResponse at h ⊢
  dsimp only at h ⊢
  split_ifs at h ⊢
  · rfl
  · exact (callBeginParseMessage_tally h t).trans rfl

theorem waitForRequest_tally {s : Side} {handler : Nat}
    (h : (s.waitForRequest handler).thrown = none) (hfree : s.waitingForRequest = none)
    (t : Token) :
    (s.waitForRequest handler).tally t = [Token.serve handler].count t + s.tally t := by
  have hplaced : tally { s with waitingForRequest := some handler } t =
      [Token.serve handler].count t + s.tally t := by
    simp only [tally, places, held, hfree, Option.toList_some, Option.toList_none, List.map_cons,
      List.map_nil, List.count_append, List.count_nil]
    omega
  unfold waitForRequest at h ⊢
  dsimp only at h ⊢
  split_ifs at h ⊢
  · exact hplaced
  · exact (callBeginParseMessage_tally h t).trans hplaced

theorem unlockInput_tally {s : Side} (h : s.unlockInput.thrown = none) (t : Token) :
    s.unlockInput.tally t = s.tally t := by
  unfold unlockInput at h ⊢
  dsimp only at h ⊢
  split_ifs at h ⊢
  · rfl
  · exact (callBeginParseMessage_tally h t).trans rfl

@[simp] theorem registryOnError_tally (s : Side) (ec : ErrorCode) (t : Token) :
    (s.registryOnError ec).tally t = s.tally t := by
  rw [registryOnError, push_tally, List.flatMap_singleton]
  simp only [tally, places, held, fail, note, Frame.tokens, List.map_nil, List.count_append,
    List.count_nil, List.map_map, Function.comp_def]
  omega

theorem parseHeader_tally {s : Side} (h : s.parseHeader.thrown = none) (t : Token) :
    s.parseHeader.tally t = s.tally t :=
  (waitForResponse_tally h t).trans rfl

theorem perm_eraseP {α : Type*} {p : α → Bool} {xs : List α} {x : α}
    (h : xs.find? p = some x) : xs.Perm (x :: xs.eraseP p) := by
  induction xs with
  | nil => cases h
  | cons y ys ih =>
    by_cases hy : p y = true
    · rw [List.find?_cons_of_pos hy, Option.some.injEq] at h
      rw [List.eraseP_cons_of_pos hy, h]
    · rw [List.find?_cons_of_neg hy] at h
      rw [List.eraseP_cons_of_neg hy]
      exact ((ih h).cons y).trans (.swap x y _)

theorem onHeader_tally (s : Side) (request : Except ErrorCode RequestId) (t : Token) :
    (s.onHeader request).tally t = s.tally t := by
  unfold onHeader
  dsimp only
  split
  · exact (registryOnError_tally _ _ t).trans rfl
  · split
    · exact (registryOnError_tally _ _ t).trans rfl
    · next id expected hfind =>
      have hcount := ((perm_eraseP hfind).map fun e => Token.call e.2.handler).count_eq t
      rw [beginParseValue_tally, lockInput_tally]
      simp only [tally, places, held, assert, note, Continuation.tokens, List.count_append,
        List.map_cons, List.count_cons, List.count_nil] at hcount ⊢
      omega

theorem onError_tally (s : Side) (ec : ErrorCode) (t : Token) :
    (s.onError ec).tally t = s.tally t := by
  unfold onError
  dsimp only
  split_ifs
  · rw [onHeader_tally]
    exact (push_tally_nil rfl _ t).trans rfl
  · exact (push_tally_nil rfl _ t).trans rfl

@[simp] theorem complete_tally (s : Side) (handler : Nat) (ec : ErrorCode) (t : Token) :
    (s.complete handler ec).tally t = [Token.serve handler].count t + s.tally t := by
  rw [complete, push_tally_nil rfl]
  simp only [tally, places, held, note, List.map_append, List.count_append, List.map_cons,
    List.map_nil]
  omega

theorem onRequest_tally {servers : InterfaceDefinition} {s : Side} {handler : Nat}
    {request : Except ErrorCode (RequestId × Identifier)}
    (h : (onRequest servers s handler request).thrown = none) (t : Token) :
    (onRequest servers s handler request).tally t =
      [Token.serve handler].count t + s.tally t := by
  revert h
  unfold onRequest
  split
  · exact fun _ => complete_tally _ _ _ _
  · split
    · intro h
      cases h
    · exact fun _ => beginParseValue_tally _ _ t

theorem onMessageType_tally (s : Side) (type : Except ErrorCode Value) (t : Token) :
    (s.onMessageType type).tally t = s.tally t := by
  unfold onMessageType
  split
  · exact onError_tally _ _ _
  · split_ifs
    · exact push_tally_nil rfl _ _
    · exact onError_tally _ _ _
    · exact push_tally_nil rfl _ _
    · exact onError_tally _ _ _
    · exact onError_tally _ _ _

theorem onResponse_tally {s : Side} {request : Except ErrorCode Value}
    (h : (s.onResponse request).thrown = none) (t : Token) :
    (s.onResponse request).tally t = s.tally t := by
  unfold onResponse at h ⊢
  dsimp only at h ⊢
  split at h
  · exact onError_tally _ _ _
  · split_ifs at h ⊢
    · rw [onHeader_tally]
      exact (push_tally_nil rfl _ t).trans rfl
    · cases h
  · rfl

/-- The handler moves from the splitter to the parse operation of the arguments. -/
theorem onRequestHeader_tally {servers : InterfaceDefinition} {s : Side}
    {request : Except ErrorCode Value}
    (h : (onRequestHeader servers s request).thrown = none) (t : Token) :
    (onRequestHeader servers s request).tally t = s.tally t := by
  revert h
  unfold onRequestHeader
  dsimp only
  split
  · exact fun _ => onError_tally _ _ _
  · split
    · next handler hwaiting =>
      intro h
      change s.waitingForRequest = some handler at hwaiting
      rw [onRequest_tally h, push_tally_nil rfl]
      simp only [tally, places, held, assert, note, hwaiting, Option.toList_some,
        Option.toList_none, List.map_cons, List.map_nil, List.count_append, List.count_nil]
      omega
    · intro h
      cases h
  · exact fun _ => rfl

theorem onResult_tally {s : Side} {handler : Nat} {result : Except ErrorCode Value}
    (h : (s.onResult handler result).thrown = none) (t : Token) :
    (s.onResult handler result).tally t = [Token.call handler].count t + s.tally t := by
  unfold onResult at h ⊢
  dsimp only at h ⊢
  split at h
  · rw [registryOnError_tally]
    simp only [tally, places, held, assert, note, List.map_append, List.map_cons, List.map_nil,
      List.count_append]
    omega
  · rw [unlockInput_tally h, push_tally, List.flatMap_singleton]
    rfl

/-- The handler of a parse operation passes on what it holds. -/
theorem call_tally {servers : InterfaceDefinition} {s : Side} {k : Continuation}
    {result : Except ErrorCode Value} (h : (call servers s k result).thrown = none) (t : Token) :
    (call servers s k result).tally t = k.tokens.count t + s.tally t := by
  cases k with
  | messageType => simpa [call, Continuation.tokens] using onMessageType_tally s result t
  | response => simpa [call, Continuation.tokens] using onResponse_tally h t
  | request => simpa [call, Continuation.tokens] using onRequestHeader_tally h t
  | result expected => exact onResult_tally h t
  | argument id name m handler =>
    rw [call, unlockInput_tally h, push_tally, List.flatMap_singleton]
    rfl

theorem callWith_tally {servers : InterfaceDefinition} {s : Side} {k : Continuation} {v : Value}
    {rest : List UInt8} (h : (callWith servers s k v rest).thrown = none) (t : Token) :
    (callWith servers s k v rest).tally t = k.tokens.count t + s.tally t :=
  (call_tally h t).trans rfl

theorem continueRequest_tally {s : Side} {continue_ : Bool}
    (h : (s.continueRequest continue_).thrown = none) (t : Token) :
    (s.continueRequest continue_).tally t = s.tally t := by
  unfold continueRequest at h ⊢
  split_ifs at h ⊢
  · exact (callBeginParseMessage_tally h t).trans rfl
  · rfl

theorem continueResponse_tally {s : Side} {continue_ : Bool}
    (h : (s.continueResponse continue_).thrown = none) (t : Token) :
    (s.continueResponse continue_).tally t = s.tally t := by
  unfold continueResponse at h ⊢
  split_ifs at h ⊢
  · exact (callBeginParseMessage_tally h t).trans rfl
  · rfl

theorem continueError_tally {servers : InterfaceDefinition} {s : Side}
    {isWaitingForRequest : Bool} {ec : ErrorCode}
    (h : (continueError servers s isWaitingForRequest ec).thrown = none) (t : Token) :
    (continueError servers s isWaitingForRequest ec).tally t = s.tally t := by
  revert h
  unfold continueError
  split_ifs
  · split
    · next handler hwaiting =>
      intro h
      rw [onRequest_tally h]
      simp only [tally, places, held, hwaiting, Option.toList_some, Option.toList_none,
        List.map_cons, List.map_nil, List.count_append, List.count_nil]
      omega
    · intro h
      cases h
  · exact fun _ => rfl

@[simp] theorem callResultHandler_tally (s : Side) (handler : Nat)
    (result : Except ErrorCode Value) (t : Token) :
    (s.callResultHandler handler result).tally t = [Token.call handler].count t + s.tally t := by
  rw [callResultHandler, push_tally_nil rfl]
  simp only [tally, places, held, note, List.map_append, List.count_append, List.map_cons,
    List.map_nil]
  omega

theorem continueErrors_tally (s : Side) (ec : ErrorCode) (handlers : List Nat) (t : Token) :
    (s.continueErrors ec handlers).tally t = (handlers.map Token.call).count t + s.tally t := by
  cases handlers with
  | nil => simp [continueErrors]
  | cons handler handlers =>
    rw [continueErrors, callResultHandler_tally, push_tally]
    simp only [List.flatMap_singleton, Frame.tokens, List.map_cons, List.count_cons,
      List.count_nil]
    omega

theorem continueResult_tally {s : Side} {handler : Nat} {v : Value}
    (h : (s.continueResult handler v).thrown = none) (t : Token) :
    (s.continueResult handler v).tally t = [Token.call handler].count t + s.tally t := by
  have hpush : (s.push [.resultReady handler v]).tally t =
      [Token.call handler].count t + s.tally t := push_tally s _ t
  unfold continueResult at h ⊢
  dsimp only at h ⊢
  split_ifs at h ⊢
  · exact hpush
  · exact (parseHeader_tally h t).trans hpush

theorem flatMap_callback {invoked more : List Invocation} {indices : List Nat}
    (h : ∀ i ∈ indices, i < invoked.length) :
    indices.flatMap (callback (invoked ++ more)) = indices.flatMap (callback invoked) := by
  refine List.flatMap_congr fun i hi => ?_
  rw [callback, callback, List.getElem?_append_left (h i hi)]

theorem continueArgument_tally {s : Side} (hbound : ∀ i ∈ s.unanswered, i < s.invoked.length)
    (id : RequestId) (name : Identifier) (m : Method) (handler : Nat)
    (argument : Except ErrorCode Value) (t : Token) :
    (s.continueArgument id name m handler argument).tally t =
      [Token.serve handler].count t + s.tally t := by
  cases argument with
  | error ec => exact complete_tally _ _ _ _
  | ok v =>
    have hlast : callback (s.invoked ++ [⟨id, name, m, v, handler⟩]) s.invoked.length =
        [.serve handler] := by
      simp [callback]
    rw [continueArgument, push_tally_nil rfl]
    simp only [tally, places, held, List.flatMap_append, flatMap_callback hbound,
      List.flatMap_singleton, hlast, List.count_append]
    omega

/-- What the writer has called. -/
def settled (s : Side) (t : Token) : Nat :=
  (s.output.invoked.flatMap fun call => call.1.tokens).count t

theorem onSent_tally (s : Side) (handler : Sent) (ec : ErrorCode) (t : Token) :
    (s.onSent handler ec).tally t = handler.tokens.count t + s.tally t := by
  unfold onSent
  split
  · split_ifs
    · simp [Sent.tokens]
    · simp [Sent.tokens]
  · exact complete_tally _ _ _ _

theorem onSent_settled (s : Side) (handler : Sent) (ec : ErrorCode) (t : Token) :
    (s.onSent handler ec).settled t = s.settled t := by
  have houtput : (s.onSent handler ec).output = s.output :=
    congrArg (fun r => r.2.2.2.1) (onSent_record s handler ec)
  rw [settled, settled, houtput]

theorem continueWriter_tally (s : Side) (t : Token) :
    s.continueWriter.tally t + s.settled t = s.tally t + s.continueWriter.settled t := by
  unfold continueWriter
  rcases hstack : s.output.stack with _ | ⟨⟨_ | ⟨handler, handlers⟩, ec⟩ | queue, stack⟩ <;>
    simp only [BufferedWriter.proceed, hstack]
  · rw [push_tally_nil rfl]
    rfl
  · have hsame : tally { s with output := { s.output with
        stack := .onResult handlers ec :: stack,
        invoked := s.output.invoked ++ [(handler, ec)] } } t = s.tally t := rfl
    rw [onSent_tally, onSent_settled, push_tally_nil rfl, hsame]
    simp only [settled, push, List.flatMap_append, List.flatMap_singleton, List.count_append]
    omega
  · rw [push_tally_nil rfl]
    rfl

variable [Platform]

theorem start_tally {servers : InterfaceDefinition} {s : Side} {operation : ParseOperation}
    (h : (start servers s operation).thrown = none) (t : Token) :
    (start servers s operation).tally t =
      operation.onResult.tokens.count t + s.tally t := by
  revert h
  unfold start
  split
  · exact fun h => callWith_tally h t
  · split
    · exact fun h => callWith_tally h t
    · intro _
      simp only [tally, places, held, List.flatMap_append, List.flatMap_singleton,
        List.count_append]
      omega
    · exact fun h => (call_tally h t).trans rfl
    · intro h
      cases h

omit [Platform] in
/-- Equal ledgers have equal writers. -/
theorem settled_of_output {s s' : Side} (h : s'.output = s.output) (t : Token) :
    s'.settled t = s.settled t := by
  rw [settled, settled, h]

theorem resume_tally {servers : InterfaceDefinition} {s : Side} {frame : Frame}
    (h : (resume servers s frame).thrown = none)
    (hbound : ∀ i ∈ s.unanswered, i < s.invoked.length) (t : Token) :
    (resume servers s frame).tally t + s.settled t =
      frame.tokens.count t + s.tally t + (resume servers s frame).settled t := by
  by_cases hwriter : frame = .writer
  · subst hwriter
    simpa [resume, Frame.tokens] using continueWriter_tally s t
  · rw [settled_of_output (resume_output servers s frame hwriter), Nat.add_right_cancel_iff]
    cases frame with
    | start operation => exact start_tally h t
    | requestContinue continue_ => simpa [resume, Frame.tokens] using continueRequest_tally h t
    | responseContinue continue_ => simpa [resume, Frame.tokens] using continueResponse_tally h t
    | errorContinue isWaitingForRequest ec =>
      simpa [resume, Frame.tokens] using continueError_tally h t
    | errors handlers ec => exact continueErrors_tally s ec handlers t
    | resultUnlocked handler v => exact continueResult_tally h t
    | resultReady handler v => exact callResultHandler_tally s handler _ t
    | argumentUnlocked id name m handler argument =>
      exact continueArgument_tally hbound id name m handler argument t
    | writer => exact (hwriter rfl).elim
    | user => simp [resume, Frame.tokens]

/-! What calls of the user create. -/

omit [Platform] in
@[simp] theorem sendBuffer_sent (w : BufferedWriter Sent) (handler : Sent) :
    (w.sendBuffer handler).sent = w.sent ++ [(handler, w.appended.length)] := by
  unfold BufferedWriter.sendBuffer
  dsimp only
  split <;> rfl

omit [Platform] in
@[simp] theorem sendBuffer_invoked (w : BufferedWriter Sent) (handler : Sent) :
    (w.sendBuffer handler).invoked = w.invoked := by
  unfold BufferedWriter.sendBuffer
  dsimp only
  split <;> rfl

omit [Platform] in
theorem perm_insertExpected {id : RequestId} {expected : ExpectedResponse}
    {expectedResponses : List (RequestId × ExpectedResponse)}
    (h : ∀ e ∈ expectedResponses, e.1 ≠ id) :
    (insertExpected id expected expectedResponses).Perm ((id, expected) :: expectedResponses) := by
  induction expectedResponses with
  | nil => exact .refl _
  | cons first rest ih =>
    rw [insertExpected]
    split_ifs with hlt heq
    · exact .refl _
    · exact (h first (by simp) heq.symm).elim
    · have hrest := ih fun e he => h e (by simp [he])
      exact (hrest.cons first).trans (.swap _ _ _)

/-- No pending call has the id that the next one is given. -/
def Fresh (s : Side) : Prop := ∀ e ∈ s.expectedResponses, e.1 ≠ s.nextRequestId

omit [Platform] in
theorem expectResponse_tally {s : Side} {id : RequestId} {expected : ExpectedResponse}
    (h : (s.expectResponse id expected).thrown = none)
    (hfresh : ∀ e ∈ s.expectedResponses, e.1 ≠ id) (t : Token) :
    (s.expectResponse id expected).tally t =
      [Token.call expected.handler].count t + s.tally t := by
  have hinsert :
      tally { s with expectedResponses := (insertExpected id expected s.expectedResponses) } t =
        [Token.call expected.handler].count t + s.tally t := by
    have hcount := ((@perm_insertExpected id expected _ hfresh).map
      fun e => Token.call e.2.handler).count_eq t
    simp only [tally, places, held, List.count_append, hcount, List.map_cons, List.count_cons,
      List.count_nil]
    omega
  unfold expectResponse at h ⊢
  dsimp only at h ⊢
  split at h
  · exact (parseHeader_tally h t).trans hinsert
  · exact hinsert
  · exact hinsert

omit [Platform] in
theorem sendBuffer_tally (s : Side) (handler : Sent) (t : Token) :
    tally { s with output := s.output.sendBuffer handler } t =
      handler.tokens.count t + s.tally t := by
  simp only [tally, places, held, sendBuffer_sent, List.flatMap_append, List.flatMap_singleton,
    List.count_append]
  omega

theorem request_tally {s : Side} {name : Identifier} {m : Method} {arguments : List Value}
    (h : (s.request name m arguments).thrown = none) (hfresh : s.Fresh) (t : Token) :
    (s.request name m arguments).tally t =
      [Token.call s.history.calls.length].count t + s.tally t := by
  revert h
  unfold request
  dsimp only
  split_ifs
  · intro h
    rw [expectResponse_tally h hfresh, sendBuffer_tally]
    exact congrArg (_ + ·) (Nat.zero_add _)
  · exact fun _ => (callResultHandler_tally _ _ _ t).trans rfl

omit [Platform] in
theorem count_flatMap_erase {α β : Type*} [DecidableEq α] [DecidableEq β] {xs : List α} {x : α}
    (h : x ∈ xs) (f : α → List β) (b : β) :
    (xs.flatMap f).count b = (f x).count b + ((xs.erase x).flatMap f).count b := by
  rw [((List.perm_cons_erase h).flatMap_right f).count_eq, List.flatMap_cons, List.count_append]

theorem answer_tally {s : Side} {index : Nat} {invocation : Invocation}
    (hinvoked : s.invoked[index]? = some invocation) (hunanswered : index ∈ s.unanswered)
    (result : Except ErrorCode Value) (t : Token) :
    (s.answer index invocation result).tally t = s.tally t := by
  have herase : [Token.serve invocation.handler].count t +
      tally { s with unanswered := s.unanswered.erase index } t = s.tally t := by
    have hcount := count_flatMap_erase hunanswered (callback s.invoked) t
    simp only [callback, hinvoked, Option.toList_some, List.map_cons, List.map_nil] at hcount
    simp only [tally, places, held, List.count_append]
    omega
  cases result with
  | error ec => exact (complete_tally _ _ _ t).trans herase
  | ok v =>
    unfold answer
    dsimp only
    split_ifs
    · rw [sendBuffer_tally]
      exact herase
    · exact (complete_tally _ _ _ t).trans herase

/-- Every earlier handler of a `serve_one_request` has been called. -/
def Served (s : Side) : Prop :=
  ∀ n < s.history.serves, n ∈ s.history.served.map Prod.fst

/-- How often a handler was created. -/
def created (s : Side) : Token → Nat
  | .call n => if n < s.history.calls.length then 1 else 0
  | .serve n => if n < s.history.serves then 1 else 0

/-- Each handler that was created is in one place. -/
structure Custody (s : Side) : Prop where
  bound : ∀ i ∈ s.unanswered, i < s.invoked.length
  tally : ∀ t, s.tally t = s.created t + s.settled t

omit [Platform] in
theorem created_of_diary {s s' : Side} (h : s'.diary = s.diary) (t : Token) :
    s'.created t = s.created t := by
  have hcalls : s'.history.calls = s.history.calls := congrArg (fun d => d.2.2.1) h
  have hserves : s'.history.serves = s.history.serves := congrArg (fun d => d.2.2.2.2.1) h
  cases t with
  | call n => rw [created, created, hcalls]
  | serve n => rw [created, created, hserves]

/-- Only the handler of the arguments calls the implementation. -/
theorem resume_implementation (servers : InterfaceDefinition) (s : Side) (frame : Frame)
    (h : ∀ id name m handler v, frame ≠ .argumentUnlocked id name m handler (.ok v)) :
    (resume servers s frame).invoked = s.invoked ∧
      (resume servers s frame).unanswered = s.unanswered := by
  have himplementation {t u : Side} (h : t.ledger = u.ledger) :
      t.invoked = u.invoked ∧ t.unanswered = u.unanswered :=
    ⟨congrArg (fun l => l.2.2.1) h, congrArg (fun l => l.2.2.2.1) h⟩
  cases frame with
  | start operation => exact himplementation (start_ledger servers s operation)
  | requestContinue continue_ =>
    exact himplementation (ledger_eq (continueRequest_record s continue_))
  | responseContinue continue_ =>
    exact himplementation (ledger_eq (continueResponse_record s continue_))
  | errorContinue isWaitingForRequest ec =>
    exact himplementation (ledger_eq (continueError_record servers s _ ec))
  | errors handlers ec => cases handlers <;> exact ⟨rfl, rfl⟩
  | resultUnlocked handler v =>
    exact himplementation (ledger_eq (continueResult_record s handler v))
  | argumentUnlocked id name m handler argument =>
    cases argument with
    | error ec => exact ⟨rfl, rfl⟩
    | ok v => exact (h id name m handler v rfl).elim
  | resultReady | user => exact ⟨rfl, rfl⟩
  | writer =>
    unfold resume continueWriter
    dsimp only
    split
    · exact ⟨rfl, rfl⟩
    · split
      · exact himplementation
          (u := Side.push { s with output := _ } [.writer]) (ledger_eq (onSent_record _ _ _))
      · exact ⟨rfl, rfl⟩

theorem resume_bound (servers : InterfaceDefinition) {s : Side} (frame : Frame)
    (hbound : ∀ i ∈ s.unanswered, i < s.invoked.length) :
    ∀ i ∈ (resume servers s frame).unanswered, i < (resume servers s frame).invoked.length := by
  by_cases h : ∀ id name m handler v, frame ≠ .argumentUnlocked id name m handler (.ok v)
  · obtain ⟨hinvoked, hunanswered⟩ := resume_implementation servers s frame h
    rwa [hinvoked, hunanswered]
  · simp only [ne_eq, not_forall, not_not] at h
    obtain ⟨id, name, m, handler, v, rfl⟩ := h
    intro i hi
    change i ∈ s.unanswered ++ [s.invoked.length] at hi
    change i < (s.invoked ++ [(⟨id, name, m, v, handler⟩ : Invocation)]).length
    rw [List.length_append, List.length_singleton]
    rcases List.mem_append.mp hi with hold | hnew
    · exact Nat.lt_succ_of_lt (hbound i hold)
    · rw [List.mem_singleton.mp hnew]
      exact Nat.lt_succ_self _

omit [Platform] in
theorem custody_initial : ({} : Side).Custody where
  bound := by simp
  tally := by rintro (n | n) <;> rfl

omit [Platform] in
theorem Custody.same {s s' : Side} (hs : s.Custody) (hledger : s'.ledger = s.ledger)
    (htally : ∀ t, s'.tally t = s.tally t) : s'.Custody where
  bound := by
    have hinvoked : s'.invoked = s.invoked := congrArg (fun l => l.2.2.1) hledger
    have hunanswered : s'.unanswered = s.unanswered := congrArg (fun l => l.2.2.2.1) hledger
    rw [hinvoked, hunanswered]
    exact hs.bound
  tally := fun t => by
    rw [htally, hs.tally, created_of_diary (diary_of_ledger hledger),
      settled_of_output (congrArg (fun l => l.1) hledger)]

theorem request_diary (s : Side) (name : Identifier) (m : Method) (arguments : List Value) :
    (s.request name m arguments).diary =
      (s.nextRequestId + 1, s.history.received,
        s.history.calls ++ [⟨s.nextRequestId, name, m, arguments,
          (requestMessage s.nextRequestId name m arguments).ok⟩],
        s.history.messages ++ [requestMessage s.nextRequestId name m arguments],
        s.history.serves, s.history.responses) := by
  unfold request
  dsimp only
  split_ifs
  · exact (diary_of_ledger (ledger_eq (expectResponse_record _ _ _))).trans rfl
  · rfl

theorem request_implementation (s : Side) (name : Identifier) (m : Method)
    (arguments : List Value) :
    (s.request name m arguments).invoked = s.invoked ∧
      (s.request name m arguments).unanswered = s.unanswered := by
  unfold request
  dsimp only
  split_ifs
  · exact ⟨congrArg (fun r => r.2.2.2.2.2.1) (expectResponse_record _ _ _),
      congrArg (fun r => r.2.2.2.2.2.2.1) (expectResponse_record _ _ _)⟩
  · exact ⟨rfl, rfl⟩

theorem request_settled (s : Side) (name : Identifier) (m : Method) (arguments : List Value)
    (t : Token) : (s.request name m arguments).settled t = s.settled t := by
  rw [settled, settled, output_request]
  split_ifs
  · rw [sendBuffer_invoked]
    rfl
  · rfl

theorem Custody.request {s : Side} (hs : s.Custody) {name : Identifier} {m : Method}
    {arguments : List Value} (h : (s.request name m arguments).thrown = none)
    (hfresh : s.Fresh) : (s.request name m arguments).Custody where
  bound := by
    obtain ⟨hinvoked, hunanswered⟩ := request_implementation s name m arguments
    rw [hinvoked, hunanswered]
    exact hs.bound
  tally := fun t => by
    have hdiary := request_diary s name m arguments
    have hcalls := congrArg (fun d => d.2.2.1) hdiary
    have hserves := congrArg (fun d => d.2.2.2.2.1) hdiary
    simp only [diary] at hcalls hserves
    rw [request_tally h hfresh, hs.tally, request_settled, ← Nat.add_assoc,
      Nat.add_right_cancel_iff]
    cases t with
    | call n =>
      simp only [created, hcalls, List.length_append, List.length_singleton,
        List.count_singleton, beq_iff_eq, Token.call.injEq]
      split_ifs <;> omega
    | serve n =>
      simp only [created, hserves]
      simp

omit [Platform] in
theorem Custody.serve {s : Side} (hs : s.Custody) (h : s.serveOneRequest.thrown = none)
    (hfree : s.waitingForRequest = none) : s.serveOneRequest.Custody := by
  have hrecord : s.serveOneRequest.ledger =
      (s.note fun h => { h with serves := h.serves + 1 }).ledger :=
    ledger_eq (waitForRequest_record _ _)
  have hserves : s.serveOneRequest.history.serves = s.history.serves + 1 :=
    congrArg (fun l => l.2.2.2.2.2.2.2.2.1) hrecord
  have hcalls : s.serveOneRequest.history.calls = s.history.calls :=
    congrArg (fun l => l.2.2.2.2.2.1) hrecord
  refine ⟨?_, fun t => ?_⟩
  · have hinvoked : s.serveOneRequest.invoked = s.invoked := congrArg (fun l => l.2.2.1) hrecord
    have hunanswered : s.serveOneRequest.unanswered = s.unanswered :=
      congrArg (fun l => l.2.2.2.1) hrecord
    rw [hinvoked, hunanswered]
    exact hs.bound
  · have htally : s.serveOneRequest.tally t =
        [Token.serve s.history.serves].count t + s.tally t := waitForRequest_tally h hfree t
    rw [htally, hs.tally, settled_of_output (congrArg (fun l => l.1) hrecord), ← Nat.add_assoc]
    congr 1
    cases t with
    | call n =>
      simp only [created, hcalls]
      simp
    | serve n =>
      simp only [created, hserves, List.count_singleton, beq_iff_eq, Token.serve.injEq]
      split_ifs <;> omega

theorem Custody.answer {s : Side} (hs : s.Custody) {index : Nat} {invocation : Invocation}
    (hinvoked : s.invoked[index]? = some invocation) (hunanswered : index ∈ s.unanswered)
    (result : Except ErrorCode Value) : (s.answer index invocation result).Custody := by
  have hsame : (s.answer index invocation result).invoked = s.invoked ∧
      (s.answer index invocation result).unanswered = s.unanswered.erase index ∧
      (s.answer index invocation result).output.invoked = s.output.invoked ∧
      (s.answer index invocation result).history.calls = s.history.calls ∧
      (s.answer index invocation result).history.serves = s.history.serves := by
    cases result with
    | error ec => exact ⟨rfl, rfl, rfl, rfl, rfl⟩
    | ok v =>
      unfold Side.answer
      dsimp only
      split_ifs
      · exact ⟨rfl, rfl, sendBuffer_invoked _ _, rfl, rfl⟩
      · exact ⟨rfl, rfl, rfl, rfl, rfl⟩
  obtain ⟨hinv, hun, hout, hcalls, hserves⟩ := hsame
  refine ⟨?_, fun t => ?_⟩
  · rw [hinv, hun]
    exact fun i hi => hs.bound i (List.mem_of_mem_erase hi)
  · have hcreated : (s.answer index invocation result).created t = s.created t := by
      cases t with
      | call n => rw [created, created, hcalls]
      | serve n => rw [created, created, hserves]
    have hsettled : (s.answer index invocation result).settled t = s.settled t := by
      rw [settled, settled, hout]
    rw [answer_tally hinvoked hunanswered, hs.tally, hcreated, hsettled]

omit [Platform] in
/-- A completion moves a parse operation from the event loop to the stack. -/
theorem tally_read {s : Side} {index : Nat} {operation : ParseOperation}
    (h : s.reads[index]? = some operation) (t : Token) :
    operation.onResult.tokens.count t + tally { s with reads := s.reads.eraseIdx index } t =
      s.tally t := by
  obtain ⟨hlt, rfl⟩ := List.getElem?_eq_some_iff.mp h
  have hcount := ((List.getElem_cons_eraseIdx_perm hlt).flatMap_right
    fun operation : ParseOperation => operation.onResult.tokens).count_eq t
  simp only [List.flatMap_cons, List.count_append] at hcount
  simp only [tally, places, held, List.count_append]
  omega

omit [Platform] in
theorem Custody.written {s : Side} (hs : s.Custody) {index transferred : Nat} {ec : ErrorCode}
    {output : BufferedWriter Sent}
    (h : s.output.step (.written index transferred ec) = some output) :
    (Side.push { s with output } [.writer]).Custody := by
  have hsame : output.sent = s.output.sent ∧ output.invoked = s.output.invoked := by
    simp only [BufferedWriter.step] at h
    split at h
    · split_ifs at h
      cases h
      unfold BufferedWriter.finishSend
      dsimp only
      split_ifs <;> exact ⟨rfl, rfl⟩
    · cases h
  refine ⟨hs.bound, fun t => ?_⟩
  have htally : Side.tally { s with output } t = s.tally t := by
    simp only [Side.tally, places, held, hsame.1]
  have hsettled : settled { s with output } t = s.settled t := by
    simp only [settled, hsame.2]
  rw [push_tally_nil rfl, htally, hs.tally, ← hsettled]
  rfl

/-- A handler stays in one place while no id is given twice and no handler of
`serve_one_request` is replaced. -/
theorem custody_step {clients servers : InterfaceDefinition} {s s' : Side} {event : Event}
    (hs : s.Custody) (hstep : step clients servers s event = some s')
    (hthrown : s'.thrown = none)
    (hcall : ∀ name arguments, event = .call name arguments → s.Fresh)
    (hserve : event = .serve → s.waitingForRequest = none) : s'.Custody := by
  obtain ⟨-, htaken⟩ := taken_of_step hstep
  cases htaken with
  | @call name m arguments => exact hs.request hthrown (hcall name arguments rfl)
  | serve => exact hs.serve hthrown (hserve rfl)
  | answer _ hinvoked hunanswered => exact hs.answer hinvoked hunanswered _
  | «return» hstack =>
    refine hs.same rfl fun t => ?_
    simp only [tally, places, held, hstack, List.flatMap_cons]
    rfl
  | @resume frame stack hstack hframe =>
    have hpop (t : Token) : frame.tokens.count t + tally { s with stack } t = s.tally t := by
      simp only [tally, places, held, hstack, List.flatMap_cons, List.count_append]
      omega
    refine ⟨resume_bound servers (s := { s with stack }) frame hs.bound, fun t => ?_⟩
    have htally := resume_tally hthrown hs.bound t
    have hsettled : settled { s with stack } t = s.settled t := rfl
    have hcreated : created { s with stack } t = s.created t := rfl
    rw [created_of_diary (resume_diary servers _ frame), hcreated]
    have := hs.tally t
    have := hpop t
    omega
  | @read index bytes operation hstack hreads =>
    refine ⟨hs.bound, fun t => ?_⟩
    rw [push_tally, List.flatMap_singleton]
    exact (tally_read hreads t).trans (hs.tally t)
  | @readError index ec operation hstack hreads =>
    refine hs.same ((ledger_eq (call_record _ _ _ _)).trans rfl) fun t => ?_
    rw [call_tally hthrown]
    exact tally_read hreads t
  | written hstack hwritten => exact hs.written hwritten

omit [Platform] in
/-- The writer has only called what was sent. -/
theorem settled_le {s : Side} (h : s.output.Ordered) (t : Token) :
    s.settled t ≤ (s.output.sent.flatMap fun sent => sent.1.tokens).count t := by
  obtain ⟨done, running, writing, queued, hsent, hdone, -⟩ := h.custody
  have hhandlers : done.map Prod.fst = s.output.invoked.map Prod.fst :=
    List.forall₂_eq_eq_eq ▸ (List.forall₂_map_left_iff.mpr
      (List.forall₂_map_right_iff.mpr (hdone.imp fun _ _ h => h.1)))
  have hsame : (done.flatMap fun sent => sent.1.tokens) =
      s.output.invoked.flatMap fun call => call.1.tokens := by
    have := congrArg (List.flatMap Sent.tokens) hhandlers
    rwa [List.flatMap_map, List.flatMap_map] at this
  rw [settled, hsent, ← hsame]
  simp only [List.flatMap_append, List.count_append]
  omega

omit [Platform] in
theorem Custody.le {s : Side} (hs : s.Custody) (h : s.output.Ordered) (t : Token) :
    s.held.count t + (s.history.dropped.map Token.call).count t +
      (s.history.completed.map fun c => Token.call c.1).count t +
      (s.history.served.map fun c => Token.serve c.1).count t ≤ s.created t := by
  have htally := hs.tally t
  have hsettled := settled_le h t
  simp only [Side.tally, places, List.count_append] at htally
  omega

omit [Platform] in
theorem created_le (s : Side) (t : Token) : s.created t ≤ 1 := by
  cases t <;> rw [created] <;> split_ifs <;> omega

omit [Platform] in
theorem count_map_of_injective {α β γ : Type*} [DecidableEq β] [DecidableEq γ] (xs : List α)
    (f : α → β) {g : β → γ} (hg : Function.Injective g) (b : β) :
    (xs.map fun a => g (f a)).count (g b) = (xs.map f).count b := by
  have hmap : (xs.map fun a => g (f a)) = (xs.map f).map g := by rw [List.map_map]; rfl
  rw [hmap, List.count_map_of_injective _ _ hg]

omit [Platform] in
/-- No handler of `serve_one_request` is called twice. -/
theorem Custody.served_nodup {s : Side} (hs : s.Custody) (h : s.output.Ordered) :
    (s.history.served.map Prod.fst).Nodup := by
  refine List.nodup_iff_count_le_one.mpr fun n => ?_
  have hle := hs.le h (.serve n)
  have hcreated := created_le s (.serve n)
  rw [count_map_of_injective _ Prod.fst (fun _ _ => Token.serve.inj)] at hle
  omega

omit [Platform] in
/-- No handler of a call is called twice. -/
theorem Custody.completed_nodup {s : Side} (hs : s.Custody) (h : s.output.Ordered) :
    (s.history.completed.map Prod.fst).Nodup := by
  refine List.nodup_iff_count_le_one.mpr fun n => ?_
  have hle := hs.le h (.call n)
  have hcreated := created_le s (.call n)
  rw [count_map_of_injective _ Prod.fst (fun _ _ => Token.call.inj)] at hle
  omega

omit [Platform] in
/-- Once every handler has been called, nothing holds one. -/
theorem Custody.not_held {s : Side} (hs : s.Custody) (h : s.output.Ordered) (hserved : s.Served)
    (n : Nat) : Token.serve n ∉ s.held := by
  intro hheld
  have hle := hs.le h (.serve n)
  rw [count_map_of_injective _ Prod.fst (fun _ _ => Token.serve.inj)] at hle
  have hpos := List.count_pos_iff.mpr hheld
  simp only [created] at hle
  split_ifs at hle with hlt
  · have := List.count_pos_iff.mpr (hserved n hlt)
    omega
  · omega

omit [Platform] in
theorem Custody.free {s : Side} (hs : s.Custody) (h : s.output.Ordered) (hserved : s.Served) :
    s.waitingForRequest = none := by
  cases hwaiting : s.waitingForRequest with
  | none => rfl
  | some handler =>
    refine (hs.not_held h hserved handler ?_).elim
    simp [held, hwaiting]

end Side

end Warpcoil
