import Warpcoil.FailedWrite
import Warpcoil.Tended

/-! Which bytes make a server throw. The name in a header and the length in front of a string or a
vector come from the peer. -/
namespace Warpcoil
open Incremental Platform Transition

section Parser
variable [Platform]

/-- The byte completes a length that is greater than the `max_size()` of what it is the length
of. -/
def Parser.overlong : Parser → UInt8 → Bool
  | .utf8Length p, input =>
    match p.parseByte input with
    | .complete n _ => decide (stringMaxSize < n)
    | .more _ | .fail _ => false
  | .vectorLength p element, input =>
    match p.parseByte input with
    | .complete n _ => decide (vectorMaxSize element.resultType < n)
    | .more _ | .fail _ => false
  | .vectorElement _ p _ _, input => p.overlong input
  | .variantElement _ _ p, input => p.overlong input
  | .currentElement _ _ _ p _, input => p.overlong input
  | .integer _, _ | .utf8Element _ _, _ | .variantIndex _ _, _ | .empty _, _ => false

/-- One of the bytes does, before the parser has stopped. -/
def Parser.announces : Parser → List UInt8 → Bool
  | _, [] => false
  | p, b :: bs =>
    p.overlong b ||
      match p.parseByte b with
      | .more p => p.announces bs
      | .complete _ _ | .fail _ => false

omit [Platform] in
theorem IntegerParser.parseByte_ne_fail {p : IntegerParser} {b : UInt8} {e : ParseFailure} :
    p.parseByte b ≠ .fail e := by
  unfold IntegerParser.parseByte
  dsimp only
  split_ifs <;> exact nofun

theorem Parser.parseByte_lengthError : ∀ (p : Parser) (b : UInt8),
    p.parseByte b = .fail .lengthError ↔ p.overlong b = true
  | .integer p, b => by
    cases hp : p.parseByte b with
    | complete n consumed => simp only [Parser.parseByte, Parser.overlong, hp, reduceCtorEq]
    | more p => simp only [Parser.parseByte, Parser.overlong, hp, reduceCtorEq]
    | fail e => exact (IntegerParser.parseByte_ne_fail hp).elim
  | .utf8Length p, b => by
    cases hp : p.parseByte b with
    | complete n consumed =>
      simp only [Parser.parseByte, Parser.overlong, hp]
      split_ifs with hlong hzero <;> simp [hlong]
    | more p => simp only [Parser.parseByte, Parser.overlong, hp, reduceCtorEq, Bool.false_eq_true]
    | fail e => exact (IntegerParser.parseByte_ne_fail hp).elim
  | .utf8Element result currentIndex, b => by
    simp only [Parser.parseByte, Parser.overlong]
    split_ifs <;> simp
  | .vectorLength p element, b => by
    cases hp : p.parseByte b with
    | complete n consumed =>
      simp only [Parser.parseByte, Parser.overlong, hp]
      split_ifs with hzero hlong <;> simp [hzero, *]
    | more p => simp only [Parser.parseByte, Parser.overlong, hp, reduceCtorEq, Bool.false_eq_true]
    | fail e => exact (IntegerParser.parseByte_ne_fail hp).elim
  | .vectorElement element p result capacity, b => by
    have ih := Parser.parseByte_lengthError p b
    rw [Parser.overlong, ← ih]
    cases hp : p.parseByte b with
    | complete v consumed =>
      simp only [Parser.parseByte, hp]
      split_ifs <;> simp
    | more p => simp only [Parser.parseByte, hp, reduceCtorEq]
    | fail e => simp only [Parser.parseByte, hp, Step.fail.injEq]
  | .variantIndex elements p, b => by
    simp only [Parser.overlong]
    cases hp : p.parseByte b with
    | complete n consumed =>
      simp only [Parser.parseByte, hp]
      split <;> simp
    | more p => simp only [Parser.parseByte, hp, reduceCtorEq, Bool.false_eq_true]
    | fail e => exact (IntegerParser.parseByte_ne_fail hp).elim
  | .variantElement elements element p, b => by
    have ih := Parser.parseByte_lengthError p b
    rw [Parser.overlong, ← ih]
    cases hp : p.parseByte b with
    | complete v consumed => simp only [Parser.parseByte, hp, reduceCtorEq]
    | more p => simp only [Parser.parseByte, hp, reduceCtorEq]
    | fail e => simp only [Parser.parseByte, hp, Step.fail.injEq]
  | .empty kind, b => by simp [Parser.parseByte, Parser.overlong]
  | .currentElement kind types current p result, b => by
    have ih := Parser.parseByte_lengthError p b
    rw [Parser.overlong, ← ih]
    cases hp : p.parseByte b with
    | complete v consumed =>
      simp only [Parser.parseByte, hp]
      split <;> simp
    | more p => simp only [Parser.parseByte, hp, reduceCtorEq]
    | fail e => simp only [Parser.parseByte, hp, Step.fail.injEq]

/-- `reserve` or `resize` throws exactly when such a length has been read. -/
theorem Parser.read_lengthError (p : Parser) (bs : List UInt8) :
    p.read bs = .fail .lengthError ↔ p.announces bs = true := by
  induction bs generalizing p with
  | nil => simp [Parser.read, Incremental.read, Parser.announces]
  | cons b bs ih =>
    have hbyte := Parser.parseByte_lengthError p b
    simp only [Parser.read, Incremental.read, Parser.announces] at ih ⊢
    cases hp : p.parseByte b with
    | complete v consumed =>
      rw [hp] at hbyte
      cases consumed <;> simpa using hbyte
    | more p' =>
      rw [hp] at hbyte
      have hnot : p.overlong b = false := by simpa using hbyte
      rw [hnot, Bool.false_or]
      exact ih p'
    | fail e =>
      rw [hp] at hbyte
      simpa using hbyte

end Parser

/-- A continuation of the server, for a method of the interface. -/
def Continuation.serves (servers : InterfaceDefinition) : Continuation → Prop
  | .messageType | .request => True
  | .argument _ name m _ => servers.find name = some m
  | .response | .result _ => False

/-- A frame of the server, and no error has the code of a success. -/
def Frame.serves (servers : InterfaceDefinition) : Frame → Prop
  | .start operation => operation.onResult.serves servers
  | .argumentUnlocked _ name m _ argument =>
    servers.find name = some m ∧ argument ≠ .error .success
  | .requestContinue _ | .errors _ _ | .writer | .user => True
  | .errorContinue _ _ | .responseContinue _ | .resultUnlocked _ _ | .resultReady _ _ => False

/-- What `parse_operation::start` finds in the buffer. -/
def ParseOperation.outcome [Platform] (operation : ParseOperation) (buffer : List UInt8) :
    Reading Parser UInt8 Value ParseFailure :=
  match operation.parser.checkForImmediateCompletion with
  | some v => .complete v buffer
  | none => operation.parser.read buffer

/-- The result is a header that names a method the interface does not have. -/
def Continuation.misnames (servers : InterfaceDefinition) : Continuation → Value → Bool
  | .request, .tuple [.integer _, .utf8 name] => (servers.find name).isNone
  | _, _ => false

/-- The operation reads such a header. -/
def ParseOperation.misnames [Platform] (servers : InterfaceDefinition)
    (operation : ParseOperation) (buffer : List UInt8) : Bool :=
  match operation.outcome buffer with
  | .complete v _ => operation.onResult.misnames servers v
  | .more _ | .fail _ => false

/-- The operation reads a length that is too great. -/
def ParseOperation.oversizes [Platform] (operation : ParseOperation) (buffer : List UInt8) : Bool :=
  operation.parser.checkForImmediateCompletion.isNone && operation.parser.announces buffer

theorem ParseOperation.outcome_lengthError [Platform] (operation : ParseOperation)
    (buffer : List UInt8) :
    operation.outcome buffer = .fail .lengthError ↔ operation.oversizes buffer = true := by
  unfold ParseOperation.outcome ParseOperation.oversizes
  cases operation.parser.checkForImmediateCompletion with
  | none => simpa using Parser.read_lengthError operation.parser buffer
  | some v => simp

theorem BufferedWriter.proceed_sent {η : Type*} {w v : BufferedWriter η}
    (h : w.proceed = some v) : v.sent = w.sent := by
  unfold BufferedWriter.proceed at h
  split at h
  · cases h
  · cases h; rfl
  · cases h; rfl
  · cases h; rfl

namespace Side

/-- The server meets such a name or such a length. -/
def hostile [Platform] (servers : InterfaceDefinition) (s : Side) : Event → Bool
  | .resume =>
    match s.stack with
    | .start operation :: _ =>
      operation.oversizes s.buffer || operation.misnames servers s.buffer
    | _ => false
  | .call _ _ | .serve | .answer _ _ | .return | .read _ _ | .readError _ _ | .written _ _ _ =>
    false

/-- Nobody uses the splitter but the server, which waits for one request at a time. -/
def servesOnly (s : Side) : Event → Bool
  | .call _ _ => false
  | .serve => s.waitingForRequest.isNone
  | .answer _ _ | .return | .resume | .read _ _ | .readError _ _ | .written _ _ _ => true

/-- The handlers of the requests that were dispatched. -/
def dispatched (s : Side) : List Nat := s.invoked.map Invocation.handler

structure Listening (servers : InterfaceDefinition) (s : Side) : Prop
    extends s.Tended (Frame.serves servers) fun operation => operation.onResult.serves servers where
  thrown : s.thrown = none
  response : s.waitingForResponse = false
  known : ∀ invocation ∈ s.invoked, servers.find invocation.name = some invocation.method
  sent : ∀ call ∈ s.output.sent, ∃ n ∈ s.dispatched, call.1 = .response n
  served : ∀ call ∈ s.history.served, call.2 = .success → call.1 ∈ s.dispatched

/-- A header has failed, and its waiter has not been told yet. -/
structure Failing (servers : InterfaceDefinition) (s : Side) (waiting : Bool) (ec : ErrorCode)
    (stack : List Frame) : Prop where
  stack_eq : s.stack = .errorContinue waiting ec :: stack
  error : ec ≠ .success
  waits : waiting = s.waitingForRequest.isSome
  active : active { s with stack } = []
  listening : Listening servers { s with stack }

def Serving (servers : InterfaceDefinition) (s : Side) : Prop :=
  s.Listening servers ∨ ∃ waiting ec stack, s.Failing servers waiting ec stack

variable {servers : InterfaceDefinition} {s : Side}

theorem Listening.hasWaiter (h : s.Listening servers) :
    s.hasWaiter = s.waitingForRequest.isSome := by
  rw [Side.hasWaiter, h.response, Bool.false_or]

theorem Listening.waits (h : s.Listening servers) {operation : ParseOperation}
    (hmem : operation ∈ s.active) (hheader : operation.onResult.isHeader = true) :
    s.waitingForRequest.isSome = true :=
  h.hasWaiter.symm.trans (h.awaits operation hmem hheader)

/-- Who listens goes on listening when only the splitter is used. -/
theorem Listening.attends {t : Side} (h : s.Listening servers) (hattends : Attends
      (Frame.serves servers) (fun operation => operation.onResult.serves servers) s t) :
    t.Listening servers := by
  have haside := hattends.aside
  simp only [aside, Prod.mk.injEq] at haside
  obtain ⟨hthrown, hresponse, -, -, hinvoked, houtput, -, -, -, hserved, -⟩ := haside
  have hdispatched : t.dispatched = s.dispatched := by rw [dispatched, dispatched, hinvoked]
  refine { hattends.tended with
    thrown := hthrown ▸ h.thrown, response := hresponse ▸ h.response, known := hinvoked ▸ h.known
    sent := ?_, served := ?_ }
  · rw [houtput, hdispatched]
    exact h.sent
  · rw [hserved, hdispatched]
    exact h.served

theorem Listening.push (h : s.Listening servers) {frame : Frame} (hserves : frame.serves servers)
    (hnone : frame.operation = []) : (s.push [frame]).Listening servers :=
  h.attends (h.toTended.push hserves hnone)

theorem Listening.waitForRequest (h : s.Listening servers) (handler : Nat) :
    (s.waitForRequest handler).Listening servers := by
  have hwaiting : Listening servers { s.assert .waitForRequest s.waitingForRequest.isNone with
      waitingForRequest := some handler, beginParseMessage := true } :=
    { h with armed := fun _ => .inr rfl, awaits := fun _ _ _ => Bool.or_true _ }
  unfold Side.waitForRequest
  dsimp only
  split_ifs
  · exact hwaiting
  · exact hwaiting.attends (hwaiting.toTended.callBeginParseMessage trivial rfl (Bool.or_true _))

theorem Listening.unlockInput (h : s.Listening servers) (hheader : s.parsingHeader = false) :
    s.unlockInput.Listening servers :=
  h.attends (h.toTended.unlockInput trivial hheader)

theorem Listening.complete (h : s.Listening servers) (handler : Nat) {ec : ErrorCode}
    (hdispatched : ec = .success → handler ∈ s.dispatched) :
    (s.complete handler ec).Listening servers := by
  refine Listening.push (s := s.note _) ?_ trivial rfl
  refine { h with served := ?_ }
  intro call hcall
  rcases List.mem_append.mp hcall with hold | hnew
  · exact h.served call hold
  · rw [List.mem_singleton.mp hnew]
    exact hdispatched

theorem Listening.onError_eq (h : s.Listening servers) (ec : ErrorCode) :
    s.onError ec = s.fail.push [.errorContinue s.waitingForRequest.isSome ec] := by
  unfold Side.onError
  dsimp only
  rw [if_neg (by rw [h.response]; exact Bool.false_ne_true)]

theorem Listening.onError (h : s.Listening servers) (hidle : s.active = []) {ec : ErrorCode}
    (hec : ec ≠ .success) :
    (s.onError ec).Failing servers s.waitingForRequest.isSome ec s.stack := by
  rw [h.onError_eq]
  exact ⟨rfl, hec, rfl, hidle, { h with }⟩

theorem Listening.onMessageType (h : s.Listening servers) (hidle : s.active = [])
    (hwaits : s.waitingForRequest.isSome = true) (type : Except ErrorCode Value)
    (hec : type ≠ .error .success) : (s.onMessageType type).Serving servers := by
  have herror {ec : ErrorCode} (hne : ec ≠ .success) : (s.onError ec).Serving servers :=
    .inr ⟨_, _, _, h.onError hidle hne⟩
  unfold Side.onMessageType
  split
  · next ec => exact herror fun hsuccess => hec (by rw [hsuccess])
  · rw [h.response, if_neg Bool.false_ne_true, if_pos hwaits]
    split_ifs
    · exact herror nofun
    · exact .inl (h.attends (h.toTended.start trivial fun _ => h.hasWaiter.trans hwaits))
    · exact herror nofun

/-- The header names a method of the interface, or the server throws. -/
theorem Listening.onRequest (h : s.Listening servers) (handler : Nat) (id : RequestId)
    (name : Identifier) :
    ((servers.find name).isNone = true →
        (Side.onRequest servers s handler (.ok (id, name))).thrown = some .unknownMethodName) ∧
      ((servers.find name).isNone = false →
        (Side.onRequest servers s handler (.ok (id, name))).Listening servers) := by
  unfold Side.onRequest
  dsimp only
  cases hfind : servers.find name with
  | none => exact ⟨fun _ => rfl, nofun⟩
  | some m =>
    refine ⟨nofun, fun _ => ?_⟩
    have hlocked : s.lockInput.Listening servers := { h with }
    exact hlocked.attends (hlocked.toTended.start hfind nofun)

theorem Listening.onRequestHeader (h : s.Listening servers) (hidle : s.active = [])
    (hwaits : s.waitingForRequest.isSome = true) (header : Value) :
    (Continuation.misnames servers .request header = true →
        (Side.onRequestHeader servers s (.ok header)).thrown ≠ none) ∧
      (Continuation.misnames servers .request header = false →
        (Side.onRequestHeader servers s (.ok header)).Listening servers) := by
  obtain ⟨handler, hhandler⟩ := Option.isSome_iff_exists.mp hwaits
  have htaken (a b : Assertion) (c d : Bool) : Listening servers
      (Side.push { (s.assert a c).assert b d with
        parsingHeader := false, waitingForRequest := none }
        [.requestContinue s.waitingForResponse]) := by
    refine Listening.push ?_ trivial rfl
    have hnone := (Bool.or_false s.waitingForResponse).trans h.response
    exact { h with toTended := h.toTended.told hidle hnone rfl rfl }
  unfold Side.onRequestHeader
  dsimp only
  split
  · next heq => cases heq
  · next id name heq =>
    obtain rfl := Except.ok.inj heq
    split
    · next handler' _ =>
      have hname := (htaken .requestWaiting .requestHeader s.waitingForRequest.isSome
        (s.assert .requestWaiting s.waitingForRequest.isSome).parsingHeader).onRequest handler'
        (UInt64.ofNat id) name
      refine ⟨fun hnone hthrown => ?_, hname.2⟩
      cases (hname.1 hnone).symm.trans hthrown
    · next hnone => cases hhandler.symm.trans hnone
  · next hother heq =>
    obtain rfl := Except.ok.inj heq
    have hfalse : Continuation.misnames servers .request header = false := by
      unfold Continuation.misnames
      split
      · next id name _ => exact (hother id name rfl).elim
      · rfl
    rw [hfalse]
    exact ⟨fun hne => absurd hne Bool.false_ne_true, fun _ => { h with }⟩

/-- The handler of an operation that has just stopped with an error. -/
theorem Listening.call_error (h : s.Listening servers) {k : Continuation} (hopened : s.Opened k)
    (hserves : k.serves servers) (hwaits : k.isHeader = true → s.waitingForRequest.isSome = true)
    {ec : ErrorCode} (hec : ec ≠ .success) :
    (Side.call servers s k (.error ec)).Serving servers := by
  have hidle : s.active = [] := hopened.active
  cases k with
  | messageType => exact h.onMessageType hidle (hwaits rfl) _ fun heq => hec (Except.error.inj heq)
  | response => exact hserves.elim
  | request =>
    exact .inr ⟨_, _, _, Listening.onError
      (s := s.assert .requestWaiting s.waitingForRequest.isSome) { h with } hidle hec⟩
  | result expected => exact hserves.elim
  | argument id name m handler =>
    refine .inl (Listening.unlockInput (s := s.push [_]) (h.push ?_ rfl) hopened.parsingHeader)
    exact ⟨hserves, fun heq => hec (Except.error.inj heq)⟩

theorem Listening.call_ok (h : s.Listening servers) {k : Continuation} (hopened : s.Opened k)
    (hserves : k.serves servers) (hwaits : k.isHeader = true → s.waitingForRequest.isSome = true)
    {v : Value} (hnamed : k.misnames servers v = false) :
    (Side.call servers s k (.ok v)).Serving servers := by
  have hidle : s.active = [] := hopened.active
  cases k with
  | messageType => exact h.onMessageType hidle (hwaits rfl) (.ok v) nofun
  | response => exact hserves.elim
  | request => exact .inl ((h.onRequestHeader hidle (hwaits rfl) v).2 hnamed)
  | result expected => exact hserves.elim
  | argument id name m handler =>
    refine .inl (Listening.unlockInput (s := s.push [_]) (h.push ?_ rfl) hopened.parsingHeader)
    exact ⟨hserves, nofun⟩

variable [Platform]

omit [Platform] in
/-- What `parse_operation::start` does with what it finds. -/
theorem start_outcome [Platform] (servers : InterfaceDefinition) (s : Side)
    (operation : ParseOperation) :
    s.start servers operation =
      match operation.outcome s.buffer with
      | .complete v rest => s.callWith servers operation.onResult v rest
      | .more parser =>
        { s with buffer := [],
                 reads := s.reads ++
                   [{ operation with parser, seen := operation.seen ++ s.buffer }] }
      | .fail .invalidInput => s.fail.call servers operation.onResult (.error .invalidInput)
      | .fail .lengthError => s.throw .lengthError := by
  unfold Side.start ParseOperation.outcome
  cases operation.parser.checkForImmediateCompletion with
  | some v => rfl
  | none =>
    cases operation.parser.read s.buffer with
    | complete v rest => rfl
    | more parser => rfl
    | fail e => cases e <;> rfl

/-- A parse operation takes its next step. -/
theorem Listening.starts (h : s.Listening servers) {operation : ParseOperation}
    (hopened : s.Opened operation.onResult) (hserves : operation.onResult.serves servers)
    (hwaits : operation.onResult.isHeader = true → s.waitingForRequest.isSome = true) :
    ((operation.oversizes s.buffer || operation.misnames servers s.buffer) = true →
        (s.start servers operation).thrown ≠ none) ∧
      ((operation.oversizes s.buffer || operation.misnames servers s.buffer) = false →
        (s.start servers operation).Serving servers) := by
  have hlong := operation.outcome_lengthError s.buffer
  rw [start_outcome]
  unfold ParseOperation.misnames
  cases houtcome : operation.outcome s.buffer with
  | complete v rest =>
    have hshort : operation.oversizes s.buffer = false := by
      rw [houtcome] at hlong
      simpa using hlong
    have hentered : Listening servers (Side.note { s with buffer := rest } fun h =>
        { h with parsed := h.parsed ++ [⟨operation.onResult, v⟩] }) :=
      { h with }
    rw [hshort, Bool.false_or]
    dsimp only
    unfold callWith
    cases hkind : operation.onResult with
    | request =>
      rw [hkind] at hopened hwaits hentered
      obtain ⟨hthrows, hlistens⟩ := hentered.onRequestHeader hopened.active (hwaits rfl) v
      exact ⟨hthrows, fun hnamed => .inl (hlistens hnamed)⟩
    | messageType | response | result | argument =>
      rw [hkind] at hopened hwaits hentered hserves
      refine ⟨fun h => absurd h Bool.false_ne_true, fun _ => ?_⟩
      exact hentered.call_ok (hopened.of_gate rfl) hserves hwaits rfl
  | more parser =>
    have hshort : operation.oversizes s.buffer = false := by
      rw [houtcome] at hlong
      simpa using hlong
    rw [hshort, Bool.false_or]
    refine ⟨fun h => absurd h Bool.false_ne_true,
      fun _ => .inl { h with toTended := ?_ }⟩
    exact h.toTended.more hserves fun hheader => h.hasWaiter.trans (hwaits hheader)
  | fail e =>
    rw [houtcome] at hlong
    cases e with
    | lengthError =>
      rw [hlong.mp rfl, Bool.true_or]
      exact ⟨fun _ => Option.some_ne_none _, fun h => absurd h.symm Bool.false_ne_true⟩
    | invalidInput =>
      have hshort : operation.oversizes s.buffer = false := by simpa using hlong
      rw [hshort, Bool.false_or]
      refine ⟨fun h => absurd h Bool.false_ne_true, fun _ => ?_⟩
      refine Listening.call_error (s := s.fail) ?_ (hopened.of_gate rfl) hserves hwaits
        (by decide)
      exact { h with }

omit [Platform] in
theorem Listening.pop (h : s.Listening servers) {frame : Frame} {stack : List Frame}
    (hstack : s.stack = frame :: stack) : Listening servers { s with stack } :=
  { h with toTended := h.toTended.pop hstack }

omit [Platform] in
/-- The handlers that the writer calls were sent. -/
theorem calls_back_sent {w : BufferedWriter Sent} (h : w.Ordered) {handler : Sent}
    {handlers : List Sent} {ec : ErrorCode} {stack : List (SendFrame Sent)}
    (hstack : w.stack = .onResult (handler :: handlers) ec :: stack) :
    ∃ call ∈ w.sent, call.1 = handler := by
  obtain ⟨done, running, writing, queued, hsent, -, hrunning, -⟩ := h.custody
  simp only [BufferedWriter.Running, hstack] at hrunning
  have hmem : handler ∈ running.map Prod.fst := by
    rw [hrunning.1]
    exact List.mem_cons_self
  obtain ⟨call, hcall, heq⟩ := List.mem_map.mp hmem
  exact ⟨call, by simp [hsent, hcall], heq⟩

omit [Platform] in
theorem Listening.continueWriter (h : s.Listening servers) (hordered : s.output.Ordered) :
    s.continueWriter.Listening servers := by
  unfold Side.continueWriter
  cases hproceed : s.output.proceed with
  | none => exact h
  | some output =>
    have hnext : (Side.push { s with output } [.writer]).Listening servers := by
      refine Listening.push (s := { s with output }) ?_ trivial rfl
      exact { h with sent := (BufferedWriter.proceed_sent hproceed) ▸ h.sent }
    dsimp only
    split
    · next handler handlers ec stack hstack =>
      obtain ⟨call, hcall, rfl⟩ := calls_back_sent hordered hstack
      unfold onSent
      split
      · split_ifs
        · exact hnext
        · refine Listening.push (s := { Side.fail _ with
            expectedResponses := [], state := .notExpectingResponse }) ?_ trivial rfl
          exact { hnext with }
      · next handler hresponse =>
        obtain ⟨n, hn, heq⟩ := h.sent call hcall
        obtain rfl := Sent.response.inj (hresponse.symm.trans heq)
        exact hnext.complete handler fun _ => hn
    · exact hnext

omit [Platform] in
theorem Listening.continueArgument (h : s.Listening servers) {id : RequestId} {name : Identifier}
    {m : Method} {argument : Except ErrorCode Value} (hfind : servers.find name = some m)
    (hec : argument ≠ .error .success) (handler : Nat) :
    (s.continueArgument id name m handler argument).Listening servers := by
  cases argument with
  | error ec => exact h.complete handler fun hsuccess => (hec (by rw [hsuccess])).elim
  | ok v =>
    refine Listening.push (s := { s with
      invoked := s.invoked ++ [⟨id, name, m, v, handler⟩],
      unanswered := s.unanswered ++ [s.invoked.length] }) ?_ trivial rfl
    have hmono {n : Nat} (hn : n ∈ s.dispatched) :
        n ∈ (s.invoked ++ [(⟨id, name, m, v, handler⟩ : Invocation)]).map Invocation.handler := by
      rw [List.map_append]
      exact List.mem_append_left _ hn
    refine { h with known := ?_, sent := ?_, served := ?_ }
    · intro invocation hinvocation
      rcases List.mem_append.mp hinvocation with hold | hnew
      · exact h.known invocation hold
      · rw [List.mem_singleton.mp hnew]
        exact hfind
    · intro call hcall
      obtain ⟨n, hn, heq⟩ := h.sent call hcall
      exact ⟨n, hmono hn, heq⟩
    · exact fun call hcall hsuccess => hmono (h.served call hcall hsuccess)

omit [Platform] in
/-- The waiter is told of the error. -/
theorem Failing.resume {waiting : Bool} {ec : ErrorCode} {stack : List Frame}
    (h : s.Failing servers waiting ec stack) :
    (continueError servers { s with stack } waiting ec).Listening servers := by
  unfold continueError
  rw [h.waits]
  split_ifs with hwaiting
  · obtain ⟨handler, hhandler⟩ := Option.isSome_iff_exists.mp hwaiting
    dsimp only
    rw [hhandler]
    refine Listening.complete (s := { s with stack, waitingForRequest := none }) ?_ handler
      fun hsuccess => (h.error hsuccess).elim
    have hnone := (Bool.or_false s.waitingForResponse).trans h.listening.response
    exact { h.listening with toTended := h.listening.toTended.told h.active hnone rfl rfl }
  · exact h.listening

theorem Listening.resume (h : s.Listening servers) (hexclusive : s.Exclusive)
    (hordered : s.output.Ordered) {frame : Frame} {stack : List Frame}
    (hstack : s.stack = frame :: stack) :
    (s.hostile servers .resume = true →
        (Side.resume servers { s with stack } frame).thrown ≠ none) ∧
      (s.hostile servers .resume = false →
        (Side.resume servers { s with stack } frame).Serving servers) := by
  have hpop := h.pop hstack
  have hserves : frame.serves servers := h.frames frame (hstack ▸ List.mem_cons_self)
  unfold hostile
  rw [hstack]
  cases frame with
  | start operation =>
    have hperm := active_start hstack
    refine hpop.starts (hexclusive.opened hperm rfl) hserves ?_
    exact h.waits (hperm.mem_iff.mpr List.mem_cons_self)
  | requestContinue continue_ =>
    refine ⟨nofun, fun _ => .inl ?_⟩
    have hresponse : s.waitingForResponse = false := h.response
    unfold Side.resume continueRequest
    dsimp only
    rw [if_neg (by rw [hresponse]; simp)]
    exact hpop
  | errors handlers ec =>
    refine ⟨nofun, fun _ => .inl ?_⟩
    cases handlers with
    | nil => exact hpop
    | cons handler handlers =>
      have herrors := @Listening.push _ _ hpop (.errors handlers ec) trivial rfl
      refine Listening.push (s := Side.note _ _) ?_ trivial rfl
      exact { herrors with }
  | argumentUnlocked id name m handler argument =>
    exact ⟨nofun, fun _ => .inl (hpop.continueArgument hserves.1 hserves.2 handler)⟩
  | writer => exact ⟨nofun, fun _ => .inl (hpop.continueWriter hordered)⟩
  | user => exact ⟨nofun, fun _ => .inl hpop⟩
  | errorContinue | responseContinue | resultUnlocked | resultReady => exact hserves.elim

omit [Platform] in
theorem Listening.without (h : s.Listening servers) (index : Nat) :
    Listening servers { s with reads := s.reads.eraseIdx index } :=
  { h with toTended := h.toTended.without index }

omit [Platform] in
theorem Listening.answer [Platform] (h : s.Listening servers) {index : Nat}
    {invocation : Invocation} (hinvoked : s.invoked[index]? = some invocation)
    (result : Except ErrorCode Value) : (s.answer index invocation result).Listening servers := by
  have hdispatched : invocation.handler ∈ s.dispatched :=
    List.mem_map_of_mem (List.mem_of_getElem? hinvoked)
  cases result with
  | error ec =>
    refine Listening.complete (s := { s with unanswered := s.unanswered.erase index }) ?_ _
      fun _ => hdispatched
    exact { h with }
  | ok v =>
    have happended (message : Emission UInt8) : Listening servers (Side.note
        { s with unanswered := s.unanswered.erase index,
                 output := s.output.append message.output } fun h =>
        { h with responses := h.responses ++ [(index, message)],
                 answers := h.answers ++ [(index, v)],
                 messages := h.messages ++ [message] }) :=
      { h with }
    unfold Side.answer
    dsimp only
    split_ifs
    · refine { happended _ with sent := ?_ }
      intro call hcall
      rw [show (Side.note _ _).output = s.output.append _ from rfl, sendBuffer_sent] at hcall
      rcases List.mem_append.mp hcall with hold | hnew
      · exact h.sent call hold
      · rw [List.mem_singleton.mp hnew]
        exact ⟨_, hdispatched, rfl⟩
    · exact (happended _).complete _ fun _ => hdispatched

/-- Only hostile bytes make a server throw. -/
theorem step_serving {clients : InterfaceDefinition} {s' : Side} {event : Event}
    (h : s.Serving servers) (hexclusive : s.Exclusive) (hordered : s.output.Ordered)
    (honly : s.servesOnly event = true) (htaken : Taken clients servers s event s') :
    (s.hostile servers event = true → s'.thrown ≠ none) ∧
      (s.hostile servers event = false → s'.Serving servers) := by
  rcases h with h | ⟨waiting, ec, stack, h⟩
  · cases htaken with
    | call => cases honly
    | serve =>
      refine ⟨nofun, fun _ => .inl (Listening.waitForRequest (s := Side.note _ _) ?_ _)⟩
      exact { h with }
    | answer _ hinvoked => exact ⟨nofun, fun _ => .inl (h.answer hinvoked _)⟩
    | «return» hstack => exact ⟨nofun, fun _ => .inl (h.pop hstack)⟩
    | resume hstack => exact h.resume hexclusive hordered hstack
    | @read index bytes operation hstack hreads =>
      have hmem := List.mem_of_getElem? hreads
      have hreceived : Listening servers (Side.note { s with reads := s.reads.eraseIdx index,
                                                             buffer := s.buffer ++ bytes }
          fun h => { h with received := h.received ++ bytes }) := { h.without index with }
      exact ⟨nofun, fun _ => .inl (hreceived.attends (hreceived.toTended.start
        (h.reads operation hmem) (h.awaits operation (List.mem_append_right _ hmem))))⟩
    | @readError index ec operation hstack hreads hec =>
      have hmem := List.mem_of_getElem? hreads
      refine ⟨nofun, fun _ => Listening.call_error
        (s := { s.fail with reads := s.reads.eraseIdx index }) ?_ ?_
        (h.reads operation hmem) (h.waits (List.mem_append_right _ hmem)) hec⟩
      · exact { h.without index with }
      · exact hexclusive.opened (active_perm hstack hreads rfl) rfl
    | @written index transferred ec output hstack hwritten =>
      refine ⟨nofun, fun _ => .inl (Listening.push (s := { s with output }) ?_ trivial rfl)⟩
      obtain ⟨-, -, -, -, -, hsent⟩ := BufferedWriter.written_eq hwritten
      exact { h with sent := hsent ▸ h.sent }
  · -- nothing but the rest of `on_error` can run now
    have hruns : s.userRuns = false := by rw [userRuns, h.stack_eq]
    have hbusy {P : Prop} (hstack : s.stack = []) : P := by
      rw [h.stack_eq] at hstack
      cases hstack
    cases htaken with
    | call => cases honly
    | serve hruns' => cases hruns.symm.trans hruns'
    | answer hruns' => cases hruns.symm.trans hruns'
    | «return» hstack =>
      rw [h.stack_eq] at hstack
      cases hstack
    | @resume frame stack' hstack =>
      have hstack' := hstack
      rw [h.stack_eq, List.cons.injEq] at hstack'
      obtain ⟨rfl, rfl⟩ := hstack'
      unfold hostile
      rw [h.stack_eq]
      exact ⟨nofun, fun _ => .inl h.resume⟩
    | read hstack => exact hbusy hstack
    | readError hstack => exact hbusy hstack
    | written hstack => exact hbusy hstack

omit [Platform] in
theorem listening_initial (servers : InterfaceDefinition) : ({} : Side).Listening servers :=
  ⟨tended_initial _ _, rfl, rfl, nofun, nofun, nofun⟩

/-- Nothing runs after an exception. -/
theorem run_thrown {clients : InterfaceDefinition} {s' : Side} {events : List Event}
    (hthrown : s.thrown ≠ none) (hrun : run (step clients servers) s events = some s') :
    s'.thrown ≠ none := by
  cases events with
  | nil =>
    cases hrun
    exact hthrown
  | cons event events =>
    obtain ⟨t, hstep, -⟩ := run_cons.mp hrun
    exact (hthrown (taken_of_step hstep).1).elim

theorem run_serving {clients : InterfaceDefinition} {s' : Side} {events : List Event}
    (h : s.Serving servers) (hreached : Reaches (step clients servers) {} s)
    (honly : Along (step clients servers) (fun s event => s.servesOnly event = true) s events)
    (hrun : run (step clients servers) s events = some s') :
    Along (step clients servers) (fun s event => s.hostile servers event = false) s events ∧
        s'.Serving servers ∨
      ¬ Along (step clients servers) (fun s event => s.hostile servers event = false) s events ∧
        s'.thrown ≠ none := by
  induction events generalizing s with
  | nil =>
    cases hrun
    exact .inl ⟨trivial, h⟩
  | cons event events ih =>
    obtain ⟨t, hstep, hrest⟩ := run_cons.mp hrun
    have hsame {u : Side} (hu : step clients servers s event = some u) : u = t :=
      Option.some.inj (hu.symm.trans hstep)
    obtain ⟨hthrows, hserves⟩ := step_serving h
      ((exclusive_step clients servers).reaches exclusive_initial hreached)
      (output_ordered hreached) honly.1 (taken_of_step hstep).2
    cases hhostile : s.hostile servers event with
    | true =>
      refine .inr ⟨fun hall => ?_, run_thrown (hthrows hhostile) hrest⟩
      rw [hall.1] at hhostile
      cases hhostile
    | false =>
      rcases ih (hserves hhostile) (hreached.trans (.single hstep)) (honly.2 t hstep) hrest with
        ⟨halong, hend⟩ | ⟨halong, hend⟩
      · exact .inl ⟨⟨hhostile, fun u hu => hsame hu ▸ halong⟩, hend⟩
      · exact .inr ⟨fun hall => halong (hall.2 t hstep), hend⟩

theorem custody_only {clients : InterfaceDefinition} {events : List Event}
    (honly : Along (step clients servers) (fun s event => s.servesOnly event = true) {} events)
    (hrun : run (step clients servers) {} events = some s) : s.thrown = none → s.Custody := by
  refine Along.run (P := fun t : Side => t.thrown = none → t.Custody)
    (fun t event t' ht honly hstep hthrown => ?_) (fun _ => custody_initial) honly hrun
  refine custody_step (ht (taken_of_step hstep).1) hstep hthrown (fun name arguments hcall => ?_)
    fun hserve => ?_
  · rw [hcall] at honly
    cases honly
  · rw [hserve] at honly
    exact Option.isNone_iff_eq_none.mp honly

omit [Platform] in
/-- Where the handler of a `serve_one_request` is when nothing runs. -/
theorem Listening.placed (h : s.Listening servers) (hcustody : s.Custody) (hstack : s.stack = [])
    {n : Nat} (hn : n < s.history.serves) :
    n ∈ s.dispatched ∨ (∃ ec, ec ≠ .success ∧ (n, ec) ∈ s.history.served) ∨
      s.waitingForRequest = some n ∨
      ∃ operation ∈ s.reads, ∃ id name m, operation.onResult = .argument id name m n := by
  have hcount : 0 < s.places.count (.serve n) := by
    have htally := hcustody.tally (.serve n)
    rw [created, if_pos hn] at htally
    rw [← tally]
    omega
  have hmem := List.count_pos_iff.mp hcount
  simp only [places, held, hstack, List.flatMap_nil, List.nil_append, List.mem_append,
    List.mem_flatMap, List.mem_map, reduceCtorEq, and_false, exists_false, or_false,
    Token.serve.injEq, exists_eq_right, Option.mem_toList] at hmem
  rcases hmem with ((((⟨operation, hread, htoken⟩ | hwaiting) | ⟨index, -, htoken⟩) |
    ⟨call, hcall, htoken⟩) | ⟨call, hcall, rfl⟩)
  · refine .inr (.inr (.inr ⟨operation, hread, ?_⟩))
    cases hkind : operation.onResult with
    | argument id name m handler =>
      rw [hkind] at htoken
      obtain rfl := Token.serve.inj (List.mem_singleton.mp htoken)
      exact ⟨id, name, m, rfl⟩
    | messageType | response | request => rw [hkind] at htoken; cases htoken
    | result expected => rw [hkind] at htoken; cases List.mem_singleton.mp htoken
  · exact .inr (.inr (.inl hwaiting))
  · refine .inl ?_
    unfold callback at htoken
    cases hinvoked : s.invoked[index]? with
    | none => rw [hinvoked] at htoken; cases htoken
    | some invocation =>
      rw [hinvoked] at htoken
      obtain rfl := Token.serve.inj (List.mem_singleton.mp htoken)
      exact List.mem_map_of_mem (List.mem_of_getElem? hinvoked)
  · obtain ⟨handler, hdispatched, hsent⟩ := h.sent call hcall
    rw [hsent] at htoken
    obtain rfl := Token.serve.inj (List.mem_singleton.mp htoken)
    exact .inl hdispatched
  · obtain ⟨handler, ec⟩ := call
    by_cases hec : ec = .success
    · exact .inl (h.served _ hcall hec)
    · exact .inr (.inl ⟨ec, hec, hcall⟩)

/-- A server throws exactly when it reads the name of a method that its interface does not have,
or a length that is greater than a `max_size()`. While it has not thrown and nothing runs, every
`serve_one_request` was dispatched to a method of the interface, has had its handler called with
an error, or still waits for input. -/
theorem throws_iff_hostile (clients servers : InterfaceDefinition) (events : List Event) (s : Side)
    (honly : Along (Side.step clients servers) (fun s event => s.servesOnly event = true) {} events)
    (hrun : run (Side.step clients servers) {} events = some s) :
    (s.thrown = none ↔ Along (Side.step clients servers)
      (fun s event => s.hostile servers event = false) {} events) ∧
    (s.thrown = none →
      (∀ invocation ∈ s.invoked, servers.find invocation.name = some invocation.method) ∧
      (s.stack = [] → ∀ n < s.history.serves,
        (∃ invocation ∈ s.invoked, invocation.handler = n) ∨
        (∃ ec, ec ≠ .success ∧ (n, ec) ∈ s.history.served) ∨
        s.waitingForRequest = some n ∨
        ∃ operation ∈ s.reads, ∃ id name m, operation.onResult = .argument id name m n)) := by
  rcases run_serving (.inl (listening_initial servers)) (Reaches.refl _ _) honly hrun with
    ⟨halong, hserving⟩ | ⟨halong, hthrown⟩
  · have hcustody := custody_only honly hrun
    rcases hserving with h | ⟨waiting, ec, stack, h⟩
    · refine ⟨⟨fun _ => halong, fun _ => h.thrown⟩, fun hthrown => ⟨h.known, ?_⟩⟩
      intro hstack n hn
      rcases h.placed (hcustody hthrown) hstack hn with hdispatched | hplace
      · exact .inl (List.mem_map.mp hdispatched)
      · exact .inr hplace
    · refine ⟨⟨fun _ => halong, fun _ => h.listening.thrown⟩, fun _ => ⟨h.listening.known, ?_⟩⟩
      intro hstack
      rw [h.stack_eq] at hstack
      cases hstack
  · exact ⟨⟨fun hnone => (hthrown hnone).elim, fun hall => (halong hall).elim⟩,
      fun hnone => (hthrown hnone).elim⟩

omit [Platform] in
/-- One request is dispatched, and the header of the next one is malformed. -/
theorem throws_iff_hostile_two :
    letI := Platform.reference
    let events : List Event := [.serve, .resume, .read 0 [0, 0, 0, 0, 0, 0, 0, 0, 1, 1], .resume,
      .resume, .read 0 [0x66, 0, 7, 0, 0, 0], .resume, .resume, .resume, .serve, .resume, .resume,
      .return, .resume, .read 0 [0, 0, 0, 0, 0, 2, 1, 0xff], .resume, .resume, .return]
    ∃ s, run (Side.step exampleInterface exampleInterface) {} events = some s ∧
      s.thrown = none ∧ ∀ n < s.history.serves,
        (∃ invocation ∈ s.invoked, invocation.handler = n) ∨
        (∃ ec, ec ≠ .success ∧ (n, ec) ∈ s.history.served) ∨
        s.waitingForRequest = some n ∨
        ∃ operation ∈ s.reads, ∃ id name m, operation.onResult = .argument id name m n := by
  letI := Platform.reference
  intro events
  have hidle : (run (Side.step exampleInterface exampleInterface) {} events).any (fun s =>
      s.thrown.isNone && s.stack.isEmpty) = true := by decide +kernel
  obtain ⟨s, hrun, hs⟩ := (Option.any_eq_true _ _).mp hidle
  simp only [Bool.and_eq_true, Option.isNone_iff_eq_none, List.isEmpty_iff] at hs
  have hserver := throws_iff_hostile exampleInterface exampleInterface events s (by decide +kernel)
    hrun
  exact ⟨s, hrun, hs.1, (hserver.2 hs.1).2 hs.2⟩

omit [Platform] in
/-- A request for a method with another name. -/
theorem throws_iff_hostile_name :
    letI := Platform.reference
    let events : List Event := [.serve, .resume,
      .read 0 [0, 0, 0, 0, 0, 0, 0, 0, 1, 1, 0x78], .resume, .resume]
    ∃ s, run (Side.step exampleInterface exampleInterface) {} events = some s ∧
      exampleInterface.methods ≠ [] ∧ s.thrown = some .unknownMethodName := by
  letI := Platform.reference
  intro events
  have hthrown : (run (Side.step exampleInterface exampleInterface) {} events).any (fun s =>
      decide (s.thrown = some .unknownMethodName)) = true := by decide +kernel
  obtain ⟨s, hrun, hs⟩ := (Option.any_eq_true _ _).mp hthrown
  exact ⟨s, hrun, nofun, of_decide_eq_true hs⟩

end Side

end Warpcoil
