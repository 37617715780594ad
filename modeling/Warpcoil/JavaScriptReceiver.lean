import Warpcoil.Messages
import Warpcoil.ReceivedArguments

/-! The receiver that `generate_input_receiver` generates: a function of one byte that calls its
current `state`, which replaces itself between the parts of a message. -/
namespace Warpcoil
namespace JavaScript
open Answering

/-- The function that a method is given for its result. -/
def generateResponse (result : Ty) : Option (List Statement) := do
  let size ← generateSizeOfValue result (.variable (ident "result"))
  let type ← generateSerialization (.integer ⟨0, 255⟩) (.number 1) (ident "response_buffer")
    (.number 0)
  let id ← generateSerialization (.integer ⟨0, 0xffffffffffffffff⟩)
    (.variable (ident "request_id")) (ident "response_buffer") (.number 1)
  let value ← generateSerialization result (.variable (ident "result")) (ident "response_buffer")
    (.add (.number 1) (.number 8))
  some ([.var (ident "response_size") (.add (.add (.number 1) (.number 8)) size),
      .arrayBuffer (ident "response_buffer") (.variable (ident "response_size"))] ++ type ++ id ++
    value ++ [.sendBytes (ident "response_buffer")])

/-- The branch of a method: the parser of its arguments, and the function for its result. -/
structure RequestHandler where
  name : Identifier
  parameters : ByteParser
  response : List Statement

def generateHandlers : List (Identifier × Method) → Option (List RequestHandler)
  | [] => some []
  | (name, m)::methods => do
    let parameters ← generateParserCreation (.tuple m.parameters)
    let response ← generateResponse m.result
    let handlers ← generateHandlers methods
    some (⟨name, parameters, response⟩ :: handlers)

/-- The comparisons of `generate_request_parsing`, in the order of the map. -/
def generateRequestParsing (definition : InterfaceDefinition) : Option (List RequestHandler) :=
  generateHandlers definition.methods

/-- An entry of `pending_requests`. The functions `on_result` are numbered. -/
structure PendingRequest where
  argumentParser : ByteParser
  onResult : Nat

/-- The functions that `state` can be, with the variables of theirs. -/
inductive ReceiverState where
  | initial
  | requestId (parser : ByteParser)
  | methodName (requestId : Received) (parser : ByteParser)
  | arguments (requestId : Received) (handler : RequestHandler) (parser : ByteParser)
  | responseId (parser : ByteParser)
  | responseArgument (request : PendingRequest) (parser : ByteParser)

/-- A key of `pending_requests` is the JSON of an object with the properties `high` and `low`,
here the two numbers. -/
abbrev Key := Int × Int

/-- The object `pending_requests`. -/
abbrev PendingRequests := Key → Option PendingRequest

structure Receiver where
  state : ReceiverState := .initial
  pendingRequests : PendingRequests := fun _ => none

/-- What happens outside the receiver. -/
inductive Effect where
  /-- `server_implementation.name(…)`. The result is sent with the id of the request. -/
  | calls (name : Identifier) (arguments : List Received) (requestId : Received)
  | result (onResult : Nat) (value : Received)

/-- `status === "name"` -/
def Received.is (name : Identifier) : Received → Bool
  | .string units => decide (units = name.map UInt8.toUInt16)
  | .number _ | .halves _ _ | .array _ | .object _ => false

/-- `status[0]`, `status[1]` and so on. -/
def Received.elements : Received → List Received
  | .array elements => elements
  | .number _ | .halves _ _ | .string _ | .object _ => []

/-- `JSON.stringify(status)` of a request id. -/
def Received.key : Received → Option Key
  | .halves high low => some (high, low)
  | .number _ | .string _ | .array _ | .object _ => none

def requestIdParserCreation : ByteParser := integerParserCreation ⟨0, 0xffffffffffffffff⟩

def methodNameParserCreation : ByteParser := .length (integerParserCreation ⟨0, 255⟩)

/-- The receiver is called. -/
def Receiver.step (handlers : List RequestHandler) (s : Receiver) (input : UInt8) :
    Except Failure (Receiver × Option Effect) :=
  match s.state with
  | .initial =>
    if input = 0 then .ok ({ s with state := .requestId requestIdParserCreation }, none)
    else if input = 1 then .ok ({ s with state := .responseId requestIdParserCreation }, none)
    else .error .unknownMessageType
  | .requestId parser =>
    match parser.step input with
    | .error e => .error e
    | .ok (parser, none) => .ok ({ s with state := .requestId parser }, none)
    | .ok (_, some status) =>
      .ok ({ s with state := .methodName status methodNameParserCreation }, none)
  | .methodName requestId parser =>
    match parser.step input with
    | .error e => .error e
    | .ok (parser, none) => .ok ({ s with state := .methodName requestId parser }, none)
    | .ok (_, some status) =>
      match handlers.find? fun handler => status.is handler.name with
      | none => .error .unknownMethod
      | some handler =>
        .ok ({ s with state := .arguments requestId handler handler.parameters }, none)
  | .arguments requestId handler parser =>
    match parser.step input with
    | .error e => .error e
    | .ok (parser, none) => .ok ({ s with state := .arguments requestId handler parser }, none)
    | .ok (_, some status) =>
      .ok ({ s with state := .initial }, some (.calls handler.name status.elements requestId))
  | .responseId parser =>
    match parser.step input with
    | .error e => .error e
    | .ok (parser, none) => .ok ({ s with state := .responseId parser }, none)
    | .ok (_, some status) =>
      match status.key.bind fun key => (s.pendingRequests key).map (key, ·) with
      | none => .error .unexpectedResponse
      | some (key, request) =>
        let pendingRequests := Function.update s.pendingRequests key none
        match request.argumentParser with
        -- the result is of a type that requires no parser
        | .undefined =>
          .ok (⟨.initial, pendingRequests⟩, some (.result request.onResult (.array [])))
        | parser => .ok (⟨.responseArgument request parser, pendingRequests⟩, none)
  | .responseArgument request parser =>
    match parser.step input with
    | .error e => .error e
    | .ok (parser, none) => .ok ({ s with state := .responseArgument request parser }, none)
    | .ok (_, some parsed) =>
      .ok ({ s with state := .initial }, some (.result request.onResult parsed))

/-! ### Requests -/

mutual
/-- Integers below 2^31, ASCII strings that are not empty, and tuples and structures of these. -/
def Sendable : Ty → Value → Prop
  | .integer range, .integer n => range.maximum.toNat < 2 ^ 31 ∧ range.contains n
  | .utf8 codeUnits, .utf8 text =>
    codeUnits.contains text.length ∧ text ≠ [] ∧ ∀ b ∈ text, b < 128
  | .tuple elements, .tuple vs => SendableEach elements vs
  | .struct elements, .struct vs => SendableFields elements vs
  | _, _ => False
def SendableEach : List Ty → List Value → Prop
  | [], [] => True
  | t::ts, v::vs => Sendable t v ∧ SendableEach ts vs
  | _, _ => False
def SendableFields : List (Ty × Identifier) → List Value → Prop
  | [], [] => True
  | (t, _)::elements, v::vs => Sendable t v ∧ SendableFields elements vs
  | _, _ => False
end

mutual
theorem Sendable.ok [Platform] : ∀ (t : Ty) (v : Value), Sendable t v →
    (generateValueSerialization t v).ok = true
  | .integer range, v, h => by
    cases v <;> simp only [Sendable] at h
    rw [generateValueSerialization, serializeInteger_ok]
    exact h.2
  | .utf8 codeUnits, v, h => by
    cases v <;> simp only [Sendable] at h
    rw [generateValueSerialization, if_pos (Platform.isValid_ascii _ h.2.2), Emission.seq_ok,
      serializeInteger_ok.mpr h.1]
    rfl
  | .variant elements, v, h => by simp only [Sendable] at h
  | .vector length element, v, h => by simp only [Sendable] at h
  | .tuple elements, v, h => by
    cases v <;> simp only [Sendable] at h
    rw [generateValueSerialization]
    exact Sendable.each_ok elements _ h
  | .struct elements, v, h => by
    cases v <;> simp only [Sendable] at h
    rw [generateValueSerialization]
    exact Sendable.fields_ok elements _ h
theorem Sendable.each_ok [Platform] : ∀ (ts : List Ty) (vs : List Value), SendableEach ts vs →
    (serializeEach ts vs).ok = true
  | [], vs, h => by
    cases vs <;> simp only [SendableEach] at h
    rfl
  | t::ts, vs, h => by
    cases vs <;> simp only [SendableEach] at h
    rw [serializeEach, Emission.seq_ok, Sendable.ok t _ h.1, Sendable.each_ok ts _ h.2]
    rfl
theorem Sendable.fields_ok [Platform] : ∀ (ts : List (Ty × Identifier)) (vs : List Value),
    SendableFields ts vs → (serializeFields ts vs).ok = true
  | [], vs, h => by
    cases vs <;> simp only [SendableFields] at h
    rfl
  | (t, _)::ts, vs, h => by
    cases vs <;> simp only [SendableFields] at h
    rw [serializeFields, Emission.seq_ok, Sendable.ok t _ h.1, Sendable.fields_ok ts _ h.2]
    rfl
end

/-- A request of the C++ client. -/
structure Request where
  id : RequestId
  name : Identifier
  method : Method
  arguments : List Value

def Request.message [Platform] (r : Request) : Emission UInt8 :=
  requestMessage r.id r.name r.method r.arguments

/-- The request is for a method of the interface. Its name is an identifier, and its strings are
ASCII and not empty. -/
structure Request.WellFormed (definition : InterfaceDefinition) (r : Request) : Prop where
  found : definition.find r.name = some r.method
  ascii : ∀ b ∈ r.name, b < 128
  length : r.name.length ≤ 255
  sendable : SendableEach r.method.parameters r.arguments

/-- The call of the method. -/
def Request.effect (r : Request) : Effect :=
  .calls r.name (receivedEach r.method.parameters r.arguments)
    (.halves (signed (r.id.toNat / 2 ^ 32)) (signed (r.id.toNat % 2 ^ 32)))

def Request.Receivable (r : Request) : Prop :=
  r.name ≠ [] ∧ r.method.parameters ≠ [] ∧ ReceivableEach r.method.parameters r.arguments

theorem is_map (name other : Identifier) :
    (Received.string (name.map UInt8.toUInt16)).is other = decide (other = name) := by
  have hinj : Function.Injective (List.map UInt8.toUInt16) :=
    List.map_injective_iff.mpr fun a b h => by
      have hback := congrArg UInt16.toUInt8 h
      rwa [UInt8.toUInt8_toUInt16, UInt8.toUInt8_toUInt16] at hback
  rw [Received.is]
  exact decide_eq_decide.mpr ⟨fun h => (hinj h).symm, fun h => h ▸ rfl⟩

theorem generateHandlers_find {methods : List (Identifier × Method)}
    {handlers : List RequestHandler} (h : generateHandlers methods = some handlers)
    {name : Identifier} {m : Method}
    (hfind : (methods.find? fun m => decide (m.1 = name)).map Prod.snd = some m) :
    ∃ handler, (handlers.find? fun handler => decide (handler.name = name)) = some handler ∧
      handler.name = name ∧
      generateParserCreation (.tuple m.parameters) = some handler.parameters := by
  induction methods generalizing handlers with
  | nil => cases hfind
  | cons method methods ih =>
    obtain ⟨other, m'⟩ := method
    simp only [generateHandlers, Option.bind_eq_bind, Option.bind_eq_some_iff,
      Option.some.injEq] at h
    obtain ⟨parameters, hparameters, response, -, rest, hrest, rfl⟩ := h
    rw [List.find?_cons] at hfind ⊢
    by_cases hname : other = name
    · simp only [hname, decide_true, Option.map_some, Option.some.injEq] at hfind ⊢
      subst hfind
      exact ⟨_, rfl, rfl, hparameters⟩
    · simp only [hname, decide_false] at hfind ⊢
      exact ih hrest hfind

theorem id_completes (id : RequestId) : ∃ t, Completes ByteParser.step requestIdParserCreation
    (writeInteger .uint64 id.toNat)
    (.halves (signed (id.toNat / 2 ^ 32)) (signed (id.toNat % 2 ^ 32))) t := by
  have hrange : Integer.contains ⟨0, 0xffffffffffffffff⟩ id.toNat :=
    ⟨Nat.zero_le _, Nat.le_of_lt_succ id.toNat_lt⟩
  obtain ⟨t, ht⟩ := wide_completes (by decide) hrange
  rw [writeInteger_eq]
  exact ⟨t, ht⟩

section
variable {handlers : List RequestHandler} {pending : PendingRequests}

/-- The parts of a request, from the last to the first. -/
theorem arguments_decides [Platform] {definition : InterfaceDefinition} {r : Request}
    (h : r.WellFormed definition) (requestId : Received) {handler : RequestHandler}
    (hname : handler.name = r.name)
    (hparser : generateParserCreation (.tuple r.method.parameters) = some handler.parameters) :
    Decides (Receiver.step handlers) ⟨.arguments requestId handler handler.parameters, pending⟩
      (serializeEach r.method.parameters r.arguments).output
      (r.method.parameters ≠ [] ∧ ReceivableEach r.method.parameters r.arguments)
      (.calls r.name (receivedEach r.method.parameters r.arguments) requestId)
      ⟨.initial, pending⟩ := by
  obtain ⟨t, ht⟩ := value_receives (.tuple r.method.parameters) (.tuple r.arguments)
    handler.parameters (Sendable.ok _ _ h.sendable) hparser
  simp only [generateValueSerialization, Receivable, received] at ht
  refine ht.map
    (f := fun parser => (⟨.arguments requestId handler parser, pending⟩ : Receiver)) ?_ ?_ ?_
  · intro parser b parser' hstep
    simp only [Receiver.step, hstep]
  · intro parser b e hstep
    simp only [Receiver.step, hstep]
  · intro parser b parser' hstep
    simp only [Receiver.step, hstep, hname]
    rfl

theorem methodName_decides {name : Identifier} (hlength : name.length ≤ 255) {m : Method}
    {definition : InterfaceDefinition}
    (hhandlers : generateRequestParsing definition = some handlers)
    (hfound : definition.find name = some m) (requestId : Received) {bs : List UInt8} {p : Prop}
    {a : Effect} {t : Receiver}
    (harguments : ∀ handler : RequestHandler, handler.name = name →
      generateParserCreation (.tuple m.parameters) = some handler.parameters →
      Decides (Receiver.step handlers)
        ⟨.arguments requestId handler handler.parameters, pending⟩ bs p a t) :
    Decides (Receiver.step handlers) ⟨.methodName requestId methodNameParserCreation, pending⟩
      (UInt8.ofNat name.length :: name ++ bs) (name ≠ [] ∧ p) a t := by
  obtain ⟨handler, hfind, hname, hparser⟩ := generateHandlers_find hhandlers hfound
  have hrange : Integer.contains ⟨0, 255⟩ name.length := ⟨Nat.zero_le _, hlength⟩
  have hencoded : UInt8.ofNat name.length :: name = encodedText ⟨0, 255⟩ name := rfl
  have htext : Decides ByteParser.step methodNameParserCreation (encodedText ⟨0, 255⟩ name)
      (name ≠ []) (.string (name.map UInt8.toUInt16)) (.content name name.length) := by
    refine ⟨fun hne => ?_, fun hnil more => ?_⟩
    · exact text_completes (by decide) hrange (by omega) hne
    · exact text_mute hrange (.inl (Decidable.of_not_not hnil)) more
  rw [hencoded]
  refine htext.seq (f := fun parser => (⟨.methodName requestId parser, pending⟩ : Receiver))
    ?_ ?_ ?_ (harguments handler hname hparser)
  · intro parser b parser' hstep
    simp only [Receiver.step, hstep]
  · intro parser b e hstep
    simp only [Receiver.step, hstep]
  · intro parser b parser' hstep
    simp only [Receiver.step, hstep, is_map, hfind]

theorem requestId_silent (id : RequestId) :
    Silent (Receiver.step handlers) ⟨.initial, pending⟩ (messageHeader .request id)
      ⟨.methodName (.halves (signed (id.toNat / 2 ^ 32)) (signed (id.toNat % 2 ^ 32)))
        methodNameParserCreation, pending⟩ := by
  obtain ⟨t, ht⟩ := id_completes id
  refine .cons (by rw [Receiver.step]; rfl) ?_
  refine ht.map_silent (f := fun parser => (⟨.requestId parser, pending⟩ : Receiver)) ?_ ?_
  · intro parser b parser' hstep
    simp only [Receiver.step, hstep]
  · intro parser b parser' hstep
    simp only [Receiver.step, hstep]

theorem request_decides [Platform] {definition : InterfaceDefinition}
    (hhandlers : generateRequestParsing definition = some handlers) {r : Request}
    (h : r.WellFormed definition) :
    Decides (Receiver.step handlers) ⟨.initial, pending⟩ r.message.output r.Receivable r.effect
      ⟨.initial, pending⟩ := by
  have houtput : r.message.output = messageHeader .request r.id ++
      (UInt8.ofNat r.name.length :: r.name ++
        (serializeEach r.method.parameters r.arguments).output) := by
    rw [Request.message, requestMessage, buildRequest, Emission.seq_output _ _ rfl,
      Emission.seq_output _ _ rfl]
    rfl
  rw [houtput]
  exact (requestId_silent r.id).decides (methodName_decides h.length hhandlers h.found _
    fun handler hname hparser => arguments_decides h _ hname hparser)

end

/-! ### Sequences of requests -/

section
variable [Platform] {handlers : List RequestHandler} {pending : PendingRequests}

def requestBytes (requests : List Request) : List UInt8 :=
  requests.flatMap fun r => r.message.output

theorem requestBytes_cons (r : Request) (requests : List Request) :
    requestBytes (r :: requests) = r.message.output ++ requestBytes requests := by
  rw [requestBytes, List.flatMap_cons]
  rfl

/-- On the last byte of every request its method is called, and on no other byte anything. -/
def calls (requests : List Request) : List (Reaction Effect Failure) :=
  requests.flatMap fun r =>
    List.replicate (r.message.output.length - 1) .nothing ++ [.returns r.effect]

theorem request_reactions {definition : InterfaceDefinition}
    (hhandlers : generateRequestParsing definition = some handlers) {r : Request}
    (h : r.WellFormed definition) (hr : r.Receivable) (requests : List Request) :
    reactions (Receiver.step handlers) ⟨.initial, pending⟩ (requestBytes (r :: requests)) =
        List.replicate (r.message.output.length - 1) .nothing ++ [.returns r.effect] ++
          reactions (Receiver.step handlers) ⟨.initial, pending⟩ (requestBytes requests) ∧
      after (Receiver.step handlers) ⟨.initial, pending⟩ (requestBytes (r :: requests)) =
        after (Receiver.step handlers) ⟨.initial, pending⟩ (requestBytes requests) := by
  have hcompletes := (@request_decides handlers pending _ definition hhandlers r h).completes hr
  rw [requestBytes_cons]
  refine ⟨?_, hcompletes.after _⟩
  rw [hcompletes.reactions, List.append_assoc]
  rfl

/-- A request that is not received ends the calls. -/
theorem reactions_eq_calls_iff {definition : InterfaceDefinition}
    (hhandlers : generateRequestParsing definition = some handlers) {requests : List Request}
    (h : ∀ r ∈ requests, r.WellFormed definition) :
    reactions (Receiver.step handlers) ⟨.initial, pending⟩ (requestBytes requests) =
      calls requests ↔ ∀ r ∈ requests, r.Receivable := by
  induction requests with
  | nil => simp [requestBytes, calls, reactions]
  | cons r requests ih =>
    obtain ⟨hhead, htail⟩ := List.forall_mem_cons.mp h
    rw [List.forall_mem_cons]
    by_cases hr : r.Receivable
    · rw [(request_reactions hhandlers hhead hr requests).1, calls, List.flatMap_cons,
        List.append_cancel_left_eq, ← calls, ih htail]
      exact ⟨fun hall => ⟨hr, hall⟩, And.right⟩
    · constructor
      · intro heq
        have hmute := (@request_decides handlers pending _ definition hhandlers r hhead).mute hr
          (requestBytes requests)
        refine absurd ?_ (hmute r.effect)
        rw [← requestBytes_cons, heq, calls, List.flatMap_cons]
        simp
      · exact fun hall => absurd hall.1 hr

theorem after_requests {definition : InterfaceDefinition}
    (hhandlers : generateRequestParsing definition = some handlers) {requests : List Request}
    (h : ∀ r ∈ requests, r.WellFormed definition) (hr : ∀ r ∈ requests, r.Receivable) :
    after (Receiver.step handlers) ⟨.initial, pending⟩ (requestBytes requests) =
      some ⟨.initial, pending⟩ := by
  induction requests with
  | nil => rfl
  | cons r requests ih =>
    obtain ⟨hhead, htail⟩ := List.forall_mem_cons.mp h
    obtain ⟨hr, hrest⟩ := List.forall_mem_cons.mp hr
    rw [(request_reactions hhandlers hhead hr requests).2, ih htail hrest]

/-- The receiver dispatches the requests one after another exactly when each of them has an
argument, no empty tuple or structure in it, and no length that JavaScript cannot read. -/
theorem dispatches_every_request (definition : InterfaceDefinition) (handlers : List RequestHandler)
    (hhandlers : generateRequestParsing definition = some handlers)
    (pending : PendingRequests) (requests : List Request)
    (h : ∀ r ∈ requests, r.WellFormed definition) :
    (reactions (Receiver.step handlers) ⟨.initial, pending⟩ (requestBytes requests) =
        calls requests ∧
      ∀ k, after (Receiver.step handlers) ⟨.initial, pending⟩ (requestBytes (requests.take k)) =
        some ⟨.initial, pending⟩) ↔
      ∀ r ∈ requests, r.Receivable := by
  rw [reactions_eq_calls_iff hhandlers h]
  refine ⟨And.left, fun hr => ⟨hr, fun k => ?_⟩⟩
  exact after_requests hhandlers (fun r hmem => h r (List.mem_of_mem_take hmem))
    fun r hmem => hr r (List.mem_of_mem_take hmem)

omit [Platform] in
/-- A request with two arguments. -/
theorem dispatches_every_request_two :
    letI := Platform.reference
    let definition : InterfaceDefinition :=
      ⟨[([0x66], ⟨.tuple [], [.integer ⟨0, 1000⟩, .utf8 ⟨0, 255⟩]⟩)], by decide, by decide⟩
    ∃ handlers, generateRequestParsing definition = some handlers ∧
      reactions (Receiver.step handlers) {}
          [0, 0, 0, 0, 0, 0, 0, 0, 1, 1, 0x66, 0, 7, 2, 72, 105] =
        List.replicate 15 .nothing ++
          [.returns (.calls [0x66] [.number 7, .string [72, 105]] (.halves 0 1))] := by
  let platform := Platform.reference
  intro definition
  let r : Request := ⟨1, [0x66], ⟨.tuple [], [.integer ⟨0, 1000⟩, .utf8 ⟨0, 255⟩]⟩,
    [.integer 7, .utf8 [72, 105]]⟩
  have hformed : r.WellFormed definition :=
    ⟨rfl, ascii_of_all (by decide), by decide,
      ⟨⟨by decide, by decide⟩, ⟨by decide, by decide, ascii_of_all (by decide)⟩, trivial⟩⟩
  have hreceivable : r.Receivable :=
    ⟨by decide, nofun, .inr (by decide), ⟨by decide, by decide, by decide⟩, trivial⟩
  have hbytes : requestBytes [r] = [0, 0, 0, 0, 0, 0, 0, 0, 1, 1, 0x66, 0, 7, 2, 72, 105] := by
    decide
  obtain ⟨hcalls, -⟩ := (dispatches_every_request definition _ rfl (fun _ => none) [r]
    (List.forall_mem_singleton.mpr hformed)).mpr (List.forall_mem_singleton.mpr hreceivable)
  rw [calls, List.flatMap_singleton] at hcalls
  have hlength : r.message.output.length = 16 := by decide
  have heffect : r.effect = .calls [0x66] [.number 7, .string [72, 105]] (.halves 0 1) := by
    simp only [r, Request.effect, receivedEach, received]
    rfl
  rw [hbytes, hlength, heffect] at hcalls
  exact ⟨_, rfl, hcalls⟩

omit [Platform] in
/-- A method without parameters is not called, and the next message is lost on it. -/
theorem dispatches_every_request_empty :
    letI := Platform.reference
    let definition : InterfaceDefinition :=
      ⟨[([0x66], ⟨.tuple [], []⟩)], by decide, by decide⟩
    let r : Request := ⟨1, [0x66], ⟨.tuple [], []⟩, []⟩
    r.message.output = [0, 0, 0, 0, 0, 0, 0, 0, 1, 1, 0x66] ∧ r.WellFormed definition ∧
    ∃ handlers, generateRequestParsing definition = some handlers ∧
      reactions (Receiver.step handlers) {} (requestBytes [r, r]) =
        List.replicate 11 .nothing ++ [.throws .typeError] := by
  let platform := Platform.reference
  intro definition r
  have hbytes : r.message.output = [0, 0, 0, 0, 0, 0, 0, 0, 1, 1, 0x66] := by decide
  refine ⟨hbytes, ⟨rfl, ascii_of_all (by decide), by decide, trivial⟩, _, rfl, ?_⟩
  rw [requestBytes_cons, requestBytes_cons, hbytes]
  rfl

end

end JavaScript

end Warpcoil
