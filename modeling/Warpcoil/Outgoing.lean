import Warpcoil.ArrivalOrder
import Warpcoil.HostileInput
import Warpcoil.Requests
import Warpcoil.ZeroWidth

/-! What a side without errors sends: requests and responses that the other end reads back. -/
namespace Warpcoil
open Incremental Transition

/-- The encoding of a value is read back, whatever follows: the type has no empty tuple or
structure in it, or its parser completes at once. -/
def Ty.legible (t : Ty) : Bool :=
  t.solid || (generateParserType t).fresh.checkForImmediateCompletion.isSome

def Method.legible (m : Method) : Bool :=
  (getParameterType m.parameters).legible && m.result.legible

/-- Names are ASCII, and everything that is sent can be read. -/
def InterfaceDefinition.legible (definition : InterfaceDefinition) : Bool :=
  definition.methods.all fun m => m.1.all (· < 128) && m.2.legible

def Call.request (call : Call) : Request :=
  ⟨call.id, call.name, call.method, .tuple call.arguments⟩

section Wire
variable [Platform]

theorem Ty.parse_serialized {t : Ty} (h : t.legible = true) {v : Value} (hfits : v.fits t = true)
    (hok : (generateValueSerialization t v).ok = true) (rest : List UInt8) :
    (generateParserType t).parse ((generateValueSerialization t v).output ++ rest) =
      .complete v rest := by
  rw [Ty.legible, Bool.or_eq_true, Option.isSome_iff_exists] at h
  rcases h with hsolid | ⟨w, hcheck⟩
  · rw [ParserType.parse_solid (Ty.solid_generateParserType t hsolid)]
    exact read_serialized t v hsolid hfits hok rest
  · obtain ⟨rfl, hempty⟩ := immediate_serialized t v w hcheck hfits
    rw [ParserType.parse, hcheck, hempty]
    rfl

omit [Platform] in
theorem InterfaceDefinition.legible_find {definition : InterfaceDefinition}
    (h : definition.legible = true) {name : Identifier} {m : Method}
    (hfind : definition.find name = some m) : (∀ b ∈ name, b < 128) ∧ m.legible = true := by
  rw [InterfaceDefinition.find, Option.map_eq_some_iff] at hfind
  obtain ⟨⟨key, m'⟩, hfound, rfl⟩ := hfind
  have hname := List.find?_some hfound
  rw [decide_eq_true_eq] at hname
  subst hname
  have hmethod := List.all_eq_true.mp h _ (List.mem_of_find?_eq_some hfound)
  simpa [Bool.and_eq_true, List.all_eq_true] using hmethod

/-- The server reads the request that the client sent. -/
theorem readRequest_message {definition : InterfaceDefinition}
    (hlegible : definition.legible = true) {name : Identifier} {m : Method}
    (hfind : definition.find name = some m) (hshort : name.length ≤ 255) {arguments : List Value}
    (hfits : Value.fitsAll m.parameters arguments = true) {id : RequestId}
    (hok : (requestMessage id name m arguments).ok = true) :
    readRequest definition (requestMessage id name m arguments).output =
      some (⟨id, name, m, .tuple arguments⟩, []) := by
  obtain ⟨hascii, hmethod⟩ := InterfaceDefinition.legible_find hlegible hfind
  rw [Method.legible, Bool.and_eq_true] at hmethod
  simp only [requestMessage, buildRequest, Emission.seq_ok, Emission.emit_ok, Bool.true_and] at hok
  have houtput : (requestMessage id name m arguments).output = 0 :: (BigEndian.toBytes 8 id.toNat ++
      (UInt8.ofNat name.length :: (name ++ (serializeEach m.parameters arguments).output))) := by
    rw [requestMessage, Emission.seq_output _ _ rfl, buildRequest, Emission.seq_output _ _ rfl,
      Emission.emit_output, Emission.emit_output, messageHeader_eq, List.cons_append,
      List.cons_append]
    rfl
  have hlength : (BigEndian.toBytes 8 id.toNat).length = 8 := BigEndian.toBytes_length _ _
  have hid : BigEndian.ofBytes (BigEndian.toBytes 8 id.toNat) = id.toNat :=
    BigEndian.ofBytes_toBytes _ _ (by have := id.toNat_lt; omega)
  have hname : (UInt8.ofNat name.length).toNat = name.length := by
    rw [UInt8.toNat_ofNat', Nat.mod_eq_of_lt (by omega)]
  have hparse : m.argumentParser.parse (serializeEach m.parameters arguments).output =
      .complete (.tuple arguments) [] := by
    have hread := Ty.parse_serialized hmethod.1 (v := .tuple arguments) hfits hok []
    rwa [List.append_nil] at hread
  rw [houtput, readRequest, if_neg (by simp), List.drop_left' hlength, List.take_left' hlength]
  dsimp only
  rw [hname, List.take_left, List.drop_left,
    if_neg (by simp [Platform.isValid_ascii name hascii]), hfind, hid, UInt64.ofNat_toNat]
  dsimp only
  rw [hparse]

omit [Platform] in
theorem typeEmptiness_empty {t : Ty} (h : typeEmptiness t = .empty) :
    t = .tuple [] ∨ t = .struct [] ∨ t = .variant [] := by
  cases t with
  | tuple elements | struct elements | variant elements =>
    cases elements with
    | nil => simp
    | cons first rest => cases h
  | _ => cases h

/-- An empty result has no bytes, which the server does not have to emit. -/
theorem serialize_empty {t : Ty} (h : typeEmptiness t = .empty) {v : Value}
    (hfits : v.fits t = true) : generateValueSerialization t v = .done := by
  rcases typeEmptiness_empty h with rfl | rfl | rfl
  · cases v with
    | tuple vs =>
      cases vs with
      | nil => rfl
      | cons v vs => simp [Value.fits, Value.fitsAll] at hfits
    | _ => simp [Value.fits] at hfits
  · cases v with
    | struct vs =>
      cases vs with
      | nil => rfl
      | cons v vs => simp [Value.fits, Value.fitsElements] at hfits
    | _ => simp [Value.fits] at hfits
  · cases v with
    | variant index v => simp [Value.fits, Value.fitsCase] at hfits
    | _ => simp [Value.fits] at hfits

theorem responseMessage_eq (id : RequestId) {m : Method} {v : Value}
    (hfits : v.fits m.result = true) :
    responseMessage id m v = (Emission.emit (messageHeader .response id)).seq
      (generateValueSerialization m.result v) := by
  rw [responseMessage]
  cases hempty : typeEmptiness m.result with
  | empty => rw [serialize_empty hempty hfits]
  | nonEmpty => rfl

/-- The client reads the result that the server sent. -/
theorem parse_response {m : Method} (hlegible : m.legible = true) {v : Value}
    (hfits : v.fits m.result = true) {id : RequestId} (hok : (responseMessage id m v).ok = true) :
    m.resultParser.parse ((responseMessage id m v).output.drop 9) = .complete v [] := by
  rw [Method.legible, Bool.and_eq_true] at hlegible
  rw [responseMessage_eq id hfits, Emission.seq_ok, Emission.emit_ok, Bool.true_and] at hok
  rw [responseMessage_eq id hfits, Emission.seq_output _ _ rfl, Emission.emit_output,
    List.drop_left' (Side.messageHeader_length .response id)]
  have hparse := Ty.parse_serialized hlegible.2 hfits hok []
  rwa [List.append_nil] at hparse

end Wire

namespace BufferedWriter
variable {η : Type*}

theorem written_sent {w v : BufferedWriter η} {index transferred : Nat} {ec : ErrorCode}
    (h : w.step (.written index transferred ec) = some v) : v.sent = w.sent := by
  simp only [step] at h
  split at h
  · split_ifs at h
    cases h
    unfold finishSend
    split_ifs <;> rfl
  · cases h

/-- The last thing that was appended has been sent. -/
def Flushed (w : BufferedWriter η) : Prop :=
  w.appended = [] ∨ ∃ call ∈ w.sent, call.2 = w.appended.length

theorem Flushed.of_eq {w v : BufferedWriter η} (h : w.Flushed) (happended : v.appended = w.appended)
    (hsent : v.sent = w.sent) : v.Flushed := by
  unfold Flushed
  rw [happended, hsent]
  exact h

/-- At rest a flushed writer has handed everything over. -/
theorem Flushed.buffer_eq {w : BufferedWriter η} (h : w.Flushed) (hordered : w.Ordered)
    (houtstanding : w.outstanding = []) (hstack : w.stack = []) :
    w.handed.flatten = w.appended := by
  have hbytes := hordered.bytes
  rcases h with hnone | ⟨call, hcall, hlength⟩
  · rw [hnone, List.append_eq_nil_iff] at hbytes
    rw [hnone, hbytes.1]
  · have hle := (hordered.rest houtstanding hstack).2 call hcall
    have htotal := congrArg List.length hbytes
    rw [List.length_append] at htotal
    rw [List.length_eq_zero_iff.mp (show w.buffer.length = 0 by omega), List.append_nil] at hbytes
    exact hbytes

end BufferedWriter

/-- A response, its header taken off, and the answer that it was made for. -/
def replyOf (response : Nat × Emission UInt8) (answer : Nat × Value) : Reply :=
  ⟨answer.1, response.2.output.drop 9, answer.2⟩

namespace Side
variable [Platform]

omit [Platform] in
/-- What a peer can read that this side has answered. -/
def replies (s : Side) : List Reply :=
  List.zipWith replyOf s.history.responses s.history.answers

omit [Platform] in
/-- The requests have been numbered from zero. -/
def Numbered (s : Side) : Prop :=
  ∀ (k : Nat) (invocation : Invocation), s.invoked[k]? = some invocation →
    invocation.id = UInt64.ofNat k

/-- Every answer is an object of the result type. -/
def Typed (s : Side) : Prop :=
  ∀ answer ∈ s.history.answers, ∃ invocation, s.invoked[answer.1]? = some invocation ∧
    answer.2.fits invocation.method.result = true

theorem replies_stream {s : Side} (h : s.desk.Tidy) (hnumbered : s.Numbered) :
    Reply.stream s.replies = s.history.responses.flatMap fun response => response.2.output := by
  have hresponses : List.Forall₂ (Desk.Answers s.invoked) s.history.responses s.history.answers :=
    h.responses
  rw [replies]
  generalize s.history.responses = responses at hresponses
  generalize s.history.answers = answers at hresponses
  induction hresponses with
  | nil => rfl
  | @cons response answer responses answers hanswer _ ih =>
    obtain ⟨-, invocation, hinvoked, hmessage, -⟩ := hanswer
    have hstarts := responseMessage_starts invocation.id invocation.method answer.2
    rw [← hmessage, hnumbered _ _ hinvoked] at hstarts
    obtain ⟨payload, hpayload⟩ := hstarts
    have hbytes : (replyOf response answer).bytes = response.2.output := by
      rw [replyOf, ← hpayload, List.drop_left' (messageHeader_length _ _)]
      rfl
    rw [List.zipWith_cons_cons, Reply.stream, List.flatMap_cons, List.flatMap_cons, hbytes]
    exact congrArg _ ih

/-- The responses are for the calls of the implementation in their order. -/
theorem replies_get {s : Side} (h : s.desk.Tidy) {k : Nat} {reply : Reply}
    (hk : s.replies[k]? = some reply) :
    reply.call = k ∧ (k, reply.value) ∈ s.history.answers ∧ ∃ invocation,
      s.invoked[k]? = some invocation ∧
      reply.payload = (responseMessage invocation.id invocation.method reply.value).output.drop 9 ∧
      (responseMessage invocation.id invocation.method reply.value).ok = true := by
  rw [replies, List.getElem?_zipWith_eq_some] at hk
  obtain ⟨⟨index, message⟩, answer, hresponse, hanswer, rfl⟩ := hk
  obtain ⟨hlength, hget⟩ := List.forall₂_iff_get.mp h.responses
  obtain ⟨hlt, hfound⟩ := List.getElem?_eq_some_iff.mp hresponse
  obtain ⟨hlt', hfound'⟩ := List.getElem?_eq_some_iff.mp hanswer
  obtain ⟨hindex, invocation, hinvoked, hmessage, hok⟩ := hget k hlt hlt'
  simp only [List.get_eq_getElem] at hindex hinvoked hmessage hok
  rw [show s.desk.responses[k] = (index, message) from hfound,
    show s.desk.answers[k] = answer from hfound'] at *
  obtain rfl : index = k := h.response hresponse
  obtain ⟨n, v⟩ := answer
  obtain rfl : index = n := hindex
  have hmessage : message = responseMessage invocation.id invocation.method v := hmessage
  refine ⟨rfl, List.mem_of_getElem? hanswer, invocation, hinvoked, ?_, hmessage ▸ hok⟩
  change message.output.drop 9 = _
  rw [hmessage]
  rfl

/-- What a step adds to the messages of a side. -/
inductive Sends (clients : InterfaceDefinition) (s s' : Side) : Event → Prop
  | nothing {event : Event} (appended : s'.output.appended = s.output.appended)
      (sent : s'.output.sent = s.output.sent) (calls : s'.history.calls = s.history.calls)
      (responses : s'.history.responses = s.history.responses)
      (answers : s'.history.answers = s.history.answers) (invoked : s.invoked <+: s'.invoked) :
      Sends clients s s' event
  | refused {name : Identifier} {m : Method} {arguments : List Value}
      (find : clients.find name = some m)
      (refused : (requestMessage s.nextRequestId name m arguments).ok = false) :
      Sends clients s s' (.call name arguments)
  | request {name : Identifier} {m : Method} {arguments : List Value}
      (find : clients.find name = some m) (short : name.length ≤ 255)
      (fits : Value.fitsAll m.parameters arguments = true)
      (accepted : (requestMessage s.nextRequestId name m arguments).ok = true)
      (output : s'.output = (s.output.append
        (requestMessage s.nextRequestId name m arguments).output).sendBuffer .request)
      (calls : s'.history.calls = s.history.calls ++ [⟨s.nextRequestId, name, m, arguments, true⟩])
      (responses : s'.history.responses = s.history.responses)
      (answers : s'.history.answers = s.history.answers) (invoked : s'.invoked = s.invoked) :
      Sends clients s s' (.call name arguments)
  | response {index : Nat} {invocation : Invocation} {v : Value}
      (invoked_eq : s.invoked[index]? = some invocation)
      (fits : v.fits invocation.method.result = true)
      (accepted : (responseMessage invocation.id invocation.method v).ok = true)
      (output : s'.output = (s.output.append
        (responseMessage invocation.id invocation.method v).output).sendBuffer
          (.response invocation.handler))
      (calls : s'.history.calls = s.history.calls)
      (responses : s'.history.responses = s.history.responses ++
        [(index, responseMessage invocation.id invocation.method v)])
      (answers : s'.history.answers = s.history.answers ++ [(index, v)])
      (invoked : s'.invoked = s.invoked) : Sends clients s s' (.answer index (.ok v))

omit [Platform] in
theorem summon_outgoing (s : Side) :
    s.summon.output = s.output ∧ s.summon.history = s.history ∧ s.summon.invoked = s.invoked := by
  unfold summon
  split_ifs <;> exact ⟨rfl, rfl, rfl⟩

omit [Platform] in
theorem release_outgoing (s : Side) :
    s.release.output = s.output ∧ s.release.history = s.history ∧
      s.release.invoked = s.invoked := by
  unfold release
  split_ifs <;> exact ⟨rfl, rfl, rfl⟩

theorem Resumed.sends {clients servers : InterfaceDefinition} {s s' : Side} {frame : Frame}
    {stack : List Frame} (h : Resumed servers { s with stack } frame s') :
    Sends clients s s' .resume := by
  cases h with
  | @result operation expected v rest kind reads =>
    obtain ⟨houtput, hhistory, hinvoked⟩ := release_outgoing
      ((Side.entered { s with stack } (.result expected) v rest).push
        [.resultUnlocked expected.handler v])
    exact .nothing (by rw [houtput]; rfl) (by rw [houtput]; rfl) (by rw [hhistory]; rfl)
      (by rw [hhistory]; rfl) (by rw [hhistory]; rfl) (by rw [hinvoked]; exact List.prefix_refl _)
  | @argument operation id name m handler v rest kind reads =>
    obtain ⟨houtput, hhistory, hinvoked⟩ := release_outgoing
      ((Side.entered { s with stack } (.argument id name m handler) v rest).push
        [.argumentUnlocked id name m handler (.ok v)])
    exact .nothing (by rw [houtput]; rfl) (by rw [houtput]; rfl) (by rw [hhistory]; rfl)
      (by rw [hhistory]; rfl) (by rw [hhistory]; rfl) (by rw [hinvoked]; exact List.prefix_refl _)
  | @nextHeader handler v =>
    obtain ⟨houtput, hhistory, hinvoked⟩ := summon_outgoing
      (Side.push { s with stack } [.resultReady handler v]).awaitHeader
    exact .nothing (by rw [houtput]; rfl) (by rw [houtput]; rfl) (by rw [hhistory]; rfl)
      (by rw [hhistory]; rfl) (by rw [hhistory]; rfl) (by rw [hinvoked]; exact List.prefix_refl _)
  | implementation => exact .nothing rfl rfl rfl rfl rfl (List.prefix_append _ _)
  | writer proceeds | responseSent proceeds =>
    exact .nothing (BufferedWriter.proceed_appended proceeds) (BufferedWriter.proceed_sent proceeds)
      rfl rfl rfl (List.prefix_refl _)
  | _ => exact .nothing rfl rfl rfl rfl rfl (List.prefix_refl _)

theorem placed_calls {s : Side} {name : Identifier} {m : Method} {arguments : List Value}
    (accepted : (requestMessage s.nextRequestId name m arguments).ok = true) :
    (s.placed name m arguments).history.calls =
      s.history.calls ++ [⟨s.nextRequestId, name, m, arguments, true⟩] := by
  rw [← accepted]
  rfl

theorem Moved.sends {clients servers : InterfaceDefinition} {s s' : Side} {event : Event}
    (h : Moved clients servers s event s') : Sends clients s s' event := by
  cases h with
  | refused runs find short fits refused => exact .refused find refused
  | placed runs find short fits accepted =>
    exact .request find short fits accepted rfl (placed_calls accepted) rfl rfl rfl
  | @awaited name m arguments runs find short fits accepted =>
    obtain ⟨houtput, hhistory, hinvoked⟩ := summon_outgoing (s.placed name m arguments).awaitHeader
    exact .request find short fits accepted (by rw [houtput]; rfl)
      (by rw [hhistory]; exact placed_calls accepted) (by rw [hhistory]; rfl)
      (by rw [hhistory]; rfl) (by rw [hinvoked]; rfl)
  | serve =>
    obtain ⟨houtput, hhistory, hinvoked⟩ := summon_outgoing s.awaitRequest
    exact .nothing (by rw [houtput]; rfl) (by rw [houtput]; rfl) (by rw [hhistory]; rfl)
      (by rw [hhistory]; rfl) (by rw [hhistory]; rfl) (by rw [hinvoked]; exact List.prefix_refl _)
  | answered runs invoked unanswered fits accepted =>
    exact .response invoked fits accepted rfl rfl rfl rfl rfl
  | «return» | read => exact .nothing rfl rfl rfl rfl rfl (List.prefix_refl _)
  | resume hstack hresumed => exact hresumed.sends
  | written hstack hwritten =>
    exact .nothing (BufferedWriter.written_appended hwritten) (BufferedWriter.written_sent hwritten)
      rfl rfl rfl (List.prefix_refl _)

/-- Somebody goes on with what is left of `finish_send`. -/
def Attended (s : Side) : Prop := s.output.stack ≠ [] → Frame.writer ∈ s.stack

theorem Moved.attended {clients servers : InterfaceDefinition} {s s' : Side} {event : Event}
    (h : Moved clients servers s event s') (hattended : s.Attended) : s'.Attended := by
  have hsummon (t : Side) (ht : t.Attended) : t.summon.Attended := by
    intro hne
    rw [(summon_outgoing t).1] at hne
    rcases summon_stack t with hsame | ⟨operation, hnext⟩
    · rw [hsame]
      exact ht hne
    · rw [hnext]
      exact List.mem_cons_of_mem _ (ht hne)
  have hrelease (t : Side) (ht : t.Attended) : t.release.Attended := by
    intro hne
    rw [(release_outgoing t).1] at hne
    rcases release_stack t with hsame | ⟨operation, hnext⟩
    · rw [hsame]
      exact ht hne
    · rw [hnext]
      exact List.mem_cons_of_mem _ (ht hne)
  have hpopped {frame : Frame} {stack : List Frame} (hstack : s.stack = frame :: stack)
      (hframe : frame ≠ .writer) (hne : s.output.stack ≠ []) : Frame.writer ∈ stack := by
    have hmem := hattended hne
    rw [hstack, List.mem_cons] at hmem
    exact hmem.resolve_left fun heq => hframe heq.symm
  have hsent (message : List UInt8) (handler : Sent) :
      ((s.output.append message).sendBuffer handler).stack = s.output.stack :=
    BufferedWriter.sendBuffer_stack _ _
  cases h with
  | refused => exact fun hne => List.mem_cons_of_mem _ (hattended hne)
  | placed | answered => exact fun hne => hattended (hsent _ _ ▸ hne)
  | awaited => exact hsummon _ fun hne => hattended (hsent _ _ ▸ hne)
  | serve => exact hsummon _ hattended
  | «return» hstack => exact hpopped hstack (by simp)
  | read hstack =>
    intro hne
    have hmem := hattended hne
    rw [hstack] at hmem
    cases hmem
  | written => exact fun _ => List.mem_cons_self
  | resume hstack hresumed =>
    cases hresumed with
    | more | requestContinue | responseContinue => exact hpopped hstack (by simp)
    | responseType | requestType | responseHeader | requestHeader | lastResult | resultReady
    | implementation =>
      intro hne
      have hmem := hpopped hstack (by simp) hne
      simp [beginParseValue, push, callResultHandler, note, entered, takeResponse, takeRequest,
        hmem]
    | result | argument =>
      exact hrelease _ fun hne => List.mem_cons_of_mem _ (hpopped hstack (by simp) hne)
    | nextHeader =>
      exact hsummon _ fun hne => List.mem_cons_of_mem _ (hpopped hstack (by simp) hne)
    | writerDone proceeds =>
      intro hne
      cases hout : s.output.stack with
      | nil => exact (hne hout).elim
      | cons first rest =>
        have hproceeds : s.output.proceed = none := proceeds
        unfold BufferedWriter.proceed at hproceeds
        rw [hout] at hproceeds
        cases first with
        | onResult handlers ec => cases handlers <;> cases hproceeds
        | continueSend queue => cases hproceeds
    | writer => exact fun _ => List.mem_cons_self
    | responseSent => exact fun _ => List.mem_cons_of_mem _ List.mem_cons_self

end Side

end Warpcoil
