import Warpcoil.Failure

/-! A stream of responses, and how much of it a regular side has read. -/
namespace Warpcoil
open Incremental Transition

/-- A response on the wire: the number of the call it answers, and the bytes that the result
is decoded from. -/
structure Reply where
  call : Nat
  payload : List UInt8
  value : Value

namespace Reply

def id (reply : Reply) : RequestId := UInt64.ofNat reply.call

def bytes (reply : Reply) : List UInt8 := messageHeader .response reply.id ++ reply.payload

def stream (replies : List Reply) : List UInt8 := replies.flatMap bytes

/-- The handler that the reply is for, and what it is given. -/
def result (reply : Reply) : Nat × Value := (reply.call, reply.value)

theorem stream_cons (reply : Reply) (replies : List Reply) :
    stream (reply :: replies) = messageHeader .response reply.id ++
      (reply.payload ++ stream replies) := by
  rw [stream, List.flatMap_cons, bytes, List.append_assoc]
  rfl

variable [Platform]

/-- The payload is all that the parser of the result needs, and gives it the value. -/
def answers (reply : Reply) (calls : List Call) : Bool :=
  (calls[reply.call]?).any fun call =>
    match call.method.resultParser.parse reply.payload with
    | .complete v [] => decide (v = reply.value)
    | .complete _ (_ :: _) | .more _ | .fail _ => false

theorem answers_iff {reply : Reply} {calls : List Call} :
    reply.answers calls = true ↔ ∃ call, calls[reply.call]? = some call ∧
      call.method.resultParser.parse reply.payload = .complete reply.value [] := by
  rw [answers, Option.any_eq_true]
  refine exists_congr fun call => and_congr_right fun _ => ?_
  split
  · next v hparse => simp [hparse]
  all_goals
    next hparse => simp [hparse]

theorem answers_append {reply : Reply} {calls : List Call} (h : reply.answers calls = true)
    (more : List Call) : reply.answers (calls ++ more) = true := by
  obtain ⟨call, hcall, hparse⟩ := answers_iff.mp h
  refine answers_iff.mpr ⟨call, ?_, hparse⟩
  rw [List.getElem?_append_left (List.getElem?_eq_some_iff.mp hcall).1, hcall]

theorem lt_of_answers {reply : Reply} {calls : List Call} (h : reply.answers calls = true) :
    reply.call < calls.length := by
  obtain ⟨call, hcall, -⟩ := answers_iff.mp h
  exact (List.getElem?_eq_some_iff.mp hcall).1

end Reply

variable [Platform]

/-! The headers as they are written. -/

omit [Platform] in
theorem messageHeader_eq (type : MessageType) (id : RequestId) :
    messageHeader type id = UInt8.ofNat type.toNat :: BigEndian.toBytes 8 id.toNat := by
  rw [messageHeader, writeInteger_eq, writeInteger_eq]
  cases type <;> rfl

theorem parse_type (type : MessageType) (rest : List UInt8) :
    messageTypeParser.parse (UInt8.ofNat type.toNat :: rest) =
      .complete (.integer type.toNat) rest := by
  rw [← Reading.forget_eq_complete, parse_messageType]
  cases type <;> rfl

theorem parse_id (id : RequestId) (rest : List UInt8) :
    requestIdParser.parse (BigEndian.toBytes 8 id.toNat ++ rest) =
      .complete (.integer id.toNat) rest := by
  have hlength : (BigEndian.toBytes 8 id.toNat).length = 8 := BigEndian.toBytes_length _ _
  have hid : BigEndian.ofBytes (BigEndian.toBytes 8 id.toNat) = id.toNat :=
    BigEndian.ofBytes_toBytes _ _ (by have := id.toNat_lt; omega)
  rw [← Reading.forget_eq_complete, parse_requestId, List.take_left' hlength,
    List.drop_left' hlength, hid, if_neg (by rw [List.length_append]; omega)]

/-- A message type can only be read from a stream that has not ended. -/
theorem parse_type_stream {replies : List Reply} {v : Value} {rest : List UInt8}
    (h : messageTypeParser.parse (Reply.stream replies) = .complete v rest) :
    ∃ reply later, replies = reply :: later ∧ v = .integer 1 ∧
      rest = BigEndian.toBytes 8 reply.id.toNat ++ (reply.payload ++ Reply.stream later) := by
  cases replies with
  | nil =>
    obtain ⟨b, hnil, -⟩ := Side.messageType_complete h
    cases hnil
  | cons reply later =>
    rw [Reply.stream_cons, messageHeader_eq, List.cons_append, parse_type,
      Reading.complete.injEq] at h
    exact ⟨reply, later, rfl, h.1.symm, h.2.symm⟩

/-- The first of several parses. -/
theorem Reads.cons_iff {received rest : List UInt8} {p : Parsed} {parsed : List Parsed} :
    Reads received (p :: parsed) rest ↔
      ∃ mid, p.onResult.parserType.parse received = .complete p.value mid ∧
        Reads mid parsed rest := by
  rw [← List.singleton_append, Reads.split]
  refine exists_congr fun mid => and_congr_left fun _ => ?_
  rw [← List.nil_append [p], Reads.snoc_iff]
  constructor
  · rintro ⟨start, hnil, hparse⟩
    rwa [Reads.nil_iff.mp hnil] at hparse
  · exact fun hparse => ⟨received, .nil, hparse⟩

/-- The header of a response can only be read from a stream that has not ended. -/
theorem Reads.stream_type {replies : List Reply} {parsed : List Parsed} {n : Nat}
    {rest : List UInt8}
    (h : Reads (Reply.stream replies) (⟨.messageType, .integer n⟩ :: parsed) rest) :
    ∃ reply later, replies = reply :: later ∧ n = 1 ∧
      Reads (BigEndian.toBytes 8 reply.id.toNat ++ (reply.payload ++ Reply.stream later)) parsed
        rest := by
  obtain ⟨mid, htype, hrest⟩ := Reads.cons_iff.mp h
  obtain ⟨reply, later, hreplies, hn, rfl⟩ := parse_type_stream htype
  exact ⟨reply, later, hreplies, Value.integer.inj hn, hrest⟩

theorem Reads.stream_id {reply : Reply} {tail : List UInt8} {parsed : List Parsed} {id : Nat}
    {rest : List UInt8}
    (h : Reads (BigEndian.toBytes 8 reply.id.toNat ++ tail) (⟨.response, .integer id⟩ :: parsed)
      rest) : id = reply.id.toNat ∧ Reads tail parsed rest := by
  obtain ⟨mid, hid, hrest⟩ := Reads.cons_iff.mp h
  rw [show (Continuation.response).parserType = requestIdParser from rfl, parse_id,
    Reading.complete.injEq] at hid
  obtain ⟨hid, rfl⟩ := hid
  exact ⟨(Value.integer.inj hid).symm, hrest⟩

/-- Whoever has the id of this reply is the call it answers, and its parser reads the
payload. -/
def ExpectedResponse.Fits (expected : ExpectedResponse) (reply : Reply) : Prop :=
  reply.id = UInt64.ofNat expected.handler → reply.call = expected.handler ∧
    expected.resultParser.parse reply.payload = .complete reply.value []

/-- The message is this reply, read for its call. -/
def Message.Carries (message : Message) (reply : Reply) : Prop :=
  ∃ expected, message = .response reply.id.toNat expected reply.value ∧
    reply.call = expected.handler

omit [Platform] in
theorem Message.results_flatMap {messages : List Message} {replies : List Reply}
    (h : List.Forall₂ Message.Carries messages replies) :
    (messages.flatMap fun message => message.parsed.flatMap Parsed.result) =
      replies.map Reply.result := by
  induction h with
  | nil => rfl
  | cons hcarries _ ih =>
    obtain ⟨expected, rfl, hcall⟩ := hcarries
    rw [List.flatMap_cons, ih, List.map_cons, Reply.result, hcall]
    rfl

/-- A message that was read from the beginning of a stream is the first response of it. -/
theorem Reads.first {servers : InterfaceDefinition} {replies : List Reply} {message : Message}
    {rest : List UInt8} (h : Reads (Reply.stream replies) message.parsed rest)
    (hsound : message.Sound servers)
    (hfits : ∀ id expected v, message = .response id expected v →
      ∀ reply ∈ replies.head?, expected.Fits reply) :
    ∃ reply later, replies = reply :: later ∧ rest = Reply.stream later ∧
      message.Carries reply := by
  cases message with
  | response id expected v =>
    obtain ⟨reply, later, rfl, -, hheader⟩ := Reads.stream_type h
    obtain ⟨rfl, hpayload⟩ := Reads.stream_id hheader
    obtain ⟨mid, hresult, hnil⟩ := Reads.cons_iff.mp hpayload
    obtain rfl := Reads.nil_iff.mp hnil
    have hkey : reply.id = UInt64.ofNat expected.handler := by
      have hsound : UInt64.ofNat reply.id.toNat = UInt64.ofNat expected.handler := hsound
      rwa [UInt64.ofNat_toNat] at hsound
    obtain ⟨hcall, hparse⟩ := hfits _ _ _ rfl reply rfl hkey
    replace hparse := ParserType.parse_append hparse (Reply.stream later)
    rw [List.nil_append] at hparse
    rw [show (Continuation.result expected).parserType = expected.resultParser from rfl, hparse,
      Reading.complete.injEq] at hresult
    obtain ⟨rfl, rfl⟩ := hresult
    exact ⟨reply, later, rfl, rfl, expected, rfl, hcall⟩
  | request id name m handler v =>
    obtain ⟨reply, later, -, htype, -⟩ := Reads.stream_type h
    cases htype

/-- Messages that were read from the beginning of a stream are its first responses. -/
theorem Reads.replies {servers : InterfaceDefinition} {replies : List Reply}
    {messages : List Message} {rest : List UInt8}
    (h : Reads (Reply.stream replies) (messages.flatMap Message.parsed) rest)
    (hsound : ∀ message ∈ messages, message.Sound servers)
    (hfits : ∀ (k : Nat) id expected v reply, messages[k]? = some (.response id expected v) →
      replies[k]? = some reply → expected.Fits reply) :
    ∃ done left, replies = done ++ left ∧ rest = Reply.stream left ∧
      List.Forall₂ Message.Carries messages done := by
  induction messages generalizing replies with
  | nil => exact ⟨[], replies, rfl, Reads.nil_iff.mp h, .nil⟩
  | cons message messages ih =>
    obtain ⟨mid, hmessage, hmessages⟩ := Reads.split.mp h
    have hfirst : ∀ id expected v, message = .response id expected v →
        ∀ reply ∈ replies.head?, expected.Fits reply := by
      intro id expected v hresponse reply hreply
      rw [List.head?_eq_getElem?] at hreply
      exact hfits 0 id expected v reply (congrArg some hresponse) hreply
    obtain ⟨reply, later, rfl, rfl, hcarries⟩ :=
      hmessage.first (hsound message List.mem_cons_self) hfirst
    obtain ⟨done, left, rfl, hrest, hdone⟩ := ih hmessages
      (fun other hother => hsound other (List.mem_cons_of_mem _ hother))
      (fun k id expected v reply hmessage hreply =>
        hfits (k + 1) id expected v reply hmessage hreply)
    exact ⟨reply :: done, left, rfl, hrest, .cons hcarries hdone⟩

/-- The bytes that are left of a stream when a parse operation has this handler. -/
inductive Remains (left : List Reply) : Option Continuation → List UInt8 → Prop
  | idle : Remains left none (Reply.stream left)
  | messageType : Remains left (some .messageType) (Reply.stream left)
  | response {reply : Reply} {later : List Reply} (left_eq : left = reply :: later) :
      Remains left (some .response)
        (BigEndian.toBytes 8 reply.id.toNat ++ (reply.payload ++ Reply.stream later))
  | result {reply : Reply} {later : List Reply} {expected : ExpectedResponse}
      (left_eq : left = reply :: later) (key : reply.id = UInt64.ofNat expected.handler) :
      Remains left (some (.result expected)) (reply.payload ++ Reply.stream later)

/-- How many parts of a message have been read. -/
def Continuation.parts : Option Continuation → Nat
  | none | some .messageType => 0
  | some .response | some .request => 1
  | some (.result _) | some (.argument _ _ _ _) => 2

omit [Platform] in
theorem Opening.length_eq {servers : InterfaceDefinition} {k : Option Continuation}
    {opening : List Parsed} (h : Opening servers k opening) :
    opening.length = Continuation.parts k := by
  cases h <;> rfl

omit [Platform] in
theorem Opening.results {servers : InterfaceDefinition} {k : Option Continuation}
    {opening : List Parsed} (h : Opening servers k opening) :
    opening.flatMap Parsed.result = [] := by
  cases h <;> rfl

/-- The opening of a message that follows a stream is the one of its next response. -/
theorem Opening.remains {servers : InterfaceDefinition} {k : Option Continuation}
    {opening : List Parsed} (h : Opening servers k opening) {left : List Reply}
    {rest : List UInt8} (hreads : Reads (Reply.stream left) opening rest) :
    Remains left k rest := by
  cases h with
  | idle =>
    rw [Reads.nil_iff.mp hreads]
    exact .idle
  | messageType =>
    rw [Reads.nil_iff.mp hreads]
    exact .messageType
  | response =>
    obtain ⟨reply, later, hleft, -, hnil⟩ := hreads.stream_type
    rw [Reads.nil_iff.mp hnil]
    exact .response hleft
  | @result id expected key =>
    obtain ⟨reply, later, hleft, -, hheader⟩ := hreads.stream_type
    obtain ⟨rfl, hnil⟩ := Reads.stream_id hheader
    rw [Reads.nil_iff.mp hnil]
    refine .result hleft ?_
    rwa [UInt64.ofNat_toNat] at key
  | request | argument =>
    obtain ⟨reply, later, -, htype, -⟩ := hreads.stream_type
    cases htype

omit [Platform] in
theorem Message.parsed_length (message : Message) : message.parsed.length = 3 := by
  cases message <;> rfl

omit [Platform] in
theorem Message.length_flatMap (messages : List Message) :
    (messages.flatMap Message.parsed).length = 3 * messages.length := by
  induction messages with
  | nil => rfl
  | cons message messages ih =>
    rw [List.flatMap_cons, List.length_append, Message.parsed_length, ih, List.length_cons]
    omega

namespace Side

/-- The operation of an outstanding read has been shown everything, and needs more. -/
theorem Composed.waits {servers : InterfaceDefinition} {s : Side} (h : s.Composed servers)
    (hactive : s.active = s.reads) (hreads : s.reads ≠ []) :
    ∃ k parser, s.parsing = some k ∧ k.parserType.parse s.unread = .more parser := by
  obtain ⟨messages, htrace⟩ := h.trace
  obtain ⟨operation, hoperation⟩ := List.exists_mem_of_ne_nil _ hreads
  obtain ⟨parser, hmore⟩ := htrace.waits operation hoperation
  have halone : s.active = [operation] := by
    cases h.calm.phase with
    | idle active => exact (hreads (hactive.symm.trans active)).elim
    | header active | payload active =>
      rw [← hactive, active, List.mem_singleton] at hoperation
      rw [active, hoperation]
  refine ⟨operation.onResult, parser, by rw [parsing, halone]; rfl, ?_⟩
  rw [unread, halone, List.flatMap_singleton, htrace.buffer hreads, List.append_nil, hmore]

/-- A regular side that has received a part of the stream. The headers it has read name calls
whose results are what follows them. -/
structure Follows (servers : InterfaceDefinition) (replies : List Reply) (s : Side) : Prop where
  regular : s.Regular servers
  received : s.history.received <+: Reply.stream replies
  answers : ∀ (k : Nat) (reply : Reply), replies[k]? = some reply →
    3 * k + 2 ≤ s.history.parsed.length → reply.answers s.history.calls = true
  calls : s.history.calls.length ≤ 2 ^ 64

/-- `done` has been read, and of the rest the bytes before `more` have been received. -/
structure Position (s : Side) (done left : List Reply) (more : List UInt8) : Prop where
  received : s.history.received ++ more = Reply.stream (done ++ left)
  before : Reply.stream done <+: s.history.received
  remains : Remains left s.parsing (s.unread ++ more)
  results : s.history.parsed.flatMap Parsed.result = done.map Reply.result
  length : s.history.parsed.length = 3 * done.length + Continuation.parts s.parsing

omit [Platform] in
theorem ofNat_inj {m n : Nat} (hm : m < 2 ^ 64) (hn : n < 2 ^ 64)
    (h : UInt64.ofNat m = UInt64.ofNat n) : m = n := by
  rcases Nat.lt_trichotomy m n with hlt | heq | hgt
  · exact (Books.ofNat_ne hlt hn h).elim
  · exact heq
  · exact (Books.ofNat_ne hgt hm h.symm).elim

/-- The id of a response leads to the parser that its payload was made for. -/
theorem Follows.fits {servers : InterfaceDefinition} {replies : List Reply} {s : Side}
    (h : s.Follows servers replies) {expected : ExpectedResponse}
    (hexpected : expected ∈ s.books.expectations) {reply : Reply}
    (hanswers : reply.answers s.history.calls = true) : expected.Fits reply := by
  intro hkey
  have hcalls := h.calls
  have hlt := Reply.lt_of_answers hanswers
  have hexpects := h.regular.books.expects expected hexpected
  have hcall : reply.call = expected.handler :=
    ofNat_inj (by omega) (Nat.lt_of_lt_of_le hexpects.lt hcalls) hkey
  obtain ⟨call, hfound, hparse⟩ := Reply.answers_iff.mp hanswers
  obtain ⟨other, hother, -, hparser⟩ := hexpects
  have hsame : call = other := by
    rw [hcall] at hfound
    exact Option.some.inj (hfound.symm.trans hother)
  exact ⟨hcall, by rw [hparser, ← hsame]; exact hparse⟩

omit [Platform] in
theorem mem_expectations_parsed {s : Side} {expected : ExpectedResponse} {v : Value}
    (h : ⟨.result expected, v⟩ ∈ s.history.parsed) : expected ∈ s.books.expectations := by
  rw [Books.expectations, List.mem_append]
  exact .inr (List.mem_flatMap.mpr ⟨_, h, List.mem_singleton_self expected⟩)

omit [Platform] in
theorem mem_expectations_reading {s : Side} {expected : ExpectedResponse}
    (h : s.parsing = some (.result expected)) : expected ∈ s.books.expectations := by
  obtain ⟨operation, hhead, hkind⟩ := Option.map_eq_some_iff.mp h
  rw [Books.expectations, List.mem_append, List.mem_append]
  refine .inl (.inr (List.mem_flatMap.mpr ⟨operation, List.mem_of_head? hhead, ?_⟩))
  rw [hkind]
  exact List.mem_singleton_self expected

/-- Where a side is in its stream. -/
theorem Follows.position {servers : InterfaceDefinition} {replies : List Reply} {s : Side}
    (h : s.Follows servers replies) :
    ∃ done left more, replies = done ++ left ∧ s.Position done left more := by
  obtain ⟨more, hmore⟩ := h.received
  obtain ⟨messages, htrace⟩ := h.regular.trace
  obtain ⟨opening, hparsed, hopening⟩ := htrace.grammar
  have hreads := htrace.reads
  rw [hparsed] at hreads
  obtain ⟨mid, hmessages, hrest⟩ := Reads.split.mp hreads
  replace hmessages := hmessages.append more
  rw [hmore] at hmessages
  have hlength : s.history.parsed.length =
      3 * messages.length + Continuation.parts s.parsing := by
    rw [hparsed, List.length_append, Message.length_flatMap, hopening.length_eq]
  have hmem {message : Message} (hmessage : message ∈ messages) (p : Parsed)
      (hp : p ∈ message.parsed) : p ∈ s.history.parsed := by
    rw [hparsed, List.mem_append]
    exact .inl (List.mem_flatMap.mpr ⟨message, hmessage, hp⟩)
  obtain ⟨done, left, rfl, hleft, hcarries⟩ := hmessages.replies htrace.sound
    fun k id expected v reply hmessage hreply => by
      have hlt := (List.getElem?_eq_some_iff.mp hmessage).1
      refine h.fits (mem_expectations_parsed (v := v) ?_) (h.answers k reply hreply (by omega))
      exact hmem (List.mem_of_getElem? hmessage) _ (by simp [Message.parsed])
  have hreceived : s.history.received = Reply.stream done ++ mid := by
    refine (List.append_left_inj more).mp ?_
    rw [hmore, List.append_assoc, hleft, Reply.stream, List.flatMap_append]
    rfl
  refine ⟨done, left, more, rfl, hmore, ⟨mid, hreceived.symm⟩, ?_, ?_, ?_⟩
  · exact hopening.remains (hleft ▸ hrest.append more)
  · rw [hparsed, List.flatMap_append, hopening.results, List.append_nil, List.flatMap_assoc,
      Message.results_flatMap hcarries]
  · rw [hlength, hcarries.length_eq]

end Side

end Warpcoil
