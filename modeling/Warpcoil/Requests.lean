import Warpcoil.Dispatch

/-! A stream of requests, and how much of it a regular side has read. -/
namespace Warpcoil
open Incremental Transition

/-- What a handler is given while the request is read. -/
def Request.part (request : Request) : Continuation → Option Value
  | .messageType => some (.integer 0)
  | .request => some (.tuple [.integer request.id.toNat, .utf8 request.name])
  | .argument _ _ _ _ => some request.argument
  | .response | .result _ => none

variable [Platform]

/-- The bytes are these requests, one after another, and nothing else. -/
inductive RequestStream (servers : InterfaceDefinition) : List UInt8 → List Request → Prop
  | nil : RequestStream servers [] []
  | cons {bs rest : List UInt8} {request : Request} {requests : List Request}
      (first : readRequest servers bs = some (request, rest))
      (later : RequestStream servers rest requests) :
      RequestStream servers bs (request :: requests)

/-- The parsers of the splitter and of the server read what the reference reads. -/
theorem reads_of_readRequest {servers : InterfaceDefinition} {bs rest : List UInt8}
    {request : Request} (h : readRequest servers bs = some (request, rest)) :
    servers.find request.name = some request.method ∧ ∀ handler,
      Reads bs (Message.request request.id.toNat request.name request.method handler
        request.argument).parsed rest := by
  cases bs with
  | nil => cases h
  | cons type bs =>
    rw [readRequest] at h
    split_ifs at h with hguard
    rw [not_or, not_not, Nat.not_lt] at hguard
    obtain ⟨rfl, hlength⟩ := hguard
    split at h
    · cases h
    · next n tail hdrop =>
      dsimp only at h
      split_ifs at h with hname
      rw [not_or, Nat.not_lt, Bool.not_eq_false] at hname
      obtain ⟨hn, hvalid⟩ := hname
      split at h
      · cases h
      · next m hfind =>
        split at h
        · next v tail' hparse =>
          cases h
          have hid : (UInt64.ofNat (BigEndian.ofBytes (bs.take 8))).toNat =
              BigEndian.ofBytes (bs.take 8) := by
            have hlt := BigEndian.ofBytes_lt (bs.take 8)
            rw [List.length_take, Nat.min_eq_left hlength] at hlt
            rw [UInt64.toNat_ofNat', Nat.mod_eq_of_lt (by omega)]
          refine ⟨hfind, fun handler => Reads.cons_iff.mpr ⟨bs, parse_type .request bs,
            Reads.cons_iff.mpr ⟨tail.drop n.toNat, ?_, Reads.cons_iff.mpr ⟨rest, hparse, .nil⟩⟩⟩⟩
          change requestHeaderParser.parse bs = _
          rw [← Reading.forget_eq_complete, parse_requestHeader, if_neg (Nat.not_lt.mpr hlength),
            hdrop]
          dsimp only
          rw [if_neg (Nat.not_lt.mpr hn), if_pos hvalid, hid]
        · cases h
        · cases h

theorem readRequest_append {servers : InterfaceDefinition} {bs rest : List UInt8}
    {request : Request} (h : readRequest servers bs = some (request, rest)) (more : List UInt8) :
    readRequest servers (bs ++ more) = some (request, rest ++ more) := by
  obtain ⟨hfind, hreads⟩ := reads_of_readRequest h
  have hmessage := readRequest_of_reads ((hreads 0).append more) hfind
  rwa [UInt64.ofNat_toNat] at hmessage

namespace RequestStream
variable {servers : InterfaceDefinition} {bs : List UInt8} {requests : List Request}

theorem append {cs : List UInt8} {others : List Request} (h : RequestStream servers bs requests)
    (h' : RequestStream servers cs others) :
    RequestStream servers (bs ++ cs) (requests ++ others) := by
  induction h with
  | nil => exact h'
  | cons first later ih => exact .cons (readRequest_append first cs) ih

/-- The reference finds them all. -/
theorem readRequests (h : RequestStream servers bs requests) :
    Warpcoil.readRequests servers bs = requests := by
  induction h with
  | nil => rfl
  | cons first later ih => rw [readRequests_some first, ih]

/-- A message that was read from the beginning is the first request. -/
theorem first (h : RequestStream servers bs requests) {message : Message} {rest : List UInt8}
    (hreads : Reads bs message.parsed rest) (hsound : message.Sound servers) :
    ∃ request later, requests = request :: later ∧ message.request? = some request ∧
      RequestStream servers rest later := by
  have htype : ∃ type tail, bs = type :: tail := by
    cases message with
    | response | request =>
      obtain ⟨mid, htype, -⟩ := Reads.cons_iff.mp hreads
      obtain ⟨b, rfl, -⟩ := Side.messageType_complete htype
      exact ⟨b, mid, rfl⟩
  obtain ⟨type, tail, rfl⟩ := htype
  cases h with
  | @cons _ rest' request later first stream =>
    refine ⟨request, later, rfl, ?_⟩
    cases message with
    | response id expected v =>
      -- the type of a response is not the one of a request
      obtain ⟨-, -, -, hnone⟩ := readRequest_type servers hreads
      rw [hnone one_ne_zero] at first
      cases first
    | request id name m handler v =>
      rw [readRequest_of_reads hreads hsound, Option.some.injEq, Prod.mk.injEq] at first
      obtain ⟨rfl, rfl⟩ := first
      exact ⟨rfl, stream⟩

/-- Messages that were read from the beginning are the first requests. -/
theorem messages (h : RequestStream servers bs requests) {messages : List Message}
    {rest : List UInt8} (hreads : Reads bs (messages.flatMap Message.parsed) rest)
    (hsound : ∀ message ∈ messages, message.Sound servers) :
    ∃ done left, requests = done ++ left ∧ messages.filterMap Message.request? = done ∧
      (∀ message ∈ messages, message.request?.isSome = true) ∧ RequestStream servers rest left := by
  induction messages generalizing bs requests with
  | nil =>
    rw [Reads.nil_iff.mp hreads]
    exact ⟨[], requests, rfl, rfl, by simp, h⟩
  | cons message messages ih =>
    obtain ⟨mid, hmessage, hmessages⟩ := Reads.split.mp hreads
    obtain ⟨request, later, rfl, hfirst, hstream⟩ := h.first hmessage (hsound _ List.mem_cons_self)
    obtain ⟨done, left, rfl, hdone, hall, hrest⟩ := ih hstream hmessages
      fun other hother => hsound other (List.mem_cons_of_mem _ hother)
    refine ⟨request :: done, left, rfl, ?_, List.forall_mem_cons.mpr ⟨by rw [hfirst]; rfl, hall⟩,
      hrest⟩
    rw [List.filterMap_cons_some hfirst, hdone]

/-- What is left of the stream is what the running parser is for. -/
theorem parse (h : RequestStream servers bs requests) {k : Continuation} {opening : List Parsed}
    (hopening : Opening servers (some k) opening) {mid : List UInt8}
    (hreads : Reads bs opening mid) :
    (k = .messageType ∧ requests = [] ∧ mid = []) ∨ ∃ request later v tail,
      requests = request :: later ∧ request.part k = some v ∧
      servers.find request.name = some request.method ∧
      k.parserType.parse mid = .complete v tail := by
  cases h with
  | nil =>
    cases hopening with
    | messageType => exact .inl ⟨rfl, rfl, Reads.nil_iff.mp hreads⟩
    | response | request | result | argument =>
      obtain ⟨_, htype, -⟩ := Reads.cons_iff.mp hreads
      obtain ⟨b, hnil, -⟩ := Side.messageType_complete htype
      cases hnil
  | @cons _ rest request later first stream =>
    obtain ⟨hfind, hmessage⟩ := reads_of_readRequest first
    obtain ⟨mid', htype, hheader⟩ := Reads.cons_iff.mp (hmessage 0)
    obtain ⟨mid'', hheader, hargument⟩ := Reads.cons_iff.mp hheader
    obtain ⟨tail, hargument, -⟩ := Reads.cons_iff.mp hargument
    refine .inr ⟨request, later, ?_⟩
    cases hopening with
    | messageType =>
      rw [Reads.nil_iff.mp hreads]
      exact ⟨_, _, rfl, rfl, hfind, htype⟩
    | response | result =>
      obtain ⟨mid₁, htype₁, -⟩ := Reads.cons_iff.mp hreads
      replace htype₁ := htype₁.symm.trans htype
      simp at htype₁
    | request =>
      obtain ⟨mid₁, htype₁, hnil⟩ := Reads.cons_iff.mp hreads
      rw [Reads.nil_iff.mp hnil]
      replace htype₁ := htype₁.symm.trans htype
      rw [Reading.complete.injEq] at htype₁
      rw [htype₁.2]
      exact ⟨_, _, rfl, rfl, hfind, hheader⟩
    | @argument id name m handler find =>
      obtain ⟨mid₁, htype₁, hheader₁⟩ := Reads.cons_iff.mp hreads
      obtain ⟨mid₂, hheader₁, hnil⟩ := Reads.cons_iff.mp hheader₁
      rw [Reads.nil_iff.mp hnil]
      replace htype₁ := htype₁.symm.trans htype
      rw [Reading.complete.injEq] at htype₁
      rw [htype₁.2] at hheader₁
      replace hheader₁ := hheader₁.symm.trans hheader
      simp only [Reading.complete.injEq, Value.tuple.injEq, List.cons.injEq, Value.integer.injEq,
        Value.utf8.injEq, and_true] at hheader₁
      obtain ⟨⟨-, rfl⟩, rfl⟩ := hheader₁
      obtain rfl := Option.some.inj (find.symm.trans hfind)
      exact ⟨_, _, rfl, rfl, hfind, hargument⟩

end RequestStream

omit [Platform] in
theorem Request.parsed_of_message {message : Message} {request : Request}
    (h : message.request? = some request) {p : Parsed} (hp : p ∈ message.parsed) :
    p.onResult.isResponse = false ∧ p.onResult.expected = [] := by
  cases message with
  | response => cases h
  | request id name m handler v =>
    simp only [Message.parsed, List.mem_cons, List.not_mem_nil, or_false] at hp
    rcases hp with rfl | rfl | rfl <;> exact ⟨rfl, rfl⟩

omit [Platform] in
theorem Opening.of_request {servers : InterfaceDefinition} {k : Continuation}
    {opening : List Parsed} (h : Opening servers (some k) opening) {request : Request} {v : Value}
    (hpart : request.part k = some v) {p : Parsed} (hp : p ∈ opening) :
    p.onResult.isResponse = false ∧ p.onResult.expected = [] := by
  cases h with
  | messageType => cases hp
  | response | result => cases hpart
  | request =>
    rw [List.mem_singleton.mp hp]
    exact ⟨rfl, rfl⟩
  | argument =>
    simp only [List.mem_cons, List.not_mem_nil, or_false] at hp
    rcases hp with rfl | rfl <;> exact ⟨rfl, rfl⟩

namespace Side

/-- A side that has received a part of the stream. -/
structure Approached (servers : InterfaceDefinition) (stream : List UInt8) (s : Side) : Prop where
  composed : s.Composed servers
  received : s.history.received <+: stream

/-- A regular side that has received a part of the stream. -/
structure Asked (servers : InterfaceDefinition) (stream : List UInt8) (s : Side) : Prop where
  regular : s.Regular servers
  received : s.history.received <+: stream

theorem asked_initial (servers : InterfaceDefinition) (stream : List UInt8) :
    Asked servers stream {} :=
  ⟨regular_initial servers, List.nil_prefix⟩

theorem Asked.approached {servers : InterfaceDefinition} {stream : List UInt8} {s : Side}
    (h : s.Asked servers stream) : s.Approached servers stream :=
  ⟨h.regular.toComposed, h.received⟩

/-- `done` has been read, and of the rest of the stream the bytes before `more` have been
received. -/
structure Place (servers : InterfaceDefinition) (s : Side) (done left : List Request)
    (more : List UInt8) : Prop where
  parse : ∀ k, s.parsing = some k → (k = .messageType ∧ left = [] ∧ s.unread ++ more = []) ∨
    ∃ request later v tail, left = request :: later ∧ request.part k = some v ∧
      servers.find request.name = some request.method ∧
      k.parserType.parse (s.unread ++ more) = .complete v tail
  dispatched : (s.invoked ++ s.desk.unlocked).map Invocation.request = done
  requests : ∀ p ∈ s.history.parsed, p.onResult.isResponse = false ∧ p.onResult.expected = []
  within : done <+: readRequests servers s.history.received
  rests : s.active = s.reads → s.reads ≠ [] → readRequests servers s.history.received = done

/-- Where a side is in its stream. -/
theorem Approached.place {servers : InterfaceDefinition} {stream : List UInt8} {s : Side}
    (h : s.Approached servers stream) {requests : List Request}
    (hstream : RequestStream servers stream requests) :
    ∃ done left more, requests = done ++ left ∧ s.history.received ++ more = stream ∧
      s.Place servers done left more := by
  obtain ⟨more, hmore⟩ := h.received
  obtain ⟨messages, htrace⟩ := h.composed.trace
  obtain ⟨opening, hparsed, hopening⟩ := htrace.grammar
  have hreads := htrace.reads
  rw [hparsed] at hreads
  obtain ⟨mid, hmessages, hrest⟩ := Reads.split.mp hreads
  have hwhole := hmessages.append more
  rw [hmore] at hwhole
  obtain ⟨done, left, rfl, hdone, hrequest, hleft⟩ := hstream.messages hwhole htrace.sound
  have hparse (k : Continuation) (hk : s.parsing = some k) := by
    rw [hk] at hopening
    exact hleft.parse hopening (hrest.append more)
  have hreceived := readRequests_of_reads hmessages htrace.sound hrequest
  rw [hdone] at hreceived
  refine ⟨done, left, more, rfl, hmore, hparse, ?_, ?_, ⟨_, hreceived.symm⟩, ?_⟩
  · have hdispatched : s.history.parsed.flatMap Parsed.invocation = s.invoked ++ s.desk.unlocked :=
      h.composed.work
    rw [hparsed, List.flatMap_append, hopening.invocations, List.append_nil] at hdispatched
    rw [← hdispatched, Message.invocations, hdone]
  · intro p hp
    rw [hparsed, List.mem_append, List.mem_flatMap] at hp
    rcases hp with ⟨message, hmessage, hp⟩ | hp
    · obtain ⟨request, hsome⟩ := Option.isSome_iff_exists.mp (hrequest message hmessage)
      exact Request.parsed_of_message hsome hp
    · -- the message that is being read is a request, too
      cases hk : s.parsing with
      | none =>
        rw [hk] at hopening
        cases hopening
        cases hp
      | some k =>
        rw [hk] at hopening
        rcases hparse k hk with ⟨rfl, -, -⟩ | ⟨request, _, v, _, -, hpart, -⟩
        · cases hopening
          cases hp
        · exact hopening.of_request hpart hp
  · intro hactive hne
    obtain ⟨k, parser, hk, hmore⟩ := h.composed.waits hactive hne
    rw [hk] at hopening
    rw [hreceived, readRequests_none (readRequest_incomplete hopening hrest hmore), List.append_nil]

/-- A parse operation that is started waits for more, or reads the next part of a request. -/
theorem Approached.reads {servers : InterfaceDefinition} {stream : List UInt8} {s : Side}
    (h : s.Approached servers stream) {requests : List Request}
    (hstream : RequestStream servers stream requests) {operation : ParseOperation}
    {stack : List Frame} (hstack : s.stack = .start operation :: stack) :
    (∃ parser, s.reading operation = .more parser) ∨
      ∃ (request : Request) (v : Value) (rest : List UInt8),
      request.part operation.onResult = some v ∧
      servers.find request.name = some request.method ∧
      s.reading operation = .complete v rest := by
  obtain ⟨done, left, more, -, -, hplace⟩ := h.place hstream
  have halone := h.composed.calm.alone hstack
  have hparsing : s.parsing = some operation.onResult := by rw [parsing, halone]; rfl
  have hunread : s.unread = operation.seen ++ s.buffer := by
    rw [unread, halone, List.flatMap_singleton]
  rcases hplace.parse _ hparsing with ⟨hk, -, hnil⟩ |
    ⟨request, _, v, _, -, hpart, hfind, hparse⟩
  · left
    rw [hunread, List.append_eq_nil_iff] at hnil
    rw [reading, hnil.1, hk]
    exact ⟨_, rfl⟩
  · rw [hunread] at hparse
    rcases ParserType.parse_of_append hparse with hmore | ⟨rest, hcomplete, -⟩
    · exact .inl hmore
    · exact .inr ⟨request, v, rest, hpart, hfind, hcomplete⟩

/-- The type of a request is read next, and `serve_one_request` has not been called for it. -/
def untimely (s : Side) : Bool :=
  match s.stack with
  | .start operation :: _ =>
    match operation.onResult, s.reading operation with
    | .messageType, .complete (.integer 0) _ => s.waitingForRequest.isNone
    | _, _ => false
  | _ => false

theorem untimely_of {s : Side} {operation : ParseOperation} {stack : List Frame}
    {rest : List UInt8} (hstack : s.stack = .start operation :: stack)
    (hkind : operation.onResult = .messageType)
    (hreads : s.reading operation = .complete (.integer 0) rest) :
    s.untimely = s.waitingForRequest.isNone := by
  obtain ⟨parser, k, seen⟩ := operation
  obtain rfl : k = .messageType := hkind
  rw [untimely, hstack]
  dsimp only
  rw [hreads]
  rfl

/-- Requests alone do not end the calm where `serve_one_request` is called in time. -/
theorem Approached.undisturbed {servers : InterfaceDefinition} {stream : List UInt8} {s : Side}
    (h : s.Approached servers stream) {requests : List Request}
    (hstream : RequestStream servers stream requests) (hquiet : s.output.Quiet) {frame : Frame}
    {stack : List Frame} (hstack : s.stack = frame :: stack) (htimely : s.untimely = false) :
    ¬ Disturbed servers { s with stack } frame := by
  intro hdisturbed
  cases hdisturbed with
  | @writeError handler handlers ec _ ec_ne top =>
    refine ec_ne (hquiet (handler :: handlers) ec ?_)
    rw [show s.output.stack = _ from top]
    exact List.mem_cons_self
  | @refused operation e reads =>
    have hreads : s.reading operation = .fail e := reads
    rcases h.reads hstream hstack with ⟨parser, hmore⟩ | ⟨_, _, _, _, _, hcomplete⟩
    · rw [hreads] at hmore; cases hmore
    · rw [hreads] at hcomplete; cases hcomplete
  | @messageType operation n rest kind reads response request =>
    have hreads : s.reading operation = .complete (.integer n) rest := reads
    rcases h.reads hstream hstack with ⟨parser, hmore⟩ | ⟨_, _, _, hpart, -, hcomplete⟩
    · rw [hreads] at hmore; cases hmore
    · rw [hreads, Reading.complete.injEq] at hcomplete
      rw [kind, ← hcomplete.1] at hpart
      obtain rfl : n = 0 := by simpa [Request.part, eq_comm] using hpart
      rw [untimely_of hstack kind hreads, Option.isNone_eq_false_iff] at htimely
      exact request ⟨rfl, htimely⟩
  | @stray operation id rest kind reads find =>
    have hreads : s.reading operation = .complete (.integer id) rest := reads
    rcases h.reads hstream hstack with ⟨parser, hmore⟩ | ⟨_, _, _, hpart, -, hcomplete⟩
    · rw [hreads] at hmore; cases hmore
    · rw [kind] at hpart; cases hpart
  | @unknown operation id name rest kind reads find =>
    have hreads : s.reading operation = .complete (.tuple [.integer id, .utf8 name]) rest := reads
    rcases h.reads hstream hstack with ⟨parser, hmore⟩ | ⟨_, _, _, hpart, hfind, hcomplete⟩
    · rw [hreads] at hmore; cases hmore
    · rw [hreads, Reading.complete.injEq] at hcomplete
      rw [kind, ← hcomplete.1] at hpart
      simp only [Request.part, Option.some.injEq, Value.tuple.injEq, List.cons.injEq,
        Value.utf8.injEq, and_true] at hpart
      rw [← hpart.2, hfind] at find
      cases find

theorem Approached.moved {clients servers : InterfaceDefinition} {stream : List UInt8}
    {s s' : Side} {event : Event} (h : s.Approached servers stream)
    (hmoved : Moved clients servers s event s') (hcomposed : s'.Composed servers)
    (hread : ∀ index bytes, event = .read index bytes →
      s.history.received ++ bytes <+: stream) : s'.Approached servers stream := by
  refine ⟨hcomposed, ?_⟩
  rcases hmoved.recorded.received with hsame | ⟨index, bytes, hevent, hnext⟩
  · rw [hsame]
    exact h.received
  · rw [hnext]
    exact hread index bytes hevent

/-- What the implementation answers does not matter. -/
theorem Approached.answer {clients servers : InterfaceDefinition} {stream : List UInt8}
    {s s' : Side} {index : Nat} {result : Except ErrorCode Value} (h : s.Approached servers stream)
    (hquiet : s.output.Quiet) (hstep : Side.step clients servers s (.answer index result) = some s')
    (hupset : Upset servers s (.answer index result)) :
    s'.Approached servers stream ∧ s'.output.Quiet := by
  have hcomposed := h.composed.answer hstep hupset
  obtain ⟨-, htaken⟩ := taken_of_step hstep
  cases htaken with
  | @answer _ invocation _ =>
    cases result with
    | error ec => exact ⟨⟨hcomposed, h.received⟩, hquiet⟩
    | ok v =>
      unfold Side.answer at hcomposed ⊢
      dsimp only at hcomposed ⊢
      split_ifs at hcomposed ⊢
      · exact ⟨⟨hcomposed, h.received⟩, hquiet.of_stack (BufferedWriter.sendBuffer_stack _ _)⟩
      · exact ⟨⟨hcomposed, h.received⟩, hquiet.of_stack rfl⟩

/-- Whoever reads the type of a request at a calm side has a handler for it. -/
theorem Moved.timely {clients servers : InterfaceDefinition} {s s' : Side}
    (h : Moved clients servers s .resume s') : s.untimely = false := by
  cases h with
  | @resume frame stack _ hstack hresumed =>
    cases hu : s.untimely with
    | false => rfl
    | true =>
      unfold untimely at hu
      rw [hstack] at hu
      cases hresumed with
      | @requestType operation rest kind reads waiting =>
        have hreads : s.reading operation = .complete (.integer 0) rest := reads
        have hwaiting : s.waitingForRequest.isSome = true := waiting
        dsimp only at hu
        rw [kind, hreads] at hu
        simp [Option.isNone_iff_eq_none.mp hu] at hwaiting
      | @more operation parser reads =>
        have hreads : s.reading operation = .more parser := reads
        dsimp only at hu
        rw [hreads] at hu
        simp at hu
      | @responseType operation rest kind reads =>
        have hreads : s.reading operation = .complete (.integer 1) rest := reads
        dsimp only at hu
        rw [kind, hreads] at hu
        simp at hu
      | responseHeader kind | requestHeader kind | result kind | argument kind =>
        dsimp only at hu
        rw [kind] at hu
        simp at hu
      | _ => cases hu

/-- A peer that sends these requests, an implementation whose results can be encoded, and a server
that calls `serve_one_request` when the handler of the one before has been called. -/
def requested (stream : List UInt8) (s : Side) : Event → Bool
  | .call _ _ => decide (s.history.calls.length < 2 ^ 64)
  | .serve => (List.range s.history.serves).all fun n => (s.history.served.map Prod.fst).contains n
  | .answer index result =>
    match s.invoked[index]?, result with
    | some invocation, .ok v => (responseMessage invocation.id invocation.method v).ok
    | _, _ => false
  | .read _ bytes => decide (s.history.received ++ bytes <+: stream)
  | .readError _ _ => false
  | .written _ _ ec => decide (ec = .success)
  | .return | .resume => true

/-- The same peer and the same server, whatever the implementation answers. -/
def pipelined (stream : List UInt8) (s : Side) : Event → Bool
  | .answer _ _ => true
  | event => requested stream s event

theorem pipelined_of_requested {stream : List UInt8} {s : Side} {event : Event}
    (h : requested stream s event = true) : pipelined stream s event = true := by
  cases event with
  | answer => rfl
  | _ => exact h

theorem pipelined_polite {stream : List UInt8} {s : Side} {event : Event}
    (h : pipelined stream s event = true) : s.Polite event := by
  cases event with
  | call name arguments =>
    have hlt : s.history.calls.length < 2 ^ 64 := of_decide_eq_true h
    exact hlt
  | serve =>
    intro n hn
    simp only [pipelined, requested, List.all_eq_true, List.mem_range, List.contains_iff_mem] at h
    exact h n hn
  | _ => trivial

/-- One step: it goes on, unless the type of a request is read too early. -/
theorem Approached.step {clients servers : InterfaceDefinition} {stream : List UInt8} {s s' : Side}
    {event : Event} (h : s.Approached servers stream) {requests : List Request}
    (hstream : RequestStream servers stream requests) (hquiet : s.output.Quiet)
    (hpipelined : pipelined stream s event = true)
    (hstep : Side.step clients servers s event = some s') :
    (s'.Approached servers stream ∧ s'.output.Quiet) ∨
      (event = .resume ∧ s.untimely = true) := by
  rcases h.composed.step hstep (pipelined_polite hpipelined) with ⟨hmoved, hcomposed⟩ | hupset
  · refine .inl ⟨h.moved hmoved hcomposed ?_, hmoved.quiet hquiet ?_⟩
    · rintro index bytes rfl
      exact of_decide_eq_true hpipelined
    · rintro index transferred ec rfl
      exact of_decide_eq_true hpipelined
  · cases hupset with
    | resume hstack hdisturbed =>
      refine .inr ⟨rfl, ?_⟩
      by_contra htimely
      exact h.undisturbed hstream hquiet hstack (Bool.eq_false_of_not_eq_true htimely) hdisturbed
    | readError => cases hpipelined
    | answerError => exact .inl (h.answer hquiet hstep .answerError)
    | answerRefused hinvoked hrefused =>
      exact .inl (h.answer hquiet hstep (.answerRefused hinvoked hrefused))

/-- One step: on time it goes on without an error, and otherwise it fails. -/
theorem Asked.step {clients servers : InterfaceDefinition} {stream : List UInt8} {s s' : Side}
    {event : Event} (h : s.Asked servers stream) {requests : List Request}
    (hstream : RequestStream servers stream requests) (hquiet : s.output.Quiet)
    (hrequested : requested stream s event = true)
    (hstep : Side.step clients servers s event = some s') :
    (Moved clients servers s event s' ∧ s'.Asked servers stream ∧ s'.output.Quiet ∧
      (event = .resume → s.untimely = false)) ∨
    (event = .resume ∧ s.untimely = true ∧ s'.history.failed = true) := by
  have hpipelined := pipelined_of_requested hrequested
  have happroached := h.approached.step hstream hquiet hpipelined hstep
  rcases h.regular.step hstep (pipelined_polite hpipelined) with ⟨hmoved, hregular⟩ | hupset
  · have htimely (hresume : event = .resume) : s.untimely = false := by
      subst hresume
      exact hmoved.timely
    rcases happroached with ⟨happroached, hnext⟩ | ⟨hresume, hlate⟩
    · exact .inl ⟨hmoved, ⟨hregular, happroached.received⟩, hnext, htimely⟩
    · rw [htimely hresume] at hlate
      cases hlate
  · have hfailed := h.regular.calm.upset_failed hstep hupset
    cases hupset with
    | resume hstack hdisturbed =>
      refine .inr ⟨rfl, ?_, hfailed⟩
      by_contra htimely
      exact h.approached.undisturbed hstream hquiet hstack (Bool.eq_false_of_not_eq_true htimely)
        hdisturbed
    | readError => cases hrequested
    | answerError =>
      simp [requested] at hrequested
    | answerRefused hinvoked hrefused =>
      simp only [requested, hinvoked] at hrequested
      rw [hrefused] at hrequested
      cases hrequested

/-- `serve_one_request` has been called when the type of a request is read. -/
def inTime (s : Side) : Event → Bool
  | .resume => !s.untimely
  | .call _ _ | .serve | .answer _ _ | .return | .read _ _ | .readError _ _ | .written _ _ _ => true

theorem inTime_iff {s : Side} {event : Event} :
    inTime s event = true ↔ (event = .resume → s.untimely = false) := by
  cases event <;> simp [inTime]

/-- What a side that only meets requests has dispatched, and what is left of its own calls. -/
theorem Approached.dispatched {servers : InterfaceDefinition} {stream : List UInt8} {s : Side}
    (h : s.Approached servers stream) {requests : List Request}
    (hstream : RequestStream servers stream requests) :
    s.invoked.map Invocation.request <+: requests ∧
    s.invoked.map Invocation.request <+: readRequests servers s.history.received ∧
    (s.stack = [] → s.reads ≠ [] →
      s.invoked.map Invocation.request = readRequests servers s.history.received) ∧
    s.expectedResponses.length = s.history.calls.countP Call.accepted ∧
    s.history.completed.flatMap handedOver = [] := by
  obtain ⟨done, left, more, rfl, -, hplace⟩ := h.place hstream
  have hbegins : s.invoked.map Invocation.request <+: done := by
    rw [← hplace.dispatched, List.map_append]
    exact List.prefix_append _ _
  refine ⟨hbegins.trans (List.prefix_append _ _), hbegins.trans hplace.within,
    fun hstack hreads => ?_, ?_, ?_⟩
  · have hactive : s.active = s.reads := by rw [active, hstack]; rfl
    have hunlocked : s.desk.unlocked = [] := by rw [Side.desk, hstack]; rfl
    rw [hplace.rests hactive hreads, ← hplace.dispatched, hunlocked, List.append_nil]
  · have hpending := h.composed.books.pending
    rw [List.countP_eq_zero.mpr (fun p hp => by rw [(hplace.requests p hp).1]; decide)] at hpending
    exact hpending
  · have hresults := h.composed.books.results
    rw [List.flatMap_eq_nil_iff.mpr fun p hp => ?_, List.nil_perm, List.append_eq_nil_iff]
      at hresults
    · exact hresults.1
    · rw [Parsed.result, (hplace.requests p hp).2]
      rfl

/-- Steps on time keep a side that only meets requests without an error. -/
theorem asked_run {clients servers : InterfaceDefinition} {stream : List UInt8}
    {requests : List Request} {events : List Event} {s : Side}
    (hstream : RequestStream servers stream requests)
    (hrequested : Along (Side.step clients servers)
      (fun s event => requested stream s event = true) {} events)
    (htime : Along (Side.step clients servers) (fun s event => inTime s event = true) {} events)
    (hrun : run (Side.step clients servers) {} events = some s) :
    s.Asked servers stream ∧ s.output.Quiet := by
  refine Along.run (P := fun t => Asked servers stream t ∧ t.output.Quiet)
    (fun t event t' ht hevent hstep => ?_)
    ⟨asked_initial servers stream, fun handlers ec hmem => by cases hmem⟩
    (hrequested.and htime) hrun
  rcases ht.1.step hstream ht.2 hevent.1 hstep with ⟨-, hnext, hquiet, -⟩ | ⟨hresume, hlate, -⟩
  · exact ⟨hnext, hquiet⟩
  · rw [inTime_iff.mp hevent.2 hresume] at hlate
    cases hlate

/-- Only calls that were refused at once have had their handlers called. -/
theorem Approached.completed {servers : InterfaceDefinition} {stream : List UInt8} {s : Side}
    (h : s.Approached servers stream) (hnone : s.history.completed.flatMap handedOver = []) :
    ∀ call ∈ s.history.completed, call.2 = .error .invalidInput ∧
      ∃ refused, s.history.calls[call.1]? = some refused ∧ refused.accepted = false := by
  rintro ⟨n, result⟩ hcall
  cases result with
  | ok v =>
    have hresult := List.flatMap_eq_nil_iff.mp hnone _ hcall
    cases hresult
  | error ec =>
    obtain ⟨rfl, hrefused⟩ := h.composed.books.refused n ec hcall
    exact ⟨rfl, hrefused⟩

/-- A server and a client with pending calls on one splitter, and a peer that does not wait for the
answers to its requests. Nothing fails exactly in the runs in which `serve_one_request` has been
called whenever the type of a request is read. In these every request is dispatched once, in the
order of the stream, and all calls of the client stay pending. -/
theorem requests_shared_iff (clients servers : InterfaceDefinition) (stream : List UInt8)
    (requests : List Request) (events : List Event) (s : Side)
    (hstream : RequestStream servers stream requests)
    (hrequested : Along (Side.step clients servers)
      (fun s event => requested stream s event = true) {} events)
    (hrun : run (Side.step clients servers) {} events = some s) :
    (s.history.failed = false ↔
      Along (Side.step clients servers) (fun s event => inTime s event = true) {} events) ∧
    (s.history.failed = false →
      s.thrown = none ∧ s.history.violated = [] ∧ (s.history.served.map Prod.fst).Nodup ∧
      s.invoked.map Invocation.request <+: requests ∧
      s.invoked.map Invocation.request <+: readRequests servers s.history.received ∧
      (s.stack = [] → s.reads ≠ [] →
        s.invoked.map Invocation.request = readRequests servers s.history.received) ∧
      s.expectedResponses.length = s.history.calls.countP Call.accepted ∧
      s.history.completed.flatMap handedOver = [] ∧
      ∀ n ec, (n, .error ec) ∈ s.history.completed →
        ec = .invalidInput ∧ ∃ call, s.history.calls[n]? = some call ∧ call.accepted = false) := by
  have hiff : s.history.failed = false ↔
      Along (Side.step clients servers) (fun s event => inTime s event = true) {} events := by
    constructor
    · intro hfailed
      refine Along.of_unmarked_invariant (P := fun t => Asked servers stream t ∧ t.output.Quiet)
        (M := fun t => t.history.failed = true) (fun t event t' ht hevent hstep => ?_)
        (fun t event t' ht hstep => failed_step hstep ht)
        ⟨asked_initial servers stream, fun handlers ec hmem => by cases hmem⟩ hrequested hrun
        (by rw [hfailed]; exact Bool.false_ne_true)
      rcases ht.1.step hstream ht.2 hevent hstep with ⟨-, hnext, hquiet, htimely⟩ | ⟨-, -, hfail⟩
      · exact .inl ⟨inTime_iff.mpr htimely, hnext, hquiet⟩
      · exact .inr hfail
    · exact fun htime => (asked_run hstream hrequested htime hrun).1.regular.failed
  refine ⟨hiff, fun hfailed => ?_⟩
  have hasked := (asked_run hstream hrequested (hiff.mp hfailed) hrun).1
  have hregular := hasked.regular
  obtain ⟨hbegins, hwithin, hrest, hpending, hresults⟩ := hasked.approached.dispatched hstream
  exact ⟨hregular.calm.thrown, hregular.calm.asserts,
    hregular.custody.served_nodup hregular.ordered, hbegins, hwithin, hrest, hpending, hresults,
    hregular.books.refused⟩

omit [Platform] in
/-- While a call of the client is pending the peer sends `f(7)`, and `f(8)` after
`serve_one_request` has been called again. -/
theorem requests_shared_iff_two :
    letI := Platform.reference
    let stream : List UInt8 := [0, 0, 0, 0, 0, 0, 0, 0, 1, 1, 0x66, 0, 7,
      0, 0, 0, 0, 0, 0, 0, 0, 2, 1, 0x66, 0, 8]
    let events : List Event := [.call [0x66] [.integer 9], .resume, .serve,
      .read 0 [0, 0, 0, 0, 0, 0, 0, 0], .resume, .resume, .read 0 [1, 1, 0x66, 0, 7], .resume,
      .resume, .resume, .resume, .answer 0 (.ok (.integer 5)), .return, .resume,
      .written 0 13 .success, .resume, .resume, .resume, .resume, .written 0 10 .success, .resume,
      .serve, .return, .resume, .resume, .read 0 [0, 0, 0, 0, 0, 0, 0, 0, 2, 1, 0x66, 0, 8],
      .resume, .resume, .resume, .resume, .resume, .return, .resume]
    ∃ s, run (Side.step exampleInterface exampleInterface) {} events = some s ∧
      s.history.failed = false ∧ s.expectedResponses.length = 1 ∧
      s.invoked.map Invocation.request = readRequests exampleInterface stream := by
  letI := Platform.reference
  intro stream events
  have hidle : (run (Side.step exampleInterface exampleInterface) {} events).any (fun s =>
      !s.history.failed && s.stack.isEmpty && !s.reads.isEmpty &&
      decide (s.history.received = stream) &&
      decide (s.history.calls.countP Call.accepted = 1)) = true := by decide +kernel
  obtain ⟨s, hrun, hs⟩ := (Option.any_eq_true _ _).mp hidle
  simp only [Bool.and_eq_true, Bool.not_eq_true', List.isEmpty_iff, List.isEmpty_eq_false_iff,
    decide_eq_true_eq] at hs
  obtain ⟨⟨⟨⟨hfailed, hstack⟩, hreads⟩, hreceived⟩, haccepted⟩ := hs
  have hstream : RequestStream exampleInterface stream (readRequests exampleInterface stream) :=
    .cons rfl (.cons rfl .nil)
  obtain ⟨-, hall⟩ := requests_shared_iff exampleInterface exampleInterface stream _ events s
    hstream (by decide +kernel) hrun
  obtain ⟨-, -, -, -, -, hrest, hpending, -⟩ := hall hfailed
  exact ⟨s, hrun, hfailed, hpending.trans haccepted, hreceived ▸ hrest hstack hreads⟩

end Side

end Warpcoil
