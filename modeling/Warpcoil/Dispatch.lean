import Warpcoil.Matching

/-! A server that is alone with its splitter: what is dispatched is what stands in the stream,
read as requests one after another. -/
namespace Warpcoil
open Incremental Transition

structure Request where
  id : RequestId
  name : Identifier
  method : Method
  argument : Value

def Invocation.request (invocation : Invocation) : Request :=
  ⟨invocation.id, invocation.name, invocation.method, invocation.argument⟩

section Reference
variable [Platform]

/-- A request at the beginning of contiguous bytes: the type, an id of eight bytes, a name
behind its length, and what the parser of the arguments reads in one run. -/
def readRequest (servers : InterfaceDefinition) : List UInt8 → Option (Request × List UInt8)
  | [] => none
  | type :: bs =>
    if type ≠ 0 ∨ bs.length < 8 then none
    else match bs.drop 8 with
      | [] => none
      | n :: tail =>
        let name := tail.take n.toNat
        if tail.length < n.toNat ∨ Platform.isValid name = false then none
        else match servers.find name with
          | none => none
          | some m =>
            match m.argumentParser.parse (tail.drop n.toNat) with
            | .complete v rest =>
              some (⟨UInt64.ofNat (BigEndian.ofBytes (bs.take 8)), name, m, v⟩, rest)
            | .more _ | .fail _ => none

/-- At most `fuel` requests, one after another. -/
def readSome (servers : InterfaceDefinition) : Nat → List UInt8 → List Request
  | 0, _ => []
  | fuel + 1, bs =>
    match readRequest servers bs with
    | some (request, rest) => request :: readSome servers fuel rest
    | none => []

/-- All requests: each of them takes a byte at least. -/
def readRequests (servers : InterfaceDefinition) (bs : List UInt8) : List Request :=
  readSome servers bs.length bs

theorem readRequest_length {servers : InterfaceDefinition} {bs rest : List UInt8}
    {request : Request} (h : readRequest servers bs = some (request, rest)) :
    rest.length < bs.length := by
  cases bs with
  | nil => cases h
  | cons type bs =>
    rw [readRequest] at h
    split_ifs at h
    split at h
    · cases h
    · next n tail hdrop =>
      dsimp only at h
      split_ifs at h
      split at h
      · cases h
      · next m hfind =>
        split at h
        · next v rest' hparse =>
          cases h
          have hsuffix := (ParserType.parse_suffix hparse).length_le
          have hlength := congrArg List.length hdrop
          simp only [List.length_drop, List.length_cons] at hsuffix hlength ⊢
          omega
        · cases h
        · cases h

theorem readSome_fuel (servers : InterfaceDefinition) {m n : Nat} {bs : List UInt8}
    (hm : bs.length ≤ m) (hn : bs.length ≤ n) : readSome servers m bs = readSome servers n bs := by
  induction m generalizing n bs with
  | zero =>
    obtain rfl := List.length_eq_zero_iff.mp (Nat.le_zero.mp hm)
    cases n <;> rfl
  | succ m ih =>
    cases n with
    | zero =>
      obtain rfl := List.length_eq_zero_iff.mp (Nat.le_zero.mp hn)
      rfl
    | succ n =>
      rw [readSome, readSome]
      cases hread : readRequest servers bs with
      | none => rfl
      | some found =>
        obtain ⟨request, rest⟩ := found
        have hlt := readRequest_length hread
        dsimp only
        rw [ih (n := n) (by omega) (by omega)]

theorem readRequests_none {servers : InterfaceDefinition} {bs : List UInt8}
    (h : readRequest servers bs = none) : readRequests servers bs = [] := by
  rw [readRequests]
  cases bs.length with
  | zero => rfl
  | succ n => rw [readSome, h]

theorem readRequests_some {servers : InterfaceDefinition} {bs rest : List UInt8}
    {request : Request} (h : readRequest servers bs = some (request, rest)) :
    readRequests servers bs = request :: readRequests servers rest := by
  have hlt := readRequest_length h
  obtain ⟨n, hn⟩ := Nat.exists_eq_add_of_lt hlt
  rw [readRequests, hn, readSome, h]
  dsimp only
  rw [readRequests, readSome_fuel servers (by omega) (Nat.le_refl _)]

/-- The request that a message carries. -/
def Message.request? : Message → Option Request
  | .request id name m _ v => some ⟨UInt64.ofNat id, name, m, v⟩
  | .response _ _ _ => none

/-- The parsers of the splitter and of the server read the same requests. -/
theorem readRequest_of_reads {servers : InterfaceDefinition} {bs rest : List UInt8} {id : Nat}
    {name : Identifier} {m : Method} {handler : Nat} {v : Value}
    (h : Reads bs (Message.request id name m handler v).parsed rest)
    (hfind : servers.find name = some m) :
    readRequest servers bs = some (⟨UInt64.ofNat id, name, m, v⟩, rest) := by
  obtain ⟨mid, htype, hheader⟩ := Reads.cons_iff.mp h
  obtain ⟨mid', hheader, hargument⟩ := Reads.cons_iff.mp hheader
  obtain ⟨mid'', hargument, hnil⟩ := Reads.cons_iff.mp hargument
  obtain rfl := Reads.nil_iff.mp hnil
  obtain ⟨b, rfl, hb⟩ := Side.messageType_complete htype
  obtain ⟨n, tail, hlength, hdrop, hname, hvalid, rfl, hpair⟩ := Side.requestHeader_complete hheader
  have hzero : b = 0 := by
    have hb : (0 : Nat) = b.toNat := Value.integer.inj hb
    exact UInt8.toNat_inj.mp hb.symm
  simp only [Value.tuple.injEq, List.cons.injEq, Value.integer.injEq, Value.utf8.injEq, and_true]
    at hpair
  obtain ⟨rfl, rfl⟩ := hpair
  replace hargument : m.argumentParser.parse (tail.drop n.toNat) = .complete v rest := hargument
  rw [readRequest, if_neg (by rw [hzero]; simp; omega), hdrop]
  dsimp only
  rw [if_neg (by rw [hvalid]; simp; omega), hfind]
  dsimp only
  rw [hargument]

theorem readRequest_type (servers : InterfaceDefinition) {bs : List UInt8} {n : Nat}
    {parsed : List Parsed} {rest : List UInt8}
    (h : Reads bs (⟨.messageType, .integer n⟩ :: parsed) rest) :
    ∃ tail, Reads tail parsed rest ∧ (n = 0 → bs = 0 :: tail) ∧
      (n ≠ 0 → readRequest servers bs = none) := by
  obtain ⟨tail, htype, hrest⟩ := Reads.cons_iff.mp h
  obtain ⟨b, rfl, hb⟩ := Side.messageType_complete htype
  have hn : n = b.toNat := Value.integer.inj hb
  refine ⟨tail, hrest, fun hzero => ?_, fun hzero => ?_⟩
  · rw [UInt8.toNat_inj.mp (show b.toNat = (0 : UInt8).toNat from hn.symm.trans hzero)]
  · refine if_pos (.inl fun hb => hzero ?_)
    rw [hn, hb]
    rfl

/-- What is left in the middle of a request is not a request. -/
theorem readRequest_incomplete {servers : InterfaceDefinition} {k : Continuation}
    {opening : List Parsed} (hopening : Opening servers (some k) opening) {bs rest : List UInt8}
    (hreads : Reads bs opening rest) {parser : Parser}
    (hmore : k.parserType.parse rest = .more parser) : readRequest servers bs = none := by
  cases hopening with
  | messageType =>
    obtain rfl := Reads.nil_iff.mp hreads
    have hforget := parse_messageType rest
    rw [show messageTypeParser.parse rest = .more parser from hmore] at hforget
    cases rest with
    | nil => rfl
    | cons b tail => cases hforget
  | response | result =>
    obtain ⟨tail, -, -, hnone⟩ := readRequest_type servers hreads
    exact hnone one_ne_zero
  | request =>
    obtain ⟨tail, hnil, hzero, -⟩ := readRequest_type servers hreads
    obtain rfl := Reads.nil_iff.mp hnil
    have hforget := parse_requestHeader rest
    rw [show requestHeaderParser.parse rest = .more parser from hmore] at hforget
    rw [hzero rfl, readRequest]
    by_cases hlength : rest.length < 8
    · exact if_pos (.inr hlength)
    · rw [if_neg (by simpa using hlength)]
      rw [if_neg hlength] at hforget
      split
      · rfl
      · next n tail hdrop =>
        rw [hdrop] at hforget
        dsimp only at hforget ⊢
        split_ifs at hforget with hname hvalid
        · exact if_pos (.inl hname)
        · cases hforget
        · cases hforget
  | @argument id name m handler find =>
    obtain ⟨tail, hheader, hzero, -⟩ := readRequest_type servers hreads
    obtain ⟨mid, hheader, hnil⟩ := Reads.cons_iff.mp hheader
    obtain rfl := Reads.nil_iff.mp hnil
    obtain ⟨n, after, hlength, hdrop, hname, hvalid, rfl, hpair⟩ :=
      Side.requestHeader_complete hheader
    simp only [Value.tuple.injEq, List.cons.injEq, Value.integer.injEq, Value.utf8.injEq, and_true]
      at hpair
    obtain ⟨rfl, rfl⟩ := hpair
    replace hmore : m.argumentParser.parse (after.drop n.toNat) = .more parser := hmore
    rw [hzero rfl, readRequest, if_neg (by simpa using hlength), hdrop]
    dsimp only
    rw [if_neg (by rw [hvalid]; simpa using hname), find]
    dsimp only
    rw [hmore]

/-- Messages that are all requests are the first requests of what they were read from. -/
theorem readRequests_of_reads {servers : InterfaceDefinition} {bs rest : List UInt8}
    {messages : List Message} (h : Reads bs (messages.flatMap Message.parsed) rest)
    (hsound : ∀ message ∈ messages, message.Sound servers)
    (hrequest : ∀ message ∈ messages, message.request?.isSome = true) :
    readRequests servers bs = messages.filterMap Message.request? ++ readRequests servers rest := by
  induction messages generalizing bs with
  | nil =>
    rw [Reads.nil_iff.mp h]
    rfl
  | cons message messages ih =>
    obtain ⟨mid, hmessage, hmessages⟩ := Reads.split.mp h
    have hrest := ih hmessages (fun other hother => hsound other (List.mem_cons_of_mem _ hother))
      (fun other hother => hrequest other (List.mem_cons_of_mem _ hother))
    have hfirst := hsound message List.mem_cons_self
    cases message with
    | response id expected v =>
      have := hrequest _ List.mem_cons_self
      cases this
    | request id name m handler v =>
      rw [readRequests_some (readRequest_of_reads hmessage hfirst), hrest]
      rfl

omit [Platform] in
theorem Message.invocations (messages : List Message) :
    ((messages.flatMap Message.parsed).flatMap Parsed.invocation).map Invocation.request =
      messages.filterMap Message.request? := by
  induction messages with
  | nil => rfl
  | cons message messages ih =>
    rw [List.flatMap_cons, List.flatMap_append, List.map_append, ih]
    cases message <;> rfl

omit [Platform] in
theorem Opening.invocations {servers : InterfaceDefinition} {k : Option Continuation}
    {opening : List Parsed} (h : Opening servers k opening) :
    opening.flatMap Parsed.invocation = [] := by
  cases h <;> rfl

end Reference

namespace Side
variable [Platform]

omit [Platform] in
/-- The server is alone, and calls `serve_one_request` when the handler of the one before has
been called. -/
def servesAlone (s : Side) : Event → Bool
  | .call _ _ => false
  | .serve => (List.range s.history.serves).all fun n => (s.history.served.map Prod.fst).contains n
  | .answer _ _ | .return | .resume | .read _ _ | .readError _ _ | .written _ _ _ => true

omit [Platform] in
theorem servesAlone_polite {s : Side} {event : Event} (h : s.servesAlone event = true) :
    s.Polite event := by
  cases event with
  | call => cases h
  | serve =>
    intro n hn
    simp only [servesAlone, List.all_eq_true, List.mem_range, List.contains_iff_mem] at h
    exact h n hn
  | _ => trivial

/-- A side without calls has read requests only. -/
theorem Regular.requests {servers : InterfaceDefinition} {s : Side} (h : s.Regular servers)
    (hcalls : s.history.calls = []) {messages : List Message} (htrace : Trace servers s messages) :
    ∀ message ∈ messages, message.request?.isSome = true := by
  intro message hmessage
  cases message with
  | request => rfl
  | response id expected v =>
    obtain ⟨opening, hparsed, -⟩ := htrace.grammar
    have hmem : ⟨.result expected, v⟩ ∈ s.history.parsed := by
      rw [hparsed, List.mem_append]
      exact .inl (List.mem_flatMap.mpr ⟨_, hmessage, by simp [Message.parsed]⟩)
    have hlt := (h.books.expects expected (mem_expectations_parsed hmem)).lt
    rw [show s.books.calls = s.history.calls from rfl, hcalls] at hlt
    cases hlt

/-- What has been dispatched stands at the beginning of the stream, and a server that waits has
dispatched everything that arrived. -/
theorem Regular.dispatched {servers : InterfaceDefinition} {s : Side} (h : s.Regular servers)
    (hcalls : s.history.calls = []) :
    s.invoked.map Invocation.request <+: readRequests servers s.history.received ∧
      (s.stack = [] → s.reads ≠ [] →
        s.invoked.map Invocation.request = readRequests servers s.history.received) := by
  obtain ⟨messages, htrace⟩ := h.trace
  obtain ⟨opening, hparsed, hopening⟩ := htrace.grammar
  have hreads := htrace.reads
  rw [hparsed] at hreads
  obtain ⟨mid, hmessages, hrest⟩ := Reads.split.mp hreads
  have hreceived := readRequests_of_reads hmessages htrace.sound (h.requests hcalls htrace)
  have hinvoked : (s.invoked ++ s.desk.unlocked).map Invocation.request =
      messages.filterMap Message.request? := by
    have hdispatched : s.history.parsed.flatMap Parsed.invocation =
      s.invoked ++ s.desk.unlocked := h.work
    rw [hparsed, List.flatMap_append,
      hopening.invocations, List.append_nil] at hdispatched
    rw [← hdispatched, Message.invocations]
  rw [hreceived, ← hinvoked]
  refine ⟨?_, fun hstack hne => ?_⟩
  · rw [List.map_append, List.append_assoc]
    exact List.prefix_append _ _
  · have hunlocked : s.desk.unlocked = [] := by
      rw [Side.desk, hstack]
      rfl
    have hactive : s.active = s.reads := by rw [active, hstack]; rfl
    obtain ⟨k, parser, hparsing, hmore⟩ := h.waits hactive hne
    rw [hparsing] at hopening
    rw [readRequests_none (readRequest_incomplete hopening hrest hmore), hunlocked, List.append_nil,
      List.append_nil]

/-- The responses stand in the order of the requests and carry their ids. -/
theorem Regular.response {servers : InterfaceDefinition} {s : Side} (h : s.Regular servers)
    {k index : Nat} {message : Emission UInt8}
    (hresponse : s.history.responses[k]? = some (index, message)) :
    index = k ∧ ∃ invocation, s.invoked[k]? = some invocation ∧
      messageHeader .response invocation.id <+: message.output := by
  obtain rfl := h.desk.response hresponse
  refine ⟨rfl, ?_⟩
  obtain ⟨hlength, hanswers⟩ := List.forall₂_iff_get.mp h.desk.responses
  obtain ⟨hlt, hget⟩ := List.getElem?_eq_some_iff.mp hresponse
  have hanswer := hanswers index hlt (hlength ▸ hlt)
  obtain ⟨hindex, invocation, hinvoked, hmessage, -⟩ := hanswer
  simp only [List.get_eq_getElem] at hindex hmessage hinvoked
  rw [show s.desk.responses[index] = (index, message) from hget] at hindex hmessage
  refine ⟨invocation, by rw [← hindex] at hinvoked; exact hinvoked, ?_⟩
  rw [show message = responseMessage invocation.id invocation.method _ from hmessage]
  exact responseMessage_starts _ _ _

end Side

end Warpcoil
