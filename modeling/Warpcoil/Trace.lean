import Mathlib.Data.List.Induction
import Warpcoil.CalmStep

/-! What a calm side has read: complete messages, and the opening of the one that is being
parsed. -/
namespace Warpcoil
open Incremental Transition

/-- Uninterrupted runs of the parsers, one after another, have read `parsed` from `received`
and left `rest`. -/
inductive Reads [Platform] (received : List UInt8) : List Parsed → List UInt8 → Prop
  | nil : Reads received [] received
  | snoc {mid rest : List UInt8} {parsed : List Parsed} {k : Continuation} {v : Value}
      (before : Reads received parsed mid) (parse : k.parserType.parse mid = .complete v rest) :
      Reads received (parsed ++ [⟨k, v⟩]) rest

theorem Reads.append [Platform] {received rest : List UInt8} {parsed : List Parsed}
    (h : Reads received parsed rest) (more : List UInt8) :
    Reads (received ++ more) parsed (rest ++ more) := by
  induction h with
  | nil => exact .nil
  | snoc before parse ih => exact .snoc ih (ParserType.parse_append parse more)

theorem Reads.nil_iff [Platform] {received rest : List UInt8} :
    Reads received [] rest ↔ rest = received := by
  refine ⟨fun h => ?_, fun h => h ▸ .nil⟩
  generalize hall : ([] : List Parsed) = all at h
  cases h with
  | nil => rfl
  | snoc => simp at hall

theorem Reads.snoc_iff [Platform] {received rest : List UInt8} {parsed : List Parsed}
    {p : Parsed} :
    Reads received (parsed ++ [p]) rest ↔
      ∃ mid, Reads received parsed mid ∧
        p.onResult.parserType.parse mid = .complete p.value rest := by
  refine ⟨fun h => ?_, fun ⟨mid, hbefore, hparse⟩ => .snoc hbefore hparse⟩
  generalize hall : parsed ++ [p] = all at h
  cases h with
  | nil => simp at hall
  | @snoc mid rest before k v hbefore hparse =>
    obtain ⟨rfl, hlast⟩ := List.append_inj' hall rfl
    obtain rfl := List.singleton_inj.mp hlast
    exact ⟨mid, hbefore, hparse⟩

theorem Reads.split [Platform] {received rest : List UInt8} {before after : List Parsed} :
    Reads received (before ++ after) rest ↔
      ∃ mid, Reads received before mid ∧ Reads mid after rest := by
  induction after using List.reverseRecOn generalizing rest with
  | nil =>
    rw [List.append_nil]
    refine ⟨fun h => ⟨rest, h, .nil⟩, fun ⟨mid, hbefore, hnil⟩ => ?_⟩
    rwa [Reads.nil_iff.mp hnil]
  | append_singleton after p ih =>
    rw [← List.append_assoc, Reads.snoc_iff]
    constructor
    · rintro ⟨mid, hbefore, hparse⟩
      obtain ⟨first, hfirst, hafter⟩ := ih.mp hbefore
      exact ⟨first, hfirst, Reads.snoc_iff.mpr ⟨mid, hafter, hparse⟩⟩
    · rintro ⟨first, hfirst, hafter⟩
      obtain ⟨mid, hmid, hparse⟩ := Reads.snoc_iff.mp hafter
      exact ⟨mid, ih.mpr ⟨first, hfirst, hmid⟩, hparse⟩

inductive Message where
  | response (id : Nat) (expected : ExpectedResponse) (v : Value)
  | request (id : Nat) (name : Identifier) (m : Method) (handler : Nat) (v : Value)

/-- What is handed to the handlers while a message is read. -/
def Message.parsed : Message → List Parsed
  | .response id expected v =>
    [⟨.messageType, .integer 1⟩, ⟨.response, .integer id⟩, ⟨.result expected, v⟩]
  | .request id name m handler v =>
    [⟨.messageType, .integer 0⟩, ⟨.request, .tuple [.integer id, .utf8 name]⟩,
      ⟨.argument (UInt64.ofNat id) name m handler, v⟩]

/-- What has been read of the next message when a parse operation has this handler. -/
inductive Opening (servers : InterfaceDefinition) : Option Continuation → List Parsed → Prop
  | idle : Opening servers none []
  | messageType : Opening servers (some .messageType) []
  | response : Opening servers (some .response) [⟨.messageType, .integer 1⟩]
  | request : Opening servers (some .request) [⟨.messageType, .integer 0⟩]
  | result {id : Nat} {expected : ExpectedResponse}
      (key : UInt64.ofNat id = UInt64.ofNat expected.handler) :
      Opening servers (some (.result expected))
        [⟨.messageType, .integer 1⟩, ⟨.response, .integer id⟩]
  | argument {id : Nat} {name : Identifier} {m : Method} {handler : Nat}
      (find : servers.find name = some m) :
      Opening servers (some (.argument (UInt64.ofNat id) name m handler))
        [⟨.messageType, .integer 0⟩, ⟨.request, .tuple [.integer id, .utf8 name]⟩]

/-- A response names the call it belongs to, and a request a method. -/
def Message.Sound (servers : InterfaceDefinition) : Message → Prop
  | .response id expected _ => UInt64.ofNat id = UInt64.ofNat expected.handler
  | .request _ name m _ _ => servers.find name = some m

/-- A payload completes the message. -/
theorem Opening.message {servers : InterfaceDefinition} {k : Continuation} {opening : List Parsed}
    (h : Opening servers (some k) opening) (hkind : k.isHeader = false) (v : Value) :
    ∃ message : Message, message.parsed = opening ++ [⟨k, v⟩] ∧ message.Sound servers := by
  cases h with
  | messageType | response | request => cases hkind
  | @result id expected key => exact ⟨.response id expected v, rfl, key⟩
  | @argument id name m handler find => exact ⟨.request id name m handler v, rfl, find⟩

namespace Side

/-- The handler of the running parse operation. -/
def parsing (s : Side) : Option Continuation := s.active.head?.map ParseOperation.onResult

/-- The bytes that no completed parse has read. -/
def unread (s : Side) : List UInt8 := s.active.flatMap ParseOperation.seen ++ s.buffer

variable [Platform]

structure Trace (servers : InterfaceDefinition) (s : Side) (messages : List Message) : Prop where
  reads : Reads s.history.received s.history.parsed s.unread
  buffer : s.reads ≠ [] → s.buffer = []
  waits : ∀ operation ∈ s.reads, ∃ parser,
    operation.onResult.parserType.parse operation.seen = .more parser
  grammar : ∃ opening, s.history.parsed = messages.flatMap Message.parsed ++ opening ∧
    Opening servers s.parsing opening
  sound : ∀ message ∈ messages, message.Sound servers

/-! How the functions that start to parse change what is read. -/

omit [Platform] in
theorem summon_active (s : Side) :
    s.summon.active =
      if s.active.isEmpty then [Continuation.messageType.operation] else s.active := by
  unfold summon
  split_ifs with hempty
  · rw [begun_active, List.isEmpty_iff.mp hempty]
  · rfl

omit [Platform] in
theorem release_active {s : Side} (hactive : s.active = []) :
    s.release.active = [] ∨ s.release.active = [Continuation.messageType.operation] := by
  unfold release
  split_ifs
  · exact .inr ((begun_active _).trans (congrArg _ hactive))
  · exact .inl hactive

omit [Platform] in
theorem summon_fields (s : Side) :
    s.summon.history = s.history ∧ s.summon.buffer = s.buffer ∧ s.summon.reads = s.reads := by
  unfold summon
  split_ifs <;> exact ⟨rfl, rfl, rfl⟩

omit [Platform] in
theorem release_fields (s : Side) :
    s.release.history = s.history ∧ s.release.buffer = s.buffer ∧ s.release.reads = s.reads := by
  unfold release
  split_ifs <;> exact ⟨rfl, rfl, rfl⟩

/-- Nothing is read when a header starts to be parsed between two messages. -/
theorem Trace.same {servers : InterfaceDefinition} {s t : Side} {messages : List Message}
    (h : Trace servers s messages) (hreceived : t.history.received = s.history.received)
    (hparsed : t.history.parsed = s.history.parsed) (hbuffer : t.buffer = s.buffer)
    (hreads : t.reads = s.reads)
    (hactive : t.active = s.active ∨
      s.active = [] ∧ t.active = [Continuation.messageType.operation]) :
    Trace servers t messages where
  reads := by
    have hunread : t.unread = s.unread := by
      rcases hactive with hsame | ⟨hnone, hnew⟩
      · rw [unread, unread, hsame, hbuffer]
      · rw [unread, unread, hnone, hnew, hbuffer]
        rfl
    rw [hreceived, hparsed, hunread]
    exact h.reads
  buffer := by rw [hreads, hbuffer]; exact h.buffer
  waits := by rw [hreads]; exact h.waits
  grammar := by
    obtain ⟨opening, hopening, hgrammar⟩ := h.grammar
    refine ⟨opening, hparsed.trans hopening, ?_⟩
    rcases hactive with hsame | ⟨hnone, hnew⟩
    · rw [parsing, hsame]
      exact hgrammar
    · rw [parsing, hnone] at hgrammar
      rw [parsing, hnew]
      cases hgrammar
      exact .messageType
  sound := h.sound

/-- A parse that completes. -/
theorem Trace.entered {servers : InterfaceDefinition} {s t : Side}
    {messages messages' : List Message} (h : Trace servers s messages)
    {operation : ParseOperation} (hactive : s.active = [operation]) {v : Value}
    {rest : List UInt8} (hread : s.reading operation = .complete v rest)
    (hreceived : t.history.received = s.history.received)
    (hparsed : t.history.parsed = s.history.parsed ++ [⟨operation.onResult, v⟩])
    (hunread : t.unread = rest) (hreads : t.reads = []) {opening opening' : List Parsed}
    (hopening : s.history.parsed = messages.flatMap Message.parsed ++ opening)
    (hnext : messages.flatMap Message.parsed ++ (opening ++ [⟨operation.onResult, v⟩]) =
      messages'.flatMap Message.parsed ++ opening')
    (hgrammar : Opening servers t.parsing opening')
    (hsound : ∀ message ∈ messages', message.Sound servers) :
    Trace servers t messages' where
  reads := by
    have hbefore := h.reads
    rw [unread, hactive, List.flatMap_singleton] at hbefore
    rw [hreceived, hparsed, hunread]
    exact .snoc hbefore hread
  buffer := fun hne => (hne hreads).elim
  waits := by rw [hreads]; simp
  grammar := ⟨opening', by rw [hparsed, hopening, List.append_assoc, hnext], hgrammar⟩
  sound := hsound

/-- The keys of the expected responses are the numbers of the calls. -/
def Keyed (s : Side) : Prop := ∀ e ∈ s.expectedResponses, e.1 = UInt64.ofNat e.2.handler

theorem Trace.popped {servers : InterfaceDefinition} {s : Side} {messages : List Message}
    (h : Trace servers s messages) {frame : Frame} {stack : List Frame}
    (hstack : s.stack = frame :: stack) (hframe : frame.operation = []) :
    Trace servers { s with stack } messages := by
  refine h.same rfl rfl rfl rfl (.inl ?_)
  rw [active, active, hstack, List.flatMap_cons, hframe]
  rfl

theorem Trace.push {servers : InterfaceDefinition} {s : Side} {messages : List Message}
    (h : Trace servers s messages) {frame : Frame} (hframe : frame.operation = []) :
    Trace servers (s.push [frame]) messages := by
  refine h.same rfl rfl rfl rfl (.inl ?_)
  rw [push_active, List.flatMap_singleton, hframe, List.nil_append]

theorem Trace.summon {servers : InterfaceDefinition} {s : Side} {messages : List Message}
    (h : Trace servers s messages) : Trace servers s.summon messages := by
  obtain ⟨hhistory, hbuffer, hreads⟩ := summon_fields s
  refine h.same (by rw [hhistory]) (by rw [hhistory]) hbuffer hreads ?_
  rw [summon_active]
  split_ifs with hempty
  · exact .inr ⟨List.isEmpty_iff.mp hempty, rfl⟩
  · exact .inl rfl

/-- Nothing is being read: every byte read so far belongs to a message. -/
theorem Trace.release {servers : InterfaceDefinition} {s : Side} {messages : List Message}
    (h : Trace servers s messages) (hactive : s.active = []) :
    Trace servers s.release messages := by
  obtain ⟨hhistory, hbuffer, hreads⟩ := release_fields s
  refine h.same (by rw [hhistory]) (by rw [hhistory]) hbuffer hreads ?_
  rcases release_active hactive with hnone | hnew
  · exact .inl (hnone.trans hactive.symm)
  · exact .inr ⟨hactive, hnew⟩

omit [Platform] in
theorem beginParseValue_parsing (s : Side) (k : Continuation) :
    (s.beginParseValue k).parsing = some k := by
  rw [parsing, beginParseValue_active]
  rfl

omit [Platform] in
/-- A parse operation that has just been created has read nothing. -/
theorem beginParseValue_unread {s : Side} (hactive : s.active = []) (k : Continuation) :
    (s.beginParseValue k).unread = s.buffer := by
  rw [unread, beginParseValue_active, hactive]
  rfl

/-- The end of a payload is the end of a message. -/
theorem Trace.payload {servers : InterfaceDefinition} {s t : Side} {messages : List Message}
    (h : Trace servers s messages) {operation : ParseOperation} (hactive : s.active = [operation])
    (hkind : operation.onResult.isHeader = false) {v : Value} {rest : List UInt8}
    (hread : s.reading operation = .complete v rest)
    (hreceived : t.history.received = s.history.received)
    (hparsed : t.history.parsed = s.history.parsed ++ [⟨operation.onResult, v⟩])
    (hnone : t.active = []) (hbuffer : t.buffer = rest) (hreads : t.reads = []) :
    ∃ message, Trace servers t (messages ++ [message]) := by
  obtain ⟨opening, hopening, hgrammar⟩ := h.grammar
  rw [parsing, hactive] at hgrammar
  obtain ⟨message, hmessage, hsound⟩ := hgrammar.message hkind v
  have hunread : t.unread = rest := by rw [unread, hnone, hbuffer]; rfl
  have hidle : Opening servers t.parsing [] := by
    rw [parsing, hnone]
    exact .idle
  refine ⟨message, h.entered hactive hread hreceived hparsed hunread hreads hopening ?_ hidle ?_⟩
  · rw [List.flatMap_append, List.flatMap_singleton, hmessage, List.append_nil]
  · intro other hother
    rcases List.mem_append.mp hother with hold | hnew
    · exact h.sound other hold
    · rw [List.mem_singleton.mp hnew]
      exact hsound

omit [Platform] in
theorem push_active_nil {s : Side} (h : s.active = []) {frame : Frame}
    (hframe : frame.operation = []) : (s.push [frame]).active = [] := by
  rw [push_active, List.flatMap_singleton, hframe, h]
  rfl

theorem Trace.resumed {servers : InterfaceDefinition} {s s' : Side} {messages : List Message}
    (h : Trace servers s messages) (hcalm : s.Calm) (hkeyed : s.Keyed) {frame : Frame}
    {stack : List Frame} (hstack : s.stack = frame :: stack)
    (hresumed : Resumed servers { s with stack } frame s') :
    ∃ messages', messages <+: messages' ∧ Trace servers s' messages' := by
  cases hresumed with
  | @more operation parser reads =>
    have halone := hcalm.alone hstack
    have hactive := active_more (hcalm.ready hstack).active
      ⟨parser, operation.onResult, operation.seen ++ s.buffer⟩
    have hreads := h.reads
    obtain ⟨opening, hopening, hgrammar⟩ := h.grammar
    rw [unread, halone, List.flatMap_singleton] at hreads
    rw [parsing, halone] at hgrammar
    refine ⟨messages, List.prefix_refl _, ⟨?_, fun _ => rfl, ?_, ⟨opening, hopening, ?_⟩,
      h.sound⟩⟩
    · rw [unread, hactive, List.flatMap_singleton, List.append_nil]
      exact hreads
    · have hnone : s.reads = [] := (List.append_eq_nil_iff.mp (hcalm.ready hstack).active).2
      intro other hother
      simp only [hnone, List.nil_append, List.mem_singleton] at hother
      rw [hother]
      exact ⟨parser, reads⟩
    · rw [parsing, hactive]
      exact hgrammar
  | @responseType operation rest kind reads waiting =>
    obtain ⟨parser, k, seen⟩ := operation
    obtain rfl : k = .messageType := kind
    have halone := hcalm.alone hstack
    have hnone := (hcalm.ready hstack).active
    obtain ⟨opening, hopening, hgrammar⟩ := h.grammar
    rw [parsing, halone] at hgrammar
    cases hgrammar
    refine ⟨messages, List.prefix_refl _, h.entered halone reads rfl rfl
      (beginParseValue_unread (s := Side.entered { s with stack } _ _ rest) hnone _)
      (List.append_eq_nil_iff.mp hnone).2 hopening rfl ?_ h.sound⟩
    rw [beginParseValue_parsing]
    exact .response
  | @requestType operation rest kind reads waiting =>
    obtain ⟨parser, k, seen⟩ := operation
    obtain rfl : k = .messageType := kind
    have halone := hcalm.alone hstack
    have hnone := (hcalm.ready hstack).active
    obtain ⟨opening, hopening, hgrammar⟩ := h.grammar
    rw [parsing, halone] at hgrammar
    cases hgrammar
    refine ⟨messages, List.prefix_refl _, h.entered halone reads rfl rfl
      (beginParseValue_unread (s := Side.entered { s with stack } _ _ rest) hnone _)
      (List.append_eq_nil_iff.mp hnone).2 hopening rfl ?_ h.sound⟩
    rw [beginParseValue_parsing]
    exact .request
  | @responseHeader operation rest id key expected kind reads find =>
    obtain ⟨parser, k, seen⟩ := operation
    obtain rfl : k = .response := kind
    have halone := hcalm.alone hstack
    have hnone := (hcalm.ready hstack).active
    obtain ⟨opening, hopening, hgrammar⟩ := h.grammar
    rw [parsing, halone] at hgrammar
    cases hgrammar
    have hfound := List.find?_some find
    have hkey : UInt64.ofNat id = UInt64.ofNat expected.handler :=
      (of_decide_eq_true hfound).symm.trans
        (hkeyed (key, expected) (List.mem_of_find?_eq_some find))
    have hpushed : active (((Side.entered { s with stack } .response (.integer id)
        rest).takeResponse (UInt64.ofNat id)).push
        [.responseContinue s.waitingForRequest.isSome]) = [] := push_active_nil hnone rfl
    refine ⟨messages, List.prefix_refl _, h.entered halone reads rfl rfl
      (beginParseValue_unread hpushed _) (List.append_eq_nil_iff.mp hnone).2 hopening rfl ?_
      h.sound⟩
    rw [beginParseValue_parsing]
    exact .result hkey
  | @requestHeader operation rest id name m handler kind reads waiting find =>
    obtain ⟨parser, k, seen⟩ := operation
    obtain rfl : k = .request := kind
    have halone := hcalm.alone hstack
    have hnone := (hcalm.ready hstack).active
    obtain ⟨opening, hopening, hgrammar⟩ := h.grammar
    rw [parsing, halone] at hgrammar
    cases hgrammar
    have hpushed : active (((Side.entered { s with stack } .request
        (.tuple [.integer id, .utf8 name]) rest).takeRequest).push
        [.requestContinue s.waitingForResponse]) = [] := push_active_nil hnone rfl
    refine ⟨messages, List.prefix_refl _, h.entered halone reads rfl rfl
      (beginParseValue_unread hpushed _) (List.append_eq_nil_iff.mp hnone).2 hopening rfl ?_
      h.sound⟩
    rw [beginParseValue_parsing]
    exact .argument find
  | @result operation expected v rest kind reads =>
    obtain ⟨parser, k, seen⟩ := operation
    obtain rfl : k = .result expected := kind
    have hnone := (hcalm.ready hstack).active
    obtain ⟨message, hmessage⟩ := h.payload (hcalm.alone hstack) rfl reads
      (t := (Side.entered { s with stack } (.result expected) v rest).push
        [.resultUnlocked expected.handler v]) rfl rfl (push_active_nil hnone rfl) rfl
      (List.append_eq_nil_iff.mp hnone).2
    exact ⟨messages ++ [message], List.prefix_append _ _,
      hmessage.release (push_active_nil hnone rfl)⟩
  | @argument operation id name m handler v rest kind reads =>
    obtain ⟨parser, k, seen⟩ := operation
    obtain rfl : k = .argument id name m handler := kind
    have hnone := (hcalm.ready hstack).active
    obtain ⟨message, hmessage⟩ := h.payload (hcalm.alone hstack) rfl reads
      (t := (Side.entered { s with stack } (.argument id name m handler) v rest).push
        [.argumentUnlocked id name m handler (.ok v)]) rfl rfl (push_active_nil hnone rfl) rfl
      (List.append_eq_nil_iff.mp hnone).2
    exact ⟨messages ++ [message], List.prefix_append _ _,
      hmessage.release (push_active_nil hnone rfl)⟩
  | requestContinue | responseContinue | writerDone =>
    exact ⟨messages, List.prefix_refl _, h.popped hstack rfl⟩
  | lastResult =>
    exact ⟨messages, List.prefix_refl _,
      ((h.popped hstack rfl).push rfl).same rfl rfl rfl rfl (.inl rfl)⟩
  | @nextHeader handler v =>
    have hpushed : Trace servers (Side.push { s with stack } [.resultReady handler v]).awaitHeader
        messages := ((h.popped hstack rfl).push rfl).same rfl rfl rfl rfl (.inl rfl)
    exact ⟨messages, List.prefix_refl _, hpushed.summon⟩
  | resultReady | implementation | writer =>
    refine ⟨messages, List.prefix_refl _, ?_⟩
    apply Trace.push
    · exact (h.popped hstack rfl).same rfl rfl rfl rfl (.inl rfl)
    · rfl
  | @responseSent output =>
    have hwriter : Trace servers (Side.push { s with stack, output } [.writer]) messages := by
      apply Trace.push
      · exact (h.popped hstack rfl).same rfl rfl rfl rfl (.inl rfl)
      · rfl
    refine ⟨messages, List.prefix_refl _, ?_⟩
    apply Trace.push
    · exact hwriter.same rfl rfl rfl rfl (.inl rfl)
    · rfl

/-- The bytes that a completed read brings are behind all others. -/
theorem Trace.delivered {servers : InterfaceDefinition} {s : Side} {messages : List Message}
    (h : Trace servers s messages) (hstack : s.stack = []) {operation : ParseOperation}
    (hreads : s.reads = [operation]) (bytes : List UInt8) :
    Trace servers (s.delivered operation bytes) messages := by
  have hactive : (s.delivered operation bytes).active = s.active := by
    rw [active, active, hstack, hreads]
    rfl
  refine ⟨?_, fun hne => (hne rfl).elim, by simp [Side.delivered], ?_, h.sound⟩
  · have hunread : (s.delivered operation bytes).unread = s.unread ++ bytes := by
      rw [unread, unread, hactive, List.append_assoc]
      rfl
    rw [hunread]
    exact h.reads.append bytes
  · rw [parsing, hactive]
    exact h.grammar

/-- Steps that do not end the calm read messages, one after another. -/
theorem Trace.moved {clients servers : InterfaceDefinition} {s s' : Side} {event : Event}
    {messages : List Message} (h : Trace servers s messages) (hcalm : s.Calm) (hkeyed : s.Keyed)
    (hmoved : Moved clients servers s event s') :
    ∃ messages', messages <+: messages' ∧ Trace servers s' messages' := by
  cases hmoved with
  | resume hstack hresumed => exact h.resumed hcalm hkeyed hstack hresumed
  | read hstack hreads => exact ⟨messages, List.prefix_refl _, h.delivered hstack hreads _⟩
  | «return» hstack => exact ⟨messages, List.prefix_refl _, h.popped hstack rfl⟩
  | refused | written =>
    refine ⟨messages, List.prefix_refl _, ?_⟩
    apply Trace.push
    · exact h.same rfl rfl rfl rfl (.inl rfl)
    · rfl
  | placed | answered => exact ⟨messages, List.prefix_refl _, h.same rfl rfl rfl rfl (.inl rfl)⟩
  | awaited | serve =>
    refine ⟨messages, List.prefix_refl _, ?_⟩
    apply Trace.summon
    exact h.same rfl rfl rfl rfl (.inl rfl)

end Side

end Warpcoil
