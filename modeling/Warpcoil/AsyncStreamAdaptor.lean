import Mathlib.Data.List.Induction
import Warpcoil.Spoiled

/-! The stream that is made of websocket messages, and the parsers that read from it through two
buffers. -/
namespace Warpcoil
open Incremental Transition

/-- `beast::websocket::opcode`. -/
inductive Opcode where
  | cont | text | binary
  | rsv3 | rsv4 | rsv5 | rsv6 | rsv7
  | close | ping | pong
  | crsvb | crsvc | crsvd | crsve | crsvf
deriving DecidableEq, Repr

inductive WebsocketError where
  | close | unexpectedOpcode

inductive ErrorCategory where
  | system | websocketError
deriving DecidableEq, Repr

/-- `boost::system::error_code` with its category. -/
structure StreamError where
  value : Nat
  category : ErrorCategory
deriving DecidableEq, Repr

def StreamError.isError (ec : StreamError) : Bool := ec.value != 0

def StreamError.success : StreamError := ⟨0, .system⟩

def StreamError.errorCode (ec : StreamError) : ErrorCode := .system ec.value

def WebsocketError.makeErrorCode : WebsocketError → StreamError
  | .close => ⟨0, .websocketError⟩
  | .unexpectedOpcode => ⟨1, .websocketError⟩

def readSize : Nat := 512

structure AsyncStreamAdaptor where
  receiveBuffer : List UInt8
  receivedOpcode : Opcode
deriving DecidableEq, Repr

/-- What the handler of `async_read_some` is called with; the bytes are in its buffers. -/
structure ReadCompletion where
  ec : StreamError
  bytes : List UInt8
deriving DecidableEq, Repr

namespace AsyncStreamAdaptor

def readFromReceiveBuffer (a : AsyncStreamAdaptor) (size : Nat) :
    List UInt8 × AsyncStreamAdaptor :=
  (a.receiveBuffer.take size, { a with receiveBuffer := a.receiveBuffer.drop size })

/-- The call operator of `read_operation`. -/
def readOperation (a : AsyncStreamAdaptor) (ec : StreamError) (size : Nat) :
    ReadCompletion × AsyncStreamAdaptor :=
  if ec.isError then (⟨ec, []⟩, a)
  else match a.receivedOpcode with
  | .binary | .text =>
    let (bytes, a) := a.readFromReceiveBuffer size
    (⟨ec, bytes⟩, a)
  | .close => (⟨WebsocketError.close.makeErrorCode, []⟩, a)
  | .cont | .rsv3 | .rsv4 | .rsv5 | .rsv6 | .rsv7 | .ping | .pong
  | .crsvb | .crsvc | .crsvd | .crsve | .crsvf =>
    (⟨WebsocketError.unexpectedOpcode.makeErrorCode, []⟩, a)

end AsyncStreamAdaptor

variable [Platform]

/-- The call operator of `parse_operation`. -/
def Parsing.complete (s : Parsing) (completion : ReadCompletion) : Parsing :=
  if completion.ec.isError then s.fail completion.ec.errorCode
  else Parsing.start { s with buffer := s.buffer ++ completion.bytes, reading := false }

/-- The parsers on their stream; `completions` are those of `async_read_some`. -/
structure Receiving where
  adaptor : AsyncStreamAdaptor
  parsing : Parsing
  completions : List ReadCompletion := []

namespace Receiving

def complete (s : Receiving) (completion : ReadCompletion) : Receiving :=
  { s with
    parsing := s.parsing.complete completion
    completions := s.completions ++ [completion] }

/-- `async_read_some`, called by the operation that reads. It completes at once from the receive
buffer, and the operation may then call it again; otherwise `async_read` of the websocket is left
outstanding. -/
def asyncReadSome (s : Receiving) : Receiving :=
  if s.parsing.reading then
    let read := s.adaptor.readFromReceiveBuffer readSize
    if h : read.1 = [] then s
    else asyncReadSome ({ s with adaptor := read.2 }.complete ⟨.success, read.1⟩)
  else s
termination_by s.adaptor.receiveBuffer.length
decreasing_by
  have hne : s.adaptor.receiveBuffer ≠ [] := fun hnil =>
    h (by simp [read, AsyncStreamAdaptor.readFromReceiveBuffer, hnil])
  have hpos := List.length_pos_iff.mpr hne
  simp only [complete, AsyncStreamAdaptor.readFromReceiveBuffer, readSize, List.length_drop]
  omega

/-- A call of `begin_parse_value`, and the completions of `async_read`: with a whole message, which
is in the receive buffer then, or with an error. -/
inductive Event where
  | beginParseValue (type : ParserType)
  | message (opcode : Opcode) (payload : List UInt8)
  | readError (ec : StreamError)

def step (s : Receiving) : Event → Option Receiving
  | .beginParseValue type =>
    if s.parsing.reading then none
    else some (asyncReadSome { s with parsing := s.parsing.begin type })
  | .message opcode payload =>
    if s.parsing.reading then
      let a : AsyncStreamAdaptor :=
        ⟨s.adaptor.receiveBuffer ++ payload, opcode⟩
      let (completion, a) := a.readOperation .success readSize
      some (asyncReadSome ({ s with adaptor := a }.complete completion))
    else none
  | .readError ec =>
    if s.parsing.reading && ec.isError then
      let (completion, a) := s.adaptor.readOperation ec readSize
      some (asyncReadSome ({ s with adaptor := a }.complete completion))
    else none

/-! What the calls ask for, and what the messages are to those who read bytes. -/

def Event.type : Event → Option ParserType
  | .beginParseValue type => some type
  | .message _ _ | .readError _ => none

def Event.payload : Event → List UInt8
  | .message .binary payload | .message .text payload => payload
  | .beginParseValue _ | .message _ _ | .readError _ => []

/-- The error that it has to be answered with. -/
def Event.error : Event → Option StreamError
  | .message .binary _ | .message .text _ | .beginParseValue _ => none
  | .message .close _ => some WebsocketError.close.makeErrorCode
  | .message _ _ => some WebsocketError.unexpectedOpcode.makeErrorCode
  | .readError ec => some ec

def Event.signals (e : Event) : List Signal :=
  e.payload.map .byte ++ (e.error.map fun ec => Signal.error ec.errorCode).toList

/-- Nothing closes the connection, and what is no data carries none. -/
def Event.plain : Event → Bool
  | .message .binary _ | .message .text _ => true
  | .message .close _ => false
  | .message _ payload => payload.isEmpty
  | .beginParseValue _ | .readError _ => true

end Receiving

def ReadCompletion.signals (c : ReadCompletion) : List Signal :=
  if c.ec.isError then [.error c.ec.errorCode] else c.bytes.map .byte

def ReadCompletion.readEvent (c : ReadCompletion) : ReadEvent :=
  if c.ec.isError then .error c.ec.errorCode else .read c.bytes

omit [Platform] in
theorem ReadCompletion.readEvent_signals (c : ReadCompletion) :
    c.readEvent.type = none ∧ c.readEvent.signals = c.signals := by
  rw [readEvent, signals]
  split <;> exact ⟨rfl, rfl⟩

theorem Parsing.event_complete {s : Parsing} (hreading : s.reading = true) {c : ReadCompletion}
    (hsize : c.bytes.length ≤ readSize) : s.event c.readEvent = some (s.complete c) := by
  have hlength : c.bytes.length ≤ 512 := hsize
  rw [ReadCompletion.readEvent, Parsing.complete]
  split
  · simp [Parsing.event, hreading]
  · simp [Parsing.event, Parsing.step, hreading, hlength]

namespace Receiving
variable {start : Parsing} {initial : List UInt8} {events : List Event} {s s' : Receiving}

/-- The bytes have come in some reads, none was lost or given twice, and errors have been told. -/
structure Framed (start : Parsing) (initial : List UInt8) (events : List Event) (s : Receiving) :
    Prop where
  reads : ∃ readEvents, run Parsing.event start readEvents = some s.parsing ∧
    readEvents.filterMap ReadEvent.type = events.filterMap Event.type ∧
    readEvents.flatMap ReadEvent.signals = s.completions.flatMap ReadCompletion.signals
  signals : s.completions.flatMap ReadCompletion.signals ++ s.adaptor.receiveBuffer.map .byte =
    initial.map .byte ++ events.flatMap Event.signals
  bytes : s.completions.flatMap ReadCompletion.bytes ++ s.adaptor.receiveBuffer =
    initial ++ events.flatMap Event.payload
  errors : s.completions.filter (fun c => c.ec.isError) =
    (events.filterMap Event.error).map fun ec => ⟨ec, []⟩

/-- A completion `c`, which leaves `a` behind, gives what there was and what the events brought. -/
structure Answers (a : AsyncStreamAdaptor) (c : ReadCompletion) (before : List UInt8)
    (more : List Event) : Prop where
  size : c.bytes.length ≤ readSize
  type : more.filterMap Event.type = []
  signals : c.signals ++ a.receiveBuffer.map .byte =
    before.map .byte ++ more.flatMap Event.signals
  bytes : c.bytes ++ a.receiveBuffer = before ++ more.flatMap Event.payload
  errors : [c].filter (fun c => c.ec.isError) =
    (more.filterMap Event.error).map fun ec => ⟨ec, []⟩

omit [Platform] in
theorem answers_readFromReceiveBuffer (a : AsyncStreamAdaptor) :
    Answers (a.readFromReceiveBuffer readSize).2
      ⟨.success, (a.readFromReceiveBuffer readSize).1⟩ a.receiveBuffer [] where
  size := List.length_take_le _ _
  type := rfl
  signals := by
    simp [ReadCompletion.signals, StreamError.success, StreamError.isError,
      AsyncStreamAdaptor.readFromReceiveBuffer]
  bytes := by simp [AsyncStreamAdaptor.readFromReceiveBuffer]
  errors := rfl

omit [Platform] in
theorem answers_data {a : AsyncStreamAdaptor} {e : Event} (htype : e.type = none)
    (hpayload : e.payload = a.receiveBuffer) (herror : e.error = none) :
    Answers (a.readFromReceiveBuffer readSize).2
      ⟨.success, (a.readFromReceiveBuffer readSize).1⟩ [] [e] := by
  have h := answers_readFromReceiveBuffer a
  refine ⟨h.size, by simp [htype], ?_, ?_, ?_⟩
  · simpa [Event.signals, hpayload, herror] using h.signals
  · simpa [hpayload] using h.bytes
  · rw [h.errors]
    simp [herror]

omit [Platform] in
theorem answers_error {a : AsyncStreamAdaptor} {ec : StreamError} {e : Event}
    (hec : ec.isError = true) (htype : e.type = none) (hpayload : e.payload = [])
    (herror : e.error = some ec) (hbuffer : a.receiveBuffer = []) :
    Answers a ⟨ec, []⟩ [] [e] where
  size := Nat.zero_le _
  type := by simp [htype]
  signals := by simp [ReadCompletion.signals, hec, Event.signals, hpayload, herror, hbuffer]
  bytes := by simp [hpayload, hbuffer]
  errors := by simp [hec, herror]

omit [Platform] in
theorem answers_message {opcode : Opcode} {payload : List UInt8}
    (hplain : (Event.message opcode payload).plain = true) :
    Answers (AsyncStreamAdaptor.readOperation ⟨payload, opcode⟩ .success readSize).2
      (AsyncStreamAdaptor.readOperation ⟨payload, opcode⟩ .success readSize).1 []
      [.message opcode payload] := by
  cases opcode with
  | binary => exact answers_data rfl rfl rfl
  | text => exact answers_data rfl rfl rfl
  | close => cases hplain
  | _ => exact answers_error rfl rfl rfl rfl (List.isEmpty_iff.mp hplain)

theorem asyncReadSome_preserves {Q : Receiving → Prop}
    (h : ∀ s : Receiving, s.parsing.reading = true → Q s →
      Q ({ s with adaptor := (s.adaptor.readFromReceiveBuffer readSize).2 }.complete
        ⟨.success, (s.adaptor.readFromReceiveBuffer readSize).1⟩)) (s : Receiving) (hs : Q s) :
    Q s.asyncReadSome := by
  induction s using asyncReadSome.induct with
  | case1 s hreading read hnil =>
    rw [asyncReadSome, if_pos hreading, dif_pos hnil]
    exact hs
  | case2 s hreading read hne ih =>
    rw [asyncReadSome, if_pos hreading, dif_neg hne]
    exact ih (h s hreading hs)
  | case3 s hreading =>
    rw [asyncReadSome, if_neg hreading]
    exact hs

theorem asyncReadSome_drained (s : Receiving) (h : s.asyncReadSome.parsing.reading = true) :
    s.asyncReadSome.adaptor.receiveBuffer = [] := by
  induction s using asyncReadSome.induct with
  | case1 s hreading read hnil =>
    rw [asyncReadSome, if_pos hreading, dif_pos hnil]
    simpa [read, AsyncStreamAdaptor.readFromReceiveBuffer, readSize] using hnil
  | case2 s hreading read hne ih =>
    rw [asyncReadSome, if_pos hreading, dif_neg hne] at h ⊢
    exact ih h
  | case3 s hreading =>
    rw [asyncReadSome, if_neg hreading] at h
    exact absurd h hreading

namespace Framed

theorem complete {a : AsyncStreamAdaptor} {c : ReadCompletion} {more : List Event}
    (h : Framed start initial events s) (hreading : s.parsing.reading = true)
    (hc : Answers a c s.adaptor.receiveBuffer more) :
    Framed start initial (events ++ more) ({ s with adaptor := a }.complete c) := by
  obtain ⟨readEvents, hrun, htypes, hreads⟩ := h.reads
  obtain ⟨hnone, hevent⟩ := c.readEvent_signals
  refine ⟨⟨readEvents ++ [c.readEvent], ?_, ?_, ?_⟩, ?_, ?_, ?_⟩
  · rw [run_append, hrun, Option.bind_some]
    exact run_cons.mpr ⟨_, Parsing.event_complete hreading hc.size, rfl⟩
  · simp [hnone, hc.type, htypes]
  · simp [Receiving.complete, hevent, hreads]
  · simp only [Receiving.complete, List.flatMap_append, List.flatMap_singleton,
      List.append_assoc, hc.signals]
    rw [← List.append_assoc, h.signals, List.append_assoc]
  · simp only [Receiving.complete, List.flatMap_append, List.flatMap_singleton,
      List.append_assoc, hc.bytes]
    rw [← List.append_assoc, h.bytes, List.append_assoc]
  · rw [Receiving.complete, List.filter_append, h.errors, hc.errors, List.filterMap_append,
      List.map_append]

theorem asyncReadSome (h : Framed start initial events s) :
    Framed start initial events s.asyncReadSome := by
  refine asyncReadSome_preserves (fun s hreading hs => ?_) s h
  have hstep := hs.complete hreading (answers_readFromReceiveBuffer s.adaptor)
  rwa [List.append_nil] at hstep

theorem begin (h : Framed start initial events s) (hreading : s.parsing.reading = false)
    (type : ParserType) :
    Framed start initial (events ++ [.beginParseValue type])
      { s with parsing := s.parsing.begin type } := by
  obtain ⟨readEvents, hrun, htypes, hreads⟩ := h.reads
  refine ⟨⟨readEvents ++ [.beginParseValue type], ?_, ?_, ?_⟩, ?_, ?_, ?_⟩
  · rw [run_append, hrun, Option.bind_some]
    refine run_cons.mpr ⟨_, ?_, rfl⟩
    rw [Parsing.event, hreading, if_neg Bool.false_ne_true]
  · simp [ReadEvent.type, Event.type, htypes]
  · simp [ReadEvent.signals, hreads]
  · simp [Event.signals, Event.payload, Event.error, h.signals]
  · simp [Event.payload, h.bytes]
  · simp [Event.error, h.errors]

end Framed

structure Settled (start : Parsing) (initial : List UInt8) (events : List Event) (s : Receiving) :
    Prop where
  framed : Framed start initial events s
  drained : s.parsing.reading = true → s.adaptor.receiveBuffer = []

namespace Settled

theorem of_framed (h : Framed start initial events s) :
    Settled start initial events s.asyncReadSome :=
  ⟨h.asyncReadSome, s.asyncReadSome_drained⟩

theorem step {e : Event} (h : Settled start initial events s) (hplain : e.plain = true)
    (hs : s.step e = some s') : Settled start initial (events ++ [e]) s' := by
  cases e with
  | beginParseValue type =>
    simp only [Receiving.step] at hs
    split_ifs at hs with hreading
    cases hs
    exact of_framed (h.framed.begin (Bool.eq_false_iff.mpr hreading) type)
  | message opcode payload =>
    simp only [Receiving.step] at hs
    split_ifs at hs with hreading
    cases hs
    have hdrained := h.drained hreading
    refine of_framed (h.framed.complete hreading ?_)
    rw [hdrained, List.nil_append]
    exact answers_message hplain
  | readError ec =>
    simp only [Receiving.step, Bool.and_eq_true] at hs
    split_ifs at hs with hreading
    cases hs
    obtain ⟨hreading, hec⟩ := hreading
    have hdrained := h.drained hreading
    refine of_framed (h.framed.complete hreading ?_)
    rw [AsyncStreamAdaptor.readOperation, if_pos hec, hdrained]
    exact answers_error hec rfl rfl rfl hdrained

theorem run {more : List Event} (h : Settled start initial events s)
    (hplain : ∀ e ∈ more, e.plain = true) (hr : run Receiving.step s more = some s') :
    Settled start initial (events ++ more) s' := by
  induction more generalizing s events with
  | nil =>
    cases hr
    rwa [List.append_nil]
  | cons e more ih =>
    obtain ⟨t, ht, hrest⟩ := run_cons.mp hr
    obtain ⟨he, hmore⟩ := List.forall_mem_cons.mp hplain
    have hlast := ih (h.step he ht) hmore hrest
    rwa [List.append_assoc] at hlast

end Settled

def opened (parser : Parser) (buffered initial : List UInt8) (opcode : Opcode) : Receiving where
  adaptor := ⟨initial, opcode⟩
  parsing := { parser, buffer := buffered }

/-- The raw stream behind what is in the buffer of the parsers, with the errors where they came
up. -/
def stream (initial : List UInt8) (events : List Event) : List Signal :=
  initial.map .byte ++ events.flatMap Event.signals

/-- What the calls make of the raw stream. -/
def served (buffered initial : List UInt8) (events : List Event) : Served :=
  serve (buffered.map .byte) [] (events.filterMap Event.type) (stream initial events)

theorem settled_opened (parser : Parser) (buffered initial : List UInt8) (opcode : Opcode) :
    Settled { parser, buffer := buffered } initial [] (opened parser buffered initial opcode) where
  framed :=
    { reads := ⟨[], rfl, rfl, rfl⟩
      signals := by simp [opened]
      bytes := by simp [opened]
      errors := rfl }
  drained := fun hreading => absurd hreading Bool.false_ne_true

/-- To the parsers the messages are the raw stream. What they were given and what is in the receive
buffer are what was received, each error came without bytes, and the results, the call that waits
and the bytes that are left over are those of every way to read the stream. -/
structure Unframed (parser : Parser) (buffered initial : List UInt8) (events : List Event)
    (s : Receiving) : Prop where
  bytes : s.completions.flatMap ReadCompletion.bytes ++ s.adaptor.receiveBuffer =
    initial ++ events.flatMap Event.payload
  errors : s.completions.filter (fun c => c.ec.isError) =
    (events.filterMap Event.error).map fun ec => ⟨ec, []⟩
  reads : ∃ readEvents, run Parsing.event { parser, buffer := buffered } readEvents =
      some s.parsing ∧
    readEvents.filterMap ReadEvent.type = events.filterMap Event.type ∧
    readEvents.flatMap ReadEvent.signals ++ s.adaptor.receiveBuffer.map .byte =
      stream initial events
  determined : ∀ readEvents unread r,
    run Parsing.event { parser, buffer := buffered } readEvents = some r →
    readEvents.filterMap ReadEvent.type = events.filterMap Event.type →
    readEvents.flatMap ReadEvent.signals ++ unread = stream initial events →
    (r.reading = true → unread = []) →
    s.parsing.results = r.results ∧ s.parsing.reading = r.reading ∧
      s.parsing.buffer.map .byte ++ s.adaptor.receiveBuffer.map .byte =
        r.buffer.map .byte ++ unread

section
variable {parser : Parser} {buffered : List UInt8}

theorem Settled.leaves (h : Settled { parser, buffer := buffered } initial events s) :
    s.parsing.Leaves (s.adaptor.receiveBuffer.map .byte) (served buffered initial events) := by
  obtain ⟨readEvents, hreads, htypes, hsignals⟩ := h.framed.reads
  have hleaves := Parsing.run_leaves hreads fun hreading =>
    (List.map_eq_nil_iff.mpr (h.drained hreading) :
      s.adaptor.receiveBuffer.map Signal.byte = [])
  rwa [htypes, hsignals, h.framed.signals] at hleaves

theorem Settled.unframed (h : Settled { parser, buffer := buffered } initial events s)
    (hserved : (served buffered initial events).rejected = false) :
    Unframed parser buffered initial events s := by
  obtain ⟨readEvents, hreads, htypes, hsignals⟩ := h.framed.reads
  refine ⟨h.framed.bytes, h.framed.errors,
    ⟨readEvents, hreads, htypes, by rw [hsignals, h.framed.signals, stream]⟩, ?_⟩
  intro raw unread r hr htypes' hraw hunread
  have hleaves := Parsing.run_leaves hr hunread
  rw [htypes', hraw] at hleaves
  exact h.leaves.unique hleaves hserved

theorem rejected_append {more : List Event}
    (h : (served buffered initial (events ++ more)).rejected = false) :
    (served buffered initial events).rejected = false := by
  rw [served, stream, List.filterMap_append, List.flatMap_append, ← List.append_assoc] at h
  exact serve_not_rejected _ _ h

/-- The call that one more event is for: the one that it makes, or the one that waits. -/
theorem Settled.last_call {e : Event}
    (h : Settled { parser, buffer := buffered } initial events s) (hs : s.step e = some s')
    (hserved : (served buffered initial events).rejected = false) :
    ∃ before type results kept rest,
      (events ++ [e]).filterMap Event.type = before ++ [type] ∧
      serve (buffered.map .byte) [] before (stream initial (events ++ [e])) =
        .resting results kept rest ∧
      served buffered initial (events ++ [e]) = (type.turn kept rest).served results := by
  have hleaves := h.leaves
  have hstream : stream initial (events ++ [e]) = stream initial events ++ e.signals := by
    simp [stream]
  cases hcase : served buffered initial events with
  | resting results kept rest =>
    rw [hcase] at hleaves
    cases e with
    | beginParseValue type =>
      rw [served] at hcase
      have hsame : stream initial (events ++ [Event.beginParseValue type]) =
          stream initial events := by
        rw [hstream]
        exact List.append_nil _
      have htypes : (events ++ [Event.beginParseValue type]).filterMap Event.type =
          events.filterMap Event.type ++ [type] := by
        rw [List.filterMap_append]
        rfl
      refine ⟨_, type, results, kept, rest, htypes, by rw [hsame, hcase], ?_⟩
      rw [served, htypes, hsame, serve_concat hcase]
    | message opcode payload => simp [Receiving.step, hleaves.2.2] at hs
    | readError ec => simp [Receiving.step, hleaves.2.2] at hs
  | waiting results parser taken later =>
    rw [hcase] at hleaves
    obtain ⟨-, -, -, hreading, rfl⟩ := hleaves
    have htype : e.type = none := by
      cases e with
      | beginParseValue type => simp [Receiving.step, hreading] at hs
      | message opcode payload => rfl
      | readError ec => rfl
    obtain ⟨before, type, kept, rest, htypes, hbefore⟩ := serve_waiting_split hcase
    have hmore := serve_append_resting hbefore e.signals
    have hall : (events ++ [e]).filterMap Event.type = before ++ [type] := by
      rw [← htypes, List.filterMap_append, List.filterMap_cons, htype]
      exact List.append_nil _
    refine ⟨before, type, results, kept, rest ++ e.signals, hall, by rw [hstream, hmore], ?_⟩
    rw [served, hall, hstream, serve_concat hmore]
  | failed results e' =>
    rw [hcase] at hserved
    cases hserved

/-- Where a call is spoiled there are two ways to read the stream, and only one of them may leave
what the messages have left. -/
theorem Settled.not_rejected {e : Event}
    (h : Settled { parser, buffer := buffered } initial events s) (hs : s.step e = some s')
    (hserved : (served buffered initial events).rejected = false)
    (hunframed : Unframed parser buffered initial (events ++ [e]) s') :
    (served buffered initial (events ++ [e])).rejected = false := by
  obtain ⟨before, type, results, kept, rest, htypes, hbefore, hlast⟩ := h.last_call hs hserved
  rw [hlast]
  cases hturn : type.turn kept rest with
  | done given kept rest => rfl
  | waits p taken => rfl
  | spoiled e' =>
    obtain ⟨reads, reads', r, r', unread, hr, hr', htypesOf, htypesOf', hreads, hreads', hstill,
      hstill', hlonger⟩ := Parsing.two_ways parser hbefore hturn
    have hone := hunframed.determined reads unread r hr (htypesOf.trans htypes.symm) hreads
      fun hreading => absurd (hstill.symm.trans hreading) Bool.false_ne_true
    have htwo := hunframed.determined reads' unread r' hr' (htypesOf'.trans htypes.symm) hreads'
      fun hreading => absurd (hstill'.symm.trans hreading) Bool.false_ne_true
    have hsame := List.append_cancel_right (hone.2.2.symm.trans htwo.2.2)
    have hlength := congrArg List.length hsame
    rw [List.length_map, List.length_map] at hlength
    omega

theorem not_rejected_of_unframed {opcode : Opcode} (hplain : ∀ e ∈ events, e.plain = true)
    (hr : run step (opened parser buffered initial opcode) events = some s)
    (h : ∀ before t, before <+: events →
      run step (opened parser buffered initial opcode) before = some t →
      Unframed parser buffered initial before t) :
    (served buffered initial events).rejected = false := by
  induction events using List.reverseRecOn generalizing s with
  | nil => rfl
  | append_singleton events e ih =>
    have hsplit := hr
    rw [run_append] at hsplit
    obtain ⟨t, ht, hlast⟩ := Option.bind_eq_some_iff.mp hsplit
    obtain ⟨u, hu, hnil⟩ := run_cons.mp hlast
    cases hnil
    have hearlier := List.forall_mem_append.mp hplain
    have hsettled := (settled_opened parser buffered initial opcode).run hearlier.1 ht
    rw [List.nil_append] at hsettled
    exact hsettled.not_rejected hu
      (ih hearlier.1 ht fun before t hbefore => h before t (hbefore.trans (List.prefix_append _ _)))
      (h _ _ (List.prefix_refl _) hr)

end

/-! What comes of the events is counted whatever they are. -/

def Event.received : Event → List UInt8
  | .message _ payload => payload
  | .beginParseValue _ | .readError _ => []

def Event.told (e : Event) : Option StreamError := e.error.filter StreamError.isError

structure Tallied (initial : List UInt8) (events : List Event) (s : Receiving) : Prop where
  bytes : (s.completions.flatMap ReadCompletion.bytes).length + s.adaptor.receiveBuffer.length =
    initial.length + (events.flatMap Event.received).length
  errors : (s.completions.filter fun c => c.ec.isError).length =
    (events.filterMap Event.told).length

omit [Platform] in
theorem received_readOperation (opcode : Opcode) (bytes payload : List UInt8) :
    let read := AsyncStreamAdaptor.readOperation ⟨bytes ++ payload, opcode⟩ .success readSize
    read.1.bytes.length + read.2.receiveBuffer.length =
        bytes.length + (Event.message opcode payload).received.length ∧
      ([read.1].filter fun c => c.ec.isError).length =
        ([Event.message opcode payload].filterMap Event.told).length := by
  have hdata : ((bytes ++ payload).take readSize).length +
      ((bytes ++ payload).drop readSize).length = bytes.length + payload.length := by
    rw [← List.length_append, List.take_append_drop, List.length_append]
  have hnone : 0 + (bytes ++ payload).length = bytes.length + payload.length := by
    rw [Nat.zero_add, List.length_append]
  cases opcode with
  | binary => exact ⟨hdata, rfl⟩
  | text => exact ⟨hdata, rfl⟩
  | _ => exact ⟨hnone, rfl⟩

namespace Tallied

theorem complete {a : AsyncStreamAdaptor} {c : ReadCompletion} {more : List Event}
    (h : Tallied initial events s)
    (hbytes : c.bytes.length + a.receiveBuffer.length =
      s.adaptor.receiveBuffer.length + (more.flatMap Event.received).length)
    (herrors : ([c].filter fun c => c.ec.isError).length =
      (more.filterMap Event.told).length) :
    Tallied initial (events ++ more) ({ s with adaptor := a }.complete c) := by
  have hbefore := h.bytes
  refine ⟨?_, ?_⟩
  · simp only [Receiving.complete, List.flatMap_append, List.flatMap_singleton,
      List.length_append]
    omega
  · rw [Receiving.complete, List.filter_append, List.length_append, h.errors, herrors,
      List.filterMap_append, List.length_append]

theorem asyncReadSome (h : Tallied initial events s) :
    Tallied initial events s.asyncReadSome := by
  refine asyncReadSome_preserves (fun s _ hs => ?_) s h
  have hread := congrArg List.length (answers_readFromReceiveBuffer s.adaptor).bytes
  simp only [List.length_append] at hread
  have hstep : Tallied initial (events ++ []) _ :=
    hs.complete (c := ⟨.success, (s.adaptor.readFromReceiveBuffer readSize).1⟩) hread rfl
  rwa [List.append_nil] at hstep

theorem step {e : Event} (h : Tallied initial events s) (hs : s.step e = some s') :
    Tallied initial (events ++ [e]) s' := by
  cases e with
  | beginParseValue type =>
    simp only [Receiving.step] at hs
    split_ifs at hs
    cases hs
    refine asyncReadSome ⟨?_, ?_⟩
    · simpa [Event.received] using h.bytes
    · rw [h.errors, List.filterMap_append, List.length_append]
      rfl
  | message opcode payload =>
    simp only [Receiving.step] at hs
    split_ifs at hs
    cases hs
    obtain ⟨hbytes, herrors⟩ :=
      received_readOperation opcode s.adaptor.receiveBuffer payload
    refine asyncReadSome (h.complete ?_ ?_)
    · simpa using hbytes
    · exact herrors
  | readError ec =>
    simp only [Receiving.step, Bool.and_eq_true] at hs
    split_ifs at hs with hreading
    cases hs
    refine asyncReadSome (h.complete ?_ ?_)
    · simp [AsyncStreamAdaptor.readOperation, hreading.2, Event.received]
    · simp [AsyncStreamAdaptor.readOperation, hreading.2, Event.told, Event.error,
        Option.filter]

theorem run {more : List Event} (h : Tallied initial events s)
    (hr : run Receiving.step s more = some s') : Tallied initial (events ++ more) s' := by
  induction more generalizing s events with
  | nil =>
    cases hr
    rwa [List.append_nil]
  | cons e more ih =>
    obtain ⟨t, ht, hrest⟩ := run_cons.mp hr
    have hlast := ih (h.step ht) hrest
    rwa [List.append_assoc] at hlast

end Tallied

omit [Platform] in
theorem tallied_opened (parser : Parser) (buffered initial : List UInt8) (opcode : Opcode) :
    Tallied initial [] (opened parser buffered initial opcode) :=
  ⟨by simp [opened], rfl⟩

namespace Event

omit [Platform] in
theorem payload_length_le (e : Event) : e.payload.length ≤ e.received.length := by
  cases e with
  | beginParseValue type => exact Nat.le_refl _
  | readError ec => exact Nat.le_refl _
  | message opcode payload =>
    cases opcode with
    | binary | text => exact Nat.le_refl _
    | _ => exact Nat.zero_le _

omit [Platform] in
theorem told_length_le (e : Event) :
    ([e].filterMap told).length ≤ ([e].filterMap error).length := by
  simp only [List.filterMap_cons, List.filterMap_nil, told]
  cases e.error with
  | none => exact Nat.le_refl _
  | some ec =>
    rw [Option.filter]
    split <;> simp

omit [Platform] in
theorem plain_of_lengths {e : Event} (hbytes : e.payload.length = e.received.length)
    (herrors : ([e].filterMap told).length = ([e].filterMap error).length) :
    e.plain = true := by
  cases e with
  | beginParseValue type => rfl
  | readError ec => rfl
  | message opcode payload =>
    cases opcode with
    | binary | text => rfl
    | close => cases herrors
    | _ => exact List.isEmpty_iff.mpr (List.length_eq_zero_iff.mp hbytes.symm)

omit [Platform] in
theorem lengths_le (events : List Event) :
    (events.flatMap payload).length ≤ (events.flatMap received).length ∧
      (events.filterMap told).length ≤ (events.filterMap error).length := by
  induction events with
  | nil => exact ⟨Nat.le_refl _, Nat.le_refl _⟩
  | cons e events ih =>
    have hbytes := e.payload_length_le
    have herrors := e.told_length_le
    rw [List.flatMap_cons, List.flatMap_cons, ← List.singleton_append, List.filterMap_append,
      List.filterMap_append]
    simp only [List.length_append]
    omega

omit [Platform] in
theorem forall_plain {events : List Event}
    (hbytes : (events.flatMap payload).length = (events.flatMap received).length)
    (herrors : (events.filterMap told).length = (events.filterMap error).length) :
    ∀ e ∈ events, e.plain = true := by
  induction events with
  | nil => exact List.forall_mem_nil _
  | cons e events ih =>
    have hle := e.payload_length_le
    have hle' := e.told_length_le
    have hrest := lengths_le events
    rw [List.flatMap_cons, List.flatMap_cons, List.length_append, List.length_append] at hbytes
    rw [← List.singleton_append, List.filterMap_append, List.filterMap_append,
      List.length_append, List.length_append] at herrors
    exact List.forall_mem_cons.mpr
      ⟨plain_of_lengths (by omega) (by omega), ih (by omega) (by omega)⟩

end Event

/-- Framing is invisible all along if and only if no message is a close, none has bytes and an
opcode without data, and no parser rejects a byte of the stream after others of it. -/
theorem framing_invisible (parser : Parser) (buffered initial : List UInt8) (opcode : Opcode)
    (hr : run step (opened parser buffered initial opcode) events = some s) :
    (∀ before t, before <+: events →
        run step (opened parser buffered initial opcode) before = some t →
        Unframed parser buffered initial before t) ↔
      (∀ e ∈ events, e.plain = true) ∧ (served buffered initial events).rejected = false := by
  refine ⟨fun h => ?_, fun ⟨hplain, hserved⟩ before t hbefore ht => ?_⟩
  · have hlast := h events s (List.prefix_refl _) hr
    have htallied := (tallied_opened parser buffered initial opcode).run hr
    rw [List.nil_append] at htallied
    have hbytes := congrArg List.length hlast.bytes
    have herrors := congrArg List.length hlast.errors
    rw [List.length_append, List.length_append, htallied.bytes] at hbytes
    rw [htallied.errors, List.length_map] at herrors
    have hplain := Event.forall_plain (Nat.add_left_cancel hbytes).symm herrors
    exact ⟨hplain, not_rejected_of_unframed hplain hr h⟩
  · obtain ⟨more, rfl⟩ := hbefore
    have hsettled := (settled_opened parser buffered initial opcode).run
      (fun e he => hplain e (List.mem_append_left _ he)) ht
    rw [List.nil_append] at hsettled
    exact hsettled.unframed (rejected_append hserved)

/-! Before the first call the parser is of no importance. -/

def messageEvents : List Event :=
  [.beginParseValue (.integer .uint16), .message .binary [1], .message .text [],
    .message .binary [2, 3]]

omit [Platform] in
theorem framing_invisible_uint16 :
    letI := Platform.reference
    ∃ s, run step (opened (.empty .tuple) [] [] .cont) messageEvents = some s ∧
      Unframed (.empty .tuple) [] [] messageEvents s ∧
      s.parsing.results = [.ok (.integer 258)] ∧ s.parsing.buffer = [3] := by
  letI := Platform.reference
  have hsome : (run step (opened (.empty .tuple) [] [] .cont) messageEvents).any (fun s =>
      decide (s.parsing.results = [.ok (.integer 258)]) &&
        decide (s.parsing.buffer = [3])) = true := by decide +kernel
  obtain ⟨s, hs, hlast⟩ := (Option.any_eq_true _ _).mp hsome
  simp only [Bool.and_eq_true, decide_eq_true_eq] at hlast
  have hplain : ∀ e ∈ messageEvents, e.plain = true := List.all_eq_true.mp rfl
  have hall := (framing_invisible _ [] [] .cont hs).mpr ⟨hplain, by decide +kernel⟩
  exact ⟨s, hs, hall messageEvents s (List.prefix_refl _) hs, hlast.1, hlast.2⟩

def rejectedEvents : List Event :=
  [.beginParseValue (.utf8 .uint8), .message .binary [1], .message .binary [0xff]]

omit [Platform] in
/-- A close is a read of no bytes, after which the parser goes on reading. A text that is rejected
leaves one byte to the next call if it comes in two messages, and two in one read. -/
theorem framing_visible :
    letI := Platform.reference
    (∃ s, run step (opened (.empty .tuple) [] [] .cont)
        [.beginParseValue (.integer .uint8), .message .close []] = some s ∧
      s.completions.filter (fun c => c.ec.isError) = [] ∧ s.parsing.results = [] ∧
      s.parsing.reading = true ∧
      ¬ Unframed (.empty .tuple) [] [] [.beginParseValue (.integer .uint8), .message .close []] s) ∧
    (∃ s r, run step (opened (.empty .tuple) [] [] .cont) rejectedEvents = some s ∧
      run Parsing.event { parser := .empty .tuple, buffer := [] }
        [.beginParseValue (.utf8 .uint8), .read [1, 0xff]] = some r ∧
      s.parsing.buffer = [0xff] ∧ r.buffer = [1, 0xff] ∧
      ¬ Unframed (.empty .tuple) [] [] rejectedEvents s) := by
  letI := Platform.reference
  refine ⟨?_, ?_⟩
  · have hsome : (run step (opened (.empty .tuple) [] [] .cont)
        [.beginParseValue (.integer .uint8), .message .close []]).any (fun s =>
          decide (s.completions.filter (fun c => c.ec.isError) = []) &&
            decide (s.parsing.results = []) && s.parsing.reading) = true := by decide +kernel
    obtain ⟨s, hs, hlast⟩ := (Option.any_eq_true _ _).mp hsome
    simp only [Bool.and_eq_true, decide_eq_true_eq] at hlast
    obtain ⟨⟨herrors, hresults⟩, hreading⟩ := hlast
    refine ⟨s, hs, herrors, hresults, hreading, fun h => ?_⟩
    have htold := h.errors
    rw [herrors] at htold
    cases htold
  · have hsome : (run step (opened (.empty .tuple) [] [] .cont) rejectedEvents).any (fun s =>
        decide (s.parsing.buffer = [0xff]) && s.adaptor.receiveBuffer.isEmpty) = true := by
      decide +kernel
    have hraw : (run Parsing.event { parser := .empty .tuple, buffer := [] }
        [.beginParseValue (.utf8 .uint8), .read [1, 0xff]]).any (fun r =>
          decide (r.buffer = [1, 0xff]) && !r.reading) = true := by decide +kernel
    obtain ⟨s, hs, hlast⟩ := (Option.any_eq_true _ _).mp hsome
    obtain ⟨r, hr, hlast'⟩ := (Option.any_eq_true _ _).mp hraw
    simp only [Bool.and_eq_true, decide_eq_true_eq, List.isEmpty_iff] at hlast
    simp only [Bool.and_eq_true, decide_eq_true_eq, Bool.not_eq_true'] at hlast'
    refine ⟨s, r, hs, hr, hlast.1, hlast'.1, fun h => ?_⟩
    obtain ⟨-, -, hsame⟩ := h.determined _ [] r hr rfl rfl fun _ => rfl
    rw [hlast.1, hlast.2, hlast'.1] at hsame
    cases hsame

end Receiving
end Warpcoil
