import Warpcoil.BeginParseValue

/-! Calls of `begin_parse_value` on one stream, one after the other. What they give is a matter of
the stream alone, however it is cut into reads, as long as no parser rejects a byte after others
that it has read. -/
namespace Warpcoil
open Incremental Transition
variable [Platform]

/-- What a stream gives to those who read from it. -/
inductive Signal where
  | byte (b : UInt8)
  | error (ec : ErrorCode)

/-- A parser goes on with a byte; an error is what its operation completes with. -/
def Parser.receive (p : Parser) : Signal → Step Parser (Except ErrorCode Value) ParseFailure
  | .byte b =>
    match p.parseByte b with
    | .complete v consumed => .complete (.ok v) consumed
    | .more p' => .more p'
    | .fail e => .fail e
  | .error ec => .complete (.error ec) true

theorem read_receive (p : Parser) (bytes : List UInt8) :
    read Parser.receive p (bytes.map .byte) = match p.read bytes with
      | .complete v rest => .complete (.ok v) (rest.map .byte)
      | .more p' => .more p'
      | .fail e => .fail e := by
  induction bytes generalizing p with
  | nil => rfl
  | cons b bytes ih =>
    simp only [List.map_cons, Incremental.read, Parser.read, Parser.receive]
    cases p.parseByte b with
    | complete v consumed => cases consumed <;> rfl
    | more p' => exact ih p'
    | fail e => rfl

/-- One `parse_operation` on what a stream gives without a pause. -/
def ParserType.parseSignals (type : ParserType) (signals : List Signal) :
    Reading Parser Signal (Except ErrorCode Value) ParseFailure :=
  match type.fresh.checkForImmediateCompletion with
  | some v => .complete (.ok v) signals
  | none => read Parser.receive type.fresh signals

/-- The result that a rejected byte leads to; the other failure is an exception. -/
def ParseFailure.results : ParseFailure → List (Except ErrorCode Value)
  | .invalidInput => [.error .invalidInput]
  | .lengthError => []

/-- What becomes of a call: it is over and leaves `kept` of what was in the buffer before all reads
and `rest` of the stream, or it waits, or it has rejected a byte of the stream after others that it
had taken from it. What stays in the buffer then is a matter of the reads. -/
inductive Turn where
  | done (given : List (Except ErrorCode Value)) (kept rest : List Signal)
  | waits (parser : Parser) (taken : Bool)
  | spoiled (e : ParseFailure)

/-- The parser of a call that has taken something from the stream. -/
def Parser.goOn (p : Parser) (signals : List Signal) : Turn :=
  match Incremental.read Parser.receive p signals with
  | .complete result rest => .done [result] [] rest
  | .more parser => .waits parser true
  | .fail e => .spoiled e

/-- Nothing has been taken from it so far, and a byte that is rejected at once stays there. -/
def Parser.turn (p : Parser) : List Signal → Turn
  | [] => .waits p false
  | signal :: signals =>
    match p.receive signal with
    | .fail e => .done e.results [] (signal :: signals)
    | .complete _ _ | .more _ => p.goOn (signal :: signals)

/-- A parser that rejects a byte of the buffer leaves all of it there. -/
def ParserType.turn (type : ParserType) (kept signals : List Signal) : Turn :=
  match type.parseSignals kept with
  | .complete result rest => .done [result] rest signals
  | .more parser => parser.turn signals
  | .fail e => .done e.results kept signals

def Turn.resume : Turn → List Signal → Turn
  | .done given kept rest, more => .done given kept (rest ++ more)
  | .waits parser false, more => parser.turn more
  | .waits parser true, more => parser.goOn more
  | .spoiled e, _ => .spoiled e

/-- How far some calls have come: to the end of the last one, or `parser` waits for more and the
calls `later` have not begun, or one of them is spoiled. -/
inductive Served where
  | resting (results : List (Except ErrorCode Value)) (kept rest : List Signal)
  | waiting (results : List (Except ErrorCode Value)) (parser : Parser) (taken : Bool)
    (later : List ParserType)
  | failed (results : List (Except ErrorCode Value)) (e : ParseFailure)

/-- Calls of `begin_parse_value`, one after the other. -/
def serve : List Signal → List (Except ErrorCode Value) → List ParserType → List Signal → Served
  | kept, results, [], signals => .resting results kept signals
  | kept, results, type::types, signals =>
    match type.turn kept signals with
    | .done given kept rest => serve kept (results ++ given) types rest
    | .waits parser taken => .waiting results parser taken types
    | .spoiled e => .failed results e

def Turn.served (results : List (Except ErrorCode Value)) : Turn → Served
  | .done given kept rest => .resting (results ++ given) kept rest
  | .waits parser taken => .waiting results parser taken []
  | .spoiled e => .failed results e

section
variable {results results' : List (Except ErrorCode Value)} {types : List ParserType}
variable {kept kept' signals rest : List Signal}

theorem ParserType.parseSignals_append (type : ParserType) (signals more : List Signal) :
    type.parseSignals (signals ++ more) =
      (type.parseSignals signals).resume Parser.receive more := by
  rw [parseSignals, parseSignals]
  split
  · rfl
  · exact read_append Parser.receive type.fresh signals more

theorem Parser.goOn_append (p : Parser) (signals more : List Signal) :
    p.goOn (signals ++ more) = (p.goOn signals).resume more := by
  rw [goOn, goOn, read_append]
  cases Incremental.read Parser.receive p signals <;> rfl

theorem Parser.turn_append (p : Parser) (signals more : List Signal) :
    p.turn (signals ++ more) = (p.turn signals).resume more := by
  cases signals with
  | nil => rfl
  | cons signal signals =>
    rw [List.cons_append, turn, turn, ← List.cons_append, goOn_append]
    cases p.receive signal <;> rfl

theorem ParserType.turn_append (type : ParserType) (kept signals more : List Signal) :
    type.turn kept (signals ++ more) = (type.turn kept signals).resume more := by
  rw [turn, turn]
  cases type.parseSignals kept with
  | complete result rest => rfl
  | more parser => exact parser.turn_append signals more
  | fail e => rfl

theorem serve_singleton (type : ParserType) :
    serve kept results [type] signals = (type.turn kept signals).served results := by
  rw [serve]
  cases type.turn kept signals <;> rfl

theorem serve_concat (h : serve kept results types signals = .resting results' kept' rest)
    (type : ParserType) : serve kept results (types ++ [type]) signals =
      (type.turn kept' rest).served results' := by
  induction types generalizing kept results signals with
  | nil =>
    cases h
    exact serve_singleton type
  | cons first types ih =>
    rw [serve] at h
    rw [List.cons_append, serve]
    cases hfirst : first.turn kept signals with
    | done given kept rest =>
      rw [hfirst] at h
      exact ih h
    | waits parser taken => simp [hfirst] at h
    | spoiled e => simp [hfirst] at h

theorem serve_append_resting (h : serve kept results types signals = .resting results' kept' rest)
    (more : List Signal) :
    serve kept results types (signals ++ more) = .resting results' kept' (rest ++ more) := by
  induction types generalizing kept results signals with
  | nil =>
    cases h
    rfl
  | cons first types ih =>
    rw [serve] at h
    rw [serve, ParserType.turn_append]
    cases hfirst : first.turn kept signals with
    | done given kept rest =>
      rw [hfirst] at h
      exact ih h
    | waits parser taken => simp [hfirst] at h
    | spoiled e => simp [hfirst] at h

theorem serve_append_waiting {parser : Parser} {taken : Bool}
    (h : serve kept results types signals = .waiting results' parser taken [])
    (more : List Signal) : serve kept results types (signals ++ more) =
      ((Turn.waits parser taken).resume more).served results' := by
  induction types generalizing kept results signals with
  | nil => cases h
  | cons first types ih =>
    rw [serve] at h
    rw [serve, ParserType.turn_append]
    cases hfirst : first.turn kept signals with
    | done given kept rest =>
      rw [hfirst] at h
      exact ih h
    | waits p t =>
      simp only [hfirst, Served.waiting.injEq] at h
      obtain ⟨rfl, rfl, rfl, rfl⟩ := h
      cases (Turn.waits p t).resume more <;> rfl
    | spoiled e => simp [hfirst] at h

/-- Neither later calls nor more signals undo it. -/
theorem serve_failed {e : ParseFailure}
    (h : serve kept results types signals = .failed results' e) (later : List ParserType)
    (more : List Signal) :
    serve kept results (types ++ later) (signals ++ more) = .failed results' e := by
  induction types generalizing kept results signals with
  | nil => cases h
  | cons first types ih =>
    rw [serve] at h
    rw [List.cons_append, serve, ParserType.turn_append]
    cases hfirst : first.turn kept signals with
    | done given kept rest =>
      rw [hfirst] at h
      exact ih h
    | waits parser taken => simp [hfirst] at h
    | spoiled e' =>
      rw [hfirst] at h
      exact h

theorem ParserType.turn_complete {type : ParserType} {result : Except ErrorCode Value}
    (h : type.parseSignals signals = .complete result rest) :
    type.turn [] signals = .done [result] [] rest := by
  rw [parseSignals] at h
  rw [turn, parseSignals]
  cases hcheck : type.fresh.checkForImmediateCompletion with
  | some v =>
    rw [hcheck] at h
    cases h
    rfl
  | none =>
    rw [hcheck] at h
    cases signals with
    | nil => cases h
    | cons signal signals =>
      dsimp only [Incremental.read, Parser.turn, Parser.goOn] at h ⊢
      cases hreceive : type.fresh.receive signal with
      | complete result consumed =>
        rw [hreceive] at h
        cases consumed <;> (cases h; rfl)
      | more parser =>
        rw [hreceive] at h
        dsimp only at h ⊢
        rw [h]
      | fail e => rw [hreceive] at h; cases h

theorem ParserType.turn_more {type : ParserType} {parser : Parser}
    (h : type.parseSignals signals = .more parser) :
    ∃ taken, type.turn [] signals = .waits parser taken := by
  rw [parseSignals] at h
  rw [turn, parseSignals]
  cases hcheck : type.fresh.checkForImmediateCompletion with
  | some v => rw [hcheck] at h; cases h
  | none =>
    rw [hcheck] at h
    cases signals with
    | nil =>
      cases h
      exact ⟨false, rfl⟩
    | cons signal signals =>
      refine ⟨true, ?_⟩
      dsimp only [Incremental.read, Parser.turn, Parser.goOn] at h ⊢
      cases hreceive : type.fresh.receive signal with
      | complete result consumed => rw [hreceive] at h; cases consumed <;> cases h
      | more p =>
        rw [hreceive] at h
        dsimp only at h ⊢
        rw [h]
      | fail e => rw [hreceive] at h; cases h

end

/-! The same calls on a stream that is read piece by piece. -/

/-- A call, once the one before it has completed, and the completions of `async_read_some`. -/
inductive ReadEvent where
  | beginParseValue (type : ParserType)
  | read (bytes : List UInt8)
  | error (ec : ErrorCode)

def ReadEvent.type : ReadEvent → Option ParserType
  | .beginParseValue type => some type
  | .read _ | .error _ => none

def ReadEvent.signals : ReadEvent → List Signal
  | .beginParseValue _ => []
  | .read bytes => bytes.map .byte
  | .error ec => [.error ec]

def Parsing.begin (s : Parsing) (type : ParserType) : Parsing :=
  { s with parser := type.fresh }.start

def Parsing.fail (s : Parsing) (ec : ErrorCode) : Parsing :=
  { s with reading := false }.onResult (.error ec)

def Parsing.event (s : Parsing) : ReadEvent → Option Parsing
  | .beginParseValue type => if s.reading then none else some (s.begin type)
  | .read bytes => s.step bytes
  | .error ec => if s.reading then some (s.fail ec) else none

/-- The state is the one that the stream asks for, as long as no call is spoiled. What has been in
the buffer from the beginning is there alone. -/
def Parsing.Serves (s : Parsing) (served : Served) : Prop :=
  match served with
  | .resting results kept rest =>
    s.results = results ∧ s.buffer.map .byte = kept ++ rest ∧ (kept = [] ∨ rest = []) ∧
      s.reading = false
  | .waiting results parser _ later =>
    s.results = results ∧ s.buffer = [] ∧ s.reading = true ∧ s.parser = parser ∧ later = [] ∧
      parser.checkForImmediateCompletion = none
  | .failed results e => results ++ e.results <+: s.results

/-- The same of a stream whose last signals, `unread`, have not been given to the state. -/
def Parsing.Leaves (s : Parsing) (unread : List Signal) (served : Served) : Prop :=
  match served with
  | .resting results kept rest =>
    s.results = results ∧ s.buffer.map .byte ++ unread = kept ++ rest ∧ s.reading = false
  | .waiting results _ _ later =>
    s.results = results ∧ s.buffer = [] ∧ unread = [] ∧ s.reading = true ∧ later = []
  | .failed results e => results ++ e.results <+: s.results

def Served.rejected : Served → Bool
  | .resting _ _ _ | .waiting _ _ _ _ => false
  | .failed _ _ => true

namespace Parsing
variable {s s' : Parsing} {types : List ParserType} {kept signals : List Signal} {e : ReadEvent}

theorem start_fail (hcheck : s.parser.checkForImmediateCompletion = none) {e : ParseFailure}
    (hread : s.parser.read s.buffer = .fail e) : s.start.results = s.results ++ e.results ∧
      s.start.buffer = s.buffer ∧ s.start.reading = s.reading := by
  rw [start, hcheck]
  dsimp only
  rw [hread]
  cases e
  · exact ⟨rfl, rfl, rfl⟩
  · exact ⟨(List.append_nil _).symm, rfl, rfl⟩

theorem start_goOn {parser : Parser} {bytes : List UInt8} (hparser : s.parser = parser)
    (hbuffer : s.buffer = bytes) (hreading : s.reading = false)
    (hcheck : parser.checkForImmediateCompletion = none) :
    s.start.Serves ((parser.goOn (bytes.map .byte)).served s.results) := by
  subst hparser hbuffer
  rw [Parser.goOn, read_receive]
  cases hread : s.parser.read s.buffer with
  | complete v rest =>
    simp only [start, hcheck, hread]
    exact ⟨rfl, rfl, .inl rfl, hreading⟩
  | more parser =>
    simp only [start, hcheck, hread]
    exact ⟨rfl, rfl, rfl, rfl, rfl, Parser.checkForImmediateCompletion_read hcheck hread⟩
  | fail e =>
    have hprefix : s.results ++ e.results <+: s.start.results :=
      (start_fail hcheck hread).1 ▸ List.prefix_refl _
    exact hprefix

theorem start_turn {parser : Parser} {bytes : List UInt8} (hparser : s.parser = parser)
    (hbuffer : s.buffer = bytes) (hreading : s.reading = false)
    (hcheck : parser.checkForImmediateCompletion = none) :
    s.start.Serves ((parser.turn (bytes.map .byte)).served s.results) := by
  have hgoOn := start_goOn hparser hbuffer hreading hcheck
  cases bytes with
  | nil =>
    subst hparser
    have hread : s.parser.read s.buffer = .more s.parser := by rw [hbuffer]; rfl
    simp only [start, hcheck, hread]
    exact ⟨rfl, rfl, rfl, rfl, rfl, hcheck⟩
  | cons b bytes =>
    rw [List.map_cons] at hgoOn ⊢
    rw [Parser.turn]
    cases hreceive : parser.receive (.byte b) with
    | complete result consumed => exact hgoOn
    | more parser => exact hgoOn
    | fail e =>
      subst hparser
      have hread : s.parser.read s.buffer = .fail e := by
        rw [Parser.receive] at hreceive
        rw [hbuffer, Parser.read, Incremental.read]
        split at hreceive
        · cases hreceive
        · cases hreceive
        · next e' hparse =>
          cases hreceive
          rw [hparse]
      obtain ⟨hresults, hsame, hstill⟩ := start_fail hcheck hread
      exact ⟨hresults, by rw [hsame, hbuffer]; rfl, .inl rfl, hstill.trans hreading⟩

theorem begin_serves {results : List (Except ErrorCode Value)} {kept' rest : List Signal}
    (hserve : serve kept [] types signals = .resting results kept' rest)
    (h : s.Serves (.resting results kept' rest)) (type : ParserType) :
    (s.begin type).Serves (serve kept [] (types ++ [type]) signals) := by
  obtain ⟨rfl, hbuffer, halone, hreading⟩ := h
  rw [serve_concat hserve, ParserType.turn, ParserType.parseSignals]
  cases hcheck : type.fresh.checkForImmediateCompletion with
  | some v =>
    simp only [Parsing.begin, start, hcheck]
    exact ⟨rfl, hbuffer, halone, hreading⟩
  | none =>
    rcases halone with rfl | rfl
    · rw [List.nil_append] at hbuffer
      rw [← hbuffer]
      exact start_turn (s := { s with parser := type.fresh }) rfl rfl hreading hcheck
    · rw [List.append_nil] at hbuffer
      rw [← hbuffer, read_receive]
      cases hread : type.fresh.read s.buffer with
      | complete v rest =>
        simp only [Parsing.begin, start, hcheck, hread]
        exact ⟨rfl, (List.append_nil _).symm, .inr rfl, hreading⟩
      | more parser =>
        simp only [Parsing.begin, start, hcheck, hread]
        exact ⟨rfl, rfl, rfl, rfl, rfl, Parser.checkForImmediateCompletion_read hcheck hread⟩
      | fail e =>
        have hfail : ({ s with parser := type.fresh } : Parsing).parser.read s.buffer = .fail e :=
          hread
        obtain ⟨hresults, hsame, hstill⟩ := start_fail hcheck hfail
        exact ⟨hresults, by rw [Parsing.begin, hsame, List.append_nil], .inr rfl,
          hstill.trans hreading⟩

theorem step_serves {results : List (Except ErrorCode Value)} {parser : Parser} {taken : Bool}
    {later : List ParserType}
    (hserve : serve kept [] types signals = .waiting results parser taken later)
    (h : s.Serves (.waiting results parser taken later)) (bytes : List UInt8) :
    (start { s with buffer := s.buffer ++ bytes, reading := false }).Serves
      (serve kept [] types (signals ++ bytes.map .byte)) := by
  obtain ⟨rfl, hbuffer, -, hparser, rfl, hcheck⟩ := h
  have hbytes : s.buffer ++ bytes = bytes := by rw [hbuffer, List.nil_append]
  rw [serve_append_waiting hserve]
  cases taken with
  | false =>
    exact start_turn (s := { s with buffer := s.buffer ++ bytes, reading := false }) hparser hbytes
      rfl hcheck
  | true =>
    exact start_goOn (s := { s with buffer := s.buffer ++ bytes, reading := false }) hparser hbytes
      rfl hcheck

theorem fail_serves {results : List (Except ErrorCode Value)} {parser : Parser} {taken : Bool}
    {later : List ParserType}
    (hserve : serve kept [] types signals = .waiting results parser taken later)
    (h : s.Serves (.waiting results parser taken later)) (ec : ErrorCode) :
    (s.fail ec).Serves (serve kept [] types (signals ++ [.error ec])) := by
  obtain ⟨rfl, hbuffer, -, hparser, rfl, hcheck⟩ := h
  rw [serve_append_waiting hserve]
  cases taken <;>
    exact ⟨rfl, by rw [Parsing.fail, onResult, hbuffer]; rfl, .inl rfl, rfl⟩

omit [Platform] in
theorem onResult_results (s : Parsing) (result : Except ErrorCode Value) :
    s.results <+: (s.onResult result).results := List.prefix_append _ _

theorem start_results (s : Parsing) : s.results <+: s.start.results := by
  rw [start]
  split
  · exact List.prefix_append _ _
  · split <;> first | exact List.prefix_append _ _ | exact List.prefix_refl _

theorem event_results (hs : s.event e = some s') : s.results <+: s'.results := by
  cases e with
  | beginParseValue type =>
    simp only [event] at hs
    split_ifs at hs
    cases hs
    exact start_results { s with parser := type.fresh }
  | read bytes =>
    simp only [event, step] at hs
    split_ifs at hs
    cases hs
    exact start_results { s with buffer := s.buffer ++ bytes, reading := false }
  | error ec =>
    simp only [event] at hs
    split_ifs at hs
    cases hs
    exact onResult_results { s with reading := false } (.error ec)

theorem event_serves (h : s.Serves (serve kept [] types signals)) (hs : s.event e = some s') :
    s'.Serves (serve kept [] (types ++ e.type.toList) (signals ++ e.signals)) := by
  cases hserve : serve kept [] types signals with
  | resting results kept' rest =>
    rw [hserve] at h
    cases e with
    | beginParseValue type =>
      simp only [event, h.2.2.2, Bool.false_eq_true, if_false, Option.some.injEq] at hs
      rw [← hs, ReadEvent.signals, List.append_nil]
      exact begin_serves hserve h type
    | read bytes => simp [event, step, h.2.2.2] at hs
    | error ec => simp [event, h.2.2.2] at hs
  | waiting results parser taken later =>
    rw [hserve] at h
    cases e with
    | beginParseValue type => simp [event, h.2.2.1] at hs
    | read bytes =>
      simp only [event, step] at hs
      split_ifs at hs
      cases hs
      rw [ReadEvent.type, Option.toList_none, List.append_nil]
      exact step_serves hserve h bytes
    | error ec =>
      simp only [event, h.2.2.1, if_true, Option.some.injEq] at hs
      rw [← hs, ReadEvent.type, Option.toList_none, List.append_nil]
      exact fail_serves hserve h ec
  | failed results e' =>
    rw [hserve] at h
    rw [serve_failed hserve]
    exact List.IsPrefix.trans h (event_results hs)

/-- However a stream is cut, the calls make of it what they make of the whole. -/
theorem run_serves {events : List ReadEvent} (h : s.Serves (serve kept [] types signals))
    (hr : run event s events = some s') :
    s'.Serves (serve kept [] (types ++ events.filterMap ReadEvent.type)
      (signals ++ events.flatMap ReadEvent.signals)) := by
  induction events generalizing s types signals with
  | nil =>
    cases hr
    simpa using h
  | cons e events ih =>
    obtain ⟨t, ht, hrest⟩ := run_cons.mp hr
    have hlast := ih (event_serves h ht) hrest
    rw [List.append_assoc, List.append_assoc] at hlast
    rw [List.flatMap_cons]
    cases htype : e.type <;> simpa [htype, List.filterMap_cons] using hlast

omit [Platform] in
theorem Leaves.unique {r : Parsing} {unread unread' : List Signal} {served : Served}
    (h : s.Leaves unread served) (h' : r.Leaves unread' served)
    (hserved : served.rejected = false) :
    s.results = r.results ∧ s.reading = r.reading ∧
      s.buffer.map .byte ++ unread = r.buffer.map .byte ++ unread' := by
  cases served with
  | resting results kept rest =>
    obtain ⟨hresults, hrest, hreading⟩ := h
    obtain ⟨hresults', hrest', hreading'⟩ := h'
    exact ⟨hresults.trans hresults'.symm, hreading.trans hreading'.symm, hrest.trans hrest'.symm⟩
  | waiting results parser taken later =>
    obtain ⟨rfl, hbuffer, rfl, hreading, -⟩ := h
    obtain ⟨hresults', hbuffer', rfl, hreading', -⟩ := h'
    exact ⟨hresults'.symm, hreading.trans hreading'.symm, by rw [hbuffer, hbuffer']⟩
  | failed results e => cases hserved

theorem Serves.leaves {unread : List Signal} (h : s.Serves (serve kept [] types signals))
    (hunread : s.reading = true → unread = []) :
    s.Leaves unread (serve kept [] types (signals ++ unread)) := by
  cases hserve : serve kept [] types signals with
  | resting results kept' rest =>
    rw [hserve] at h
    rw [serve_append_resting hserve]
    obtain ⟨hresults, hrest, -, hreading⟩ := h
    exact ⟨hresults, by rw [hrest, List.append_assoc], hreading⟩
  | waiting results parser taken later =>
    rw [hserve] at h
    obtain ⟨hresults, hbuffer, hreading, -, hlater, -⟩ := h
    rw [hunread hreading, List.append_nil, hserve]
    exact ⟨hresults, hbuffer, rfl, hreading, hlater⟩
  | failed results e =>
    rw [hserve] at h
    have hfailed := serve_failed hserve [] unread
    rw [List.append_nil] at hfailed
    rw [hfailed]
    exact h

theorem opened_serves (parser : Parser) (buffered : List UInt8) :
    ({ parser, buffer := buffered } : Parsing).Serves (serve (buffered.map .byte) [] [] []) :=
  ⟨rfl, (List.append_nil _).symm, .inr rfl, rfl⟩

theorem run_leaves {parser : Parser} {buffered : List UInt8} {events : List ReadEvent}
    {unread : List Signal} (hr : run event { parser, buffer := buffered } events = some s)
    (hunread : s.reading = true → unread = []) :
    s.Leaves unread (serve (buffered.map .byte) [] (events.filterMap ReadEvent.type)
      (events.flatMap ReadEvent.signals ++ unread)) := by
  have hserves := run_serves (opened_serves parser buffered) hr
  rw [List.nil_append, List.nil_append] at hserves
  exact hserves.leaves hunread

end Parsing
end Warpcoil
