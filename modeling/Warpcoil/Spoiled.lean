import Warpcoil.StreamReads

/-! A call that rejects a byte after others that it has read. What it leaves behind depends on the
read that brings this byte: alone or together with the one before it. -/
namespace Warpcoil
open Incremental Transition

/-- What has been read when a machine fails. -/
theorem read_fail_split {σ β α ε : Type*} {step : σ → β → Step σ α ε} {s : σ} {xs : List β} {e : ε}
    (h : read step s xs = .fail e) :
    ∃ ys y zs s', xs = ys ++ y :: zs ∧ read step s ys = .more s' ∧ step s' y = .fail e := by
  induction xs generalizing s with
  | nil => cases h
  | cons x xs ih =>
    rw [Incremental.read] at h
    cases hx : step s x with
    | complete a consumed => rw [hx] at h; cases consumed <;> cases h
    | more t =>
      rw [hx] at h
      obtain ⟨ys, y, zs, s', rfl, hread, hfail⟩ := ih h
      exact ⟨x :: ys, y, zs, s', rfl, by rw [Incremental.read, hx]; exact hread, hfail⟩
    | fail e' =>
      rw [hx] at h
      cases h
      exact ⟨[], x, xs, s, rfl, rfl, hx⟩

variable [Platform]

theorem Parser.receive_more {p p' : Parser} {signal : Signal} (h : p.receive signal = .more p') :
    ∃ b, signal = .byte b := by
  cases signal with
  | byte b => exact ⟨b, rfl⟩
  | error ec => cases h

theorem Parser.receive_fail {p : Parser} {signal : Signal} {e : ParseFailure}
    (h : p.receive signal = .fail e) : ∃ b, signal = .byte b ∧ p.parseByte b = .fail e := by
  cases signal with
  | byte b =>
    refine ⟨b, rfl, ?_⟩
    rw [Parser.receive] at h
    split at h
    · cases h
    · cases h
    · next e' hparse => rwa [Step.fail.inj h] at hparse
  | error ec => cases h

section
variable {results results' : List (Except ErrorCode Value)} {types : List ParserType}
variable {kept kept' signals rest : List Signal} {given : List (Except ErrorCode Value)}

/-- The last two bytes that a spoiled call takes. -/
theorem ParserType.turn_spoiled {type : ParserType} {e : ParseFailure}
    (h : type.turn kept signals = .spoiled e) :
    ∃ before b c after p, signals = before ++ .byte b :: .byte c :: after ∧
      type.turn kept (before ++ [.byte b]) = .waits p true ∧ p.parseByte c = .fail e := by
  rw [turn] at h
  cases hkept : type.parseSignals kept with
  | complete result rest => rw [hkept] at h; cases h
  | fail e' => rw [hkept] at h; cases h
  | more p =>
    rw [hkept] at h
    dsimp only at h
    cases signals with
    | nil => cases h
    | cons signal signals =>
      rw [Parser.turn] at h
      have hgoOn : p.goOn (signal :: signals) = .spoiled e ∧ ∀ e', p.receive signal ≠ .fail e' := by
        cases hreceive : p.receive signal with
        | fail e' => rw [hreceive] at h; cases h
        | complete result consumed => rw [hreceive] at h; exact ⟨h, fun _ he => by cases he⟩
        | more p' => rw [hreceive] at h; exact ⟨h, fun _ he => by cases he⟩
      obtain ⟨hgoOn, hfirst⟩ := hgoOn
      have hread : Incremental.read Parser.receive p (signal :: signals) = .fail e := by
        rw [Parser.goOn] at hgoOn
        cases hread : Incremental.read Parser.receive p (signal :: signals) with
        | complete result rest => rw [hread] at hgoOn; cases hgoOn
        | more p' => rw [hread] at hgoOn; cases hgoOn
        | fail e' => rw [hread] at hgoOn; cases hgoOn; rfl
      obtain ⟨ys, y, after, p', heq, hys, hfail⟩ := read_fail_split hread
      obtain ⟨c, rfl, hc⟩ := Parser.receive_fail hfail
      rcases List.eq_nil_or_concat ys with rfl | ⟨before, last, rfl⟩
      · cases hys
        cases heq
        exact (hfirst e hfail).elim
      · -- an error would have completed the call
        have hlast := hys
        rw [List.concat_eq_append, read_append] at hlast
        cases hbefore : Incremental.read Parser.receive p before with
        | complete result rest => rw [hbefore] at hlast; cases hlast
        | fail e' => rw [hbefore] at hlast; cases hlast
        | more q =>
          rw [hbefore, Reading.resume, Incremental.read] at hlast
          cases hq : q.receive last with
          | complete result consumed => rw [hq] at hlast; cases consumed <;> cases hlast
          | fail e' => rw [hq] at hlast; cases hlast
          | more q' =>
            obtain ⟨b, rfl⟩ := Parser.receive_more hq
            refine ⟨before, b, c, after, p', by rw [heq]; simp, ?_, hc⟩
            rw [List.concat_eq_append] at hys
            rw [turn, hkept]
            dsimp only
            have hwaits : p.goOn (before ++ [.byte b]) = .waits p' true := by
              rw [Parser.goOn, hys]
            obtain ⟨first, tail, hfirstOf, htail⟩ : ∃ first tail,
                before ++ [.byte b] = first :: tail ∧ first = signal := by
              cases before with
              | nil => exact ⟨_, _, rfl, by cases heq; rfl⟩
              | cons first before =>
                cases heq
                exact ⟨_, _, rfl, rfl⟩
            subst htail
            rw [hfirstOf] at hwaits ⊢
            rw [Parser.turn]
            split
            · next e' hfail' => exact (hfirst e' hfail').elim
            · exact hwaits
            · exact hwaits

theorem Parser.goOn_suffix {p : Parser} (h : p.goOn signals = .done given kept rest) :
    rest <:+ signals := by
  rw [Parser.goOn] at h
  cases hread : Incremental.read Parser.receive p signals with
  | complete result rest' =>
    rw [hread] at h
    cases h
    exact read_suffix hread
  | more p' => rw [hread] at h; cases h
  | fail e => rw [hread] at h; cases h

theorem Parser.turn_suffix {p : Parser} (h : p.turn signals = .done given kept rest) :
    rest <:+ signals := by
  cases signals with
  | nil => cases h
  | cons signal signals =>
    rw [Parser.turn] at h
    split at h
    · cases h
      exact List.suffix_refl _
    · exact goOn_suffix h
    · exact goOn_suffix h

theorem ParserType.turn_suffix {type : ParserType}
    (h : type.turn kept signals = .done given kept' rest) : rest <:+ signals := by
  rw [turn] at h
  split at h
  · cases h
    exact List.suffix_refl _
  · exact Parser.turn_suffix h
  · cases h
    exact List.suffix_refl _

theorem serve_suffix (h : serve kept results types signals = .resting results' kept' rest) :
    rest <:+ signals := by
  induction types generalizing kept results signals with
  | nil =>
    cases h
    exact List.suffix_refl _
  | cons type types ih =>
    rw [serve] at h
    cases hturn : type.turn kept signals with
    | done given k r =>
      rw [hturn] at h
      exact (ih h).trans (ParserType.turn_suffix hturn)
    | waits parser taken => rw [hturn] at h; cases h
    | spoiled e => rw [hturn] at h; cases h

/-- Signals that are all left over have not been looked at. -/
theorem serve_of_append {more : List Signal}
    (h : serve kept results types (signals ++ more) = .resting results' kept' rest)
    (hlength : more.length < rest.length) :
    ∃ rest', serve kept results types signals = .resting results' kept' rest' ∧
      rest' ++ more = rest := by
  induction types generalizing kept results signals with
  | nil =>
    cases h
    exact ⟨signals, rfl, rfl⟩
  | cons type types ih =>
    rw [serve, ParserType.turn_append] at h
    rw [serve]
    cases hturn : type.turn kept signals with
    | done given k r =>
      rw [hturn] at h
      exact ih h
    | waits parser taken =>
      rw [hturn] at h
      exfalso
      cases hresume : (Turn.waits parser taken).resume more with
      | done given k r =>
        rw [hresume] at h
        have hsuffix : r <:+ more := by
          cases taken with
          | false => exact Parser.turn_suffix hresume
          | true => exact Parser.goOn_suffix hresume
        have hle := (serve_suffix h).length_le.trans hsuffix.length_le
        omega
      | waits parser taken => rw [hresume] at h; cases h
      | spoiled e => rw [hresume] at h; cases h
    | spoiled e => rw [hturn] at h; cases h

theorem serve_not_rejected (more : List ParserType) (behind : List Signal)
    (h : (serve kept results (types ++ more) (signals ++ behind)).rejected = false) :
    (serve kept results types signals).rejected = false := by
  cases hserve : serve kept results types signals with
  | resting results kept' rest => rfl
  | waiting results parser taken later => rfl
  | failed results e =>
    rw [serve_failed hserve more behind] at h
    cases h

/-- Later calls do not begin while one waits. -/
theorem serve_waiting_append {parser : Parser} {taken : Bool} {later : List ParserType}
    (h : serve kept results types signals = .waiting results' parser taken later)
    (more : List ParserType) :
    serve kept results (types ++ more) signals =
      .waiting results' parser taken (later ++ more) := by
  induction types generalizing kept results signals with
  | nil => cases h
  | cons type types ih =>
    rw [serve] at h
    rw [List.cons_append, serve]
    cases hturn : type.turn kept signals with
    | done given k r => rw [hturn] at h; exact ih h
    | waits p t => rw [hturn] at h; cases h; rfl
    | spoiled e => rw [hturn] at h; cases h

/-- The call that waits is the last one that has begun. -/
theorem serve_waiting_split {parser : Parser} {taken : Bool}
    (h : serve kept results types signals = .waiting results' parser taken []) :
    ∃ before type kept' rest, types = before ++ [type] ∧
      serve kept results before signals = .resting results' kept' rest := by
  induction types generalizing kept results signals with
  | nil => cases h
  | cons type types ih =>
    rw [serve] at h
    cases hturn : type.turn kept signals with
    | done given k r =>
      rw [hturn] at h
      obtain ⟨before, last, kept', rest, rfl, hbefore⟩ := ih h
      exact ⟨type :: before, last, kept', rest, rfl, by rw [serve, hturn]; exact hbefore⟩
    | waits p t =>
      rw [hturn] at h
      cases h
      exact ⟨[], type, kept, signals, rfl, rfl⟩
    | spoiled e => rw [hturn] at h; cases h

end

namespace Parsing
variable {s s' : Parsing} {types : List ParserType} {kept signals : List Signal}

theorem event_begin {type : ParserType} : s.event (.beginParseValue type) = some s' ↔
    s.reading = false ∧ s.begin type = s' := by
  rw [event]
  cases s.reading <;> simp

theorem begins_rests {front : List ParserType}
    (hr : run event s (front.map .beginParseValue) = some s') (hend : s'.reading = false) :
    s.reading = false := by
  cases front with
  | nil =>
    cases hr
    exact hend
  | cons type front =>
    obtain ⟨t, ht, -⟩ := run_cons.mp hr
    exact (event_begin.mp ht).1

def readOne : Signal → ReadEvent
  | .byte b => .read [b]
  | .error ec => .error ec

/-- A stream can be read one signal at a time, until there are no more of them or no more calls. -/
theorem exists_run (s : Parsing) (types : List ParserType) (signals : List Signal) :
    ∃ events r types' signals', run event s events = some r ∧
      events.filterMap ReadEvent.type ++ types' = types ∧
      events.flatMap ReadEvent.signals ++ signals' = signals ∧
      (r.reading = true ∧ signals' = [] ∨ r.reading = false ∧ types' = []) := by
  induction hn : types.length + signals.length generalizing s types signals with
  | zero =>
    obtain rfl : types = [] := List.length_eq_zero_iff.mp (by omega)
    obtain rfl : signals = [] := List.length_eq_zero_iff.mp (by omega)
    exact ⟨[], s, [], [], rfl, rfl, rfl, by cases s.reading <;> simp⟩
  | succ n ih =>
    cases hreading : s.reading with
    | true =>
      cases signals with
      | nil => exact ⟨[], s, types, [], rfl, rfl, rfl, .inl ⟨hreading, rfl⟩⟩
      | cons signal signals =>
        obtain ⟨t, ht⟩ : ∃ t, s.event (readOne signal) = some t := by
          cases signal <;> simp [readOne, event, step, hreading]
        obtain ⟨events, r, types', signals', hrun, htypes, hsignals, hend⟩ :=
          ih t types signals (by rw [List.length_cons] at hn; omega)
        refine ⟨readOne signal :: events, r, types', signals', run_cons.mpr ⟨t, ht, hrun⟩, ?_, ?_,
          hend⟩
        · cases signal <;> exact htypes
        · cases signal <;> simpa [readOne, ReadEvent.signals] using hsignals
    | false =>
      cases types with
      | nil => exact ⟨[], s, [], signals, rfl, rfl, rfl, .inr ⟨hreading, rfl⟩⟩
      | cons type types =>
        obtain ⟨events, r, types', signals', hrun, htypes, hsignals, hend⟩ :=
          ih (s.begin type) types signals (by rw [List.length_cons] at hn; omega)
        exact ⟨.beginParseValue type :: events, r, types', signals',
          run_cons.mpr ⟨_, event_begin.mpr ⟨hreading, rfl⟩, hrun⟩,
          by simpa [ReadEvent.type] using htypes, hsignals, hend⟩

theorem exists_begins (s : Parsing) (types : List ParserType) :
    ∃ front back r, front ++ back = types ∧
      run event s (front.map .beginParseValue) = some r ∧
      (r.reading = true ∨ back = []) := by
  induction types generalizing s with
  | nil => exact ⟨[], [], s, rfl, rfl, .inr rfl⟩
  | cons type types ih =>
    cases hreading : s.reading with
    | true => exact ⟨[], type :: types, s, rfl, rfl, .inl hreading⟩
    | false =>
      obtain ⟨front, back, r, rfl, hrun, hend⟩ := ih (s.begin type)
      exact ⟨type :: front, back, r, rfl,
        run_cons.mpr ⟨_, event_begin.mpr ⟨hreading, rfl⟩, hrun⟩, hend⟩

/-- A parser that has stopped before does not see what is behind. -/
theorem start_append (more : List UInt8) (hstarted : s.start.reading = false) :
    start { s with buffer := s.buffer ++ more } =
      { s.start with buffer := s.start.buffer ++ more } := by
  cases hcheck : s.parser.checkForImmediateCompletion with
  | some v => simp only [start, hcheck, onResult]
  | none =>
    have happend := read_append Parser.parseByte s.parser s.buffer more
    cases hread : s.parser.read s.buffer with
    | complete v rest =>
      rw [Parser.read] at hread
      rw [hread, Reading.resume] at happend
      simp only [start, hcheck, Parser.read, hread, happend, onResult]
    | more parser => simp [start, hcheck, hread] at hstarted
    | fail e =>
      rw [Parser.read] at hread
      rw [hread, Reading.resume] at happend
      cases e <;> simp only [start, hcheck, Parser.read, hread, happend, onResult]

theorem start_rejects (hreading : s.reading = false) {c : UInt8} {e : ParseFailure}
    (hstarted : s.start.reading = true) (hc : s.start.parser.parseByte c = .fail e) :
    (start { s with buffer := s.buffer ++ [c] }).buffer = s.buffer ++ [c] ∧
      (start { s with buffer := s.buffer ++ [c] }).reading = false := by
  cases hcheck : s.parser.checkForImmediateCompletion with
  | some v => simp [start, hcheck, onResult, hreading] at hstarted
  | none =>
    cases hread : s.parser.read s.buffer with
    | complete v rest => simp [start, hcheck, hread, onResult, hreading] at hstarted
    | fail e' => cases e' <;> simp [start, hcheck, hread, onResult, hreading] at hstarted
    | more parser =>
      have hparser : s.start.parser = parser := by simp only [start, hcheck, hread]
      rw [hparser] at hc
      have hfail : s.parser.read (s.buffer ++ [c]) = .fail e := by
        rw [Parser.read, read_append_of_more hread, Incremental.read, hc]
      obtain ⟨-, hbuffer, hstill⟩ := start_fail (s := { s with buffer := s.buffer ++ [c] })
        hcheck hfail
      exact ⟨hbuffer, hstill.trans hreading⟩

/-- Calls go on the same way with more in the buffer, until one of them reads. -/
theorem run_begins_append {front : List ParserType}
    (hr : run event s (front.map .beginParseValue) = some s') (hend : s'.reading = false)
    (more : List UInt8) :
    run event { s with buffer := s.buffer ++ more } (front.map .beginParseValue) =
      some { s' with buffer := s'.buffer ++ more } := by
  induction front generalizing s with
  | nil =>
    cases hr
    rfl
  | cons type front ih =>
    obtain ⟨t, ht, hrest⟩ := run_cons.mp hr
    obtain ⟨hreading, rfl⟩ := event_begin.mp ht
    have hsame := start_append (s := { s with parser := type.fresh }) more
      (begins_rests hrest hend)
    exact run_cons.mpr ⟨_, event_begin.mpr ⟨hreading, hsame⟩, ih hrest⟩

theorem Serves.of_reading (h : s.Serves (serve kept [] types signals))
    (hfailed : (serve kept [] types signals).rejected = false) (hreading : s.reading = true) :
    ∃ results parser taken, serve kept [] types signals = .waiting results parser taken [] ∧
      s.buffer = [] ∧ s.parser = parser ∧ parser.checkForImmediateCompletion = none := by
  cases hserve : serve kept [] types signals with
  | resting results kept' rest =>
    rw [hserve] at h
    exact absurd (hreading.symm.trans h.2.2.2) (by simp)
  | waiting results parser taken later =>
    rw [hserve] at h
    obtain ⟨-, hbuffer, -, hparser, rfl, hcheck⟩ := h
    exact ⟨results, parser, taken, rfl, hbuffer, hparser, hcheck⟩
  | failed results e => rw [hserve] at hfailed; cases hfailed

/-- Everything but the last byte before the one that is rejected can be read while the call, or one
before it, waits. -/
theorem exists_before {buffered : List UInt8} (parser : Parser) {p : Parser} {type : ParserType}
    {results : List (Except ErrorCode Value)} {before : List Signal} {b : UInt8}
    (hwait : serve (buffered.map .byte) [] (types ++ [type]) (before ++ [.byte b]) =
      .waiting results p true []) :
    ∃ events r types', run event { parser, buffer := buffered } events = some r ∧
      events.filterMap ReadEvent.type ++ types' = types ++ [type] ∧
      events.flatMap ReadEvent.signals = before ∧ r.reading = true ∧ r.buffer = [] ∧
      r.Serves (serve (buffered.map .byte) [] (events.filterMap ReadEvent.type) before) := by
  obtain ⟨events, r, types', signals', hrun, htypes, hsignals, hend⟩ :=
    exists_run { parser, buffer := buffered } (types ++ [type]) before
  have hserves := run_serves (opened_serves parser buffered) hrun
  rw [List.nil_append, List.nil_append] at hserves
  have hnot : (serve (buffered.map .byte) [] (events.filterMap ReadEvent.type)
      (events.flatMap ReadEvent.signals)).rejected = false := by
    refine serve_not_rejected types' (signals' ++ [.byte b]) ?_
    rw [htypes, ← List.append_assoc, hsignals, hwait]
    rfl
  rcases hend with ⟨hreading, rfl⟩ | ⟨hreading, rfl⟩
  · rw [List.append_nil] at hsignals
    rw [hsignals] at hserves hnot
    obtain ⟨-, -, -, -, hbuffer, -⟩ := hserves.of_reading hnot hreading
    exact ⟨events, r, types', hrun, htypes, hsignals, hreading, hbuffer, hserves⟩
  · -- all calls would have ended, and the last of them waits
    exfalso
    rw [List.append_nil] at htypes
    rw [htypes] at hserves hnot
    cases hserve : serve (buffered.map .byte) [] (types ++ [type])
        (events.flatMap ReadEvent.signals) with
    | resting results' kept' rest =>
      have hmore := serve_append_resting hserve (signals' ++ [.byte b])
      rw [← List.append_assoc, hsignals, hwait] at hmore
      cases hmore
    | waiting results' parser' taken later =>
      rw [hserve] at hserves
      exact absurd (hreading.symm.trans hserves.2.2.1) (by simp)
    | failed results' e => rw [hserve] at hnot; cases hnot

omit [Platform] in
theorem begins_types (types : List ParserType) :
    (types.map ReadEvent.beginParseValue).filterMap ReadEvent.type = types := by
  induction types with
  | nil => rfl
  | cons type types ih => rw [List.map_cons, List.filterMap_cons, ReadEvent.type, ih]

omit [Platform] in
theorem begins_signals (types : List ParserType) :
    (types.map ReadEvent.beginParseValue).flatMap ReadEvent.signals = [] := by
  induction types with
  | nil => rfl
  | cons type types ih => rw [List.map_cons, List.flatMap_cons, ReadEvent.signals, ih]; rfl

section
variable {events : List ReadEvent} {r : Parsing} {types' : List ParserType} {before : List Signal}
variable {parser p : Parser} {type : ParserType} {buffered : List UInt8} {b c : UInt8}
variable {results : List (Except ErrorCode Value)} {e : ParseFailure}

theorem event_read (hreading : s.reading = true) (hbuffer : s.buffer = []) (bytes : List UInt8)
    (hlength : bytes.length ≤ 512) : s.event (.read bytes) =
      some (start { s with buffer := bytes, reading := false }) := by
  simp [event, step, hreading, hbuffer, hlength]

theorem begins_run (hrun : run event { parser, buffer := buffered } events = some r)
    (hsignals : events.flatMap ReadEvent.signals = before) (hreading : r.reading = true)
    (hbuffer : r.buffer = []) (hm : run event (start { r with buffer := [b], reading := false })
      (types'.map .beginParseValue) = some s) :
    run event { parser, buffer := buffered }
        (events ++ .read [b] :: types'.map .beginParseValue) = some s ∧
      s.Serves (serve (buffered.map .byte) [] (events.filterMap ReadEvent.type ++ types')
        (before ++ [.byte b])) := by
  have hread : run event { parser, buffer := buffered }
      (events ++ .read [b] :: types'.map .beginParseValue) = some s := by
    rw [run_append, hrun, Option.bind_some]
    exact run_cons.mpr ⟨_, event_read hreading hbuffer _ (by simp), hm⟩
  have hserves := run_serves (opened_serves parser buffered) hread
  simp only [List.nil_append, List.filterMap_append, List.filterMap_cons, ReadEvent.type,
    List.flatMap_append, List.flatMap_cons, ReadEvent.signals, hsignals, List.map_cons,
    List.map_nil, begins_types, begins_signals, List.append_nil] at hserves
  exact ⟨hread, hserves⟩

/-- After the last byte but one the calls that are left begin, and the last of them waits. -/
theorem begins_waiting (hrun : run event { parser, buffer := buffered } events = some r)
    (htypes : events.filterMap ReadEvent.type ++ types' = types)
    (hsignals : events.flatMap ReadEvent.signals = before) (hreading : r.reading = true)
    (hbuffer : r.buffer = []) (hwait : serve (buffered.map .byte) [] types
      (before ++ [.byte b]) = .waiting results p true []) :
    ∃ x, run event { parser, buffer := buffered }
        (events ++ .read [b] :: types'.map .beginParseValue) = some x ∧
      run event (start { r with buffer := [b], reading := false })
        (types'.map .beginParseValue) = some x ∧
      x.reading = true ∧ x.buffer = [] ∧ x.parser = p ∧
      p.checkForImmediateCompletion = none := by
  subst htypes
  obtain ⟨front, back, x, rfl, hx, hend⟩ :=
    exists_begins (start { r with buffer := [b], reading := false }) types'
  obtain ⟨hread, hserves⟩ := begins_run hrun hsignals hreading hbuffer hx
  rw [← List.append_assoc] at hwait
  obtain rfl : back = [] := by
    rcases hend with hxreading | hnil
    · have hnot : (serve (buffered.map .byte) [] (events.filterMap ReadEvent.type ++ front)
          (before ++ [.byte b])).rejected = false := by
        refine serve_not_rejected back [] ?_
        rw [List.append_nil, hwait]
        rfl
      obtain ⟨_, _, _, hone, -⟩ := hserves.of_reading hnot hxreading
      rw [serve_waiting_append hone back] at hwait
      cases hwait
      rfl
    · exact hnil
  rw [List.append_nil] at hwait ⊢
  rw [hwait] at hserves
  obtain ⟨-, hxbuffer, hxreading, hxparser, -, hcheck⟩ := hserves
  exact ⟨x, hread, hx, hxreading, hxbuffer, hxparser, hcheck⟩

/-- The byte that is rejected comes alone. -/
theorem read_apart (hreading : s.reading = true) (hbuffer : s.buffer = [])
    (hcheck : s.parser.checkForImmediateCompletion = none) (hc : s.parser.parseByte c = .fail e) :
    ∃ r, s.event (.read [c]) = some r ∧ r.buffer = [c] ∧ r.reading = false := by
  have hfail : s.parser.read [c] = .fail e := by rw [Parser.read, Incremental.read, hc]
  obtain ⟨-, hsame, hstill⟩ := start_fail (s := { s with buffer := [c], reading := false })
    hcheck hfail
  exact ⟨_, event_read hreading hbuffer _ (by simp), hsame, hstill⟩

/-- The byte before it stays in the buffer until the call that takes it. -/
theorem begins_leave (hrun : run event { parser, buffer := buffered } events = some r)
    (htypes : events.filterMap ReadEvent.type ++ types' = types)
    (hsignals : events.flatMap ReadEvent.signals = before) (hreading : r.reading = true)
    (hbuffer : r.buffer = []) {kept' : List Signal}
    (hserve : serve (buffered.map .byte) [] types (before ++ [.byte b]) =
      .resting results kept' (rest ++ [.byte b])) {m : Parsing}
    (hm : run event (start { r with buffer := [b], reading := false })
      (types'.map .beginParseValue) = some m) : m.buffer ≠ [] := by
  have hserves := (begins_run hrun hsignals hreading hbuffer hm).2
  rw [htypes, hserve] at hserves
  obtain ⟨-, hrest, -, -⟩ := hserves
  intro hnil
  rw [hnil] at hrest
  simp at hrest

/-- It comes with the one before it: the call that takes that one leaves both. -/
theorem read_together (hrun : run event { parser, buffer := buffered } events = some r)
    (htypes : events.filterMap ReadEvent.type ++ types' = types ++ [type])
    (hsignals : events.flatMap ReadEvent.signals = before) (hreading : r.reading = true)
    (hbuffer : r.buffer = []) {kept' : List Signal}
    (hserve : serve (buffered.map .byte) [] types (before ++ [.byte b]) =
      .resting results kept' (rest ++ [.byte b])) {x : Parsing}
    (hx : run event (start { r with buffer := [b], reading := false })
      (types'.map .beginParseValue) = some x)
    (hxreading : x.reading = true) (hc : x.parser.parseByte c = .fail e) :
    ∃ r', run event { parser, buffer := buffered }
        (events ++ .read [b, c] :: types'.map .beginParseValue) = some r' ∧
      r'.reading = false ∧ 1 < r'.buffer.length := by
  have hread := event_read hreading hbuffer [b, c] (by simp)
  rcases List.eq_nil_or_concat types' with rfl | ⟨front, last, rfl⟩
  · cases hx
    obtain ⟨hsame, hstill⟩ := start_rejects (s := { r with buffer := [b], reading := false })
      rfl hxreading hc
    refine ⟨_, ?_, hstill, by rw [hsame]; exact Nat.lt_succ_self 1⟩
    rw [run_append, hrun, Option.bind_some]
    exact run_cons.mpr ⟨_, hread, rfl⟩
  · rw [List.concat_eq_append, List.map_append, run_append] at hx
    obtain ⟨m, hm, hlast⟩ := Option.bind_eq_some_iff.mp hx
    obtain ⟨y, hy, hnil⟩ := run_cons.mp hlast
    cases hnil
    obtain ⟨hmreading, hbegun⟩ := event_begin.mp hy
    -- every call up to this one finds the byte behind the others
    have happend := start_append (s := { r with buffer := [b], reading := false }) [c]
      (begins_rests hm hmreading)
    have hfront := run_begins_append hm hmreading [c]
    rw [← happend] at hfront
    subst hbegun
    obtain ⟨hsame, hstill⟩ := start_rejects (s := { m with parser := last.fresh }) hmreading
      hxreading hc
    rw [List.concat_eq_append, ← List.append_assoc] at htypes
    have hlonger := begins_leave hrun (List.append_inj' htypes rfl).1 hsignals hreading hbuffer
      hserve hm
    refine ⟨_, ?_, hstill, ?_⟩
    · rw [run_append, hrun, Option.bind_some]
      refine run_cons.mpr ⟨_, hread, ?_⟩
      rw [List.concat_eq_append, List.map_append, run_append]
      exact Option.bind_eq_some_iff.mpr ⟨_, hfront,
        run_cons.mpr ⟨_, event_begin.mpr ⟨hmreading, rfl⟩, rfl⟩⟩
    · have hsame' : (start { m with parser := last.fresh, buffer := m.buffer ++ [c] }).buffer =
          m.buffer ++ [c] := hsame
      have hpos := List.length_pos_iff.mpr hlonger
      exact (congrArg List.length hsame').symm ▸ (by simpa using hpos)

end

/-- The last two bytes that a spoiled call takes come in one read or in two: more of the stream is
left over in the first case. -/
theorem two_ways {buffered : List UInt8} (parser : Parser) {type : ParserType} {e : ParseFailure}
    {results : List (Except ErrorCode Value)} {kept' rest : List Signal}
    (hserve : serve (buffered.map .byte) [] types signals = .resting results kept' rest)
    (hspoiled : type.turn kept' rest = .spoiled e) :
    ∃ (reads reads' : List ReadEvent) (r r' : Parsing) (unread : List Signal),
      run event { parser, buffer := buffered } reads = some r ∧
      run event { parser, buffer := buffered } reads' = some r' ∧
      reads.filterMap ReadEvent.type = types ++ [type] ∧
      reads'.filterMap ReadEvent.type = types ++ [type] ∧
      reads.flatMap ReadEvent.signals ++ unread = signals ∧
      reads'.flatMap ReadEvent.signals ++ unread = signals ∧
      r.reading = false ∧ r'.reading = false ∧ r.buffer.length < r'.buffer.length := by
  obtain ⟨before, b, c, after, p, rfl, hwaits, hc⟩ := ParserType.turn_spoiled hspoiled
  obtain ⟨consumed, rfl⟩ := serve_suffix hserve
  -- the calls before it leave both bytes alone
  have hsplit : consumed ++ (before ++ Signal.byte b :: .byte c :: after) =
      (consumed ++ before ++ [.byte b]) ++ (.byte c :: after) := by simp
  rw [hsplit] at hserve ⊢
  obtain ⟨rest', hbefore, hrest'⟩ := serve_of_append hserve (by simp; omega)
  obtain rfl : rest' = before ++ [.byte b] := by
    refine List.append_cancel_right (hrest'.trans ?_)
    simp
  have hwait : serve (buffered.map .byte) [] (types ++ [type]) (consumed ++ before ++ [.byte b]) =
      .waiting results p true [] := by
    rw [serve_concat hbefore, hwaits]
    rfl
  obtain ⟨events, r, types', hrun, htypes, hsignals, hreading, hbuffer, -⟩ :=
    exists_before parser hwait
  obtain ⟨x, hread, hx, hxreading, hxbuffer, hxparser, hcheck⟩ :=
    begins_waiting hrun htypes hsignals hreading hbuffer hwait
  subst hxparser
  obtain ⟨s, hs, hsame, hstill⟩ := read_apart hxreading hxbuffer hcheck hc
  obtain ⟨r', hr', hstill', hlonger⟩ :=
    read_together hrun htypes hsignals hreading hbuffer hbefore hx hxreading hc
  refine ⟨events ++ .read [b] :: types'.map .beginParseValue ++ [.read [c]],
    events ++ .read [b, c] :: types'.map .beginParseValue, s, r', after, ?_, hr', ?_, ?_, ?_, ?_,
    hstill, hstill', by rw [hsame]; exact hlonger⟩
  · rw [run_append, hread, Option.bind_some]
    exact run_cons.mpr ⟨_, hs, rfl⟩
  · simp only [List.filterMap_append, List.filterMap_cons, ReadEvent.type, begins_types,
      List.filterMap_nil, List.append_nil, htypes]
  · simp only [List.filterMap_append, List.filterMap_cons, ReadEvent.type, begins_types, htypes]
  · simp [List.flatMap_append, ReadEvent.signals, begins_signals, hsignals]
  · simp [List.flatMap_append, ReadEvent.signals, begins_signals, hsignals]

end Parsing
end Warpcoil
