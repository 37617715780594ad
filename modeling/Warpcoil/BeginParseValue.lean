import Warpcoil.Library.Transition
import Warpcoil.Uninterrupted

/-! `begin_parse_value` alone with its stream: however the bytes arrive, the handler gets what
one uninterrupted run of the parser over all of them gives. -/
namespace Warpcoil
open Incremental Transition
variable [Platform]

/-- A `parse_operation`, its receive buffer, and the calls of `m_on_result`. -/
structure Parsing where
  parser : Parser
  buffer : List UInt8
  reading : Bool := false
  results : List (Except ErrorCode Value) := []
  thrown : Option ParseFailure := none

namespace Parsing

def onResult (s : Parsing) (result : Except ErrorCode Value) : Parsing :=
  { s with results := s.results ++ [result] }

/-- `parse_operation::start`. -/
def start (s : Parsing) : Parsing :=
  match s.parser.checkForImmediateCompletion with
  | some v => s.onResult (.ok v)
  | none =>
    match s.parser.read s.buffer with
    | .complete v rest => { s with buffer := rest }.onResult (.ok v)
    | .more parser => { s with parser, buffer := [], reading := true }
    | .fail .invalidInput => s.onResult (.error .invalidInput)
    | .fail .lengthError => { s with thrown := some .lengthError }

def beginParseValue (type : ParserType) (buffer : List UInt8) : Parsing :=
  start { parser := type.fresh, buffer }

/-- The completion of the `async_read_some` that is outstanding. -/
def step (s : Parsing) (bytes : List UInt8) : Option Parsing :=
  if s.reading && decide (bytes.length ≤ 512) then
    some (start { s with buffer := s.buffer ++ bytes, reading := false })
  else none

/-- What an uninterrupted run over `bytes` asks of the operation that has received them. -/
def Follows (s : Parsing) (type : ParserType) (bytes : List UInt8) : Prop :=
  match type.parse bytes with
  | .complete v rest =>
    s.results = [.ok v] ∧ s.buffer = rest ∧ s.reading = false ∧ s.thrown = none
  | .more _ => s.results = [] ∧ s.buffer = [] ∧ s.reading = true ∧ s.thrown = none
  | .fail .invalidInput =>
    s.results = [.error .invalidInput] ∧ s.reading = false ∧ s.thrown = none
  | .fail .lengthError => s.results = [] ∧ s.reading = false ∧ s.thrown = some .lengthError

/-- An operation that waits has a parser that has read all it was shown. -/
structure Waits (s : Parsing) (type : ParserType) (bytes : List UInt8) : Prop where
  read : type.fresh.read bytes = .more s.parser
  fresh : type.fresh.checkForImmediateCompletion = none
  check : s.parser.checkForImmediateCompletion = none
  buffer : s.buffer = []
  results : s.results = []
  thrown : s.thrown = none

/-- What `start` makes of the bytes that have come since the last read. -/
theorem Waits.start {s : Parsing} {type : ParserType} {bytes : List UInt8}
    (h : s.Waits type bytes) (more : List UInt8) :
    let s' := Parsing.start { s with buffer := s.buffer ++ more, reading := false }
    s'.Follows type (bytes ++ more) ∧ (s'.reading = true → s'.Waits type (bytes ++ more)) := by
  have hparse : type.parse (bytes ++ more) = s.parser.read more := by
    rw [ParserType.parse, h.fresh]
    exact read_append_of_more h.read more
  simp only [Parsing.start, Follows, h.check, h.buffer, List.nil_append, hparse]
  cases hread : s.parser.read more with
  | complete v rest => simp [onResult, h.results, h.thrown]
  | more parser =>
    refine ⟨⟨h.results, rfl, rfl, h.thrown⟩, fun _ => ?_⟩
    exact ⟨(read_append_of_more h.read more).trans hread, h.fresh,
      Parser.checkForImmediateCompletion_read h.check hread, rfl, h.results, h.thrown⟩
  | fail e => cases e <;> simp [onResult, h.results, h.thrown]

/-- The same for what is in the buffer from the beginning. -/
theorem beginParseValue_follows (type : ParserType) (buffer : List UInt8) :
    (beginParseValue type buffer).Follows type buffer ∧
      ((beginParseValue type buffer).reading = true →
        (beginParseValue type buffer).Waits type buffer) := by
  cases hcheck : type.fresh.checkForImmediateCompletion with
  | some v => simp [beginParseValue, start, hcheck, Follows, ParserType.parse, onResult]
  | none =>
    have hwaits : Waits { parser := type.fresh, buffer := [] } type [] :=
      ⟨rfl, hcheck, hcheck, rfl, rfl, rfl⟩
    exact hwaits.start buffer

/-- One read keeps the operation in line with the uninterrupted run. -/
theorem follows_step {s s' : Parsing} {type : ParserType} {received bytes : List UInt8}
    (h : s.reading = true → s.Waits type received) (hstep : s.step bytes = some s') :
    s'.Follows type (received ++ bytes) ∧
      (s'.reading = true → s'.Waits type (received ++ bytes)) := by
  unfold step at hstep
  split_ifs at hstep with hreading
  simp only [Bool.and_eq_true, decide_eq_true_eq] at hreading
  cases hstep
  exact (h hreading.1).start bytes

theorem follows_run {s s' : Parsing} {type : ParserType} {received : List UInt8}
    {reads : List (List UInt8)} (hfollows : s.Follows type received)
    (h : s.reading = true → s.Waits type received) (hrun : run step s reads = some s') :
    s'.Follows type (received ++ reads.flatten) ∧
      (s'.reading = true → s'.Waits type (received ++ reads.flatten)) := by
  induction reads generalizing s received with
  | nil =>
    cases hrun
    rw [List.flatten_nil, List.append_nil]
    exact ⟨hfollows, h⟩
  | cons bytes reads ih =>
    obtain ⟨t, ht, hrest⟩ := run_cons.mp hrun
    obtain ⟨hfollows', hwaits⟩ := follows_step h ht
    rw [List.flatten_cons, ← List.append_assoc]
    exact ih hfollows' hwaits hrest

theorem Follows.reading_iff {s : Parsing} {type : ParserType} {bytes : List UInt8}
    (h : s.Follows type bytes) :
    s.reading = true ↔ ∃ parser, type.parse bytes = .more parser := by
  unfold Follows at h
  split at h
  · next hparse => simp [hparse, h.2.2.1]
  · next parser hparse => simp [hparse, h.2.2.1]
  · next hparse => simp [hparse, h.2.1]
  · next hparse => simp [hparse, h.2.1]

/-- However the stream is cut, `m_on_result` is called once the bytes suffice and not before,
with the outcome of an uninterrupted run, and a value leaves in the buffer what that run
leaves: the end of what was received. -/
theorem outcome_of_reads (type : ParserType) (buffer : List UInt8) (reads : List (List UInt8))
    (s : Parsing) (hrun : run step (beginParseValue type buffer) reads = some s) :
    s.Follows type (buffer ++ reads.flatten) ∧
      (∀ earlier bytes later, reads = earlier ++ bytes :: later →
        ∃ parser, type.parse (buffer ++ earlier.flatten) = .more parser) ∧
      ((∃ parser, type.parse (buffer ++ reads.flatten) = .more parser) →
        ∀ bytes : List UInt8, bytes.length ≤ 512 → ∃ s', s.step bytes = some s') ∧
      (∀ v, s.results = [.ok v] → s.buffer <:+ buffer ++ reads.flatten) := by
  obtain ⟨hbegin, hwaits⟩ := beginParseValue_follows type buffer
  obtain ⟨hfollows, -⟩ := follows_run hbegin hwaits hrun
  refine ⟨hfollows, ?_, ?_, ?_⟩
  · rintro earlier bytes later rfl
    rw [run_append, Option.bind_eq_some_iff] at hrun
    obtain ⟨t, ht, hrest⟩ := hrun
    obtain ⟨u, hu, -⟩ := run_cons.mp hrest
    -- the next read was outstanding
    have hreading : t.reading = true := by
      unfold step at hu
      split_ifs at hu with hguard
      simp only [Bool.and_eq_true] at hguard
      exact hguard.1
    exact (follows_run hbegin hwaits ht).1.reading_iff.mp hreading
  · intro hmore bytes hlength
    have hreading := hfollows.reading_iff.mpr hmore
    unfold step
    rw [hreading, decide_eq_true hlength]
    exact ⟨_, rfl⟩
  · intro v hv
    unfold Follows at hfollows
    split at hfollows
    · next w rest hparse =>
      rw [hfollows.2.1]
      exact ParserType.parse_suffix hparse
    · rw [hfollows.1] at hv
      cases hv
    · rw [hfollows.1] at hv
      cases hv
    · rw [hfollows.1] at hv
      cases hv

omit [Platform] in
theorem outcome_of_reads_uint16 :
    letI := Platform.reference
    ∃ s, run step (beginParseValue (.integer .uint16) []) [[1], [2, 3]] = some s ∧
      s.results = [.ok (.integer 258)] ∧ s.buffer = [3] ∧
      s.Follows (.integer .uint16) [1, 2, 3] := by
  letI := Platform.reference
  exact ⟨_, rfl, rfl, rfl, (outcome_of_reads _ [] [[1], [2, 3]] _ rfl).1⟩

end Parsing

/-- The operations of a splitter are started like this one. -/
theorem Side.start_parsing (servers : InterfaceDefinition) (s : Side)
    (operation : ParseOperation) :
    s.start servers operation =
      let p := Parsing.start { parser := operation.parser, buffer := s.buffer }
      match p.thrown, p.results with
      | some _, _ => s.throw .lengthError
      | none, .ok v :: _ => s.callWith servers operation.onResult v p.buffer
      | none, .error ec :: _ => s.fail.call servers operation.onResult (.error ec)
      | none, [] =>
        { s with buffer := p.buffer,
                 reads := s.reads ++ [{ operation with
                   parser := p.parser, seen := operation.seen ++ s.buffer }] } := by
  unfold Side.start Parsing.start
  cases operation.parser.checkForImmediateCompletion with
  | some v => rfl
  | none =>
    cases operation.parser.read s.buffer with
    | complete v rest => rfl
    | more parser => rfl
    | fail e => cases e <;> rfl

end Warpcoil
