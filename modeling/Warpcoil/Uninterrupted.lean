import Warpcoil.RoundTrip
import Warpcoil.Side

/-! A parse operation that is interrupted wherever a read ends does what one uninterrupted run
of its parser does. -/
namespace Warpcoil
open Incremental Platform

theorem Parser.checkForImmediateCompletion_more [Platform] {p p' : Parser} {b : UInt8}
    (h : p.checkForImmediateCompletion = none) (hb : p.parseByte b = .more p') :
    p'.checkForImmediateCompletion = none := by
  induction p generalizing p' with
  | integer q | utf8Length q | vectorLength q element | variantIndex elements q =>
    simp only [Parser.parseByte, IntegerParser.parseByte] at hb
    split_ifs at hb <;> grind [Parser.checkForImmediateCompletion]
  | utf8Element result current =>
    simp only [Parser.parseByte] at hb
    split_ifs at hb
    cases hb
    rfl
  | vectorElement element q result capacity ih =>
    simp only [Parser.parseByte] at hb
    grind [Parser.checkForImmediateCompletion]
  | variantElement elements element q ih =>
    simp only [Parser.parseByte] at hb
    grind [Parser.checkForImmediateCompletion]
  | empty kind => cases h
  | currentElement kind types current q result ih =>
    simp only [Parser.parseByte] at hb
    cases hq : q.parseByte b with
    | complete v consumed =>
      simp only [hq] at hb
      split at hb
      · next next hnext =>
        cases hb
        -- a second element exists, so this is not the only one
        have hlt := (List.getElem?_eq_some_iff.mp hnext).1
        rw [Parser.checkForImmediateCompletion, if_neg (by omega)]
      · cases hb
    | more q' =>
      simp only [hq, Step.more.injEq] at hb
      subst hb
      rw [Parser.checkForImmediateCompletion] at h ⊢
      split_ifs at h ⊢
      · rw [Option.map_eq_none_iff] at h ⊢
        exact ih h hq
      · rfl
    | fail e => simp [hq] at hb

theorem Parser.checkForImmediateCompletion_read [Platform] {p p' : Parser} {bs : List UInt8}
    (h : p.checkForImmediateCompletion = none) (hread : p.read bs = .more p') :
    p'.checkForImmediateCompletion = none := by
  induction bs generalizing p with
  | nil => cases hread; exact h
  | cons b bs ih =>
    simp only [Parser.read, Incremental.read] at hread
    cases hb : p.parseByte b with
    | complete v consumed => cases consumed <;> simp [hb] at hread
    | more q =>
      rw [hb] at hread
      exact ih (Parser.checkForImmediateCompletion_more h hb) hread
    | fail e => simp [hb] at hread

theorem Parser.Solid.check {p : Parser} (h : p.Solid) :
    p.checkForImmediateCompletion = none := by
  induction p with
  | empty kind => exact h.elim
  | currentElement kind types current q result ih =>
    rw [Parser.checkForImmediateCompletion, ih h.2]
    split_ifs <;> rfl
  | _ => rfl

variable [Platform]

/-- One uninterrupted run of a parser over contiguous bytes. -/
def ParserType.parse (type : ParserType) (bs : List UInt8) :
    Reading Parser UInt8 Value ParseFailure :=
  match type.fresh.checkForImmediateCompletion with
  | some v => .complete v bs
  | none => type.fresh.read bs

theorem ParserType.parse_of_check {type : ParserType}
    (h : type.fresh.checkForImmediateCompletion = none) (bs : List UInt8) :
    type.parse bs = type.fresh.read bs := by
  rw [ParserType.parse, h]

theorem ParserType.parse_solid {type : ParserType} (h : type.solid = true) (bs : List UInt8) :
    type.parse bs = type.fresh.read bs := by
  rw [ParserType.parse_of_check (ParserType.solid_fresh type h).check]

theorem ParserType.forget_parse {type : ParserType} (h : type.solid = true) (bs : List UInt8) :
    (type.parse bs).forget = decode type bs := by
  rw [ParserType.parse_solid h, forget_read_fresh type h]

/-- What has completed is not changed by what comes after. -/
theorem ParserType.parse_append {type : ParserType} {bs rest : List UInt8} {v : Value}
    (h : type.parse bs = .complete v rest) (more : List UInt8) :
    type.parse (bs ++ more) = .complete v (rest ++ more) := by
  unfold ParserType.parse at h ⊢
  split at h
  · cases h; rfl
  · rw [Parser.read, read_append, ← Parser.read, h]
    rfl

theorem ParserType.parse_fail_append {type : ParserType} {bs : List UInt8} {e : ParseFailure}
    (h : type.parse bs = .fail e) (more : List UInt8) : type.parse (bs ++ more) = .fail e := by
  unfold ParserType.parse at h ⊢
  split at h
  · cases h
  · rw [Parser.read, read_append, ← Parser.read, h]
    rfl

theorem ParserType.parse_suffix {type : ParserType} {bs rest : List UInt8} {v : Value}
    (h : type.parse bs = .complete v rest) : rest <:+ bs := by
  unfold ParserType.parse at h
  split at h
  · cases h
    exact List.suffix_refl _
  · exact read_suffix h

/-- A parser that completes on some bytes does not fail before it has seen them. -/
theorem ParserType.parse_of_append {type : ParserType} {bs more tail : List UInt8} {v : Value}
    (h : type.parse (bs ++ more) = .complete v tail) :
    (∃ parser, type.parse bs = .more parser) ∨
      ∃ rest, type.parse bs = .complete v rest ∧ rest ++ more = tail := by
  cases hread : type.parse bs with
  | more parser => exact .inl ⟨parser, rfl⟩
  | fail e => rw [ParserType.parse_fail_append hread] at h; cases h
  | complete w rest =>
    rw [ParserType.parse_append hread, Reading.complete.injEq] at h
    exact .inr ⟨rest, by rw [h.1], h.2⟩

/-- `seen` is what the parser of the operation has read. -/
structure ParseOperation.Sound (operation : ParseOperation) : Prop where
  read : operation.onResult.parserType.fresh.read operation.seen = .more operation.parser
  check : operation.parser.checkForImmediateCompletion =
    operation.onResult.parserType.fresh.checkForImmediateCompletion
  seen : operation.parser.checkForImmediateCompletion ≠ none → operation.seen = []

theorem Continuation.operation_sound (k : Continuation) : k.operation.Sound :=
  ⟨rfl, rfl, fun _ => rfl⟩

theorem ParseOperation.sound_more {operation : ParseOperation} {bs : List UInt8}
    {parser : Parser}
    (hread : operation.onResult.parserType.parse (operation.seen ++ bs) = .more parser) :
    ({ operation with parser, seen := operation.seen ++ bs } : ParseOperation).Sound := by
  unfold ParserType.parse at hread
  split at hread
  · cases hread
  · next hcheck =>
    have hparser := Parser.checkForImmediateCompletion_read hcheck hread
    exact ⟨hread, hparser.trans hcheck.symm, fun hne => (hne hparser).elim⟩

/-- `parse_operation::start` in terms of an uninterrupted run. -/
theorem Side.start_eq (servers : InterfaceDefinition) (s : Side) {operation : ParseOperation}
    (h : operation.Sound) :
    s.start servers operation =
      match operation.onResult.parserType.parse (operation.seen ++ s.buffer) with
      | .complete v rest => s.callWith servers operation.onResult v rest
      | .more parser =>
        { s with buffer := [],
                 reads := s.reads ++
                   [{ operation with parser, seen := operation.seen ++ s.buffer }] }
      | .fail .invalidInput => s.fail.call servers operation.onResult (.error .invalidInput)
      | .fail .lengthError => s.throw .lengthError := by
  unfold Side.start ParserType.parse
  cases hcheck : operation.onResult.parserType.fresh.checkForImmediateCompletion with
  | some v =>
    have hparser := h.check.trans hcheck
    have hseen : operation.seen = [] := h.seen (by simp [hparser])
    simp only [hparser, hseen, List.nil_append]
  | none =>
    have hparser := h.check.trans hcheck
    have hread : operation.onResult.parserType.fresh.read (operation.seen ++ s.buffer) =
        operation.parser.read s.buffer := read_append_of_more h.read s.buffer
    cases hresult : operation.parser.read s.buffer with
    | complete v rest => simp only [hparser, hread, hresult]
    | more parser => simp only [hparser, hread, hresult]
    | fail e => cases e <;> simp only [hparser, hread, hresult]

/-! The headers. -/

theorem parse_messageType (bs : List UInt8) :
    (messageTypeParser.parse bs).forget =
      match bs with
      | [] => .more ()
      | b :: rest => .complete (.integer b.toNat) rest := by
  rw [ParserType.forget_parse rfl, messageTypeParser, decode, decodeInteger]
  cases bs with
  | nil => rfl
  | cons b rest => simp [Uint.sizeof, Reading.map, BigEndian.ofBytes]

omit [Platform] in
theorem decodeInteger_uint64 (bs : List UInt8) :
    decodeInteger .uint64 bs =
      if bs.length < 8 then .more ()
      else .complete (BigEndian.ofBytes (bs.take 8)) (bs.drop 8) := rfl

theorem parse_requestId (bs : List UInt8) :
    (requestIdParser.parse bs).forget =
      if bs.length < 8 then .more ()
      else .complete (.integer (BigEndian.ofBytes (bs.take 8))) (bs.drop 8) := by
  rw [ParserType.forget_parse rfl, requestIdParser, decode, decodeInteger_uint64]
  by_cases hlength : bs.length < 8
  · rw [if_pos hlength, if_pos hlength]
    rfl
  · rw [if_neg hlength, if_neg hlength]
    rfl

/-- An id, and a name of at most 255 bytes behind its length. -/
theorem parse_requestHeader (bs : List UInt8) :
    (requestHeaderParser.parse bs).forget =
      if bs.length < 8 then .more ()
      else match bs.drop 8 with
        | [] => .more ()
        | n :: rest =>
          if rest.length < n.toNat then .more ()
          else if isValid (rest.take n.toNat) then
            .complete (.tuple [.integer (BigEndian.ofBytes (bs.take 8)),
              .utf8 (rest.take n.toNat)]) (rest.drop n.toNat)
          else .fail .invalidInput := by
  rw [ParserType.forget_parse rfl, requestHeaderParser]
  simp only [decode, decodeEach]
  rw [decodeInteger_uint64]
  by_cases hlength : bs.length < 8
  · rw [if_pos hlength, if_pos hlength]
    rfl
  · rw [if_neg hlength, if_neg hlength]
    simp only [Reading.map, Reading.bind_complete]
    cases bs.drop 8 with
    | nil => rfl
    | cons n rest =>
      have hn : n.toNat < 256 := n.toNat_lt
      have hmax : ¬ stringMaxSize < n.toNat := by
        have := stringMaxSize_ge
        omega
      have hbyte : decodeInteger .uint8 (n :: rest) = .complete n.toNat rest := by
        simp [decodeInteger, Uint.sizeof, BigEndian.ofBytes]
      rw [hbyte, Reading.bind_complete, decodeText, if_neg hmax]
      dsimp only
      by_cases hzero : n.toNat = 0
      · simp [hzero, isValid_nil]
      · rw [if_neg hzero]
        split_ifs <;> rfl

end Warpcoil
