import Warpcoil.JavaScriptParser

/-! The values that the C++ client serializes, as the parsers that JavaScript creates receive
them. A parser that is created for nothing at all, or a length that is an object, keeps the parser
from an end. -/
namespace Warpcoil
namespace JavaScript
open Answering

mutual
/-- The value as JavaScript has it. -/
def received : Ty → Value → Received
  | .integer range, .integer n =>
    if findNumberOfBytesRequired range.maximum = 8 then
      .halves (signed (n / 2 ^ 32)) (signed (n % 2 ^ 32))
    else .number n
  | .utf8 _, .utf8 text => .string (text.map UInt8.toUInt16)
  | .tuple elements, .tuple vs => .array (receivedEach elements vs)
  | .struct elements, .struct vs => .object (receivedFields [] elements vs)
  | _, _ => .array []
def receivedEach : List Ty → List Value → List Received
  | t::ts, v::vs => received t v :: receivedEach ts vs
  | _, _ => []
def receivedFields : List (Identifier × Received) → List (Ty × Identifier) → List Value →
    List (Identifier × Received)
  | result, (t, name)::elements, v::vs =>
    receivedFields (setProperty name (received t v) result) elements vs
  | result, _, _ => result
end

mutual
/-- No tuple, structure or string is empty, and no integer has the highest bit of four bytes. A
length of eight bytes is an object. -/
def Receivable : Ty → Value → Prop
  | .integer range, .integer n => findNumberOfBytesRequired range.maximum = 8 ∨ n < 2 ^ 31
  | .utf8 codeUnits, .utf8 text =>
    text ≠ [] ∧ codeUnits.maximum.toNat < 2 ^ 32 ∧ text.length < 2 ^ 31
  | .tuple elements, .tuple vs => elements ≠ [] ∧ ReceivableEach elements vs
  | .struct elements, .struct vs => elements ≠ [] ∧ ReceivableFields elements vs
  | _, _ => True
def ReceivableEach : List Ty → List Value → Prop
  | t::ts, v::vs => Receivable t v ∧ ReceivableEach ts vs
  | _, _ => True
def ReceivableFields : List (Ty × Identifier) → List Value → Prop
  | (t, _)::elements, v::vs => Receivable t v ∧ ReceivableFields elements vs
  | _, _ => True
end

/-- Fed with the bytes, the parser returns the value under the condition, and otherwise never. -/
def Receives (parser : ByteParser) (bs : List UInt8) (condition : Prop) (a : Received) : Prop :=
  ∃ t, Decides ByteParser.step parser bs condition a t

/-! The parsers of the elements run one after another. -/

section
variable {parser : ByteParser} {bs cs : List UInt8} {p q : Prop} {a c : Received}

theorem tuple_returns (elements : List Received) (parsers : List ByteParser) (parser : ByteParser)
    (b : UInt8) (parser' : ByteParser) (h : parser.step b = .ok (parser', some a)) :
    (ByteParser.tuple elements (parser :: parsers)).step b = .ok (.tuple (elements ++ [a]) parsers,
      if parsers.isEmpty then some (.array (elements ++ [a])) else none) := by
  rw [ByteParser.step, h]

theorem tuple_silent (elements : List Received) (parsers : List ByteParser) (parser : ByteParser)
    (b : UInt8) (parser' : ByteParser) (h : parser.step b = .ok (parser', none)) :
    (ByteParser.tuple elements (parser :: parsers)).step b =
      .ok (.tuple elements (parser' :: parsers), none) := by
  rw [ByteParser.step, h]

theorem tuple_error (elements : List Received) (parsers : List ByteParser) (parser : ByteParser)
    (b : UInt8) (failure : Failure) (h : parser.step b = .error failure) :
    (ByteParser.tuple elements (parser :: parsers)).step b = .error failure := by
  rw [ByteParser.step, h]

theorem struct_returns (result : List (Identifier × Received))
    (parsers : List (Identifier × ByteParser)) (name : Identifier) (parser : ByteParser)
    (b : UInt8) (parser' : ByteParser) (h : parser.step b = .ok (parser', some a)) :
    (ByteParser.struct result ((name, parser) :: parsers)).step b =
      .ok (.struct (setProperty name a result) parsers,
        if parsers.isEmpty then some (.object (setProperty name a result)) else none) := by
  rw [ByteParser.step, h]

theorem struct_silent (result : List (Identifier × Received))
    (parsers : List (Identifier × ByteParser)) (name : Identifier) (parser : ByteParser)
    (b : UInt8) (parser' : ByteParser) (h : parser.step b = .ok (parser', none)) :
    (ByteParser.struct result ((name, parser) :: parsers)).step b =
      .ok (.struct result ((name, parser') :: parsers), none) := by
  rw [ByteParser.step, h]

theorem struct_error (result : List (Identifier × Received))
    (parsers : List (Identifier × ByteParser)) (name : Identifier) (parser : ByteParser)
    (b : UInt8) (failure : Failure) (h : parser.step b = .error failure) :
    (ByteParser.struct result ((name, parser) :: parsers)).step b = .error failure := by
  rw [ByteParser.step, h]

theorem Receives.last_element (h : Receives parser bs p a) (elements : List Received) :
    Receives (.tuple elements [parser]) bs p (.array (elements ++ [a])) := by
  obtain ⟨t, ht⟩ := h
  exact ⟨_, ht.map (f := fun parser => ByteParser.tuple elements [parser])
    (tuple_silent elements []) (tuple_error elements []) (tuple_returns elements [])⟩

theorem Receives.next_element (h : Receives parser bs p a) {elements : List Received}
    {parsers : List ByteParser} (hne : parsers ≠ [])
    (h' : Receives (.tuple (elements ++ [a]) parsers) cs q c) :
    Receives (.tuple elements (parser :: parsers)) (bs ++ cs) (p ∧ q) c := by
  obtain ⟨t, ht⟩ := h
  obtain ⟨u, hu⟩ := h'
  refine ⟨u, ht.seq (f := fun parser => ByteParser.tuple elements (parser :: parsers))
    (tuple_silent elements parsers) (tuple_error elements parsers) (fun s b t hstep => ?_) hu⟩
  rw [tuple_returns elements parsers s b t hstep, List.isEmpty_eq_false_iff.mpr hne]
  rfl

theorem Receives.last_member (h : Receives parser bs p a) (name : Identifier)
    (result : List (Identifier × Received)) :
    Receives (.struct result [(name, parser)]) bs p (.object (setProperty name a result)) := by
  obtain ⟨t, ht⟩ := h
  exact ⟨_, ht.map (f := fun parser => ByteParser.struct result [(name, parser)])
    (struct_silent result [] name) (struct_error result [] name) (struct_returns result [] name)⟩

theorem Receives.next_member (h : Receives parser bs p a) {name : Identifier}
    {result : List (Identifier × Received)} {parsers : List (Identifier × ByteParser)}
    (hne : parsers ≠ []) (h' : Receives (.struct (setProperty name a result) parsers) cs q c) :
    Receives (.struct result ((name, parser) :: parsers)) (bs ++ cs) (p ∧ q) c := by
  obtain ⟨t, ht⟩ := h
  obtain ⟨u, hu⟩ := h'
  refine ⟨u, ht.seq (f := fun parser => ByteParser.struct result ((name, parser) :: parsers))
    (struct_silent result parsers name) (struct_error result parsers name)
    (fun s b t hstep => ?_) hu⟩
  rw [struct_returns result parsers name s b t hstep, List.isEmpty_eq_false_iff.mpr hne]
  rfl

end

theorem parserCreations_ne_nil {t : Ty} {ts : List Ty} {parsers : List ByteParser}
    (h : parserCreations (t::ts) = some parsers) : parsers ≠ [] := by
  rw [parserCreations, Option.bind_eq_some_iff] at h
  obtain ⟨parser, -, h⟩ := h
  obtain ⟨rest, -, rfl⟩ := Option.map_eq_some_iff.mp h
  exact List.cons_ne_nil _ _

theorem memberParserCreations_ne_nil {t : Ty × Identifier} {ts : List (Ty × Identifier)}
    {parsers : List (Identifier × ByteParser)}
    (h : memberParserCreations (t::ts) = some parsers) : parsers ≠ [] := by
  rw [memberParserCreations, Option.bind_eq_some_iff] at h
  obtain ⟨parser, -, h⟩ := h
  obtain ⟨rest, -, rfl⟩ := Option.map_eq_some_iff.mp h
  exact List.cons_ne_nil _ _

/-- Nothing is never received. -/
theorem undefined_receives (a : Received) : Receives .undefined [] False a := by
  refine ⟨.undefined, False.elim, fun _ more => ?_⟩
  cases more with
  | nil => exact .nil _
  | cons b more => exact .error (e := .typeError) rfl

theorem integer_receives {range : Integer} {n : Nat} (h : range.contains n) :
    Receives (integerParserCreation range)
      (BigEndian.toBytes (findNumberOfBytesRequired range.maximum) n)
      (Receivable (.integer range) (.integer n)) (received (.integer range) (.integer n)) := by
  rw [received]
  by_cases hwide : findNumberOfBytesRequired range.maximum = 8
  · obtain ⟨t, ht⟩ := wide_completes hwide h
    rw [if_pos hwide]
    exact ⟨t, fun _ => ht, fun hfalse => (hfalse (.inl hwide)).elim⟩
  rw [if_neg hwide, Receivable, or_iff_right hwide]
  by_cases hsign : n < 2 ^ 31
  · obtain ⟨t, ht⟩ := integer_completes hwide h hsign
    exact ⟨t, fun _ => ht, fun hfalse => (hfalse hsign).elim⟩
  · obtain ⟨front, last, s, heq, hfront, hlast⟩ := integer_refuses hwide h (Nat.not_lt.mp hsign)
    refine ⟨s, fun hfalse => (hsign hfalse).elim, fun _ more => ?_⟩
    rw [heq, List.append_assoc]
    exact hfront.mute (.error hlast)

theorem utf8_receives {codeUnits : Integer} {text : List UInt8}
    (h : codeUnits.contains text.length) :
    Receives (.length (integerParserCreation codeUnits)) (encodedText codeUnits text)
      (Receivable (.utf8 codeUnits) (.utf8 text)) (received (.utf8 codeUnits) (.utf8 text)) := by
  have hwide := findNumberOfBytesRequired_eq_eight codeUnits.maximum
  rw [received, Receivable]
  refine ⟨.content text text.length, fun ⟨hne, hmax, hsign⟩ => ?_, fun hclean more => ?_⟩
  · exact text_completes (by omega) h hsign hne
  · refine text_mute h ?_ more
    by_cases hnil : text = []
    · exact .inl hnil
    · have hlarge : ¬ (codeUnits.maximum.toNat < 2 ^ 32 ∧ text.length < 2 ^ 31) :=
        fun hall => hclean ⟨hnil, hall⟩
      exact .inr (by omega)

variable [Platform]

mutual
/-- What the C++ client serializes is received if the value is receivable, and otherwise the parser
never returns. -/
theorem value_receives : ∀ (t : Ty) (v : Value) (parser : ByteParser),
    (generateValueSerialization t v).ok = true → generateParserCreation t = some parser →
    Receives parser (generateValueSerialization t v).output (Receivable t v) (received t v)
  | .integer range, v, parser, hok, hparser => by
    rw [generateParserCreation, Option.some.injEq] at hparser
    subst hparser
    cases v <;> simp only [generateValueSerialization] at hok ⊢ <;> try cases hok
    rw [serializeInteger_ok] at hok
    rw [serializeInteger_output hok, ← findNumberOfBytesRequired_eq]
    exact integer_receives hok
  | .utf8 codeUnits, v, parser, hok, hparser => by
    rw [generateParserCreation, Option.some.injEq] at hparser
    subst hparser
    cases v <;> simp only [generateValueSerialization] at hok ⊢ <;> try cases hok
    split_ifs at hok ⊢ with hvalid
    · rw [Emission.seq_ok, Bool.and_eq_true, serializeInteger_ok] at hok
      rw [Emission.seq_output _ _ (serializeInteger_ok.mpr hok.1), serializeInteger_output hok.1,
        ← findNumberOfBytesRequired_eq]
      exact utf8_receives hok.1
    · cases hok
  | .variant elements, v, parser, _, hparser => by cases hparser
  | .vector length element, v, parser, _, hparser => by cases hparser
  | .tuple elements, v, parser, hok, hparser => by
    cases v <;> simp only [generateValueSerialization] at hok ⊢ <;> try cases hok
    rename_i vs
    rw [received, Receivable]
    cases elements with
    | nil =>
      obtain rfl := Option.some.inj hparser
      cases vs with
      | nil =>
        simpa only [serializeEach, Emission.done_output, ne_eq, not_true_eq_false,
          false_and] using undefined_receives _
      | cons v vs => cases hok
    | cons t ts =>
      rw [generateParserCreation, Option.map_eq_some_iff] at hparser
      obtain ⟨parsers, hparsers, rfl⟩ := hparser
      have hall := each_receives (t::ts) vs parsers [] (List.cons_ne_nil t ts) hok hparsers
      simpa only [ne_eq, reduceCtorEq, not_false_eq_true, true_and, List.nil_append] using hall
  | .struct elements, v, parser, hok, hparser => by
    cases v <;> simp only [generateValueSerialization] at hok ⊢ <;> try cases hok
    rename_i vs
    rw [received, Receivable]
    cases elements with
    | nil =>
      obtain rfl := Option.some.inj hparser
      cases vs with
      | nil =>
        simpa only [serializeFields, Emission.done_output, ne_eq, not_true_eq_false,
          false_and] using undefined_receives _
      | cons v vs => cases hok
    | cons t ts =>
      rw [generateParserCreation, Option.map_eq_some_iff] at hparser
      obtain ⟨parsers, hparsers, rfl⟩ := hparser
      have hall := fields_receives (t::ts) vs parsers [] (List.cons_ne_nil t ts) hok hparsers
      simpa only [ne_eq, reduceCtorEq, not_false_eq_true, true_and] using hall
theorem each_receives : ∀ (ts : List Ty) (vs : List Value) (parsers : List ByteParser)
    (elements : List Received), ts ≠ [] → (serializeEach ts vs).ok = true →
    parserCreations ts = some parsers →
    Receives (.tuple elements parsers) (serializeEach ts vs).output (ReceivableEach ts vs)
      (.array (elements ++ receivedEach ts vs))
  | [], _, _, _, hne, _, _ => absurd rfl hne
  | t::ts, [], _, _, _, hok, _ => by cases hok
  | t::ts, v::vs, parsers, elements, _, hok, hparsers => by
    rw [serializeEach, Emission.seq_ok, Bool.and_eq_true] at hok
    obtain ⟨hok, hrest⟩ := hok
    rw [parserCreations, Option.bind_eq_some_iff] at hparsers
    obtain ⟨parser, hparser, hparsers⟩ := hparsers
    rw [Option.map_eq_some_iff] at hparsers
    obtain ⟨parsers, hparsers, rfl⟩ := hparsers
    have hhead := value_receives t v parser hok hparser
    rw [serializeEach, receivedEach, ReceivableEach, Emission.seq_output _ _ hok]
    cases ts with
    | nil =>
      obtain rfl := Option.some.inj hparsers
      cases vs with
      | nil =>
        simpa only [serializeEach, Emission.done_output, List.append_nil, ReceivableEach, and_true,
          receivedEach] using hhead.last_element elements
      | cons v' vs => cases hrest
    | cons t' ts =>
      have htail := each_receives (t'::ts) vs parsers (elements ++ [received t v])
        (List.cons_ne_nil t' ts) hrest hparsers
      rw [List.append_assoc, List.singleton_append] at htail
      exact hhead.next_element (parserCreations_ne_nil hparsers) htail
theorem fields_receives : ∀ (ts : List (Ty × Identifier)) (vs : List Value)
    (parsers : List (Identifier × ByteParser)) (result : List (Identifier × Received)), ts ≠ [] →
    (serializeFields ts vs).ok = true → memberParserCreations ts = some parsers →
    Receives (.struct result parsers) (serializeFields ts vs).output (ReceivableFields ts vs)
      (.object (receivedFields result ts vs))
  | [], _, _, _, hne, _, _ => absurd rfl hne
  | (t, name)::ts, [], _, _, _, hok, _ => by cases hok
  | (t, name)::ts, v::vs, parsers, result, _, hok, hparsers => by
    rw [serializeFields, Emission.seq_ok, Bool.and_eq_true] at hok
    obtain ⟨hok, hrest⟩ := hok
    rw [memberParserCreations, Option.bind_eq_some_iff] at hparsers
    obtain ⟨parser, hparser, hparsers⟩ := hparsers
    rw [Option.map_eq_some_iff] at hparsers
    obtain ⟨parsers, hparsers, rfl⟩ := hparsers
    have hhead := value_receives t v parser hok hparser
    rw [serializeFields, receivedFields, ReceivableFields, Emission.seq_output _ _ hok]
    cases ts with
    | nil =>
      obtain rfl := Option.some.inj hparsers
      cases vs with
      | nil =>
        simpa only [serializeFields, Emission.done_output, List.append_nil, ReceivableFields,
          and_true, receivedFields] using hhead.last_member name result
      | cons v' vs => cases hrest
    | cons t' ts =>
      have htail := fields_receives (t'::ts) vs parsers (setProperty name (received t v) result)
        (List.cons_ne_nil t' ts) hrest hparsers
      exact hhead.next_member (memberParserCreations_ne_nil hparsers) htail
end

end JavaScript

end Warpcoil
