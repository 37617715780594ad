import Mathlib.Data.List.Induction
import Warpcoil.Library.Answering
import Warpcoil.JavaScriptClient

/-! The parsers that the generated JavaScript creates: functions that are called with one byte
after another and return `undefined` until they have a value. The bitwise operators work on signed
integers of 32 bits. -/
namespace Warpcoil
namespace JavaScript
open Answering

/-- What such a parser returns. -/
inductive Received where
  | number (n : Int)
  /-- `{high: …, low: …}` -/
  | halves (high low : Int)
  | string (units : List UInt16)
  | array (elements : List Received)
  | object (properties : List (Identifier × Received))

inductive Failure where
  | rangeError | typeError | outOfRange | unexpectedResponse | unknownMethod | unknownMessageType
deriving DecidableEq, Repr

/-- `object[name] = value` -/
def setProperty {κ α : Type*} [DecidableEq κ] (name : κ) (value : α) : List (κ × α) → List (κ × α)
  | [] => [(name, value)]
  | (other, old) :: properties =>
    if other = name then (name, value) :: properties
    else (other, old) :: setProperty name value properties

/-- The closures and their variables. An aggregate holds the parsers of the elements that it has
not parsed, the current one first: each is created when the one before has returned. -/
inductive ByteParser where
  /-- `undefined`, where no parser is needed. -/
  | undefined
  /-- `parse_int_1`, `parse_int_2` and `parse_int_4`. -/
  | integer (bytes minimum maximum : Nat) (result : BitVec 32) (parsed : Nat)
  /-- `parse_int_8`, which does not use its arguments. -/
  | wide (high low : BitVec 32) (parsed : Nat)
  /-- A string without its `content`. -/
  | length (parser : ByteParser)
  | content (buffer : List UInt8) (receivedContent : Nat)
  | tuple (elements : List Received) (parsers : List ByteParser)
  | struct (result : List (Identifier × Received)) (parsers : List (Identifier × ByteParser))

/-- `new ArrayBuffer(status)`: an object is `NaN`, which is 0. -/
def newArrayBuffer : Received → Except Failure (List UInt8)
  | .number n => if n < 0 then .error .rangeError else .ok (List.replicate n.toNat 0)
  | .halves _ _ => .ok []
  | .string _ | .array _ | .object _ => .error .rangeError

/-- The parser is called. -/
def ByteParser.step : ByteParser → UInt8 → Except Failure (ByteParser × Option Received)
  | .undefined, _ => .error .typeError
  | .integer bytes minimum maximum result parsed, input =>
    let result := (if 1 < bytes then result <<< 8 else result) ||| input.toBitVec.setWidth 32
    let parsed := parsed + 1
    if parsed = bytes then
      if result.toInt < minimum ∨ maximum < result.toInt then .error .outOfRange
      else .ok (.integer bytes minimum maximum result parsed, some (.number result.toInt))
    else .ok (.integer bytes minimum maximum result parsed, none)
  | .wide high low parsed, input =>
    let high' := if parsed < 4 then high <<< 8 ||| input.toBitVec.setWidth 32 else high
    let low' := if parsed < 4 then low else low <<< 8 ||| input.toBitVec.setWidth 32
    let parsed := parsed + 1
    .ok (.wide high' low' parsed,
      if parsed = 8 then some (.halves high'.toInt low'.toInt) else none)
  | .length parser, input =>
    match parser.step input with
    | .error e => .error e
    | .ok (parser, none) => .ok (.length parser, none)
    | .ok (_, some status) =>
      match newArrayBuffer status with
      | .error e => .error e
      | .ok buffer => .ok (.content buffer 0, none)
  | .content buffer receivedContent, input =>
    -- a byte behind the end of the array is dropped
    let buffer := buffer.set receivedContent input
    let receivedContent := receivedContent + 1
    .ok (.content buffer receivedContent,
      if receivedContent = buffer.length then some (.string (buffer.map UInt8.toUInt16))
      else none)
  | .tuple elements [], _ => .ok (.tuple elements [], none)
  | .tuple elements (parser :: parsers), input =>
    match parser.step input with
    | .error e => .error e
    | .ok (parser, none) => .ok (.tuple elements (parser :: parsers), none)
    | .ok (_, some status) =>
      let elements := elements ++ [status]
      .ok (.tuple elements parsers, if parsers.isEmpty then some (.array elements) else none)
  | .struct result [], _ => .ok (.struct result [], none)
  | .struct result ((name, parser) :: parsers), input =>
    match parser.step input with
    | .error e => .error e
    | .ok (parser, none) => .ok (.struct result ((name, parser) :: parsers), none)
    | .ok (_, some status) =>
      let result := setProperty name status result
      .ok (.struct result parsers, if parsers.isEmpty then some (.object result) else none)

/-- The argument of a `parse_int` is the range of the type. -/
def integerParserCreation (range : Integer) : ByteParser :=
  if findNumberOfBytesRequired range.maximum = 8 then .wide 0 0 0
  else .integer (findNumberOfBytesRequired range.maximum) range.minimum.toNat
    range.maximum.toNat 0 0

mutual
/-- Variants and vectors are not supported: the generator throws. -/
def generateParserCreation : Ty → Option ByteParser
  | .integer range => some (integerParserCreation range)
  | .variant _ => none
  | .tuple [] => some .undefined
  | .tuple (t::ts) => (parserCreations (t::ts)).map (.tuple [])
  | .vector _ _ => none
  | .utf8 codeUnits => some (.length (integerParserCreation codeUnits))
  | .struct [] => some .undefined
  | .struct (t::ts) => (memberParserCreations (t::ts)).map (.struct [])
def parserCreations : List Ty → Option (List ByteParser)
  | [] => some []
  | t::ts =>
    (generateParserCreation t).bind fun parser => (parserCreations ts).map (parser :: ·)
def memberParserCreations : List (Ty × Identifier) → Option (List (Identifier × ByteParser))
  | [] => some []
  | (t, name)::ts =>
    (generateParserCreation t).bind fun parser =>
      (memberParserCreations ts).map ((name, parser) :: ·)
end

/-! ### Integers -/

theorem shiftLeft_or (n : Nat) (input : UInt8) :
    BitVec.ofNat 32 n <<< 8 ||| input.toBitVec.setWidth 32 =
      BitVec.ofNat 32 (n * 256 + input.toNat) := by
  have hlt : input.toNat < 2 ^ 8 := input.toNat_lt
  apply BitVec.eq_of_toNat_eq
  rw [BitVec.toNat_or, BitVec.toNat_shiftLeft, BitVec.toNat_ofNat, BitVec.toNat_ofNat,
    BitVec.toNat_setWidth, UInt8.toNat_toBitVec, Nat.mod_eq_of_lt (a := input.toNat) (by omega),
    Nat.shiftLeft_eq]
  have heven : n % 2 ^ 32 * 2 ^ 8 % 2 ^ 32 = 2 ^ 8 * (n % 2 ^ 24) := by omega
  rw [heven, ← Nat.two_pow_add_eq_or_of_lt hlt]
  omega

/-- The number that the bits stand for. -/
def signed (n : Nat) : Int := if n < 2 ^ 31 then n else n - 2 ^ 32

theorem toInt_ofNat {n : Nat} (h : n < 2 ^ 32) : (BitVec.ofNat 32 n).toInt = signed n := by
  rw [BitVec.toInt_eq_toNat_cond, BitVec.toNat_ofNat, Nat.mod_eq_of_lt h, signed]
  split_ifs <;> omega

theorem accumulate {bytes : Nat} {bs : List UInt8} (b : UInt8) (h : bs.length < bytes) :
    (if 1 < bytes then BitVec.ofNat 32 (BigEndian.ofBytes bs) <<< 8
      else BitVec.ofNat 32 (BigEndian.ofBytes bs)) ||| b.toBitVec.setWidth 32 =
      BitVec.ofNat 32 (BigEndian.ofBytes (bs ++ [b])) := by
  rw [BigEndian.ofBytes_append_singleton, ← shiftLeft_or]
  by_cases hone : 1 < bytes
  · rw [if_pos hone]
  · have hnil : bs = [] := List.length_eq_zero_iff.mp (by omega)
    rw [if_neg hone, hnil]
    rfl

theorem integer_silent {bytes minimum maximum : Nat} {bs : List UInt8} (h : bs.length < bytes) :
    Silent ByteParser.step (.integer bytes minimum maximum 0 0) bs
      (.integer bytes minimum maximum (BitVec.ofNat 32 (BigEndian.ofBytes bs)) bs.length) := by
  induction bs using List.reverseRecOn with
  | nil => exact .nil _
  | append_singleton bs b ih =>
    rw [List.length_append, List.length_singleton] at h
    refine (ih (by omega)).snoc ?_
    rw [ByteParser.step, accumulate b (by omega), List.length_append, List.length_singleton]
    exact if_neg (by omega)

theorem wide_silent {bs : List UInt8} (h : bs.length < 8) :
    Silent ByteParser.step (.wide 0 0 0) bs
      (.wide (BitVec.ofNat 32 (BigEndian.ofBytes (bs.take 4)))
        (BitVec.ofNat 32 (BigEndian.ofBytes (bs.drop 4))) bs.length) := by
  induction bs using List.reverseRecOn with
  | nil => exact .nil _
  | append_singleton bs b ih =>
    rw [List.length_append, List.length_singleton] at h
    refine (ih (by omega)).snoc ?_
    rw [ByteParser.step, List.length_append, List.length_singleton]
    by_cases hlow : bs.length < 4
    · rw [if_pos hlow, if_pos hlow, shiftLeft_or, ← BigEndian.ofBytes_append_singleton,
        List.take_of_length_le (l := bs) (by omega), List.drop_of_length_le (l := bs) (by omega),
        List.take_of_length_le (by simp; omega), List.drop_of_length_le (by simp; omega)]
      exact congrArg (fun answer => Except.ok (_, answer)) (if_neg (by omega))
    · rw [if_neg hlow, if_neg hlow, shiftLeft_or, ← BigEndian.ofBytes_append_singleton,
        List.take_append_of_le_length (by omega), List.drop_append_of_le_length (by omega)]
      exact congrArg (fun answer => Except.ok (_, answer)) (if_neg (by omega))

/-- What the parser answers to the last byte of the number `x`. -/
def integerAnswer (range : Integer) (x : Nat) : Reaction Received Failure :=
  if findNumberOfBytesRequired range.maximum = 8 then
    .returns (.halves (signed (x / 2 ^ 32)) (signed (x % 2 ^ 32)))
  else if signed x < range.minimum.toNat ∨ range.maximum.toNat < signed x then .throws .outOfRange
  else .returns (.number (signed x))

theorem findNumberOfBytesRequired_pos (maximum : UInt64) :
    0 < findNumberOfBytesRequired maximum := by
  unfold findNumberOfBytesRequired
  split_ifs <;> decide

theorem findNumberOfBytesRequired_le (maximum : UInt64)
    (h : findNumberOfBytesRequired maximum ≠ 8) : findNumberOfBytesRequired maximum ≤ 4 := by
  revert h
  unfold findNumberOfBytesRequired
  split_ifs <;> decide

theorem findNumberOfBytesRequired_eq_eight (maximum : UInt64) :
    findNumberOfBytesRequired maximum = 8 ↔ 2 ^ 32 ≤ maximum.toNat := by
  unfold findNumberOfBytesRequired
  simp only [UInt64.lt_iff_toNat_lt, UInt64.reduceToNat]
  split_ifs <;> omega

theorem ofBytes_halves {bs : List UInt8} (h : bs.length = 8) :
    BigEndian.ofBytes (bs.take 4) = BigEndian.ofBytes bs / 2 ^ 32 ∧
      BigEndian.ofBytes (bs.drop 4) = BigEndian.ofBytes bs % 2 ^ 32 := by
  have hsum : BigEndian.ofBytes bs =
      BigEndian.ofBytes (bs.take 4) * 256 ^ (bs.drop 4).length + BigEndian.ofBytes (bs.drop 4) := by
    conv_lhs => rw [← List.take_append_drop 4 bs, BigEndian.ofBytes, List.foldl_append]
    exact BigEndian.foldl_offset _ _
  have hlt := BigEndian.ofBytes_lt (bs.drop 4)
  have hdrop : (bs.drop 4).length = 4 := by rw [List.length_drop, h]
  rw [hdrop] at hsum hlt
  omega

theorem integer_last {bytes : Nat} (minimum maximum : Nat) {front : List UInt8} (last : UInt8)
    (h : front.length + 1 = bytes) (hbytes : bytes ≤ 4) :
    (ByteParser.integer bytes minimum maximum (BitVec.ofNat 32 (BigEndian.ofBytes front))
        front.length).step last =
      if signed (BigEndian.ofBytes (front ++ [last])) < minimum ∨
        maximum < signed (BigEndian.ofBytes (front ++ [last])) then .error .outOfRange
      else .ok (.integer bytes minimum maximum
        (BitVec.ofNat 32 (BigEndian.ofBytes (front ++ [last]))) bytes,
          some (.number (signed (BigEndian.ofBytes (front ++ [last]))))) := by
  have hlt := BigEndian.ofBytes_lt (front ++ [last])
  rw [List.length_append, List.length_singleton, h] at hlt
  have hpow : 256 ^ bytes ≤ 256 ^ 4 := Nat.pow_le_pow_right (by decide) hbytes
  rw [ByteParser.step, accumulate last (by omega), toInt_ofNat (by omega), h]
  exact if_pos rfl

theorem wide_last {front : List UInt8} (last : UInt8) (h : front.length = 7) :
    (ByteParser.wide (BitVec.ofNat 32 (BigEndian.ofBytes (front.take 4)))
        (BitVec.ofNat 32 (BigEndian.ofBytes (front.drop 4))) front.length).step last =
      .ok (.wide (BitVec.ofNat 32 (BigEndian.ofBytes ((front ++ [last]).take 4)))
        (BitVec.ofNat 32 (BigEndian.ofBytes ((front ++ [last]).drop 4))) 8,
          some (.halves (signed (BigEndian.ofBytes (front ++ [last]) / 2 ^ 32))
            (signed (BigEndian.ofBytes (front ++ [last]) % 2 ^ 32)))) := by
  have hlength : (front ++ [last]).length = 8 := by
    rw [List.length_append, List.length_singleton, h]
  have hlt := BigEndian.ofBytes_lt (front ++ [last])
  rw [hlength] at hlt
  obtain ⟨hhigh, hlow⟩ := ofBytes_halves hlength
  rw [← toInt_ofNat (n := _ / 2 ^ 32) (by omega), ← toInt_ofNat (n := _ % 2 ^ 32) (by omega),
    ← hhigh, ← hlow, List.take_append_of_le_length (by omega),
    List.drop_append_of_le_length (by omega), BigEndian.ofBytes_append_singleton (front.drop 4),
    ← shiftLeft_or, ByteParser.step, if_neg (by omega), if_neg (by omega), h]
  rfl

theorem integer_reactions (range : Integer) {bs : List UInt8}
    (h : bs.length = findNumberOfBytesRequired range.maximum) :
    reactions ByteParser.step (integerParserCreation range) bs =
      List.replicate (bs.length - 1) .nothing ++
        [integerAnswer range (BigEndian.ofBytes bs)] := by
  have hpos := findNumberOfBytesRequired_pos range.maximum
  obtain ⟨front, last, rfl⟩ :=
    (List.eq_nil_or_concat' bs).resolve_left (List.ne_nil_of_length_pos (h ▸ hpos))
  rw [List.length_append, List.length_singleton] at h ⊢
  rw [Nat.add_sub_cancel, integerParserCreation, integerAnswer]
  by_cases hwide : findNumberOfBytesRequired range.maximum = 8
  · rw [if_pos hwide, if_pos hwide, (wide_silent (by omega)).reactions, reactions,
      wide_last last (by omega)]
    rfl
  · rw [if_neg hwide, if_neg hwide, (integer_silent (by omega)).reactions, reactions,
      integer_last _ _ last h (findNumberOfBytesRequired_le _ hwide)]
    split_ifs <;> rfl

/-- What the C++ parser of the type does with the number `x`. -/
def specifiedAnswer (range : Integer) (x : Nat) : Reaction Received Failure :=
  if range.contains x then
    .returns (if findNumberOfBytesRequired range.maximum = 8 then
      .halves (x / 2 ^ 32 : Nat) (x % 2 ^ 32 : Nat) else .number x)
  else .throws .outOfRange

theorem signed_eq_iff {n : Nat} : signed n = n ↔ n < 2 ^ 31 := by
  unfold signed
  split_ifs with h
  · exact ⟨fun _ => h, fun _ => rfl⟩
  · omega

/-- The parsers of one, two and four bytes refuse what has its highest bit set, that of eight
bytes checks nothing and returns halves that may be negative. -/
theorem parses_integer (range : Integer) (bs : List UInt8)
    (h : bs.length = findNumberOfBytesRequired range.maximum) :
    reactions ByteParser.step (integerParserCreation range) bs =
        List.replicate (bs.length - 1) .nothing ++
          [specifiedAnswer range (BigEndian.ofBytes bs)] ↔
      if bs.length = 8 then range.contains (BigEndian.ofBytes bs) ∧
        BigEndian.ofBytes bs / 2 ^ 32 < 2 ^ 31 ∧ BigEndian.ofBytes bs % 2 ^ 32 < 2 ^ 31
      else BigEndian.ofBytes bs < 2 ^ 31 ∨ ¬ range.contains (BigEndian.ofBytes bs) := by
  have hlt := BigEndian.ofBytes_lt bs
  rw [integer_reactions range h, List.append_cancel_left_eq, List.cons.injEq, h]
  rw [h] at hlt
  generalize BigEndian.ofBytes bs = x at hlt
  rw [integerAnswer, specifiedAnswer]
  by_cases hwide : findNumberOfBytesRequired range.maximum = 8
  · rw [if_pos hwide, if_pos hwide, if_pos hwide]
    by_cases hrange : range.contains x
    · rw [if_pos hrange, Reaction.returns.injEq, Received.halves.injEq, signed_eq_iff,
        signed_eq_iff]
      simp [hrange]
    · rw [if_neg hrange]
      simp [hrange]
  · have hnarrow : 256 ^ findNumberOfBytesRequired range.maximum ≤ 256 ^ 4 :=
      Nat.pow_le_pow_right (by decide) (findNumberOfBytesRequired_le _ hwide)
    rw [if_neg hwide, if_neg hwide, if_neg hwide]
    have hcontains : range.contains x ↔ range.minimum.toNat ≤ x ∧ x ≤ range.maximum.toNat := .rfl
    by_cases hsign : x < 2 ^ 31
    · rw [signed_eq_iff.mpr hsign]
      simp only [hsign, true_or, iff_true, and_true]
      by_cases hrange : range.contains x
      · rw [if_pos hrange]
        rw [hcontains] at hrange
        exact if_neg (by omega)
      · rw [if_neg hrange]
        rw [hcontains] at hrange
        exact if_pos (by omega)
    · have hneg : signed x < range.minimum.toNat := by
        rw [signed, if_neg hsign]
        omega
      rw [if_pos (.inl hneg)]
      simp only [hsign, false_or]
      by_cases hrange : range.contains x
      · simp [hrange]
      · simp [hrange]

theorem parses_integer_wide :
    (reactions ByteParser.step (integerParserCreation ⟨0, 0xffffffffffffffff⟩)
        [0, 0, 0, 1, 0, 0, 0, 2] =
        List.replicate 7 .nothing ++ [specifiedAnswer ⟨0, 0xffffffffffffffff⟩ 0x100000002]) ↔
      Integer.contains ⟨0, 0xffffffffffffffff⟩ 0x100000002 ∧
        0x100000002 / 2 ^ 32 < 2 ^ 31 ∧ 0x100000002 % 2 ^ 32 < 2 ^ 31 :=
  parses_integer ⟨0, 0xffffffffffffffff⟩ [0, 0, 0, 1, 0, 0, 0, 2] (by decide)

/-- Of the whole range of four bytes the upper half is refused. -/
theorem parses_integer_sign :
    reactions ByteParser.step (integerParserCreation ⟨0, 0xffffffff⟩) [128, 0, 0, 0] ≠
      List.replicate 3 .nothing ++
        [specifiedAnswer ⟨0, 0xffffffff⟩ (BigEndian.ofBytes [128, 0, 0, 0])] := by
  rw [integer_reactions _ (by decide)]
  intro h
  have hanswer := (List.cons.inj (List.append_cancel_left h)).1
  rw [integerAnswer, if_neg (by decide), if_pos (by decide), specifiedAnswer,
    if_pos (by decide)] at hanswer
  cases hanswer

theorem toBytes_concat {w : Nat} (h : 0 < w) (x : Nat) :
    ∃ front last, BigEndian.toBytes w x = front ++ [last] ∧ front.length + 1 = w := by
  have hlength := BigEndian.toBytes_length w x
  obtain ⟨front, last, heq⟩ := (List.eq_nil_or_concat' (BigEndian.toBytes w x)).resolve_left
    (List.ne_nil_of_length_pos (by omega))
  refine ⟨front, last, heq, ?_⟩
  rw [heq, List.length_append, List.length_singleton] at hlength
  exact hlength

theorem ofBytes_encoded {range : Integer} {x : Nat} (h : range.contains x) :
    BigEndian.ofBytes (BigEndian.toBytes (findNumberOfBytesRequired range.maximum) x) = x :=
  BigEndian.ofBytes_toBytes _ _ (findNumberOfBytesRequired_eq range ▸ h.lt)

section
variable {range : Integer} {x : Nat}

theorem integer_completes (hnarrow : findNumberOfBytesRequired range.maximum ≠ 8)
    (hrange : range.contains x) (hsign : x < 2 ^ 31) :
    ∃ t, Completes ByteParser.step (integerParserCreation range)
      (BigEndian.toBytes (findNumberOfBytesRequired range.maximum) x) (.number x) t := by
  have hvalue := ofBytes_encoded hrange
  obtain ⟨front, last, heq, hlength⟩ :=
    toBytes_concat (findNumberOfBytesRequired_pos range.maximum) x
  rw [heq] at hvalue ⊢
  have hlast := integer_last range.minimum.toNat range.maximum.toNat last hlength
    (findNumberOfBytesRequired_le _ hnarrow)
  obtain ⟨hmin, hmax⟩ := hrange
  rw [hvalue, signed_eq_iff.mpr hsign, if_neg (by omega)] at hlast
  rw [integerParserCreation, if_neg hnarrow]
  exact ⟨_, front, last, _, rfl, integer_silent (by omega), hlast⟩

/-- A number with the highest bit of four bytes is taken for a negative one. -/
theorem integer_refuses (hnarrow : findNumberOfBytesRequired range.maximum ≠ 8)
    (hrange : range.contains x) (hsign : 2 ^ 31 ≤ x) :
    ∃ front last s, BigEndian.toBytes (findNumberOfBytesRequired range.maximum) x =
        front ++ [last] ∧
      Silent ByteParser.step (integerParserCreation range) front s ∧
      s.step last = .error .outOfRange := by
  have hvalue := ofBytes_encoded hrange
  have hle := findNumberOfBytesRequired_le _ hnarrow
  obtain ⟨front, last, heq, hlength⟩ :=
    toBytes_concat (findNumberOfBytesRequired_pos range.maximum) x
  have hlt := hrange.lt
  rw [← findNumberOfBytesRequired_eq] at hlt
  have hpow : 256 ^ findNumberOfBytesRequired range.maximum ≤ 256 ^ 4 :=
    Nat.pow_le_pow_right (by decide) hle
  have hneg : signed x < range.minimum.toNat := by
    rw [signed, if_neg (by omega)]
    omega
  rw [heq] at hvalue
  have hlast := integer_last range.minimum.toNat range.maximum.toNat last hlength hle
  rw [hvalue, if_pos (.inl hneg)] at hlast
  rw [integerParserCreation, if_neg hnarrow]
  exact ⟨front, last, _, heq, integer_silent (by omega), hlast⟩

theorem wide_completes (hwide : findNumberOfBytesRequired range.maximum = 8)
    (hrange : range.contains x) :
    ∃ t, Completes ByteParser.step (integerParserCreation range)
      (BigEndian.toBytes (findNumberOfBytesRequired range.maximum) x)
      (.halves (signed (x / 2 ^ 32)) (signed (x % 2 ^ 32))) t := by
  have hvalue := ofBytes_encoded hrange
  obtain ⟨front, last, heq, hlength⟩ :=
    toBytes_concat (findNumberOfBytesRequired_pos range.maximum) x
  rw [heq] at hvalue ⊢
  have hlast := wide_last last (Nat.succ.inj (hlength.trans hwide))
  rw [hvalue] at hlast
  rw [integerParserCreation, if_pos hwide]
  exact ⟨_, front, last, _, rfl, wide_silent (by omega), hlast⟩

end

/-! ### Strings -/

/-- What has been received, in front of the zeros of the new buffer. -/
theorem content_silent {text rest : List UInt8} (h : rest ≠ []) :
    Silent ByteParser.step (.content (List.replicate (text ++ rest).length 0) 0) text
      (.content (text ++ List.replicate rest.length 0) text.length) := by
  induction text using List.reverseRecOn generalizing rest with
  | nil => exact .nil _
  | append_singleton text b ih =>
    have hbefore := ih (List.cons_ne_nil b rest)
    rw [List.append_assoc, List.singleton_append]
    refine hbefore.snoc ?_
    have hset : (text ++ List.replicate (b :: rest).length 0).set text.length b =
        text ++ [b] ++ List.replicate rest.length 0 := by
      rw [List.length_cons, List.replicate_succ, List.set_append_right _ _ (Nat.le_refl _),
        Nat.sub_self, List.set_cons_zero, List.append_assoc, List.singleton_append]
    have hpos := List.length_pos_iff.mpr h
    have hopen : text.length + 1 ≠ (text ++ [b] ++ List.replicate rest.length 0).length := by
      rw [List.length_append, List.length_append, List.length_singleton, List.length_replicate]
      omega
    have hreceived : (text ++ [b]).length = text.length + 1 := List.length_append
    rw [ByteParser.step, hset, hreceived]
    exact congrArg (fun answer => Except.ok (_, answer)) (if_neg hopen)

theorem content_completes {text : List UInt8} (h : text ≠ []) :
    Completes ByteParser.step (.content (List.replicate text.length 0) 0) text
      (.string (text.map UInt8.toUInt16)) (.content text text.length) := by
  obtain ⟨front, last, rfl⟩ := (List.eq_nil_or_concat' text).resolve_left h
  refine ⟨front, last, _, rfl, content_silent (List.cons_ne_nil _ _), ?_⟩
  have hset : (front ++ List.replicate [last].length 0).set front.length last =
      front ++ [last] := by
    rw [List.set_append_right _ _ (Nat.le_refl _), Nat.sub_self]
    rfl
  rw [ByteParser.step, hset, List.length_append, List.length_singleton]
  exact congrArg (fun answer => Except.ok (_, answer)) (if_pos rfl)

/-- Behind its last byte the string has no end. -/
theorem content_done (text : List UInt8) {receivedContent : Nat}
    (h : text.length ≤ receivedContent) (more : List UInt8) :
    ∃ t, Silent ByteParser.step (.content text receivedContent) more t := by
  induction more generalizing receivedContent with
  | nil => exact ⟨_, .nil _⟩
  | cons b more ih =>
    obtain ⟨t, ht⟩ := ih (Nat.le_succ_of_le h)
    refine ⟨t, .cons ?_ ht⟩
    rw [ByteParser.step, List.set_eq_of_length_le h]
    exact congrArg (fun answer => Except.ok (_, answer)) (if_neg (by omega))

theorem newArrayBuffer_number (n : Nat) :
    newArrayBuffer (.number n) = .ok (List.replicate n 0) := by
  rw [newArrayBuffer, Int.toNat_natCast]
  exact if_neg (Int.not_lt.mpr (Int.natCast_nonneg n))

theorem length_step (parser : ByteParser) (b : UInt8) (parser' : ByteParser)
    (h : parser.step b = .ok (parser', none)) :
    (ByteParser.length parser).step b = .ok (.length parser', none) := by
  rw [ByteParser.step, h]

/-- The length is complete and the buffer for the content exists. -/
theorem length_completes {parser t : ByteParser} {bs buffer : List UInt8} {status : Received}
    (h : Completes ByteParser.step parser bs status t)
    (hbuffer : newArrayBuffer status = .ok buffer) :
    Silent ByteParser.step (.length parser) bs (.content buffer 0) := by
  refine h.map_silent length_step fun s b t hstep => ?_
  rw [ByteParser.step, hstep]
  dsimp only
  rw [hbuffer]

/-- What a `utf8` is on the wire. -/
def encodedText (codeUnits : Integer) (text : List UInt8) : List UInt8 :=
  BigEndian.toBytes (findNumberOfBytesRequired codeUnits.maximum) text.length ++ text

section
variable {codeUnits : Integer} {text : List UInt8}

theorem text_silent (hnarrow : findNumberOfBytesRequired codeUnits.maximum ≠ 8)
    (hlength : codeUnits.contains text.length) (hsign : text.length < 2 ^ 31) :
    Silent ByteParser.step (.length (integerParserCreation codeUnits))
      (BigEndian.toBytes (findNumberOfBytesRequired codeUnits.maximum) text.length)
      (.content (List.replicate text.length 0) 0) := by
  obtain ⟨t, ht⟩ := integer_completes hnarrow hlength hsign
  exact length_completes ht (newArrayBuffer_number _)

theorem text_completes (hnarrow : findNumberOfBytesRequired codeUnits.maximum ≠ 8)
    (hlength : codeUnits.contains text.length) (hsign : text.length < 2 ^ 31) (h : text ≠ []) :
    Completes ByteParser.step (.length (integerParserCreation codeUnits))
      (encodedText codeUnits text) (.string (text.map UInt8.toUInt16))
      (.content text text.length) :=
  (text_silent hnarrow hlength hsign).completes (content_completes h)

/-- The parser waits for the end of an empty buffer, or refuses the length. -/
theorem text_mute (hlength : codeUnits.contains text.length)
    (h : text = [] ∨ findNumberOfBytesRequired codeUnits.maximum = 8 ∨ 2 ^ 31 ≤ text.length)
    (more : List UInt8) :
    Mute ByteParser.step (.length (integerParserCreation codeUnits))
      (encodedText codeUnits text ++ more) := by
  rw [encodedText, List.append_assoc]
  have hempty (rest : List UInt8) : Mute ByteParser.step (.content [] 0) rest := by
    obtain ⟨t, ht⟩ := content_done [] (Nat.le_refl 0) rest
    exact (List.append_nil rest) ▸ ht.mute (.nil t)
  by_cases hwide : findNumberOfBytesRequired codeUnits.maximum = 8
  · -- the halves are an object, which is no length
    obtain ⟨t, ht⟩ := wide_completes hwide hlength
    exact (length_completes ht rfl).mute (hempty _)
  by_cases hsign : text.length < 2 ^ 31
  · obtain rfl : text = [] := by
      rcases h with hnil | hfalse | hlarge
      · exact hnil
      · exact absurd hfalse hwide
      · omega
    exact (text_silent hwide hlength hsign).mute (hempty _)
  · obtain ⟨front, last, s, heq, hfront, hlast⟩ :=
      integer_refuses hwide hlength (Nat.not_lt.mp hsign)
    rw [heq, List.append_assoc]
    refine (hfront.map length_step).mute (.error (e := .outOfRange) ?_)
    rw [ByteParser.step, hlast]

end

/-- The string completes with its last byte, but only if it has one. -/
theorem parses_string {codeUnits : Integer} {text : List UInt8} {parser : ByteParser}
    (hmax : codeUnits.maximum.toNat < 2 ^ 31) (hlength : codeUnits.contains text.length)
    (hparser : generateParserCreation (.utf8 codeUnits) = some parser) (more : List UInt8) :
    reactions ByteParser.step parser (encodedText codeUnits text ++ more) =
        List.replicate ((encodedText codeUnits text).length - 1) .nothing ++
          .returns (.string (text.map UInt8.toUInt16)) :: List.replicate more.length .nothing ↔
      text ≠ [] := by
  have hnarrow : findNumberOfBytesRequired codeUnits.maximum ≠ 8 := by
    rw [Ne, findNumberOfBytesRequired_eq_eight]
    omega
  rw [generateParserCreation, Option.some.injEq] at hparser
  subst hparser
  constructor
  · rintro heq rfl
    refine text_mute hlength (.inl rfl) more (.string []) ?_
    rw [heq]
    simp
  · intro hne
    obtain ⟨t, ht⟩ := content_done text (Nat.le_refl _) more
    have hmore := ht.reactions []
    rw [List.append_nil, reactions, List.append_nil] at hmore
    rw [(text_completes hnarrow hlength (Nat.lt_of_le_of_lt hlength.2 hmax) hne).reactions, hmore]

theorem parses_string_two :
    reactions ByteParser.step (.length (integerParserCreation ⟨0, 255⟩))
        (encodedText ⟨0, 255⟩ [72, 105] ++ [0]) =
      List.replicate 2 .nothing ++ .returns (.string [72, 105]) :: List.replicate 1 .nothing :=
  (@parses_string ⟨0, 255⟩ [72, 105] _ (by decide) (by decide) rfl [0]).mpr (by decide)

/-- The empty string, and what follows it, is swallowed. -/
theorem parses_string_empty :
    reactions ByteParser.step (.length (integerParserCreation ⟨0, 255⟩))
        (encodedText ⟨0, 255⟩ [] ++ [65]) ≠ [.returns (.string []), .nothing] := by
  have hmute := @text_mute ⟨0, 255⟩ [] (by decide) (.inl rfl) [65] (.string [])
  intro heq
  rw [heq] at hmute
  exact hmute List.mem_cons_self

end JavaScript

end Warpcoil
