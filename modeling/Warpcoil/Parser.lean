import Warpcoil.Library.BigEndian
import Warpcoil.Library.Incremental
import Warpcoil.Value

/-! The incremental parsers. A parser object is a value of `Parser`; `parseByte` is its
`parse_byte` and the answers are those of `parse_result`. -/
namespace Warpcoil
open Incremental Platform

/-- `invalid_input`, or the `std::length_error` that `resize` and `reserve` throw. -/
inductive ParseFailure where
  | invalidInput | lengthError
deriving DecidableEq, Repr

/-- `integer_parser<Unsigned>`. -/
structure IntegerParser where
  unsigned : Uint
  result : Nat := 0
  bytesReceived : Nat := 0
deriving DecidableEq, Repr

def IntegerParser.parseByte (p : IntegerParser) (input : UInt8) :
    Step IntegerParser Nat ParseFailure :=
  let result := (p.result <<< 8) % 256 ^ p.unsigned.sizeof ||| input.toNat
  let bytesReceived := p.bytesReceived + 1
  if bytesReceived = p.unsigned.sizeof then .complete result true
  else .more { p with result, bytesReceived }

/-- `tuple_parser<T...>` or a `structure_parser` specialisation. -/
inductive Aggregate where
  | tuple
  | struct (name : Identifier)
deriving DecidableEq, Repr

def Aggregate.build : Aggregate → List Value → Value
  | .tuple, vs => .tuple vs
  | .struct _, vs => .struct vs

inductive Parser where
  | integer (parser : IntegerParser)
  | utf8Length (parser : IntegerParser)
  | utf8Element (result : List UInt8) (currentIndex : Nat)
  | vectorLength (parser : IntegerParser) (element : ParserType)
  | vectorElement (element : ParserType) (parser : Parser) (result : List Value)
      (capacity : Nat)
  | variantIndex (elements : List ParserType) (parser : IntegerParser)
  | variantElement (elements : List ParserType) (element : ParserType) (parser : Parser)
  | empty (kind : Aggregate)
  | currentElement (kind : Aggregate) (types : List ParserType) (current : Nat) (parser : Parser)
      (result : List Value)

/-- A default-constructed parser. -/
def ParserType.fresh : ParserType → Parser
  | .integer u => .integer { unsigned := u }
  | .utf8 length => .utf8Length { unsigned := length }
  | .vector length element => .vectorLength { unsigned := length } element
  | .variant elements => .variantIndex elements { unsigned := .uint8 }
  | .tuple [] => .empty .tuple
  | .tuple (p::ps) => .currentElement .tuple (p::ps) 0 p.fresh []
  | .struct name [] => .empty (.struct name)
  | .struct name (p::ps) => .currentElement (.struct name) (p::ps) 0 p.fresh []

/-- `Si::variant` takes the alternative from the type of the value it is built from. -/
def variantOf (elements : List ParserType) (element : ParserType) (v : Value) : Value :=
  .variant ((ParserType.resultTypes elements).idxOf element.resultType) v

def Parser.parseByte [Platform] : Parser → UInt8 → Step Parser Value ParseFailure
  | .integer p, input =>
    match p.parseByte input with
    | .complete n consumed => .complete (.integer n) consumed
    | .more p => .more (.integer p)
    | .fail e => .fail e
  | .utf8Length p, input =>
    match p.parseByte input with
    | .complete n consumed =>
      if stringMaxSize < n then .fail .lengthError
      else if n = 0 then .complete (.utf8 []) consumed
      else .more (.utf8Element (List.replicate n 0) 0)
    | .more p => .more (.utf8Length p)
    | .fail e => .fail e
  | .utf8Element result currentIndex, input =>
    let result := result.set currentIndex input
    if currentIndex = result.length - 1 then
      if isValid result then .complete (.utf8 result) true else .fail .invalidInput
    else .more (.utf8Element result (currentIndex + 1))
  | .vectorLength p element, input =>
    match p.parseByte input with
    | .complete n consumed =>
      if n = 0 then .complete (.vector []) consumed
      else if vectorMaxSize element.resultType < n then .fail .lengthError
      else .more (.vectorElement element element.fresh [] n)
    | .more p => .more (.vectorLength p element)
    | .fail e => .fail e
  | .vectorElement element p result capacity, input =>
    match p.parseByte input with
    | .complete v consumed =>
      let result := result ++ [v]
      if result.length = capacity then .complete (.vector result) consumed
      else .more (.vectorElement element element.fresh result capacity)
    | .more p => .more (.vectorElement element p result capacity)
    | .fail e => .fail e
  | .variantIndex elements p, input =>
    match p.parseByte input with
    | .more p => .more (.variantIndex elements p)
    | .fail e => .fail e
    | .complete index _ =>
      match elements[index]? with
      | none => .fail .invalidInput
      | some element => .more (.variantElement elements element element.fresh)
  | .variantElement elements element p, input =>
    match p.parseByte input with
    | .complete v consumed => .complete (variantOf elements element v) consumed
    | .more p => .more (.variantElement elements element p)
    | .fail e => .fail e
  | .empty kind, _ => .complete (kind.build []) false
  | .currentElement kind types current p result, input =>
    match p.parseByte input with
    | .more p => .more (.currentElement kind types current p result)
    | .fail e => .fail e
    | .complete v consumed =>
      let result := result ++ [v]
      -- go_to_next_state: only the last element hands its input_consumption on
      match types[current + 1]? with
      | some next => .more (.currentElement kind types (current + 1) next.fresh result)
      | none => .complete (kind.build result) consumed

/-- With one element the default-constructed result is returned as it is. -/
def Parser.checkForImmediateCompletion : Parser → Option Value
  | .empty kind => some (kind.build [])
  | .currentElement kind types _ p _ =>
    if types.length = 1 then p.checkForImmediateCompletion.map fun v => kind.build [v]
    else none
  | .integer _ | .utf8Length _ | .utf8Element _ _ | .vectorLength _ _
  | .vectorElement _ _ _ _ | .variantIndex _ _ | .variantElement _ _ _ => none

/-- The loop of `parse_operation::start` over the receive buffer. -/
abbrev Parser.read [Platform] (p : Parser) (bs : List UInt8) :
    Reading Parser UInt8 Value ParseFailure :=
  Incremental.read Parser.parseByte p bs

/-! A parser that can only stop on a byte it consumes. -/

def Parser.Solid : Parser → Prop
  | .integer _ | .utf8Length _ | .utf8Element _ _ => True
  | .vectorLength _ element => element.solid = true
  | .vectorElement element p _ _ => element.solid = true ∧ p.Solid
  | .variantIndex elements _ => ParserType.allSolid elements = true
  | .variantElement _ _ p => p.Solid
  | .empty _ => False
  | .currentElement _ types _ p _ => ParserType.allSolid types = true ∧ p.Solid

theorem ParserType.solid_fresh : ∀ p : ParserType, p.solid = true → p.fresh.Solid
  | .integer _, _ | .utf8 _, _ => trivial
  | .vector _ _, h => h
  | .variant elements, h => by
    simp only [ParserType.solid, Bool.and_eq_true] at h
    exact h.2
  | .tuple [], h | .struct _ [], h => by simp [ParserType.solid] at h
  | .tuple (p::ps), h | .struct _ (p::ps), h => by
    simp only [ParserType.solid, Bool.and_eq_true] at h
    have hp : p.solid = true := (ParserType.allSolid_iff _).mp h.2 p (by simp)
    exact ⟨h.2, ParserType.solid_fresh p hp⟩

theorem IntegerParser.exact :
    Exact IntegerParser.parseByte (fun _ => True) := by
  intro p b _
  by_cases h : p.bytesReceived + 1 = p.unsigned.sizeof <;>
    simp [IntegerParser.parseByte, h]

-- The equations that the proofs below this module rewrite with are made once, here.
attribute [local simp] Parser.parseByte

end Warpcoil
