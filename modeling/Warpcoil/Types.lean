import Mathlib.Algebra.Group.Nat.Defs
import Mathlib.Data.List.Basic
import Mathlib.Data.List.Nodup

/-! Interface types, the C++ types the generator names for their values, and the parser
types it names for their encodings. -/
namespace Warpcoil

abbrev Identifier := List UInt8

/-- `types::integer`. -/
structure Integer where
  minimum : UInt64 := 0
  maximum : UInt64 := 0xffffffffffffffff
deriving DecidableEq, Repr

/-- `types::type`, with its alternatives in the order of their variant index. -/
inductive Ty where
  | integer (range : Integer)
  | variant (elements : List Ty)
  | tuple (elements : List Ty)
  | vector (length : Integer) (element : Ty)
  | utf8 (codeUnits : Integer)
  | struct (elements : List (Ty × Identifier))

inductive TypeEmptiness where
  | empty | nonEmpty
deriving DecidableEq, Repr

/-- The unsigned types `std::uint8_t` to `std::uint64_t`. -/
inductive Uint where
  | uint8 | uint16 | uint32 | uint64
deriving DecidableEq, Repr

def Uint.sizeof : Uint → Nat
  | .uint8 => 1
  | .uint16 => 2
  | .uint32 => 4
  | .uint64 => 8

theorem Uint.sizeof_pos (u : Uint) : 0 < u.sizeof := by cases u <;> decide

def findSuitableUintCppType (range : Integer) : Uint :=
  if range.maximum ≤ 0xff then .uint8
  else if range.maximum ≤ 0xffff then .uint16
  else if range.maximum ≤ 0xffffffff then .uint32
  else .uint64

theorem maximum_lt_sizeof (range : Integer) :
    range.maximum.toNat < 256 ^ (findSuitableUintCppType range).sizeof := by
  unfold findSuitableUintCppType
  split_ifs with h1 h2 h3
  · exact Nat.lt_succ_of_le (UInt64.le_iff_toNat_le.mp h1)
  · exact Nat.lt_succ_of_le (UInt64.le_iff_toNat_le.mp h2)
  · exact Nat.lt_succ_of_le (UInt64.le_iff_toNat_le.mp h3)
  · exact range.maximum.toNat_lt

def generateNameForStructure (elements : List (Ty × Identifier)) : Identifier :=
  "structure_to_do".toList.map (fun c => UInt8.ofNat c.toNat) ++
    elements.flatMap fun element => UInt8.ofNat '_'.toNat :: element.2

/-- The C++ types that `generate_type` names. -/
inductive CppType where
  | uint (u : Uint)
  | variant (elements : List CppType)
  | tuple (elements : List CppType)
  | vector (element : CppType)
  | string
  | struct (name : Identifier)
deriving Repr

mutual
def CppType.decEq : (a b : CppType) → Decidable (a = b)
  | .uint u, .uint v => decidable_of_iff (u = v) (by simp)
  | .variant as, .variant bs =>
    have := CppType.decEqs as bs
    decidable_of_iff (as = bs) (by simp)
  | .tuple as, .tuple bs =>
    have := CppType.decEqs as bs
    decidable_of_iff (as = bs) (by simp)
  | .vector a, .vector b =>
    have := CppType.decEq a b
    decidable_of_iff (a = b) (by simp)
  | .string, .string => isTrue rfl
  | .struct m, .struct n => decidable_of_iff (m = n) (by simp)
  | .uint _, .variant _ | .uint _, .tuple _ | .uint _, .vector _ | .uint _, .string
  | .uint _, .struct _ | .variant _, .uint _ | .variant _, .tuple _ | .variant _, .vector _
  | .variant _, .string | .variant _, .struct _ | .tuple _, .uint _ | .tuple _, .variant _
  | .tuple _, .vector _ | .tuple _, .string | .tuple _, .struct _ | .vector _, .uint _
  | .vector _, .variant _ | .vector _, .tuple _ | .vector _, .string | .vector _, .struct _
  | .string, .uint _ | .string, .variant _ | .string, .tuple _ | .string, .vector _
  | .string, .struct _ | .struct _, .uint _ | .struct _, .variant _ | .struct _, .tuple _
  | .struct _, .vector _ | .struct _, .string => isFalse (by simp)
def CppType.decEqs : (as bs : List CppType) → Decidable (as = bs)
  | [], [] => isTrue rfl
  | a::as, b::bs =>
    have := CppType.decEq a b
    have := CppType.decEqs as bs
    decidable_of_iff (a = b ∧ as = bs) (by simp)
  | [], _::_ | _::_, [] => isFalse (by simp)
end

instance : DecidableEq CppType := CppType.decEq

mutual
def generateType : Ty → CppType
  | .integer range => .uint (findSuitableUintCppType range)
  | .variant elements => .variant (generateTypes elements)
  | .tuple elements => .tuple (generateTypes elements)
  | .vector _ element => .vector (generateType element)
  | .utf8 _ => .string
  | .struct elements => .struct (generateNameForStructure elements)
def generateTypes : List Ty → List CppType
  | [] => []
  | t::ts => generateType t :: generateTypes ts
end

/-- What `generate_type` returns. -/
def typeEmptiness : Ty → TypeEmptiness
  | .variant elements => if elements.isEmpty then .empty else .nonEmpty
  | .tuple elements => if elements.isEmpty then .empty else .nonEmpty
  | .struct elements => if elements.isEmpty then .empty else .nonEmpty
  | .integer _ | .vector _ _ | .utf8 _ => .nonEmpty

/-- The parser types that `generate_parser_type` names. A length is always an
`integer_parser`; a `structure_parser` stands for its specialisation. -/
inductive ParserType where
  | integer (unsigned : Uint)
  | utf8 (length : Uint)
  | vector (length : Uint) (element : ParserType)
  | variant (elements : List ParserType)
  | tuple (elements : List ParserType)
  | struct (name : Identifier) (elements : List ParserType)

/-- The bits `generate_parser_type` chooses for an integer. -/
def integerParserBits (parsed : Integer) : Uint :=
  if parsed.maximum ≤ 0xff then .uint8
  else if parsed.maximum ≤ 0xffff then .uint16
  else if parsed.maximum ≤ 0xffffffff then .uint32
  else .uint64

theorem integerParserBits_eq (range : Integer) :
    integerParserBits range = findSuitableUintCppType range := rfl

mutual
def generateParserType : Ty → ParserType
  | .integer parsed => .integer (integerParserBits parsed)
  | .variant elements => .variant (generateParserTypes elements)
  | .tuple elements => .tuple (generateParserTypes elements)
  | .vector length element => .vector (integerParserBits length) (generateParserType element)
  | .utf8 codeUnits => .utf8 (integerParserBits codeUnits)
  | .struct elements =>
    .struct (generateNameForStructure elements) (generateElementParserTypes elements)
def generateParserTypes : List Ty → List ParserType
  | [] => []
  | t::ts => generateParserType t :: generateParserTypes ts
def generateElementParserTypes : List (Ty × Identifier) → List ParserType
  | [] => []
  | (t,_)::ts => generateParserType t :: generateElementParserTypes ts
end

mutual
/-- `Parser::result_type`. -/
def ParserType.resultType : ParserType → CppType
  | .integer u => .uint u
  | .utf8 _ => .string
  | .vector _ element => .vector element.resultType
  | .variant elements => .variant (ParserType.resultTypes elements)
  | .tuple elements => .tuple (ParserType.resultTypes elements)
  | .struct name _ => .struct name
def ParserType.resultTypes : List ParserType → List CppType
  | [] => []
  | p::ps => p.resultType :: ParserType.resultTypes ps
end

mutual
theorem resultType_generateParserType : ∀ t : Ty,
    (generateParserType t).resultType = generateType t
  | .integer _ | .utf8 _ | .struct _ => rfl
  | .variant elements | .tuple elements => by
    simp only [generateParserType, ParserType.resultType, generateType,
      resultTypes_generateParserTypes elements]
  | .vector _ element => by
    simp only [generateParserType, ParserType.resultType, generateType,
      resultType_generateParserType element]
theorem resultTypes_generateParserTypes : ∀ ts : List Ty,
    ParserType.resultTypes (generateParserTypes ts) = generateTypes ts
  | [] => rfl
  | t::ts => by
    simp only [generateParserTypes, ParserType.resultTypes, generateTypes,
      resultType_generateParserType t, resultTypes_generateParserTypes ts]
end

theorem generateParserTypes_length (ts : List Ty) :
    (generateParserTypes ts).length = ts.length := by
  induction ts with
  | nil => rfl
  | cons t ts ih => simp [generateParserTypes, ih]

mutual
/-- No empty tuple or structure anywhere, and every variant has one to 256 alternatives
of pairwise distinct C++ types. -/
def Ty.solid : Ty → Bool
  | .integer _ | .utf8 _ => true
  | .vector _ element => element.solid
  | .tuple elements => !elements.isEmpty && Ty.allSolid elements
  | .struct elements => !elements.isEmpty && Ty.allElementsSolid elements
  | .variant elements => !elements.isEmpty && decide (elements.length ≤ 256) &&
    decide (generateTypes elements).Nodup && Ty.allSolid elements
def Ty.allSolid : List Ty → Bool
  | [] => true
  | t::ts => t.solid && Ty.allSolid ts
def Ty.allElementsSolid : List (Ty × Identifier) → Bool
  | [] => true
  | (t,_)::ts => t.solid && Ty.allElementsSolid ts
end

mutual
/-- The same for parsers: none of them can complete without a byte of its own. -/
def ParserType.solid : ParserType → Bool
  | .integer _ | .utf8 _ => true
  | .vector _ element => element.solid
  | .tuple elements => !elements.isEmpty && ParserType.allSolid elements
  | .struct _ elements => !elements.isEmpty && ParserType.allSolid elements
  | .variant elements =>
    decide (ParserType.resultTypes elements).Nodup && ParserType.allSolid elements
def ParserType.allSolid : List ParserType → Bool
  | [] => true
  | p::ps => p.solid && ParserType.allSolid ps
end

theorem ParserType.allSolid_iff (ps : List ParserType) :
    ParserType.allSolid ps = true ↔ ∀ p ∈ ps, p.solid = true := by
  induction ps with
  | nil => simp [ParserType.allSolid]
  | cons p ps ih => simp [ParserType.allSolid, ih]

mutual
theorem Ty.solid_generateParserType : ∀ t : Ty, t.solid = true →
    (generateParserType t).solid = true
  | .integer _, _ | .utf8 _, _ => rfl
  | .vector _ element, h => Ty.solid_generateParserType element h
  | .tuple elements, h => by
    simp only [Ty.solid, Bool.and_eq_true] at h
    cases elements with
    | nil => simp at h
    | cons t ts => simpa [generateParserType, ParserType.solid, generateParserTypes] using
        Ty.allSolid_generateParserTypes (t::ts) h.2
  | .struct elements, h => by
    simp only [Ty.solid, Bool.and_eq_true] at h
    cases elements with
    | nil => simp at h
    | cons t ts => simpa [generateParserType, ParserType.solid, generateElementParserTypes] using
        Ty.allSolid_generateElementParserTypes (t::ts) h.2
  | .variant elements, h => by
    simp only [Ty.solid, Bool.and_eq_true] at h
    simp only [generateParserType, ParserType.solid, Bool.and_eq_true,
      resultTypes_generateParserTypes]
    exact ⟨h.1.2, Ty.allSolid_generateParserTypes elements h.2⟩
theorem Ty.allSolid_generateParserTypes : ∀ ts : List Ty, Ty.allSolid ts = true →
    ParserType.allSolid (generateParserTypes ts) = true
  | [], _ => rfl
  | t::ts, h => by
    simp only [Ty.allSolid, Bool.and_eq_true] at h
    simp only [generateParserTypes, ParserType.allSolid, Bool.and_eq_true]
    exact ⟨Ty.solid_generateParserType t h.1, Ty.allSolid_generateParserTypes ts h.2⟩
theorem Ty.allSolid_generateElementParserTypes : ∀ ts : List (Ty × Identifier),
    Ty.allElementsSolid ts = true →
    ParserType.allSolid (generateElementParserTypes ts) = true
  | [], _ => rfl
  | (t,_)::ts, h => by
    simp only [Ty.allElementsSolid, Bool.and_eq_true] at h
    simp only [generateElementParserTypes, ParserType.allSolid, Bool.and_eq_true]
    exact ⟨Ty.solid_generateParserType t h.1, Ty.allSolid_generateElementParserTypes ts h.2⟩
end

/-- `types::method`, with the parameter names left out. -/
structure Method where
  result : Ty
  parameters : List Ty

/-- `types::interface_definition`: a map from names, which the generator emits as C++
identifiers and as C strings. -/
structure InterfaceDefinition where
  methods : List (Identifier × Method)
  sorted : (methods.map Prod.fst).Pairwise (· < ·)
  terminated : ∀ m ∈ methods, (0 : UInt8) ∉ m.1

def getParameterType (parameters : List Ty) : Ty := .tuple parameters

end Warpcoil
