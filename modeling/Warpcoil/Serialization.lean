import Warpcoil.Library.BigEndian
import Warpcoil.Library.Emission
import Warpcoil.Value

/-! The statements `generate_value_serialization` emits, as what they append to the sink
and whether they leave through the invalid-input return. -/
namespace Warpcoil
open Platform

/-- `write_integer` of a value of type `u`. -/
def writeInteger (u : Uint) (value : Nat) : List UInt8 :=
  (List.range u.sizeof).map fun i => UInt8.ofNat (value >>> ((u.sizeof - 1 - i) * 8))

/-- The range check and the `write_integer` of a `static_cast` to the suitable type. -/
def serializeInteger (range : Integer) (value : Nat) : Emission UInt8 :=
  let u := findSuitableUintCppType range
  if range.minimum = 0 then
    if value > range.maximum.toNat then .leave
    else .emit (writeInteger u (value % 256 ^ u.sizeof))
  else
    if value < range.minimum.toNat ∨ value > range.maximum.toNat then .leave
    else .emit (writeInteger u (value % 256 ^ u.sizeof))

/-- The range of a variant's index: `{0, elements.size() - 1}`. -/
def variantIndexRange (elements : List Ty) : Integer :=
  ⟨0, UInt64.ofNat elements.length - 1⟩

mutual
/-- A value of another shape than the type's is not a C++ program; it is refused. -/
def generateValueSerialization [Platform] : Ty → Value → Emission UInt8
  | .integer range, .integer n => serializeInteger range n
  | .variant elements, .variant index v =>
    (serializeInteger (variantIndexRange elements) index).seq
      (serializeCase elements index v)
  | .tuple elements, .tuple vs => serializeEach elements vs
  | .vector length element, .vector vs =>
    (serializeInteger length vs.length).seq
      (.all (vs.map (generateValueSerialization element)))
  | .utf8 codeUnits, .utf8 text =>
    if isValid text then
      (serializeInteger codeUnits text.length).seq (.emit text)
    else .leave
  | .struct elements, .struct vs => serializeFields elements vs
  | _, _ => .leave
/-- The `switch` over the index. -/
def serializeCase [Platform] : List Ty → Nat → Value → Emission UInt8
  | t::_, 0, v => generateValueSerialization t v
  | _::ts, index+1, v => serializeCase ts index v
  | [], _, _ => .leave
def serializeEach [Platform] : List Ty → List Value → Emission UInt8
  | [], [] => .done
  | t::ts, v::vs => (generateValueSerialization t v).seq (serializeEach ts vs)
  | _, _ => .leave
def serializeFields [Platform] : List (Ty × Identifier) → List Value → Emission UInt8
  | [], [] => .done
  | (t,_)::ts, v::vs => (generateValueSerialization t v).seq (serializeFields ts vs)
  | _, _ => .leave
end

theorem writeInteger_eq (u : Uint) (value : Nat) :
    writeInteger u value = BigEndian.toBytes u.sizeof value := by
  cases u <;> simp [writeInteger, Uint.sizeof, BigEndian.toBytes, List.range_succ]

def Integer.contains (range : Integer) (value : Nat) : Prop :=
  range.minimum.toNat ≤ value ∧ value ≤ range.maximum.toNat

instance (range : Integer) (value : Nat) : Decidable (range.contains value) :=
  inferInstanceAs (Decidable (_ ∧ _))

theorem Integer.contains.lt {range : Integer} {value : Nat} (h : range.contains value) :
    value < 256 ^ (findSuitableUintCppType range).sizeof :=
  Nat.lt_of_le_of_lt h.2 (maximum_lt_sizeof range)

/-- Both forms of the emitted check say that the value is in range. -/
theorem serializeInteger_eq (range : Integer) (value : Nat) :
    serializeInteger range value =
      if range.contains value then
        .emit (BigEndian.toBytes (findSuitableUintCppType range).sizeof value)
      else .leave := by
  have hwrite (h : range.contains value) :
      writeInteger (findSuitableUintCppType range)
        (value % 256 ^ (findSuitableUintCppType range).sizeof) =
      BigEndian.toBytes (findSuitableUintCppType range).sizeof value := by
    rw [writeInteger_eq, Nat.mod_eq_of_lt h.lt]
  by_cases h : range.contains value
  · have hmin : ¬ value < range.minimum.toNat := Nat.not_lt.mpr h.1
    have hmax : ¬ value > range.maximum.toNat := Nat.not_lt.mpr h.2
    simp only [serializeInteger, hmin, hmax, hwrite h, h, if_true, if_false, or_self, ite_self]
  · rw [if_neg h]
    by_cases hzero : range.minimum = 0
    · have hmax : value > range.maximum.toNat := by
        simp only [Integer.contains, hzero, UInt64.toNat_zero, Nat.zero_le, true_and] at h
        omega
      simp [serializeInteger, hzero, hmax]
    · have hout : value < range.minimum.toNat ∨ value > range.maximum.toNat := by
        simp only [Integer.contains] at h
        omega
      simp only [serializeInteger, if_neg hzero, if_pos hout]

theorem serializeInteger_ok {range : Integer} {value : Nat} :
    (serializeInteger range value).ok = true ↔ range.contains value := by
  rw [serializeInteger_eq]
  split_ifs with h <;> simp [h]

theorem serializeInteger_output {range : Integer} {value : Nat} (h : range.contains value) :
    (serializeInteger range value).output =
      BigEndian.toBytes (findSuitableUintCppType range).sizeof value := by
  rw [serializeInteger_eq, if_pos h]
  rfl

theorem variantIndexRange_maximum (elements : List Ty)
    (hne : elements ≠ []) (h : elements.length ≤ 256) :
    (variantIndexRange elements).maximum.toNat = elements.length - 1 := by
  have hpos : 1 ≤ elements.length := List.length_pos_iff.mpr hne
  have hn : (UInt64.ofNat elements.length).toNat = elements.length := by
    rw [UInt64.toNat_ofNat', Nat.mod_eq_of_lt]; omega
  have hle : (1 : UInt64) ≤ UInt64.ofNat elements.length := by
    rw [UInt64.le_iff_toNat_le, hn]; exact hpos
  rw [variantIndexRange, UInt64.toNat_sub_of_le _ _ hle, hn]
  rfl

/-- Up to 256 alternatives the index is written into one byte. -/
theorem variantIndexRange_uint8 (elements : List Ty)
    (hne : elements ≠ []) (h : elements.length ≤ 256) :
    findSuitableUintCppType (variantIndexRange elements) = .uint8 := by
  have hmax := variantIndexRange_maximum elements hne h
  have hle : (variantIndexRange elements).maximum ≤ 0xff := by
    rw [UInt64.le_iff_toNat_le, hmax]
    change elements.length - 1 ≤ 255
    omega
  simp [findSuitableUintCppType, hle]

theorem variantIndexRange_contains (elements : List Ty)
    (hne : elements ≠ []) (h : elements.length ≤ 256) (index : Nat) :
    (variantIndexRange elements).contains index ↔ index < elements.length := by
  have hmax := variantIndexRange_maximum elements hne h
  have hpos : 1 ≤ elements.length := List.length_pos_iff.mpr hne
  rw [Integer.contains, hmax]
  change 0 ≤ index ∧ index ≤ elements.length - 1 ↔ _
  omega

end Warpcoil
