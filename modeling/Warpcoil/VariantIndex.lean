import Warpcoil.ZeroWidth

/-! The index of a variant: its width in the encoding and in `variant_parser`. -/
namespace Warpcoil
open Incremental Platform

theorem generateTypes_eq_map (ts : List Ty) : generateTypes ts = ts.map generateType := by
  induction ts with
  | nil => rfl
  | cons t ts ih => simp [generateTypes, ih]

/-- The index takes one byte up to 256 alternatives and more from there on. -/
theorem variantIndexRange_uint8_iff (elements : List Ty) (hne : elements ≠ [])
    (hsize : elements.length < 2 ^ 64) :
    findSuitableUintCppType (variantIndexRange elements) = .uint8 ↔ elements.length ≤ 256 := by
  constructor
  · intro h
    have hpos : 1 ≤ elements.length := List.length_pos_iff.mpr hne
    have hn : (UInt64.ofNat elements.length).toNat = elements.length := by
      rw [UInt64.toNat_ofNat', Nat.mod_eq_of_lt hsize]
    have hle : (1 : UInt64) ≤ UInt64.ofNat elements.length := by
      rw [UInt64.le_iff_toNat_le, hn]; exact hpos
    have hmax : (variantIndexRange elements).maximum.toNat = elements.length - 1 := by
      rw [variantIndexRange, UInt64.toNat_sub_of_le _ _ hle, hn]; rfl
    have hlt := maximum_lt_sizeof (variantIndexRange elements)
    rw [h, hmax] at hlt
    change elements.length - 1 < 256 at hlt
    omega
  · exact variantIndexRange_uint8 elements hne

variable [Platform]

/-- The width of the field the code writes an index into is the width of the parser that
reads it. -/
def Ty.IndexAgrees (elements : List Ty) (index : Nat) : Prop :=
  ∃ parser : IntegerParser,
    (generateParserType (.variant elements)).fresh =
      .variantIndex (generateParserTypes elements) parser ∧
    (serializeInteger (variantIndexRange elements) index).output.length =
      parser.unsigned.sizeof

omit [Platform] in
theorem indexAgrees_iff (elements : List Ty) (hne : elements ≠ [])
    (hsize : elements.length < 2 ^ 64) (index : Nat)
    (hok : (serializeInteger (variantIndexRange elements) index).ok = true) :
    Ty.IndexAgrees elements index ↔ elements.length ≤ 256 := by
  rw [← variantIndexRange_uint8_iff elements hne hsize]
  have hlength := serializeInteger_length hok
  rw [integerParserBits_eq] at hlength
  constructor
  · rintro ⟨parser, hfresh, hwidth⟩
    cases hfresh
    rw [hlength] at hwidth
    cases hbits : findSuitableUintCppType (variantIndexRange elements) with
    | uint8 => rfl
    | uint16 | uint32 | uint64 => rw [hbits] at hwidth; cases hwidth
  · intro h
    exact ⟨_, rfl, by rw [hlength, h]⟩

/-! What holds of the alternative that is held holds of the variant. -/

omit [Platform] in
theorem resultTypes_nodup {elements : List Ty} (hdistinct : (generateTypes elements).Nodup) :
    (ParserType.resultTypes (generateParserTypes elements)).Nodup := by
  rw [resultTypes_generateParserTypes]
  exact hdistinct

omit [Platform] in
theorem generateParserTypes_some {elements : List Ty} {index : Nat} {element : Ty}
    (helement : elements[index]? = some element) :
    (generateParserTypes elements)[index]? = some (generateParserType element) := by
  rw [generateParserTypes_getElem, helement, Option.map_some]

omit [Platform] in
theorem narrow_variant {elements : List Ty} (hdistinct : (generateTypes elements).Nodup)
    (hwidth : elements.length ≤ 256) {index : Nat} {element : Ty}
    (helement : elements[index]? = some element) {v : Value}
    (h : (generateParserType element).narrow v = true) :
    (generateParserType (.variant elements)).narrow (.variant index v) = true := by
  have hparser := generateParserTypes_some helement
  have hfirst := (Value.variant.inj (variantOf_getElem _ (resultTypes_nodup hdistinct) index _
    hparser v)).1
  rw [generateParserType, ParserType.narrow, ParserType.variants, narrowIndex,
    generateParserTypes_length, hparser, ParserType.variantsCase_eq _ hparser, Bool.and_eq_true,
    Bool.and_eq_true, Option.all_some, decide_eq_true_eq, decide_eq_true_eq]
  exact ⟨⟨hwidth, hfirst⟩, h⟩

omit [Platform] in
theorem distinct_variant {elements : List Ty} (hdistinct : (generateTypes elements).Nodup)
    {index : Nat} {element : Ty} (helement : elements[index]? = some element) {v : Value}
    (h : (generateParserType element).distinct v = true) :
    (generateParserType (.variant elements)).distinct (.variant index v) = true := by
  rw [generateParserType, ParserType.distinct, ParserType.variants, distinctTypes,
    ParserType.variantsCase_eq _ (generateParserTypes_some helement), Bool.and_eq_true,
    decide_eq_true_eq]
  exact ⟨resultTypes_nodup hdistinct, h⟩

omit [Platform] in
theorem empties_variant {elements : List Ty} {index : Nat} {element : Ty}
    (helement : elements[index]? = some element) (v : Value) :
    (generateParserType (.variant elements)).empties (.variant index v) =
      (generateParserType element).empties v := by
  rw [generateParserType, ParserType.empties, ParserType.weigh,
    ParserType.weighCase_eq 0 1 (generateParserTypes_some helement), Nat.zero_add]
  rfl

omit [Platform] in
theorem surplus_variant {elements : List Ty} (hwidth : elements.length ≤ 256) {index : Nat}
    {element : Ty} (helement : elements[index]? = some element) (v : Value) :
    (generateParserType (.variant elements)).surplus (.variant index v) =
      (generateParserType element).surplus v := by
  rw [generateParserType, ParserType.surplus, generateParserTypes_length, indexWidth_le hwidth,
    ParserType.surplusCase_eq (generateParserTypes_some helement), Nat.sub_self, Nat.zero_add]

/-- Index and element come back where there are at most 256 alternatives, every variant met in the
element has at most 256 as well and holds the first of its C++ type, and no empty tuple or structure
is met. They come back only where there are at most 256 alternatives and, if all variants have
alternatives of distinct types, as many surplus index bytes as empty parts are met. The number of
alternatives is a `std::size_t`. -/
theorem variant_index_width (elements : List Ty) (hsize : elements.length < 2 ^ 64)
    (hdistinct : (generateTypes elements).Nodup) (index : Nat) (v : Value)
    (hfits : (Value.variant index v).fits (.variant elements) = true)
    (hok : (generateValueSerialization (.variant elements) (.variant index v)).ok = true) :
    ∃ element, elements[index]? = some element ∧
      (elements.length ≤ 256 ∧ (generateParserType element).narrow v = true ∧
          (generateParserType element).empties v = 0 →
        Ty.IndexAgrees elements index ∧
          (generateParserType (.variant elements)).Undisturbed
            (generateValueSerialization (.variant elements) (.variant index v)).output
            (.variant index v)) ∧
      (Ty.IndexAgrees elements index ∧
          (generateParserType (.variant elements)).Undisturbed
            (generateValueSerialization (.variant elements) (.variant index v)).output
            (.variant index v) →
        elements.length ≤ 256 ∧
          ((generateParserType element).distinct v = true →
            (generateParserType element).surplus v = (generateParserType element).empties v)) ∧
      ((generateParserType element).plain v = true →
        (Ty.IndexAgrees elements index ∧
            (generateParserType (.variant elements)).Undisturbed
              (generateValueSerialization (.variant elements) (.variant index v)).output
              (.variant index v) ↔
          elements.length ≤ 256 ∧ (generateParserType element).empties v = 0)) := by
  obtain ⟨element, helement, -⟩ := fitsCase_getElem hfits
  have hne : elements ≠ [] := by rintro rfl; simp at helement
  have hindex : (serializeInteger (variantIndexRange elements) index).ok = true := by
    simp only [generateValueSerialization, Emission.seq_ok, Bool.and_eq_true] at hok
    exact hok.1
  rw [indexAgrees_iff elements hne hsize index hindex, ParserType.undisturbed_iff]
  change ∃ element, _ ∧ (_ → _ ∧ (Ty.variant elements).ReadsBack (.variant index v)) ∧
    (_ ∧ (Ty.variant elements).ReadsBack (.variant index v) → _) ∧
    (_ → (_ ∧ (Ty.variant elements).ReadsBack (.variant index v) ↔ _))
  have hsufficient (hwidth : elements.length ≤ 256)
      (hnarrow : (generateParserType element).narrow v = true)
      (hempties : (generateParserType element).empties v = 0) :
      (Ty.variant elements).ReadsBack (.variant index v) :=
    readsBack_of_narrow hfits hok (narrow_variant hdistinct hwidth helement hnarrow)
      ((empties_variant helement v).trans hempties)
  have hnecessary (hwidth : elements.length ≤ 256)
      (hreads : (Ty.variant elements).ReadsBack (.variant index v))
      (hnested : (generateParserType element).distinct v = true) :
      (generateParserType element).surplus v = (generateParserType element).empties v := by
    rw [← surplus_variant hwidth helement, ← empties_variant helement]
    exact hreads.balance hfits hok (distinct_variant hdistinct helement hnested)
  refine ⟨element, helement, fun h => ⟨h.1, hsufficient h.1 h.2.1 h.2.2⟩,
    fun h => ⟨h.1, hnecessary h.1 h.2⟩, fun hplain => ⟨fun h => ⟨h.1, ?_⟩, fun h => ⟨h.1, ?_⟩⟩⟩
  · rw [← hnecessary h.1 h.2 (ParserType.plain_distinct hplain)]
    exact ParserType.narrow_surplus (ParserType.plain_narrow hplain)
  · exact hsufficient h.1 (ParserType.plain_narrow hplain) h.2

omit [Platform] in
/-- The alternative that is held has a variant inside, whose two alternatives have one C++ type. -/
theorem variant_index_width_nested :
    letI := Platform.reference
    let elements : List Ty := [.integer ⟨0, 255⟩,
      .tuple [.utf8 ⟨0, 9⟩, .variant [.integer ⟨0, 9⟩, .integer ⟨0, 99⟩]]]
    Ty.IndexAgrees elements 1 ∧
      (generateParserType (.variant elements)).Undisturbed [1, 2, 0x61, 0x62, 0, 7]
        (.variant 1 (.tuple [.utf8 [0x61, 0x62], .variant 0 (.integer 7)])) := by
  letI := Platform.reference
  intro elements
  obtain ⟨element, helement, hreads, -⟩ := variant_index_width elements (by decide) (by decide) 1
    (.tuple [.utf8 [0x61, 0x62], .variant 0 (.integer 7)]) (by decide) (by decide)
  obtain rfl := Option.some.inj helement
  have hbytes : (generateValueSerialization (.variant elements)
      (.variant 1 (.tuple [.utf8 [0x61, 0x62], .variant 0 (.integer 7)]))).output =
      [1, 2, 0x61, 0x62, 0, 7] := by decide
  rw [← hbytes]
  exact hreads ⟨by decide, by decide, by decide⟩

/-- Vectors of vectors, all of different C++ types. -/
def nestedVector : Nat → Ty
  | 0 => .integer ⟨0, 255⟩
  | n+1 => .vector ⟨0, 9⟩ (nestedVector n)

omit [Platform] in
theorem nestedVector_injective : ∀ m n : Nat,
    generateType (nestedVector m) = generateType (nestedVector n) → m = n
  | 0, 0, _ => rfl
  | 0, n+1, h | n+1, 0, h => by simp [nestedVector, generateType] at h
  | m+1, n+1, h => by
    simp only [nestedVector, generateType, CppType.vector.injEq] at h
    rw [nestedVector_injective m n h]

omit [Platform] in
/-- The second byte of an index is taken for the element: 257 alternatives, the first one
holding 5. -/
theorem wide_index_misread :
    letI := Platform.reference
    let elements := (List.range 257).map nestedVector
    let v : Value := .variant 0 (.integer 5)
    (generateTypes elements).Nodup ∧ v.fits (.variant elements) = true ∧
      (generateValueSerialization (.variant elements) v).ok = true ∧
      (generateValueSerialization (.variant elements) v).output = [0, 0, 5] ∧
      (generateParserType (.variant elements)).parse [0, 0, 5] =
        .complete (.variant 0 (.integer 0)) [5] ∧
      ¬ Ty.IndexAgrees elements 0 ∧
      ¬ (generateParserType (.variant elements)).Undisturbed
        (generateValueSerialization (.variant elements) v).output v := by
  letI := Platform.reference
  intro elements v
  have hnodup : (generateTypes elements).Nodup := by
    rw [generateTypes_eq_map, List.map_map]
    exact List.nodup_range.map fun m n => nestedVector_injective m n
  have hcons : elements =
      nestedVector 0 :: ((List.range 256).map Nat.succ).map nestedVector :=
    congrArg (List.map nestedVector) List.range_succ_eq_map
  have hlength : elements.length = 257 := by rw [List.length_map, List.length_range]
  have hrange : variantIndexRange elements = ⟨0, 256⟩ := by
    rw [variantIndexRange, hlength]
    rfl
  have hindex : serializeInteger (variantIndexRange elements) 0 = .emit [0, 0] := by
    rw [hrange]
    rfl
  have hoption : elements[0]? = some (nestedVector 0) := by rw [hcons]; rfl
  have hemission : generateValueSerialization (.variant elements) v = .emit [0, 0, 5] := by
    rw [generateValueSerialization, hindex, serializeCase_eq hoption]
    rfl
  have hdiffers : ¬ elements.length ≤ 256 := by rw [hlength]; decide
  have hparse : (generateParserType (.variant elements)).parse [0, 0, 5] =
      .complete (.variant 0 (.integer 0)) [5] := by
    rw [hcons]
    rfl
  refine ⟨hnodup, ?_, ?_, ?_, hparse, ?_, ?_⟩
  · simp only [v, Value.fits, hcons]
    rfl
  · rw [hemission]; rfl
  · rw [hemission]; rfl
  · intro hagrees
    have hne : elements ≠ [] := by rw [hcons]; simp
    exact hdiffers ((indexAgrees_iff elements hne (by rw [hlength]; decide) 0
      (by rw [hindex]; rfl)).mp hagrees)
  · rw [ParserType.undisturbed_iff, hemission]
    intro hread
    have hsame := hparse.symm.trans hread
    simp at hsame

end Warpcoil
