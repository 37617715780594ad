import Warpcoil.Decode
import Warpcoil.Serialization

/-! The parser named for a type reads back what the code emitted for it writes. -/
namespace Warpcoil
open Incremental Platform

theorem decodeInteger_toBytes (u : Uint) (n : Nat) (h : n < 256 ^ u.sizeof)
    (s : List UInt8) : decodeInteger u (BigEndian.toBytes u.sizeof n ++ s) = .complete n s := by
  have hlen := BigEndian.toBytes_length u.sizeof n
  have hge : ¬ (BigEndian.toBytes u.sizeof n ++ s).length < u.sizeof := by
    rw [List.length_append, hlen]; omega
  rw [decodeInteger, if_neg hge, List.take_left' hlen, List.drop_left' hlen,
    BigEndian.ofBytes_toBytes _ _ h]

theorem decodeInteger_serializeInteger (range : Integer) (n : Nat)
    (h : (serializeInteger range n).ok = true) (s : List UInt8) :
    decodeInteger (integerParserBits range) ((serializeInteger range n).output ++ s) =
      .complete n s := by
  have hrange := serializeInteger_ok.mp h
  rw [serializeInteger_output hrange, integerParserBits_eq]
  exact decodeInteger_toBytes _ n hrange.lt s

variable [Platform]

theorem decodeText_append (text : List UInt8) (hmax : text.length ≤ stringMaxSize)
    (hvalid : isValid text = true) (s : List UInt8) :
    decodeText text.length (text ++ s) = .complete (.utf8 text) s := by
  unfold decodeText
  rw [if_neg (Nat.not_lt.mpr hmax)]
  by_cases hempty : text.length = 0
  · rw [if_pos hempty, List.length_eq_zero_iff.mp hempty]
    rfl
  · have hge : ¬ (text ++ s).length < text.length := by
      rw [List.length_append]; omega
    rw [if_neg hempty, if_neg hge, List.take_left, List.drop_left, if_pos hvalid]

theorem many_serialized (element : Ty)
    (ih : ∀ v : Value, v.fits element = true →
      (generateValueSerialization element v).ok = true → ∀ s,
      decode (generateParserType element)
        ((generateValueSerialization element v).output ++ s) = .complete v s)
    (vs : List Value) (hfits : ∀ v ∈ vs, v.fits element = true)
    (hok : ∀ v ∈ vs, (generateValueSerialization element v).ok = true) (s : List UInt8) :
    many (decode (generateParserType element)) vs.length
      ((Emission.all (vs.map (generateValueSerialization element))).output ++ s) =
      .complete vs s := by
  induction vs with
  | nil => rfl
  | cons v vs ihvs =>
    have hv := hok v (by simp)
    have htail := ihvs (fun w hw => hfits w (by simp [hw])) (fun w hw => hok w (by simp [hw]))
    rw [List.map_cons, Emission.all, Emission.seq_output _ _ hv, List.append_assoc,
      List.length_cons, many, ih v (hfits v (by simp)) hv, Reading.bind_complete, htail]
    rfl

mutual
/-- Decoding undoes encoding, with whatever follows left over. -/
theorem decode_serialized : ∀ (t : Ty) (v : Value), t.solid = true → v.fits t = true →
    (generateValueSerialization t v).ok = true → ∀ s : List UInt8,
    decode (generateParserType t) ((generateValueSerialization t v).output ++ s) =
      .complete v s
  | .integer range, v, _, hfits, hok, s => by
    cases v with
    | integer n =>
      simp only [generateParserType, decode, generateValueSerialization] at hok ⊢
      rw [decodeInteger_serializeInteger range n hok]
      rfl
    | _ => simp [Value.fits] at hfits
  | .utf8 codeUnits, v, _, hfits, hok, s => by
    cases v with
    | utf8 text =>
      simp only [Value.fits, decide_eq_true_eq] at hfits
      simp only [generateValueSerialization] at hok ⊢
      split_ifs at hok ⊢ with hvalid
      · simp only [Emission.seq_ok, Emission.emit_ok, Bool.and_true] at hok
        rw [Emission.seq_output _ _ hok, List.append_assoc, generateParserType, decode,
          decodeInteger_serializeInteger _ _ hok, Reading.bind_complete, Emission.emit_output]
        exact decodeText_append text hfits hvalid s
      · simp at hok
    | _ => simp [Value.fits] at hfits
  | .vector length element, v, hsolid, hfits, hok, s => by
    cases v with
    | vector vs =>
      simp only [Value.fits, Bool.and_eq_true, decide_eq_true_eq, List.all_eq_true] at hfits
      simp only [generateValueSerialization, Emission.seq_ok, Bool.and_eq_true] at hok
      have helements : ∀ v ∈ vs, (generateValueSerialization element v).ok = true := fun v hv =>
        (Emission.all_ok _).mp hok.2 _ (List.mem_map_of_mem hv)
      have hmax : ¬ vectorMaxSize (generateParserType element).resultType < vs.length := by
        rw [resultType_generateParserType]; exact Nat.not_lt.mpr hfits.1
      have hmany := many_serialized element
        (fun v hv hvok => decode_serialized element v hsolid hv hvok) vs hfits.2 helements s
      simp only [generateValueSerialization]
      rw [Emission.seq_output _ _ hok.1, List.append_assoc, generateParserType, decode,
        decodeInteger_serializeInteger _ _ hok.1, Reading.bind_complete, if_neg hmax, hmany]
      by_cases hempty : vs.length = 0
      · rw [if_pos hempty, List.length_eq_zero_iff.mp hempty]
        rfl
      · rw [if_neg hempty]
        rfl
    | _ => simp [Value.fits] at hfits
  | .variant elements, v, hsolid, hfits, hok, s => by
    cases v with
    | variant index v =>
      simp only [Ty.solid, Bool.and_eq_true, decide_eq_true_eq, Bool.not_eq_true',
        List.isEmpty_eq_false_iff] at hsolid
      simp only [Value.fits] at hfits
      simp only [generateValueSerialization, Emission.seq_ok, Bool.and_eq_true] at hok
      have hbits := variantIndexRange_uint8 elements hsolid.1.1.1 hsolid.1.1.2
      have hindex := decodeInteger_serializeInteger _ _ hok.1
        ((serializeCase elements index v).output ++ s)
      rw [integerParserBits_eq, hbits] at hindex
      have hcase := decodeCase_serialized elements index v hsolid.2 hfits hok.2 s
      simp only [generateValueSerialization]
      rw [Emission.seq_output _ _ hok.1, List.append_assoc, generateParserType, decode, hindex,
        Reading.bind_complete, hcase]
      rfl
    | _ => simp [Value.fits] at hfits
  | .tuple elements, v, hsolid, hfits, hok, s => by
    cases v with
    | tuple vs =>
      simp only [Ty.solid, Bool.and_eq_true] at hsolid
      simp only [Value.fits] at hfits
      simp only [generateValueSerialization] at hok ⊢
      rw [generateParserType, decode, decodeEach_serialized elements vs hsolid.2 hfits hok s]
      rfl
    | _ => simp [Value.fits] at hfits
  | .struct elements, v, hsolid, hfits, hok, s => by
    cases v with
    | struct vs =>
      simp only [Ty.solid, Bool.and_eq_true] at hsolid
      simp only [Value.fits] at hfits
      simp only [generateValueSerialization] at hok ⊢
      rw [generateParserType, decode,
        decodeEach_serializedFields elements vs hsolid.2 hfits hok s]
      rfl
    | _ => simp [Value.fits] at hfits
theorem decodeCase_serialized : ∀ (ts : List Ty) (index : Nat) (v : Value),
    Ty.allSolid ts = true → Value.fitsCase ts index v = true →
    (serializeCase ts index v).ok = true → ∀ s : List UInt8,
    decodeCase (generateParserTypes ts) index ((serializeCase ts index v).output ++ s) =
      .complete v s
  | [], _, _, _, h, _, _ => by simp [Value.fitsCase] at h
  | t::_, 0, v, hsolid, hfits, hok, s => by
    simp only [Ty.allSolid, Bool.and_eq_true] at hsolid
    exact decode_serialized t v hsolid.1 hfits hok s
  | _::ts, index+1, v, hsolid, hfits, hok, s => by
    simp only [Ty.allSolid, Bool.and_eq_true] at hsolid
    exact decodeCase_serialized ts index v hsolid.2 hfits hok s
theorem decodeEach_serialized : ∀ (ts : List Ty) (vs : List Value),
    Ty.allSolid ts = true → Value.fitsAll ts vs = true →
    (serializeEach ts vs).ok = true → ∀ s : List UInt8,
    decodeEach (generateParserTypes ts) ((serializeEach ts vs).output ++ s) = .complete vs s
  | [], [], _, _, _, _ => rfl
  | [], _::_, _, h, _, _ | _::_, [], _, h, _, _ => by simp [Value.fitsAll] at h
  | t::ts, v::vs, hsolid, hfits, hok, s => by
    simp only [Ty.allSolid, Bool.and_eq_true] at hsolid
    simp only [Value.fitsAll, Bool.and_eq_true] at hfits
    simp only [serializeEach, Emission.seq_ok, Bool.and_eq_true] at hok
    rw [serializeEach, Emission.seq_output _ _ hok.1, List.append_assoc, generateParserTypes,
      decodeEach, decode_serialized t v hsolid.1 hfits.1 hok.1, Reading.bind_complete,
      decodeEach_serialized ts vs hsolid.2 hfits.2 hok.2]
    rfl
theorem decodeEach_serializedFields : ∀ (ts : List (Ty × Identifier)) (vs : List Value),
    Ty.allElementsSolid ts = true → Value.fitsElements ts vs = true →
    (serializeFields ts vs).ok = true → ∀ s : List UInt8,
    decodeEach (generateElementParserTypes ts) ((serializeFields ts vs).output ++ s) =
      .complete vs s
  | [], [], _, _, _, _ => rfl
  | [], _::_, _, h, _, _ | _::_, [], _, h, _, _ => by simp [Value.fitsElements] at h
  | (t,_)::ts, v::vs, hsolid, hfits, hok, s => by
    simp only [Ty.allElementsSolid, Bool.and_eq_true] at hsolid
    simp only [Value.fitsElements, Bool.and_eq_true] at hfits
    simp only [serializeFields, Emission.seq_ok, Bool.and_eq_true] at hok
    rw [serializeFields, Emission.seq_output _ _ hok.1, List.append_assoc,
      generateElementParserTypes, decodeEach, decode_serialized t v hsolid.1 hfits.1 hok.1,
      Reading.bind_complete, decodeEach_serializedFields ts vs hsolid.2 hfits.2 hok.2]
    rfl
end

/-- The same for the incremental parser. -/
theorem read_serialized (t : Ty) (v : Value) (ht : t.solid = true) (hv : v.fits t = true)
    (hok : (generateValueSerialization t v).ok = true) (s : List UInt8) :
    (generateParserType t).fresh.read ((generateValueSerialization t v).output ++ s) =
      .complete v s := by
  rw [← Reading.forget_eq_complete, forget_read_fresh _ (Ty.solid_generateParserType t ht),
    decode_serialized t v ht hv hok]

/-- Shown the emitted bytes and then anything else, a fresh parser asks for more on every
byte before the last emitted one and completes with the value on exactly that one. -/
theorem parse_undoes_serialization (t : Ty) (ht : t.solid = true) (v : Value)
    (hv : v.fits t = true) (hok : (generateValueSerialization t v).ok = true)
    (s : List UInt8) :
    ∃ before last p, (generateValueSerialization t v).output = before ++ [last] ∧
      (generateParserType t).fresh.read before = .more p ∧
      p.parseByte last = .complete v true ∧
      (generateParserType t).fresh.read ((generateValueSerialization t v).output ++ s) =
        .complete v s := by
  have hsolid := ParserType.solid_fresh _ (Ty.solid_generateParserType t ht)
  have hread := read_serialized t v ht hv hok []
  rw [List.append_nil] at hread
  obtain ⟨before, last, p, hbytes, hmore, hlast⟩ := Parser.exact.read_complete hsolid hread
  exact ⟨before, last, p, hbytes, hmore, hlast, read_serialized t v ht hv hok s⟩

omit [Platform] in
/-- A vector of variants in a structure, followed by two further bytes. -/
theorem parse_undoes_serialization_structure :
    letI := Platform.reference
    let t : Ty := .struct [(.vector ⟨0, 255⟩
      (.variant [.integer ⟨1, 1000⟩, .utf8 ⟨0, 300⟩]), [0x61])]
    let v : Value := .struct [.vector [.variant 1 (.utf8 [0xc3, 0xa4]),
      .variant 0 (.integer 1000)]]
    ∃ before last p, (generateValueSerialization t v).output = before ++ [last] ∧
      (generateParserType t).fresh.read before = .more p ∧
      p.parseByte last = .complete v true ∧
      (generateParserType t).fresh.read ((generateValueSerialization t v).output ++ [7, 8]) =
        .complete v [7, 8] :=
  letI := Platform.reference
  parse_undoes_serialization
    (.struct [(.vector ⟨0, 255⟩ (.variant [.integer ⟨1, 1000⟩, .utf8 ⟨0, 300⟩]), [0x61])])
    (by decide) (.struct [.vector [.variant 1 (.utf8 [0xc3, 0xa4]),
      .variant 0 (.integer 1000)]]) (by decide) (by decide) [7, 8]

end Warpcoil
