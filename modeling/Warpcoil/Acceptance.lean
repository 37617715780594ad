import Warpcoil.Decode
import Warpcoil.Serialization

/-! The parsers are named after the width of a range and check neither of its bounds.
`numbers` collects what they would have had to check. -/
namespace Warpcoil
open Incremental Platform

abbrev Numbers := List (Integer × Nat)

def Numbers.inRange (ns : Numbers) : Prop := ∀ n ∈ ns, n.1.contains n.2

instance (ns : Numbers) : Decidable ns.inRange :=
  inferInstanceAs (Decidable (∀ n ∈ ns, n.1.contains n.2))

theorem Numbers.inRange_append (ns ms : Numbers) :
    (ns ++ ms).inRange ↔ ns.inRange ∧ ms.inRange := by
  simp only [Numbers.inRange, List.forall_mem_append]

mutual
/-- The integer fields and length fields that the layout of a type places in a stretch of
bytes, each with its range. -/
def numbers [Platform] : Ty → List UInt8 → Decoding Numbers
  | .integer range, bs =>
    (decodeInteger (findSuitableUintCppType range) bs).map fun n => [(range, n)]
  | .utf8 codeUnits, bs =>
    (decodeInteger (findSuitableUintCppType codeUnits) bs).bind fun n rest =>
      (decodeText n rest).map fun _ => [(codeUnits, n)]
  | .vector length element, bs =>
    (decodeInteger (findSuitableUintCppType length) bs).bind fun n rest =>
      if n = 0 then .complete [(length, 0)] rest
      else if vectorMaxSize (generateType element) < n then .fail .lengthError
      else (many (numbers element) n rest).map fun ns => (length, n) :: ns.flatten
  | .variant elements, bs => (decodeInteger .uint8 bs).bind (numbersCase elements)
  | .tuple elements, bs => numbersEach elements bs
  | .struct elements, bs => numbersFields elements bs
def numbersCase [Platform] : List Ty → Nat → List UInt8 → Decoding Numbers
  | [], _, _ => .fail .invalidInput
  | t::_, 0, bs => numbers t bs
  | _::ts, index+1, bs => numbersCase ts index bs
def numbersEach [Platform] : List Ty → List UInt8 → Decoding Numbers
  | [], bs => .complete [] bs
  | t::ts, bs => (numbers t bs).bind fun ns rest => (numbersEach ts rest).map (ns ++ ·)
def numbersFields [Platform] : List (Ty × Identifier) → List UInt8 → Decoding Numbers
  | [], bs => .complete [] bs
  | (t,_)::ts, bs => (numbers t bs).bind fun ns rest => (numbersFields ts rest).map (ns ++ ·)
end

/-- The statements `e` reach their end exactly if `ns` is in range, and what they then
append is what stands before `rest` in `bs`. -/
def Retraces (bs rest : List UInt8) (e : Emission UInt8) (ns : Numbers) : Prop :=
  (e.ok = true ↔ ns.inRange) ∧ (e.ok = true → e.output ++ rest = bs)

theorem Retraces.done (bs : List UInt8) : Retraces bs bs .done [] := by
  simp [Retraces, Numbers.inRange]

theorem Retraces.emit (bs rest : List UInt8) : Retraces (bs ++ rest) rest (.emit bs) [] := by
  simp [Retraces, Numbers.inRange]

theorem Retraces.seq {bs mid rest : List UInt8} {d e : Emission UInt8} {ns ms : Numbers}
    (hd : Retraces bs mid d ns) (he : Retraces mid rest e ms) :
    Retraces bs rest (d.seq e) (ns ++ ms) := by
  constructor
  · rw [Emission.seq_ok, Bool.and_eq_true, hd.1, he.1, Numbers.inRange_append]
  · intro hok
    rw [Emission.seq_ok, Bool.and_eq_true] at hok
    rw [Emission.seq_output _ _ hok.1, List.append_assoc, he.2 hok.2, hd.2 hok.1]

/-- What a decoded integer is written back as. -/
theorem decodeInteger_agree (range : Integer) (bs : List UInt8) :
    (decodeInteger (findSuitableUintCppType range) bs).Agree
      (fun n m rest => n = m ∧ Retraces bs rest (serializeInteger range n) [(range, n)])
      (decodeInteger (findSuitableUintCppType range) bs) := by
  unfold decodeInteger
  split_ifs with hshort
  · trivial
  · refine ⟨rfl, rfl, ?_, ?_⟩
    · simp [serializeInteger_ok, Numbers.inRange]
    · intro hok
      have hlen := List.length_take_of_le (Nat.not_lt.mp hshort)
      have hbytes := BigEndian.toBytes_ofBytes
        (bs.take (findSuitableUintCppType range).sizeof)
      rw [hlen] at hbytes
      rw [serializeInteger_output (serializeInteger_ok.mp hok), hbytes, List.take_append_drop]

variable [Platform]

theorem decodeText_agree (n : Nat) (bs : List UInt8) :
    (decodeText n bs).Agree
      (fun v _ rest => ∃ text, v = .utf8 text ∧ text.length = n ∧
        isValid text = true ∧ text ++ rest = bs)
      (decodeText n bs) := by
  unfold decodeText
  split_ifs with hmax hempty hshort hvalid
  · rfl
  · exact ⟨rfl, [], rfl, hempty.symm, isValid_nil, rfl⟩
  · trivial
  · exact ⟨rfl, bs.take n, rfl, List.length_take_of_le (Nat.not_lt.mp hshort), hvalid,
      List.take_append_drop n bs⟩
  · rfl

theorem many_agree (element : Ty)
    (ih : ∀ bs, (decode (generateParserType element) bs).Agree
      (fun v ns rest => Retraces bs rest (generateValueSerialization element v) ns)
      (numbers element bs)) (n : Nat) (bs : List UInt8) :
    (many (decode (generateParserType element)) n bs).Agree
      (fun vs nss rest => vs.length = n ∧ Retraces bs rest
        (.all (vs.map (generateValueSerialization element))) nss.flatten)
      (many (numbers element) n bs) := by
  induction n generalizing bs with
  | zero => exact ⟨rfl, rfl, Retraces.done bs⟩
  | succ n ihn =>
    refine (ih bs).bind fun v ns rest hv => (ihn rest).map fun vs nss rest' hvs => ?_
    exact ⟨by rw [List.length_cons, hvs.1], hv.seq hvs.2⟩

mutual
/-- The layout walk stops where the decoder stops, and what the decoder made of the bytes
is accepted for serialization exactly if all numbers on the way are in range. -/
theorem decode_agree : ∀ (t : Ty), t.solid = true → ∀ bs : List UInt8,
    (decode (generateParserType t) bs).Agree
      (fun v ns rest => Retraces bs rest (generateValueSerialization t v) ns) (numbers t bs)
  | .integer range, _, bs => by
    rw [generateParserType, decode, numbers, integerParserBits_eq]
    refine (decodeInteger_agree range bs).map fun n m rest h => ?_
    obtain ⟨rfl, hn⟩ := h
    exact hn
  | .utf8 codeUnits, _, bs => by
    rw [generateParserType, decode, numbers, integerParserBits_eq]
    refine (decodeInteger_agree codeUnits bs).bind fun n m rest h => ?_
    obtain ⟨rfl, hn⟩ := h
    refine (decodeText_agree n rest).map_right fun v _ rest' h => ?_
    obtain ⟨text, rfl, rfl, hvalid, rfl⟩ := h
    simp only [generateValueSerialization, if_pos hvalid]
    exact hn.seq (Retraces.emit text rest')
  | .vector length element, h, bs => by
    rw [generateParserType, decode, numbers, integerParserBits_eq]
    refine (decodeInteger_agree length bs).bind fun n m rest hn => ?_
    obtain ⟨rfl, hn⟩ := hn
    rw [resultType_generateParserType]
    split_ifs with hempty hmax
    · subst hempty
      refine ⟨rfl, ?_⟩
      simpa [generateValueSerialization, Emission.all] using hn
    · rfl
    · refine (many_agree element (decode_agree element h) n rest).map fun vs nss rest' hvs => ?_
      obtain ⟨rfl, hvs⟩ := hvs
      simpa [generateValueSerialization] using hn.seq hvs
  | .variant elements, h, bs => by
    simp only [Ty.solid, Bool.and_eq_true, decide_eq_true_eq, Bool.not_eq_true',
      List.isEmpty_eq_false_iff] at h
    have hbits := variantIndexRange_uint8 elements h.1.1.1 h.1.1.2
    have hindex := decodeInteger_agree (variantIndexRange elements) bs
    rw [hbits] at hindex
    rw [generateParserType, decode, numbers]
    refine hindex.bind fun index m rest hi => ?_
    obtain ⟨rfl, hi⟩ := hi
    refine (decodeCase_agree elements h.2 index rest).map_left fun v ns rest' hv => ?_
    have hrange := (variantIndexRange_contains elements h.1.1.1 h.1.1.2 index).mpr hv.1
    have hall := hi.seq hv.2
    exact ⟨by simpa [generateValueSerialization, Numbers.inRange, hrange] using hall.1, hall.2⟩
  | .tuple elements, h, bs => by
    simp only [Ty.solid, Bool.and_eq_true] at h
    rw [generateParserType, decode, numbers]
    exact (decodeEach_agree elements h.2 bs).map_left fun vs ns rest hvs => hvs
  | .struct elements, h, bs => by
    simp only [Ty.solid, Bool.and_eq_true] at h
    rw [generateParserType, decode, numbers]
    exact (decodeFields_agree elements h.2 bs).map_left fun vs ns rest hvs => hvs
theorem decodeCase_agree : ∀ (ts : List Ty), Ty.allSolid ts = true →
    ∀ (index : Nat) (bs : List UInt8),
    (decodeCase (generateParserTypes ts) index bs).Agree
      (fun v ns rest => index < ts.length ∧ Retraces bs rest (serializeCase ts index v) ns)
      (numbersCase ts index bs)
  | [], _, _, _ => rfl
  | t::_, h, 0, bs => by
    simp only [Ty.allSolid, Bool.and_eq_true] at h
    exact (decode_agree t h.1 bs).mono fun v ns rest hv => ⟨Nat.succ_pos _, hv⟩
  | _::ts, h, index+1, bs => by
    simp only [Ty.allSolid, Bool.and_eq_true] at h
    exact (decodeCase_agree ts h.2 index bs).mono fun v ns rest hv =>
      ⟨Nat.succ_lt_succ hv.1, hv.2⟩
theorem decodeEach_agree : ∀ (ts : List Ty), Ty.allSolid ts = true → ∀ bs : List UInt8,
    (decodeEach (generateParserTypes ts) bs).Agree
      (fun vs ns rest => Retraces bs rest (serializeEach ts vs) ns) (numbersEach ts bs)
  | [], _, bs => ⟨rfl, Retraces.done bs⟩
  | t::ts, h, bs => by
    simp only [Ty.allSolid, Bool.and_eq_true] at h
    refine (decode_agree t h.1 bs).bind fun v ns rest hv => ?_
    exact (decodeEach_agree ts h.2 rest).map fun vs ms rest' hvs => hv.seq hvs
theorem decodeFields_agree : ∀ (ts : List (Ty × Identifier)),
    Ty.allElementsSolid ts = true → ∀ bs : List UInt8,
    (decodeEach (generateElementParserTypes ts) bs).Agree
      (fun vs ns rest => Retraces bs rest (serializeFields ts vs) ns) (numbersFields ts bs)
  | [], _, bs => ⟨rfl, Retraces.done bs⟩
  | (t,_)::ts, h, bs => by
    simp only [Ty.allElementsSolid, Bool.and_eq_true] at h
    refine (decode_agree t h.1 bs).bind fun v ns rest hv => ?_
    exact (decodeFields_agree ts h.2 rest).map fun vs ms rest' hvs => hv.seq hvs
end

/-- What the parser of a type made of a whole byte string is serialized to these bytes
exactly if every integer and every length that stands in them is in range. -/
theorem serialization_undoes_parse_iff (t : Ty) (ht : t.solid = true) (b : List UInt8) :
    (∀ v, (generateParserType t).fresh.read b = .complete v [] →
      (generateValueSerialization t v).ok = true ∧
        (generateValueSerialization t v).output = b) ↔
    ∀ ns, numbers t b = .complete ns [] → ns.inRange := by
  have hagree := decode_agree t ht b
  have hread := forget_read_fresh _ (Ty.solid_generateParserType t ht) b
  constructor
  · intro h ns hns
    obtain ⟨v, hv, hretraces⟩ := hagree.complete_of hns
    rw [hv, Reading.forget_eq_complete] at hread
    exact hretraces.1.mp (h v hread).1
  · intro h v hv
    rw [hv, Reading.forget_complete] at hread
    obtain ⟨ns, hns, hretraces⟩ := hagree.of_complete hread.symm
    have hok := hretraces.1.mpr (h ns hns)
    exact ⟨hok, by simpa using hretraces.2 hok⟩

omit [Platform] in
theorem serialization_undoes_parse_iff_vector :
    letI := Platform.reference
    (∀ v, (generateParserType (.vector ⟨1, 3⟩ (.utf8 ⟨0, 9⟩))).fresh.read [1, 2, 65, 66] =
        .complete v [] →
      (generateValueSerialization (.vector ⟨1, 3⟩ (.utf8 ⟨0, 9⟩)) v).ok = true ∧
        (generateValueSerialization (.vector ⟨1, 3⟩ (.utf8 ⟨0, 9⟩)) v).output =
          [1, 2, 65, 66]) ↔
    ∀ ns, numbers (.vector ⟨1, 3⟩ (.utf8 ⟨0, 9⟩)) [1, 2, 65, 66] = .complete ns [] →
      ns.inRange :=
  letI := Platform.reference
  serialization_undoes_parse_iff (.vector ⟨1, 3⟩ (.utf8 ⟨0, 9⟩)) (by decide) [1, 2, 65, 66]

omit [Platform] in
/-- Zero comes out of the parser of `integer{1, 1000}`, which is not serialized again. -/
theorem parse_accepts_out_of_range :
    letI := Platform.reference
    ¬ ∀ t : Ty, t.solid = true → ∀ (b : List UInt8) (v : Value),
      (generateParserType t).fresh.read b = .complete v [] →
        (generateValueSerialization t v).ok = true ∧
          (generateValueSerialization t v).output = b := by
  intro h
  have hok := (h (.integer ⟨1, 1000⟩) (by decide) [0, 0] (.integer 0) rfl).1
  revert hok
  decide

end Warpcoil
