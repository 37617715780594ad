import Mathlib.Algebra.BigOperators.Group.List.Basic
import Warpcoil.BeginParseValue
import Warpcoil.Completion

/-! Empty tuples and structures inside other types: what their parsers do to the stream. -/
namespace Warpcoil
open Incremental Platform

mutual
/-- The parts met in a value: `byte` for each byte of the encoding, an index being one
byte, and `empty` for each empty tuple and structure. -/
def ParserType.weigh (byte empty : Nat) : ParserType → Value → Nat
  | .integer u, .integer _ => byte * u.sizeof
  | .utf8 length, .utf8 text => byte * (length.sizeof + text.length)
  | .vector length element, .vector vs =>
    byte * length.sizeof + (vs.map (ParserType.weigh byte empty element)).sum
  | .variant elements, .variant index v => byte + ParserType.weighCase byte empty elements index v
  | .tuple elements, .tuple vs | .struct _ elements, .struct vs =>
    if elements.isEmpty then empty else ParserType.weighEach byte empty elements vs
  | _, _ => 0
def ParserType.weighCase (byte empty : Nat) : List ParserType → Nat → Value → Nat
  | p::_, 0, v => ParserType.weigh byte empty p v
  | _::ps, index+1, v => ParserType.weighCase byte empty ps index v
  | [], _, _ => 0
def ParserType.weighEach (byte empty : Nat) : List ParserType → List Value → Nat
  | p::ps, v::vs => ParserType.weigh byte empty p v + ParserType.weighEach byte empty ps vs
  | _, _ => 0
end

/-- The empty tuples and structures met in a value. -/
def ParserType.empties (p : ParserType) (v : Value) : Nat := p.weigh 0 1 v

mutual
/-- Every variant met in a value has at most 256 alternatives of distinct C++ types. -/
def ParserType.plain : ParserType → Value → Bool
  | .vector _ element, .vector vs => vs.all (ParserType.plain element)
  | .variant elements, .variant index v =>
    decide (elements.length ≤ 256) && decide (ParserType.resultTypes elements).Nodup &&
      ParserType.plainCase elements index v
  | .tuple elements, .tuple vs | .struct _ elements, .struct vs =>
    ParserType.plainEach elements vs
  | _, _ => true
def ParserType.plainCase : List ParserType → Nat → Value → Bool
  | p::_, 0, v => ParserType.plain p v
  | _::ps, index+1, v => ParserType.plainCase ps index v
  | [], _, _ => true
def ParserType.plainEach : List ParserType → List Value → Bool
  | p::ps, v::vs => ParserType.plain p v && ParserType.plainEach ps vs
  | _, _ => true
end

mutual
/-- The test of every variant met in a value, by its alternatives and the index of the one that is
held. -/
def ParserType.variants (test : List ParserType → Nat → Bool) : ParserType → Value → Bool
  | .vector _ element, .vector vs => vs.all (ParserType.variants test element)
  | .variant elements, .variant index v =>
    test elements index && ParserType.variantsCase test elements index v
  | .tuple elements, .tuple vs | .struct _ elements, .struct vs =>
    ParserType.variantsEach test elements vs
  | _, _ => true
def ParserType.variantsCase (test : List ParserType → Nat → Bool) :
    List ParserType → Nat → Value → Bool
  | p::_, 0, v => ParserType.variants test p v
  | _::ps, index+1, v => ParserType.variantsCase test ps index v
  | [], _, _ => true
def ParserType.variantsEach (test : List ParserType → Nat → Bool) :
    List ParserType → List Value → Bool
  | p::ps, v::vs => ParserType.variants test p v && ParserType.variantsEach test ps vs
  | _, _ => true
end

def distinctTypes (elements : List ParserType) (_ : Nat) : Bool :=
  decide (ParserType.resultTypes elements).Nodup

/-- At most 256 alternatives, and the one that is held is the first of its C++ type. -/
def narrowIndex (elements : List ParserType) (index : Nat) : Bool :=
  decide (elements.length ≤ 256) && elements[index]?.all fun element =>
    decide ((ParserType.resultTypes elements).idxOf element.resultType = index)

/-- Every variant met in a value has alternatives of distinct C++ types. -/
def ParserType.distinct : ParserType → Value → Bool := ParserType.variants distinctTypes

/-- The index of every variant met in a value takes one byte and is the one that its type has. -/
def ParserType.narrow : ParserType → Value → Bool := ParserType.variants narrowIndex

/-- The bytes that the code writes for the index of one of `n` alternatives. -/
def indexWidth (n : Nat) : Nat :=
  (findSuitableUintCppType ⟨0, UInt64.ofNat (n - 1)⟩).sizeof

mutual
/-- The bytes of the indices in the encoding of a value, but for one of each. -/
def ParserType.surplus : ParserType → Value → Nat
  | .vector _ element, .vector vs => (vs.map (ParserType.surplus element)).sum
  | .variant elements, .variant index v =>
    indexWidth elements.length - 1 + ParserType.surplusCase elements index v
  | .tuple elements, .tuple vs | .struct _ elements, .struct vs =>
    ParserType.surplusEach elements vs
  | _, _ => 0
def ParserType.surplusCase : List ParserType → Nat → Value → Nat
  | p::_, 0, v => ParserType.surplus p v
  | _::ps, index+1, v => ParserType.surplusCase ps index v
  | [], _, _ => 0
def ParserType.surplusEach : List ParserType → List Value → Nat
  | p::ps, v::vs => ParserType.surplus p v + ParserType.surplusEach ps vs
  | _, _ => 0
end

mutual
theorem ParserType.weigh_add (byte empty : Nat) : ∀ (p : ParserType) (v : Value),
    p.weigh byte empty v = byte * p.weigh 1 0 v + empty * p.weigh 0 1 v
  | .integer u, v | .utf8 u, v => by cases v <;> simp [ParserType.weigh]
  | .vector length element, v => by
    cases v with
    | vector vs =>
      have hsum (ws : List Value) : (ws.map (ParserType.weigh byte empty element)).sum =
          byte * (ws.map (ParserType.weigh 1 0 element)).sum +
            empty * (ws.map (ParserType.weigh 0 1 element)).sum := by
        induction ws with
        | nil => simp
        | cons w ws ih =>
          simp only [List.map_cons, List.sum_cons, ih, Nat.mul_add]
          rw [ParserType.weigh_add byte empty element w]
          omega
      simp only [ParserType.weigh, hsum, Nat.mul_add, Nat.one_mul, Nat.zero_mul, Nat.zero_add]
      omega
    | _ => simp [ParserType.weigh]
  | .variant elements, v => by
    cases v with
    | variant index v =>
      simp only [ParserType.weigh, ParserType.weighCase_add byte empty elements index v,
        Nat.mul_add, Nat.mul_one, Nat.zero_add]
      omega
    | _ => simp [ParserType.weigh]
  | .tuple elements, v | .struct _ elements, v => by
    cases v with
    | tuple vs | struct vs =>
      simp only [ParserType.weigh]
      try split_ifs
      all_goals simp [ParserType.weighEach_add byte empty elements vs]
    | _ => simp [ParserType.weigh]
theorem ParserType.weighCase_add (byte empty : Nat) : ∀ (ps : List ParserType) (index : Nat)
    (v : Value), ParserType.weighCase byte empty ps index v =
      byte * ParserType.weighCase 1 0 ps index v + empty * ParserType.weighCase 0 1 ps index v
  | [], _, _ => by simp [ParserType.weighCase]
  | p::_, 0, v => ParserType.weigh_add byte empty p v
  | _::ps, index+1, v => ParserType.weighCase_add byte empty ps index v
theorem ParserType.weighEach_add (byte empty : Nat) : ∀ (ps : List ParserType)
    (vs : List Value), ParserType.weighEach byte empty ps vs =
      byte * ParserType.weighEach 1 0 ps vs + empty * ParserType.weighEach 0 1 ps vs
  | [], _ | _::_, [] => by simp [ParserType.weighEach]
  | p::ps, v::vs => by
    simp only [ParserType.weighEach, Nat.mul_add]
    rw [ParserType.weigh_add byte empty p v, ParserType.weighEach_add byte empty ps vs]
    omega
end

theorem ParserType.weighCase_eq (byte empty : Nat) {ps : List ParserType} {index : Nat}
    {p : ParserType} (h : ps[index]? = some p) (v : Value) :
    ParserType.weighCase byte empty ps index v = p.weigh byte empty v := by
  induction ps generalizing index with
  | nil => simp at h
  | cons q ps ih =>
    cases index with
    | zero => cases h; rfl
    | succ index => exact ih (by simpa using h)

theorem ParserType.variantsCase_eq (test : List ParserType → Nat → Bool) {ps : List ParserType}
    {index : Nat} {p : ParserType} (h : ps[index]? = some p) (v : Value) :
    ParserType.variantsCase test ps index v = p.variants test v := by
  induction ps generalizing index with
  | nil => simp at h
  | cons q ps ih =>
    cases index with
    | zero => cases h; rfl
    | succ index => exact ih (by simpa using h)

theorem ParserType.weighEach_replicate (byte empty : Nat) (p : ParserType) (vs : List Value) :
    ParserType.weighEach byte empty (List.replicate vs.length p) vs =
      (vs.map (p.weigh byte empty)).sum := by
  induction vs with
  | nil => rfl
  | cons v vs ih => simp [List.replicate_succ, ParserType.weighEach, ih]

theorem ParserType.surplusCase_eq {ps : List ParserType} {index : Nat} {p : ParserType}
    (h : ps[index]? = some p) (v : Value) : ParserType.surplusCase ps index v = p.surplus v := by
  induction ps generalizing index with
  | nil => simp at h
  | cons q ps ih =>
    cases index with
    | zero => cases h; rfl
    | succ index => exact ih (by simpa using h)

theorem ParserType.variantsEach_replicate (test : List ParserType → Nat → Bool) (p : ParserType)
    (vs : List Value) :
    ParserType.variantsEach test (List.replicate vs.length p) vs =
      vs.all (p.variants test) := by
  induction vs with
  | nil => rfl
  | cons v vs ih => simp [List.replicate_succ, ParserType.variantsEach, ih]

mutual
theorem ParserType.plain_eq : ∀ (p : ParserType) (v : Value),
    p.plain v = p.variants
      (fun elements index => decide (elements.length ≤ 256) && distinctTypes elements index) v
  | .integer _, v | .utf8 _, v => by cases v <;> rfl
  | .vector _ element, v => by
    cases v with
    | vector vs =>
      simp only [ParserType.plain, ParserType.variants]
      congr 1
      funext w
      exact ParserType.plain_eq element w
    | _ => rfl
  | .variant elements, v => by
    cases v with
    | variant index v =>
      rw [ParserType.plain, ParserType.variants, ParserType.plainCase_eq elements index v]
      rfl
    | _ => rfl
  | .tuple elements, v | .struct _ elements, v => by
    cases v with
    | tuple vs | struct vs =>
      first | rfl | exact ParserType.plainEach_eq elements vs
    | _ => rfl
theorem ParserType.plainCase_eq : ∀ (ps : List ParserType) (index : Nat) (v : Value),
    ParserType.plainCase ps index v = ParserType.variantsCase
      (fun elements index => decide (elements.length ≤ 256) && distinctTypes elements index)
      ps index v
  | [], _, _ => rfl
  | p::_, 0, v => ParserType.plain_eq p v
  | _::ps, index+1, v => ParserType.plainCase_eq ps index v
theorem ParserType.plainEach_eq : ∀ (ps : List ParserType) (vs : List Value),
    ParserType.plainEach ps vs = ParserType.variantsEach
      (fun elements index => decide (elements.length ≤ 256) && distinctTypes elements index) ps vs
  | [], _ | _::_, [] => rfl
  | p::ps, v::vs => by
    rw [ParserType.plainEach, ParserType.variantsEach, ParserType.plain_eq p v,
      ParserType.plainEach_eq ps vs]
end

mutual
theorem ParserType.variants_imp {test test' : List ParserType → Nat → Bool}
    (himp : ∀ elements index, test elements index = true → test' elements index = true) :
    ∀ (p : ParserType) (v : Value), p.variants test v = true → p.variants test' v = true
  | .integer _, v, h | .utf8 _, v, h => by cases v <;> rfl
  | .vector _ element, v, h => by
    cases v with
    | vector vs =>
      simp only [ParserType.variants, List.all_eq_true] at h ⊢
      exact fun w hw => ParserType.variants_imp himp element w (h w hw)
    | _ => rfl
  | .variant elements, v, h => by
    cases v with
    | variant index v =>
      simp only [ParserType.variants, Bool.and_eq_true] at h ⊢
      exact ⟨himp elements index h.1, ParserType.variantsCase_imp himp elements index v h.2⟩
    | _ => rfl
  | .tuple elements, v, h | .struct _ elements, v, h => by
    cases v with
    | tuple vs | struct vs =>
      first | rfl | exact ParserType.variantsEach_imp himp elements vs h
    | _ => rfl
theorem ParserType.variantsCase_imp {test test' : List ParserType → Nat → Bool}
    (himp : ∀ elements index, test elements index = true → test' elements index = true) :
    ∀ (ps : List ParserType) (index : Nat) (v : Value),
      ParserType.variantsCase test ps index v = true →
        ParserType.variantsCase test' ps index v = true
  | [], _, _, _ => rfl
  | p::_, 0, v, h => ParserType.variants_imp himp p v h
  | _::ps, index+1, v, h => ParserType.variantsCase_imp himp ps index v h
theorem ParserType.variantsEach_imp {test test' : List ParserType → Nat → Bool}
    (himp : ∀ elements index, test elements index = true → test' elements index = true) :
    ∀ (ps : List ParserType) (vs : List Value), ParserType.variantsEach test ps vs = true →
      ParserType.variantsEach test' ps vs = true
  | [], _, _ | _::_, [], _ => rfl
  | p::ps, v::vs, h => by
    simp only [ParserType.variantsEach, Bool.and_eq_true] at h ⊢
    exact ⟨ParserType.variants_imp himp p v h.1, ParserType.variantsEach_imp himp ps vs h.2⟩
end

theorem ParserType.plain_distinct {p : ParserType} {v : Value} (h : p.plain v = true) :
    p.distinct v = true := by
  rw [ParserType.plain_eq] at h
  refine ParserType.variants_imp (fun elements index htest => ?_) p v h
  exact (Bool.and_eq_true_iff.mp htest).2

theorem ParserType.plain_narrow {p : ParserType} {v : Value} (h : p.plain v = true) :
    p.narrow v = true := by
  rw [ParserType.plain_eq] at h
  refine ParserType.variants_imp (fun elements index htest => ?_) p v h
  simp only [distinctTypes, Bool.and_eq_true, decide_eq_true_eq] at htest
  simp only [narrowIndex, Bool.and_eq_true, decide_eq_true_eq, Option.all_eq_true]
  refine ⟨htest.1, fun element helement => ?_⟩
  exact (Value.variant.inj (variantOf_getElem elements htest.2 index element helement
    (.integer 0))).1

theorem indexWidth_le {n : Nat} (h : n ≤ 256) : indexWidth n = 1 := by
  have hle : UInt64.ofNat (n - 1) ≤ 0xff := by
    rw [UInt64.le_iff_toNat_le, UInt64.toNat_ofNat', Nat.mod_eq_of_lt (by omega)]
    exact Nat.sub_le_of_le_add h
  rw [indexWidth, findSuitableUintCppType, if_pos hle]
  rfl

mutual
theorem ParserType.surplus_eq_zero : ∀ (p : ParserType) (v : Value),
    p.variants (fun elements _ => decide (elements.length ≤ 256)) v = true → p.surplus v = 0
  | .integer _, v, _ | .utf8 _, v, _ => by cases v <;> rfl
  | .vector _ element, v, h => by
    cases v with
    | vector vs =>
      simp only [ParserType.variants, List.all_eq_true] at h
      simp only [ParserType.surplus, List.sum_eq_zero_iff_forall_eq_nat, List.forall_mem_map]
      exact fun w hw => ParserType.surplus_eq_zero element w (h w hw)
    | _ => rfl
  | .variant elements, v, h => by
    cases v with
    | variant index v =>
      simp only [ParserType.variants, Bool.and_eq_true, decide_eq_true_eq] at h
      rw [ParserType.surplus, indexWidth_le h.1,
        ParserType.surplusCase_eq_zero elements index v h.2]
    | _ => rfl
  | .tuple elements, v, h | .struct _ elements, v, h => by
    cases v with
    | tuple vs | struct vs =>
      first | rfl | exact ParserType.surplusEach_eq_zero elements vs h
    | _ => rfl
theorem ParserType.surplusCase_eq_zero : ∀ (ps : List ParserType) (index : Nat) (v : Value),
    ParserType.variantsCase (fun elements _ => decide (elements.length ≤ 256)) ps index v = true →
      ParserType.surplusCase ps index v = 0
  | [], _, _, _ => rfl
  | p::_, 0, v, h => ParserType.surplus_eq_zero p v h
  | _::ps, index+1, v, h => ParserType.surplusCase_eq_zero ps index v h
theorem ParserType.surplusEach_eq_zero : ∀ (ps : List ParserType) (vs : List Value),
    ParserType.variantsEach (fun elements _ => decide (elements.length ≤ 256)) ps vs = true →
      ParserType.surplusEach ps vs = 0
  | [], _, _ | _::_, [], _ => rfl
  | p::ps, v::vs, h => by
    simp only [ParserType.variantsEach, Bool.and_eq_true] at h
    rw [ParserType.surplusEach, ParserType.surplus_eq_zero p v h.1,
      ParserType.surplusEach_eq_zero ps vs h.2]
end

/-- Indices of one byte leave no surplus. -/
theorem ParserType.narrow_surplus {p : ParserType} {v : Value} (h : p.narrow v = true) :
    p.surplus v = 0 := by
  refine ParserType.surplus_eq_zero p v
    (ParserType.variants_imp (fun elements index htest => ?_) p v h)
  exact (Bool.and_eq_true_iff.mp htest).1

/-! What the parsers take. -/

variable [Platform]

theorem StopsEach.weigh {ps : List ParserType} {bs : List UInt8} {vs : List Value} {c : Bool}
    (h : StopsEach ps bs vs c)
    (ih : ∀ p ∈ ps, ∀ bs v c, Stops Parser.parseByte p.fresh bs v c → p.distinct v = true →
      bs.length = p.weigh 1 1 v)
    (hdistinct : ParserType.variantsEach distinctTypes ps vs = true) :
    bs.length = ParserType.weighEach 1 1 ps vs := by
  induction h with
  | @one p bs v c h =>
    simp only [ParserType.variantsEach, Bool.and_true] at hdistinct
    simpa [ParserType.weighEach] using ih p (by simp) bs v c h hdistinct
  | @cons p q ps xs ys v vs c c' h hs ihs =>
    rw [ParserType.variantsEach, Bool.and_eq_true] at hdistinct
    have hxs := ih p (by simp) xs v c h hdistinct.1
    have hys := ihs (fun r hr => ih r (List.mem_cons_of_mem p hr)) hdistinct.2
    rw [List.length_append, hxs, hys, ParserType.weighEach]

mutual
/-- A parser is shown each byte of its value once, and a further one for every empty tuple and
structure it meets. -/
theorem ParserType.stops_weigh : ∀ (p : ParserType) (bs : List UInt8) (v : Value) (c : Bool),
    Stops Parser.parseByte p.fresh bs v c → p.distinct v = true → bs.length = p.weigh 1 1 v
  | .integer u, bs, v, c, h, _ => by
    have hc := Parser.exact.stops (ParserType.solid_fresh (.integer u) rfl) h
    subst hc
    have hread := Stops.read h []
    rw [List.append_nil, ← Reading.forget_eq_complete, forget_read_fresh _ rfl, decode,
      decodeInteger] at hread
    split_ifs at hread with hshort
    · cases hread
    · simp only [Reading.map, Reading.bind_complete, Reading.complete.injEq,
        List.drop_eq_nil_iff] at hread
      obtain ⟨rfl, hlength⟩ := hread
      simp only [ParserType.weigh]
      omega
  | .utf8 u, bs, v, c, h, _ => by
    have hc := Parser.exact.stops (ParserType.solid_fresh (.utf8 u) rfl) h
    subst hc
    have hread := Stops.read h []
    rw [List.append_nil, ← Reading.forget_eq_complete, forget_read_fresh _ rfl, decode,
      decodeInteger] at hread
    split_ifs at hread with hshort
    · cases hread
    · rw [Reading.bind_complete, decodeText] at hread
      split_ifs at hread with hmax hzero hlong hvalid
      · simp only [Reading.complete.injEq, List.drop_eq_nil_iff] at hread
        obtain ⟨rfl, hlength⟩ := hread
        simp only [ParserType.weigh, List.length_nil]
        omega
      · simp only [Reading.complete.injEq, List.drop_eq_nil_iff, List.length_drop] at hread
        obtain ⟨rfl, hlength⟩ := hread
        simp only [ParserType.weigh, List.length_take, List.length_drop] at hlong ⊢
        omega
  | .vector length element, bs, v, c, h, hdistinct => by
    obtain ⟨xs, ys, vs, rfl, hxs, rfl, -, hrest⟩ := (stops_vector length element bs v c).mp h
    rw [List.length_append, hxs, ParserType.weigh, Nat.one_mul, Nat.add_left_cancel_iff]
    obtain ⟨rfl, rfl, -⟩ | ⟨-, hvs⟩ := hrest
    · rfl
    · rw [← ParserType.weighEach_replicate]
      apply hvs.weigh
      · intro p hp
        rw [List.eq_of_mem_replicate hp]
        exact ParserType.stops_weigh element
      · rw [ParserType.variantsEach_replicate]
        exact hdistinct
  | .variant elements, bs, v, c, h, hdistinct => by
    obtain ⟨b, xs, element, v, rfl, helement, hxs, rfl⟩ := (stops_variant elements bs v c).mp h
    have hnodup : (ParserType.resultTypes elements).Nodup := by
      simp only [variantOf, ParserType.distinct, ParserType.variants, distinctTypes,
        Bool.and_eq_true, decide_eq_true_eq] at hdistinct
      exact hdistinct.1
    rw [variantOf_getElem elements hnodup b.toNat element helement] at hdistinct ⊢
    rw [ParserType.distinct, ParserType.variants, Bool.and_eq_true,
      ParserType.variantsCase_eq _ helement] at hdistinct
    have hlength := ParserType.stops_weighs elements element (List.mem_of_getElem? helement)
      xs v c hxs hdistinct.2
    rw [ParserType.weigh, ParserType.weighCase_eq 1 1 helement, List.length_cons, hlength,
      Nat.add_comm]
  | .tuple [], bs, v, c, h, _ | .struct _ [], bs, v, c, h, _ => by
    cases h with
    | last h => cases h; rfl
    | more h => cases h
  | .tuple (p::ps), bs, v, c, h, hdistinct => by
    obtain ⟨vs, rfl, hvs⟩ := (stops_currentElement .tuple [] p ps [] bs v c).mp h
    exact hvs.weigh (ParserType.stops_weighs (p::ps)) hdistinct
  | .struct name (p::ps), bs, v, c, h, hdistinct => by
    obtain ⟨vs, rfl, hvs⟩ := (stops_currentElement (.struct name) [] p ps [] bs v c).mp h
    exact hvs.weigh (ParserType.stops_weighs (p::ps)) hdistinct
theorem ParserType.stops_weighs : ∀ (ps : List ParserType), ∀ p ∈ ps,
    ∀ (bs : List UInt8) (v : Value) (c : Bool),
    Stops Parser.parseByte p.fresh bs v c → p.distinct v = true → bs.length = p.weigh 1 1 v
  | [], p, hp => by simp at hp
  | q::qs, p, hp => by
    rcases List.mem_cons.mp hp with heq | hmem
    · rw [heq]; exact ParserType.stops_weigh q
    · exact ParserType.stops_weighs qs p hmem
end

/-! What the code writes. -/

omit [Platform] in
theorem serializeInteger_length {range : Integer} {n : Nat}
    (h : (serializeInteger range n).ok = true) :
    (serializeInteger range n).output.length = (integerParserBits range).sizeof := by
  rw [serializeInteger_output (serializeInteger_ok.mp h), BigEndian.toBytes_length,
    integerParserBits_eq]

omit [Platform] in
theorem generateParserTypes_getElem (ts : List Ty) (index : Nat) :
    (generateParserTypes ts)[index]? = ts[index]?.map generateParserType := by
  induction ts generalizing index with
  | nil => rfl
  | cons t ts ih =>
    cases index with
    | zero => rfl
    | succ index => simpa [generateParserTypes] using ih index

theorem serializeCase_eq {ts : List Ty} {index : Nat} {t : Ty} (h : ts[index]? = some t)
    (v : Value) : serializeCase ts index v = generateValueSerialization t v := by
  induction ts generalizing index with
  | nil => simp at h
  | cons u ts ih =>
    cases index with
    | zero => cases h; rfl
    | succ index => exact ih (by simpa using h)

theorem fitsCase_getElem {ts : List Ty} {index : Nat} {v : Value}
    (h : Value.fitsCase ts index v = true) : ∃ t, ts[index]? = some t ∧ v.fits t = true := by
  induction ts generalizing index with
  | nil => simp [Value.fitsCase] at h
  | cons u ts ih =>
    cases index with
    | zero => exact ⟨u, rfl, h⟩
    | succ index => simpa using ih (by simpa [Value.fitsCase] using h)

omit [Platform] in
theorem narrow_bounds {elements : List Ty} {index : Nat} {v : Value}
    (h : (generateParserType (.variant elements)).narrow (.variant index v) = true) :
    elements.length ≤ 256 ∧
      (∀ element, (generateParserTypes elements)[index]? = some element →
        (ParserType.resultTypes (generateParserTypes elements)).idxOf element.resultType = index) ∧
      ParserType.variantsCase narrowIndex (generateParserTypes elements) index v = true := by
  simp only [generateParserType, ParserType.narrow, ParserType.variants, narrowIndex,
    Bool.and_eq_true, decide_eq_true_eq, generateParserTypes_length, Option.all_eq_true] at h
  exact ⟨h.1.1, h.1.2, h.2⟩

omit [Platform] in
theorem indexWidth_eq {elements : List Ty} (hne : elements ≠ []) :
    (findSuitableUintCppType (variantIndexRange elements)).sizeof = indexWidth elements.length := by
  obtain ⟨n, hn⟩ := Nat.exists_eq_succ_of_ne_zero (List.length_eq_zero_iff.not.mpr hne)
  rw [variantIndexRange, indexWidth, hn, Nat.succ_eq_add_one, UInt64.ofNat_add]
  simp

omit [Platform] in
theorem serializeIndex_length {elements : List Ty} {index : Nat} (hne : elements ≠ [])
    (h : (serializeInteger (variantIndexRange elements) index).ok = true) :
    (serializeInteger (variantIndexRange elements) index).output.length =
      1 + (indexWidth elements.length - 1) := by
  have hwidth : 1 ≤ indexWidth elements.length := by
    unfold indexWidth
    cases findSuitableUintCppType ⟨0, UInt64.ofNat (elements.length - 1)⟩ <;> decide
  rw [serializeInteger_length h, integerParserBits_eq, indexWidth_eq hne]
  omega

mutual
/-- The code writes the bytes of the parts of a value and nothing for the empty ones. -/
theorem serialize_weigh : ∀ (t : Ty) (v : Value), v.fits t = true →
    (generateValueSerialization t v).ok = true →
    (generateValueSerialization t v).output.length =
      (generateParserType t).weigh 1 0 v + (generateParserType t).surplus v
  | .integer range, v, hfits, hok => by
    cases v with
    | integer n =>
      simpa [generateValueSerialization, generateParserType, ParserType.weigh,
        ParserType.surplus] using serializeInteger_length hok
    | _ => simp [Value.fits] at hfits
  | .utf8 codeUnits, v, hfits, hok => by
    cases v with
    | utf8 text =>
      simp only [generateValueSerialization] at hok ⊢
      split_ifs at hok ⊢ with hvalid
      · simp only [Emission.seq_ok, Emission.emit_ok, Bool.and_true] at hok
        rw [Emission.seq_output _ _ hok, List.length_append, serializeInteger_length hok]
        simp [generateParserType, ParserType.weigh, ParserType.surplus]
      · simp at hok
    | _ => simp [Value.fits] at hfits
  | .vector length element, v, hfits, hok => by
    cases v with
    | vector vs =>
      simp only [Value.fits, Bool.and_eq_true, List.all_eq_true] at hfits
      simp only [generateValueSerialization, Emission.seq_ok, Bool.and_eq_true] at hok ⊢
      have helements := (Emission.all_ok _).mp hok.2
      have hsum : (vs.map fun w => (generateValueSerialization element w).output.length).sum =
          (vs.map ((generateParserType element).weigh 1 0)).sum +
            (vs.map (generateParserType element).surplus).sum := by
        rw [← List.sum_map_add]
        congr 1
        apply List.map_congr_left
        intro w hw
        exact serialize_weigh element w (hfits.2 w hw) (helements _ (List.mem_map_of_mem hw))
      rw [Emission.seq_output _ _ hok.1, List.length_append, serializeInteger_length hok.1,
        Emission.all_output _ helements, generateParserType, ParserType.weigh, ParserType.surplus,
        Nat.one_mul, List.length_flatMap, List.map_map]
      change _ + (vs.map fun w => (generateValueSerialization element w).output.length).sum = _
      rw [hsum]
      omega
    | _ => simp [Value.fits] at hfits
  | .variant elements, v, hfits, hok => by
    cases v with
    | variant index v =>
      simp only [Value.fits] at hfits
      simp only [generateValueSerialization, Emission.seq_ok, Bool.and_eq_true] at hok ⊢
      have hne : elements ≠ [] := by rintro rfl; simp [Value.fitsCase] at hfits
      rw [Emission.seq_output _ _ hok.1, List.length_append, serializeIndex_length hne hok.1,
        serialize_weighCase elements index v hfits hok.2, generateParserType, ParserType.weigh,
        ParserType.surplus, generateParserTypes_length]
      omega
    | _ => simp [Value.fits] at hfits
  | .tuple elements, v, hfits, hok => by
    cases v with
    | tuple vs =>
      cases elements with
      | nil =>
        cases vs with
        | nil => rfl
        | cons v vs => simp [Value.fits, Value.fitsAll] at hfits
      | cons t ts => exact serialize_weighEach (t::ts) vs hfits hok
    | _ => simp [Value.fits] at hfits
  | .struct elements, v, hfits, hok => by
    cases v with
    | struct vs =>
      cases elements with
      | nil =>
        cases vs with
        | nil => rfl
        | cons v vs => simp [Value.fits, Value.fitsElements] at hfits
      | cons t ts => exact serialize_weighFields (t::ts) vs hfits hok
    | _ => simp [Value.fits] at hfits
theorem serialize_weighCase : ∀ (ts : List Ty) (index : Nat) (v : Value),
    Value.fitsCase ts index v = true → (serializeCase ts index v).ok = true →
    (serializeCase ts index v).output.length =
      ParserType.weighCase 1 0 (generateParserTypes ts) index v +
        ParserType.surplusCase (generateParserTypes ts) index v
  | [], _, _, h, _ => by simp [Value.fitsCase] at h
  | t::_, 0, v, hfits, hok => serialize_weigh t v hfits hok
  | _::ts, index+1, v, hfits, hok => serialize_weighCase ts index v hfits hok
theorem serialize_weighEach : ∀ (ts : List Ty) (vs : List Value),
    Value.fitsAll ts vs = true → (serializeEach ts vs).ok = true →
    (serializeEach ts vs).output.length =
      ParserType.weighEach 1 0 (generateParserTypes ts) vs +
        ParserType.surplusEach (generateParserTypes ts) vs
  | [], [], _, _ => rfl
  | [], _::_, h, _ | _::_, [], h, _ => by simp [Value.fitsAll] at h
  | t::ts, v::vs, hfits, hok => by
    simp only [Value.fitsAll, Bool.and_eq_true] at hfits
    simp only [serializeEach, Emission.seq_ok, Bool.and_eq_true] at hok
    rw [serializeEach, Emission.seq_output _ _ hok.1, List.length_append,
      serialize_weigh t v hfits.1 hok.1, serialize_weighEach ts vs hfits.2 hok.2,
      generateParserTypes, ParserType.weighEach, ParserType.surplusEach]
    omega
theorem serialize_weighFields : ∀ (ts : List (Ty × Identifier)) (vs : List Value),
    Value.fitsElements ts vs = true → (serializeFields ts vs).ok = true →
    (serializeFields ts vs).output.length =
      ParserType.weighEach 1 0 (generateElementParserTypes ts) vs +
        ParserType.surplusEach (generateElementParserTypes ts) vs
  | [], [], _, _ => rfl
  | [], _::_, h, _ | _::_, [], h, _ => by simp [Value.fitsElements] at h
  | (t,_)::ts, v::vs, hfits, hok => by
    simp only [Value.fitsElements, Bool.and_eq_true] at hfits
    simp only [serializeFields, Emission.seq_ok, Bool.and_eq_true] at hok
    rw [serializeFields, Emission.seq_output _ _ hok.1, List.length_append,
      serialize_weigh t v hfits.1 hok.1, serialize_weighFields ts vs hfits.2 hok.2,
      generateElementParserTypes, ParserType.weighEach, ParserType.surplusEach]
    omega
end

theorem stopsEach_replicate (p : ParserType) (f : Value → Emission UInt8) (v : Value)
    (vs : List Value) (hok : ∀ w ∈ v :: vs, (f w).ok = true)
    (h : ∀ w ∈ v :: vs, Stops Parser.parseByte p.fresh (f w).output w true) :
    StopsEach (List.replicate (v :: vs).length p) (Emission.all ((v :: vs).map f)).output
      (v :: vs) true := by
  induction vs generalizing v with
  | nil => simpa [Emission.all] using StopsEach.one (h v (by simp))
  | cons w vs ih =>
    have hrest := ih w (fun u hu => hok u (List.mem_cons_of_mem v hu))
      (fun u hu => h u (List.mem_cons_of_mem v hu))
    rw [List.map_cons, Emission.all, Emission.seq_output _ _ (hok v (by simp))]
    exact .cons (h v (by simp)) hrest

mutual
/-- Where no empty tuple or structure is met, every part stops on a byte of its own. -/
theorem serialize_stops : ∀ (t : Ty) (v : Value), v.fits t = true →
    (generateValueSerialization t v).ok = true → (generateParserType t).narrow v = true →
    (generateParserType t).weigh 0 1 v = 0 →
    Stops Parser.parseByte (generateParserType t).fresh
      (generateValueSerialization t v).output v true
  | .integer range, v, hfits, hok, _, _ => by
    have h := read_serialized (.integer range) v rfl hfits hok []
    rw [List.append_nil] at h
    exact stops_of_read h
  | .utf8 codeUnits, v, hfits, hok, _, _ => by
    have h := read_serialized (.utf8 codeUnits) v rfl hfits hok []
    rw [List.append_nil] at h
    exact stops_of_read h
  | .vector length element, v, hfits, hok, hnarrow, hempties => by
    cases v with
    | vector vs =>
      simp only [Value.fits, Bool.and_eq_true, decide_eq_true_eq, List.all_eq_true] at hfits
      simp only [generateValueSerialization, Emission.seq_ok, Bool.and_eq_true] at hok ⊢
      simp only [generateParserType, ParserType.narrow, ParserType.variants, List.all_eq_true]
        at hnarrow
      simp only [generateParserType, ParserType.weigh, Nat.zero_mul, Nat.zero_add,
        List.sum_eq_zero_iff_forall_eq_nat, List.forall_mem_map] at hempties
      have hrange := serializeInteger_ok.mp hok.1
      have helements := List.forall_mem_map.mp ((Emission.all_ok _).mp hok.2)
      rw [Emission.seq_output _ _ hok.1, generateParserType]
      refine (stops_vector _ _ _ _ _).mpr
        ⟨_, _, vs, rfl, serializeInteger_length hok.1, rfl, ?_, ?_⟩
      · rw [serializeInteger_output hrange, BigEndian.ofBytes_toBytes _ _ hrange.lt]
      · cases vs with
        | nil => exact .inl ⟨rfl, rfl, rfl⟩
        | cons v vs =>
          refine .inr ⟨?_, ?_⟩
          · rw [resultType_generateParserType]
            exact hfits.1
          · apply stopsEach_replicate _ _ v vs helements
            intro w hw
            exact serialize_stops element w (hfits.2 w hw) (helements w hw) (hnarrow w hw)
              (hempties w hw)
    | _ => simp [Value.fits] at hfits
  | .variant elements, v, hfits, hok, hnarrow, hempties => by
    cases v with
    | variant index v =>
      simp only [Value.fits] at hfits
      simp only [generateValueSerialization, Emission.seq_ok, Bool.and_eq_true] at hok ⊢
      obtain ⟨hwidth, hfirst, hcase⟩ := narrow_bounds hnarrow
      have hne : elements ≠ [] := by rintro rfl; simp [Value.fitsCase] at hfits
      have hindex := (variantIndexRange_contains elements hne hwidth index).mp
        (serializeInteger_ok.mp hok.1)
      have hbyte : (serializeInteger (variantIndexRange elements) index).output =
          [UInt8.ofNat index] := by
        rw [serializeInteger_output (serializeInteger_ok.mp hok.1),
          variantIndexRange_uint8 elements hne hwidth]
        simp [Uint.sizeof, BigEndian.toBytes]
      have htoNat : (UInt8.ofNat index).toNat = index := by
        rw [UInt8.toNat_ofNat', Nat.mod_eq_of_lt]; omega
      simp only [generateParserType, ParserType.weigh, Nat.zero_add] at hempties
      obtain ⟨element, helement, hv⟩ :=
        serialize_stopsCase elements index v hfits hok.2 hcase hempties
      rw [Emission.seq_output _ _ hok.1, hbyte, generateParserType]
      refine (stops_variant _ _ _ _).mpr ⟨_, _, element, v, rfl, ?_, hv, ?_⟩
      · rw [htoNat, helement]
      · rw [variantOf, hfirst element helement]
    | _ => simp [Value.fits] at hfits
  | .tuple elements, v, hfits, hok, hnarrow, hempties => by
    cases v with
    | tuple vs =>
      cases elements with
      | nil => simp [generateParserType, generateParserTypes, ParserType.weigh] at hempties
      | cons t ts =>
        have h := serialize_stopsEach (t::ts) vs (by simp) hfits hok hnarrow hempties
        exact (stops_currentElement .tuple [] _ _ [] _ _ _).mpr ⟨vs, rfl, h⟩
    | _ => simp [Value.fits] at hfits
  | .struct elements, v, hfits, hok, hnarrow, hempties => by
    cases v with
    | struct vs =>
      cases elements with
      | nil => simp [generateParserType, generateElementParserTypes, ParserType.weigh] at hempties
      | cons t ts =>
        have h := serialize_stopsFields (t::ts) vs (by simp) hfits hok hnarrow hempties
        exact (stops_currentElement (.struct _) [] _ _ [] _ _ _).mpr ⟨vs, rfl, h⟩
    | _ => simp [Value.fits] at hfits
theorem serialize_stopsCase : ∀ (ts : List Ty) (index : Nat) (v : Value),
    Value.fitsCase ts index v = true → (serializeCase ts index v).ok = true →
    ParserType.variantsCase narrowIndex (generateParserTypes ts) index v = true →
    ParserType.weighCase 0 1 (generateParserTypes ts) index v = 0 →
    ∃ element, (generateParserTypes ts)[index]? = some element ∧
      Stops Parser.parseByte element.fresh (serializeCase ts index v).output v true
  | [], _, _, h, _, _, _ => by simp [Value.fitsCase] at h
  | t::_, 0, v, hfits, hok, hnarrow, hempties =>
    ⟨_, rfl, serialize_stops t v hfits hok hnarrow hempties⟩
  | _::ts, index+1, v, hfits, hok, hnarrow, hempties => by
    simpa [generateParserTypes, serializeCase] using
      serialize_stopsCase ts index v hfits hok hnarrow hempties
theorem serialize_stopsEach : ∀ (ts : List Ty) (vs : List Value), ts ≠ [] →
    Value.fitsAll ts vs = true → (serializeEach ts vs).ok = true →
    ParserType.variantsEach narrowIndex (generateParserTypes ts) vs = true →
    ParserType.weighEach 0 1 (generateParserTypes ts) vs = 0 →
    StopsEach (generateParserTypes ts) (serializeEach ts vs).output vs true
  | [], _, h, _, _, _, _ => (h rfl).elim
  | _::_, [], _, h, _, _, _ => by simp [Value.fitsAll] at h
  | t::ts, v::vs, _, hfits, hok, hnarrow, hempties => by
    simp only [Value.fitsAll, Bool.and_eq_true] at hfits
    simp only [serializeEach, Emission.seq_ok, Bool.and_eq_true] at hok
    simp only [generateParserTypes, ParserType.variantsEach, Bool.and_eq_true] at hnarrow
    simp only [generateParserTypes, ParserType.weighEach, Nat.add_eq_zero_iff] at hempties
    have hv := serialize_stops t v hfits.1 hok.1 hnarrow.1 hempties.1
    have hvs (hne : ts ≠ []) :=
      serialize_stopsEach ts vs hne hfits.2 hok.2 hnarrow.2 hempties.2
    rw [serializeEach, Emission.seq_output _ _ hok.1]
    cases ts with
    | nil =>
      cases vs with
      | nil => simpa [serializeEach, generateParserTypes] using StopsEach.one hv
      | cons w vs => simp [Value.fitsAll] at hfits
    | cons u ts => exact .cons hv (hvs (by simp))
theorem serialize_stopsFields : ∀ (ts : List (Ty × Identifier)) (vs : List Value), ts ≠ [] →
    Value.fitsElements ts vs = true → (serializeFields ts vs).ok = true →
    ParserType.variantsEach narrowIndex (generateElementParserTypes ts) vs = true →
    ParserType.weighEach 0 1 (generateElementParserTypes ts) vs = 0 →
    StopsEach (generateElementParserTypes ts) (serializeFields ts vs).output vs true
  | [], _, h, _, _, _, _ => (h rfl).elim
  | _::_, [], _, h, _, _, _ => by simp [Value.fitsElements] at h
  | (t,_)::ts, v::vs, _, hfits, hok, hnarrow, hempties => by
    simp only [Value.fitsElements, Bool.and_eq_true] at hfits
    simp only [serializeFields, Emission.seq_ok, Bool.and_eq_true] at hok
    simp only [generateElementParserTypes, ParserType.variantsEach, Bool.and_eq_true] at hnarrow
    simp only [generateElementParserTypes, ParserType.weighEach, Nat.add_eq_zero_iff] at hempties
    have hv := serialize_stops t v hfits.1 hok.1 hnarrow.1 hempties.1
    have hvs (hne : ts ≠ []) :=
      serialize_stopsFields ts vs hne hfits.2 hok.2 hnarrow.2 hempties.2
    rw [serializeFields, Emission.seq_output _ _ hok.1]
    cases ts with
    | nil =>
      cases vs with
      | nil => simpa [serializeFields, generateElementParserTypes] using StopsEach.one hv
      | cons w vs => simp [Value.fitsElements] at hfits
    | cons u ts => exact .cons hv (hvs (by simp))
end

theorem Value.fitsAll_singleton {t : Ty} {vs : List Value}
    (h : Value.fitsAll [t] vs = true) : ∃ v, vs = [v] := by
  cases vs with
  | nil => simp [Value.fitsAll] at h
  | cons v vs =>
    cases vs with
    | nil => exact ⟨v, rfl⟩
    | cons w vs => simp [Value.fitsAll] at h

theorem Value.fitsElements_singleton {element : Ty × Identifier} {vs : List Value}
    (h : Value.fitsElements [element] vs = true) : ∃ v, vs = [v] := by
  cases vs with
  | nil => simp [Value.fitsElements] at h
  | cons v vs =>
    cases vs with
    | nil => exact ⟨v, rfl⟩
    | cons w vs => simp [Value.fitsElements] at h

/-- What `check_for_immediate_completion` gives is the only value of the type. -/
theorem immediate_serialized : ∀ (t : Ty) (v w : Value),
    (generateParserType t).fresh.checkForImmediateCompletion = some w → v.fits t = true →
    w = v ∧ (generateValueSerialization t v).output = []
  | .integer _, _, _, h, _ | .utf8 _, _, _, h, _ | .vector _ _, _, _, h, _
  | .variant _, _, _, h, _ => by cases h
  | .tuple [], v, w, h, hfits => by
    cases v with
    | tuple vs =>
      cases vs with
      | nil => cases h; exact ⟨rfl, rfl⟩
      | cons v vs => simp [Value.fits, Value.fitsAll] at hfits
    | _ => simp [Value.fits] at hfits
  | .struct [], v, w, h, hfits => by
    cases v with
    | struct vs =>
      cases vs with
      | nil => cases h; exact ⟨rfl, rfl⟩
      | cons v vs => simp [Value.fits, Value.fitsElements] at hfits
    | _ => simp [Value.fits] at hfits
  | .tuple [t], v, w, h, hfits => by
    simp only [generateParserType, generateParserTypes, ParserType.fresh,
      Parser.checkForImmediateCompletion, List.length_singleton, if_true,
      Option.map_eq_some_iff] at h
    obtain ⟨u, hu, rfl⟩ := h
    cases v with
    | tuple vs =>
      obtain ⟨v, rfl⟩ := Value.fitsAll_singleton hfits
      simp only [Value.fits, Value.fitsAll, Bool.and_true] at hfits
      obtain ⟨rfl, hout⟩ := immediate_serialized t v u hu hfits
      refine ⟨rfl, ?_⟩
      simp only [generateValueSerialization, serializeEach, Emission.seq_done]
      exact hout
    | _ => simp [Value.fits] at hfits
  | .struct [(t,_)], v, w, h, hfits => by
    simp only [generateParserType, generateElementParserTypes, ParserType.fresh,
      Parser.checkForImmediateCompletion, List.length_singleton, if_true,
      Option.map_eq_some_iff] at h
    obtain ⟨u, hu, rfl⟩ := h
    cases v with
    | struct vs =>
      obtain ⟨v, rfl⟩ := Value.fitsElements_singleton hfits
      simp only [Value.fits, Value.fitsElements, Bool.and_true] at hfits
      obtain ⟨rfl, hout⟩ := immediate_serialized t v u hu hfits
      refine ⟨rfl, ?_⟩
      simp only [generateValueSerialization, serializeFields, Emission.seq_done]
      exact hout
    | _ => simp [Value.fits] at hfits
  | .tuple (_::_::_), _, _, h, _ => by
    simp [generateParserType, generateParserTypes, ParserType.fresh,
      Parser.checkForImmediateCompletion] at h
  | .struct (_::_::_), _, _, h, _ => by
    simp [generateParserType, generateElementParserTypes, ParserType.fresh,
      Parser.checkForImmediateCompletion] at h

/-- However `bytes` and what follows them are cut into reads, `begin_parse_value` gives `v`
as soon as it has `bytes`, and the rest stays in the receive buffer. -/
def ParserType.Undisturbed (type : ParserType) (bytes : List UInt8) (v : Value) : Prop :=
  ∀ (s buffer : List UInt8) (reads : List (List UInt8)) (p : Parsing),
    buffer ++ reads.flatten = bytes ++ s →
    Transition.run Parsing.step (Parsing.beginParseValue type buffer) reads = some p →
    p.results = [.ok v] ∧ p.buffer = s ∧ p.reading = false

theorem ParserType.undisturbed_iff (type : ParserType) (bytes : List UInt8) (v : Value) :
    type.Undisturbed bytes v ↔ type.parse bytes = .complete v [] := by
  constructor
  · intro h
    obtain ⟨hresults, hbuffer, -⟩ := h [] bytes [] _ (by simp) rfl
    have hfollows := (Parsing.beginParseValue_follows type bytes).1
    unfold Parsing.Follows at hfollows
    split at hfollows
    · next w rest hparse =>
      rw [hresults, hbuffer] at hfollows
      simp only [List.cons.injEq, Except.ok.injEq, and_true] at hfollows
      rw [hparse, hfollows.1, ← hfollows.2.1]
    all_goals
      rw [hresults] at hfollows
      simp at hfollows
  · intro h s buffer reads p hbytes hrun
    have hfollows := (Parsing.outcome_of_reads type buffer reads p hrun).1
    rw [hbytes, Parsing.Follows, ParserType.parse_append h] at hfollows
    exact ⟨hfollows.1, hfollows.2.1, hfollows.2.2.1⟩

/-- The parser of the type, shown the encoding of the value alone, gives the value. -/
def Ty.ReadsBack (t : Ty) (v : Value) : Prop :=
  (generateParserType t).fresh.read (generateValueSerialization t v).output = .complete v []

theorem readsBack_of_narrow {t : Ty} {v : Value} (hfits : v.fits t = true)
    (hok : (generateValueSerialization t v).ok = true)
    (hnarrow : (generateParserType t).narrow v = true)
    (hempties : (generateParserType t).empties v = 0) : t.ReadsBack v := by
  have h := (serialize_stops t v hfits hok hnarrow hempties).read []
  rwa [List.append_nil] at h

/-- The bytes that are shown to a parser too often are the bytes that are written too often. -/
theorem Ty.ReadsBack.balance {t : Ty} {v : Value} (h : t.ReadsBack v) (hfits : v.fits t = true)
    (hok : (generateValueSerialization t v).ok = true)
    (hdistinct : (generateParserType t).distinct v = true) :
    (generateParserType t).surplus v = (generateParserType t).empties v := by
  have hshown := (generateParserType t).stops_weigh _ v true (stops_of_read h) hdistinct
  have hwritten := serialize_weigh t v hfits hok
  have hsum := (generateParserType t).weigh_add 1 1 v
  rw [ParserType.empties]
  omega

end Warpcoil
