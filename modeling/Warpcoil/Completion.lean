import Warpcoil.RoundTrip

/-! The runs of the incremental parsers that end with a value, with or without the byte they
end on. Nothing is assumed about components of zero width here. -/
namespace Warpcoil
open Incremental Platform

/-- A fresh integer parser stops on the last byte of its type. -/
theorem IntegerParser.stops_iff (u : Uint) (bs : List UInt8) (n : Nat) (c : Bool) :
    Stops IntegerParser.parseByte { unsigned := u } bs n c ↔
      c = true ∧ bs.length = u.sizeof ∧ n = BigEndian.ofBytes bs := by
  constructor
  · intro h
    have hc := IntegerParser.exact.stops trivial h
    subst hc
    have hread := Stops.read h []
    rw [List.append_nil, ← Reading.forget_eq_complete, IntegerParser.forget_read_fresh,
      decodeInteger] at hread
    split_ifs at hread with hshort
    simp only [Reading.complete.injEq, List.drop_eq_nil_iff] at hread
    have hlength : bs.length = u.sizeof := by omega
    rw [List.take_of_length_le (by omega)] at hread
    exact ⟨rfl, hlength, hread.1.symm⟩
  · rintro ⟨rfl, hlength, rfl⟩
    apply stops_of_read
    rw [← Reading.forget_eq_complete, IntegerParser.forget_read_fresh, decodeInteger,
      if_neg (by omega), ← hlength, List.take_length, List.drop_length]

variable [Platform]

/-- One fresh parser after the other, whatever the earlier ones hand back being lost. -/
inductive StopsEach : List ParserType → List UInt8 → List Value → Bool → Prop where
  | one {p : ParserType} {bs : List UInt8} {v : Value} {c : Bool}
    (h : Stops Parser.parseByte p.fresh bs v c) : StopsEach [p] bs [v] c
  | cons {p q : ParserType} {ps : List ParserType} {xs ys : List UInt8} {v : Value}
    {vs : List Value} {c c' : Bool} (h : Stops Parser.parseByte p.fresh xs v c)
    (hs : StopsEach (q :: ps) ys vs c') : StopsEach (p :: q :: ps) (xs ++ ys) (v :: vs) c'

theorem StopsEach.length_eq {ps : List ParserType} {bs : List UInt8} {vs : List Value}
    {c : Bool} (h : StopsEach ps bs vs c) : vs.length = ps.length := by
  induction h with
  | one => rfl
  | cons _ _ ih => simpa using ih

theorem currentElement_wraps (kind : Aggregate) (types : List ParserType) (current : Nat)
    (result : List Value) :
    Wraps Parser.parseByte Parser.parseByte
      (fun q => Parser.currentElement kind types current q result)
      (fun v consumed => match types[current + 1]? with
        | some next => .more (.currentElement kind types (current + 1) next.fresh
            (result ++ [v]))
        | none => .complete (kind.build (result ++ [v])) consumed) := by
  intro q b
  rw [Parser.parseByte]
  cases q.parseByte b <;> rfl

/-- A tuple or structure parser stops where the parsers of its elements have stopped. -/
theorem stops_currentElement (kind : Aggregate) (before : List ParserType) (p : ParserType)
    (later : List ParserType) (result : List Value) (bs : List UInt8) (r : Value) (c : Bool) :
    Stops Parser.parseByte
        (.currentElement kind (before ++ p :: later) before.length p.fresh result) bs r c ↔
      ∃ vs, r = kind.build (result ++ vs) ∧ StopsEach (p :: later) bs vs c := by
  induction later generalizing before p result bs with
  | nil =>
    have hwrap := currentElement_wraps kind (before ++ [p]) before.length result
    have hnext : (before ++ [p])[before.length + 1]? = none := by simp
    rw [hnext] at hwrap
    constructor
    · intro h
      obtain ⟨xs, v, c', hv, ⟨hk, rfl⟩ | ⟨t, ys, hk, -⟩⟩ := h.of_wrap hwrap
      · cases hk
        exact ⟨[v], rfl, .one hv⟩
      · cases hk
    · rintro ⟨vs, rfl, h⟩
      cases h with
      | one h => exact h.wrap hwrap rfl
  | cons q later ih =>
    have hwrap := currentElement_wraps kind (before ++ p :: q :: later) before.length result
    have hnext : (before ++ p :: q :: later)[before.length + 1]? = some q := by simp
    have hsplit : before ++ p :: q :: later = (before ++ [p]) ++ q :: later := by simp
    have hlength : before.length + 1 = (before ++ [p]).length := by simp
    have hrest := ih (before ++ [p]) q
    rw [← hsplit, ← hlength] at hrest
    rw [hnext] at hwrap
    constructor
    · intro h
      obtain ⟨xs, v, c', hv, ⟨hk, -⟩ | ⟨t, ys, hk, rfl, ht⟩⟩ := h.of_wrap hwrap
      · cases hk
      · cases hk
        obtain ⟨vs, rfl, hvs⟩ := (hrest (result ++ [v]) ys).mp ht
        exact ⟨v :: vs, by simp, .cons hv hvs⟩
    · rintro ⟨vs, rfl, h⟩
      cases h with
      | @cons _ _ _ xs ys v vs c' _ hv hvs =>
        have ht := (hrest (result ++ [v]) ys).mpr ⟨vs, by simp, hvs⟩
        exact hv.wrap_more hwrap rfl ht

theorem vectorElement_wraps (element : ParserType) (result : List Value) (capacity : Nat) :
    Wraps Parser.parseByte Parser.parseByte
      (fun q => Parser.vectorElement element q result capacity)
      (fun v consumed =>
        if (result ++ [v]).length = capacity then .complete (.vector (result ++ [v])) consumed
        else .more (.vectorElement element element.fresh (result ++ [v]) capacity)) := by
  intro q b
  rw [Parser.parseByte]
  cases q.parseByte b <;> rfl

theorem stops_vectorElement (element : ParserType) (result : List Value) (k : Nat)
    (bs : List UInt8) (r : Value) (c : Bool) :
    Stops Parser.parseByte
        (.vectorElement element element.fresh result (result.length + (k+1))) bs r c ↔
      ∃ vs, r = .vector (result ++ vs) ∧
        StopsEach (List.replicate (k+1) element) bs vs c := by
  induction k generalizing result bs with
  | zero =>
    have hwrap := vectorElement_wraps element result (result.length + 1)
    constructor
    · intro h
      obtain ⟨xs, v, c', hv, ⟨hk, rfl⟩ | ⟨t, ys, hk, -⟩⟩ := h.of_wrap hwrap
      · simp only [List.length_append, List.length_singleton, if_true, Step.complete.injEq] at hk
        obtain ⟨rfl, rfl⟩ := hk
        exact ⟨[v], rfl, .one hv⟩
      · simp at hk
    · rintro ⟨vs, rfl, h⟩
      cases h with
      | one h => exact h.wrap hwrap (by simp)
  | succ k ih =>
    have hwrap := vectorElement_wraps element result (result.length + (k+2))
    have hlength (v : Value) : result.length + (k+2) = (result ++ [v]).length + (k+1) := by
      rw [List.length_append, List.length_singleton]; omega
    have hne (v : Value) : ¬ (result ++ [v]).length = result.length + (k+2) := by
      rw [hlength v]; omega
    constructor
    · intro h
      obtain ⟨xs, v, c', hv, ⟨hk, -⟩ | ⟨t, ys, hk, rfl, ht⟩⟩ := h.of_wrap hwrap
      · simp only [hne v, if_false, reduceCtorEq] at hk
      · simp only [hne v, if_false, Step.more.injEq] at hk
        rw [← hk, hlength v] at ht
        obtain ⟨vs, rfl, hvs⟩ := (ih (result ++ [v]) ys).mp ht
        exact ⟨v :: vs, by simp, .cons hv hvs⟩
    · rintro ⟨vs, rfl, h⟩
      cases h with
      | @cons _ _ _ xs ys v vs c' _ hv hvs =>
        have ht := (ih (result ++ [v]) ys).mpr ⟨vs, by simp, hvs⟩
        rw [← hlength v] at ht
        exact hv.wrap_more hwrap (by rw [if_neg (hne v)]) ht

theorem vectorLength_wraps (element : ParserType) :
    Wraps IntegerParser.parseByte Parser.parseByte (fun q => Parser.vectorLength q element)
      (fun n consumed =>
        if n = 0 then .complete (.vector []) consumed
        else if vectorMaxSize element.resultType < n then .fail .lengthError
        else .more (.vectorElement element element.fresh [] n)) := by
  intro q b
  rw [Parser.parseByte]
  cases q.parseByte b <;> rfl

/-- A length, and that many elements. -/
theorem stops_vector (length : Uint) (element : ParserType) (bs : List UInt8) (r : Value)
    (c : Bool) :
    Stops Parser.parseByte (ParserType.vector length element).fresh bs r c ↔
      ∃ xs ys vs, bs = xs ++ ys ∧ xs.length = length.sizeof ∧ r = .vector vs ∧
        vs.length = BigEndian.ofBytes xs ∧
        (vs = [] ∧ ys = [] ∧ c = true ∨
          vs.length ≤ vectorMaxSize element.resultType ∧
            StopsEach (List.replicate vs.length element) ys vs c) := by
  have hwrap := vectorLength_wraps element
  rw [ParserType.fresh]
  constructor
  · intro h
    obtain ⟨xs, n, c', hn, hrest⟩ := h.of_wrap hwrap
    obtain ⟨rfl, hxs, rfl⟩ := (IntegerParser.stops_iff _ _ _ _).mp hn
    obtain ⟨hk, rfl⟩ | ⟨t, ys, hk, rfl, ht⟩ := hrest
    · split_ifs at hk with hzero
      cases hk
      exact ⟨bs, [], [], by simp, hxs, rfl, hzero.symm, .inl ⟨rfl, rfl, rfl⟩⟩
    · split_ifs at hk with hzero hmax
      cases hk
      obtain ⟨k, hsucc⟩ := Nat.exists_eq_succ_of_ne_zero hzero
      have hvs := (stops_vectorElement element [] k ys r c).mp (by simpa [hsucc] using ht)
      obtain ⟨vs, rfl, hvs⟩ := hvs
      have hlength := hvs.length_eq
      rw [List.length_replicate] at hlength
      refine ⟨xs, ys, vs, rfl, hxs, rfl, hlength.trans hsucc.symm, .inr ⟨by omega, ?_⟩⟩
      rw [hlength]
      exact hvs
  · rintro ⟨xs, ys, vs, rfl, hxs, rfl, hlength, ⟨rfl, rfl, rfl⟩ | ⟨hmax, hvs⟩⟩
    · have hn := (IntegerParser.stops_iff length xs 0 true).mpr ⟨rfl, hxs, hlength⟩
      simpa using hn.wrap hwrap rfl
    · have hn := (IntegerParser.stops_iff length xs vs.length true).mpr ⟨rfl, hxs, hlength⟩
      have hne : vs.length ≠ 0 := by
        intro hzero
        rw [hzero] at hvs
        cases hvs
      obtain ⟨k, hsucc⟩ := Nat.exists_eq_succ_of_ne_zero hne
      rw [hsucc] at hvs
      have ht := (stops_vectorElement element [] k ys (.vector vs) c).mpr ⟨vs, rfl, hvs⟩
      rw [List.length_nil, Nat.zero_add, ← Nat.succ_eq_add_one, ← hsucc] at ht
      refine hn.wrap_more hwrap ?_ ht
      rw [if_neg hne, if_neg (Nat.not_lt.mpr hmax)]

theorem variantIndex_wraps (elements : List ParserType) :
    Wraps IntegerParser.parseByte Parser.parseByte (fun q => Parser.variantIndex elements q)
      (fun index _ => match elements[index]? with
        | none => .fail .invalidInput
        | some element => .more (.variantElement elements element element.fresh)) := by
  intro q b
  rw [Parser.parseByte]
  cases q.parseByte b <;> rfl

theorem variantElement_wraps (elements : List ParserType) (element : ParserType) :
    Wraps Parser.parseByte Parser.parseByte
      (fun q => Parser.variantElement elements element q)
      (fun v consumed => .complete (variantOf elements element v) consumed) := by
  intro q b
  rw [Parser.parseByte]
  cases q.parseByte b <;> rfl

/-- An index of one byte, and the alternative it names. -/
theorem stops_variant (elements : List ParserType) (bs : List UInt8) (r : Value) (c : Bool) :
    Stops Parser.parseByte (ParserType.variant elements).fresh bs r c ↔
      ∃ b xs element v, bs = b :: xs ∧ elements[b.toNat]? = some element ∧
        Stops Parser.parseByte element.fresh xs v c ∧ r = variantOf elements element v := by
  have hindex := variantIndex_wraps elements
  rw [ParserType.fresh]
  constructor
  · intro h
    obtain ⟨xs, n, c', hn, hrest⟩ := h.of_wrap hindex
    obtain ⟨rfl, hxs, rfl⟩ := (IntegerParser.stops_iff _ _ _ _).mp hn
    obtain ⟨b, rfl⟩ := List.length_eq_one_iff.mp hxs
    have hb : BigEndian.ofBytes [b] = b.toNat := by simp [BigEndian.ofBytes]
    rw [hb] at hrest
    cases helement : elements[b.toNat]? with
    | none =>
      rw [helement] at hrest
      obtain ⟨hk, -⟩ | ⟨t, ys, hk, -⟩ := hrest <;> cases hk
    | some element =>
      rw [helement] at hrest
      obtain ⟨hk, -⟩ | ⟨t, ys, hk, rfl, ht⟩ := hrest
      · cases hk
      cases hk
      obtain ⟨zs, v, c', hv, ⟨hk, rfl⟩ | ⟨u, ws, hk, -⟩⟩ :=
        ht.of_wrap (variantElement_wraps elements element)
      · cases hk
        exact ⟨b, ys, element, v, rfl, helement, hv, rfl⟩
      · cases hk
  · rintro ⟨b, xs, element, v, rfl, helement, hv, rfl⟩
    have hn := (IntegerParser.stops_iff .uint8 [b] b.toNat true).mpr
      ⟨rfl, rfl, by simp [BigEndian.ofBytes]⟩
    have ht := hv.wrap (variantElement_wraps elements element) rfl
    exact hn.wrap_more hindex (by rw [helement]) ht

end Warpcoil
