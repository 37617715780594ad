import Warpcoil.Parser

/-! The wire format as a recursive descent over contiguous bytes, and the theorem that
the incremental parsers read exactly this. -/
namespace Warpcoil
open Incremental Platform

abbrev Decoding (α : Type) := Reading Unit UInt8 α ParseFailure

def decodeInteger (u : Uint) (bs : List UInt8) : Decoding Nat :=
  if bs.length < u.sizeof then .more ()
  else .complete (BigEndian.ofBytes (bs.take u.sizeof)) (bs.drop u.sizeof)

def decodeText [Platform] (n : Nat) (bs : List UInt8) : Decoding Value :=
  if stringMaxSize < n then .fail .lengthError
  else if n = 0 then .complete (.utf8 []) bs
  else if bs.length < n then .more ()
  else if isValid (bs.take n) then .complete (.utf8 (bs.take n)) (bs.drop n)
  else .fail .invalidInput

mutual
def decode [Platform] : ParserType → List UInt8 → Decoding Value
  | .integer u, bs => (decodeInteger u bs).map .integer
  | .utf8 length, bs => (decodeInteger length bs).bind decodeText
  | .vector length element, bs =>
    (decodeInteger length bs).bind fun n rest =>
      if n = 0 then .complete (.vector []) rest
      else if vectorMaxSize element.resultType < n then .fail .lengthError
      else (many (decode element) n rest).map .vector
  | .variant elements, bs =>
    (decodeInteger .uint8 bs).bind fun index rest =>
      (decodeCase elements index rest).map (.variant index)
  | .tuple elements, bs => (decodeEach elements bs).map .tuple
  | .struct _ elements, bs => (decodeEach elements bs).map .struct
def decodeCase [Platform] : List ParserType → Nat → List UInt8 → Decoding Value
  | [], _, _ => .fail .invalidInput
  | p::_, 0, bs => decode p bs
  | _::ps, index+1, bs => decodeCase ps index bs
def decodeEach [Platform] : List ParserType → List UInt8 → Decoding (List Value)
  | [], bs => .complete [] bs
  | p::ps, bs => (decode p bs).bind fun v rest => (decodeEach ps rest).map (v :: ·)
end

variable [Platform]

theorem Parser.exact : Exact Parser.parseByte Parser.Solid := by
  intro p b hp
  induction p generalizing b with
  | integer q =>
    have h := IntegerParser.exact q b trivial
    rw [Parser.parseByte]
    cases hq : q.parseByte b <;> simp_all [Parser.Solid]
  | utf8Length q =>
    have h := IntegerParser.exact q b trivial
    rw [Parser.parseByte]
    cases hq : q.parseByte b with
    | complete n c =>
      rw [hq] at h
      dsimp only
      split_ifs
      · trivial
      · exact h
      · trivial
    | more q' => trivial
    | fail e => trivial
  | utf8Element result i =>
    simp only [Parser.parseByte]
    split_ifs <;> trivial
  | vectorLength q element =>
    have h := IntegerParser.exact q b trivial
    rw [Parser.parseByte]
    cases hq : q.parseByte b with
    | complete n c =>
      rw [hq] at h
      dsimp only
      split_ifs
      · exact h
      · trivial
      · exact ⟨hp, ParserType.solid_fresh element hp⟩
    | more q' => exact hp
    | fail e => trivial
  | vectorElement element q result capacity ih =>
    have h := ih b hp.2
    rw [Parser.parseByte]
    cases hq : q.parseByte b with
    | complete v c =>
      rw [hq] at h
      by_cases hlen : (result ++ [v]).length = capacity
      · simpa only [hlen, if_true] using h
      · simp only [hlen, if_false]
        exact ⟨hp.1, ParserType.solid_fresh element hp.1⟩
    | more q' => rw [hq] at h; exact ⟨hp.1, h⟩
    | fail e => trivial
  | variantIndex elements q =>
    have h := IntegerParser.exact q b trivial
    rw [Parser.parseByte]
    cases hq : q.parseByte b with
    | complete index c =>
      dsimp only
      cases helement : elements[index]? with
      | none => trivial
      | some element =>
        have hmem := List.mem_of_getElem? helement
        exact ParserType.solid_fresh element ((ParserType.allSolid_iff _).mp hp element hmem)
    | more q' => exact hp
    | fail e => trivial
  | variantElement elements element q ih =>
    have h := ih b hp
    rw [Parser.parseByte]
    cases hq : q.parseByte b <;> simp_all [Parser.Solid]
  | empty kind => exact hp.elim
  | currentElement kind types current q result ih =>
    have h := ih b hp.2
    rw [Parser.parseByte]
    cases hq : q.parseByte b with
    | complete v c =>
      rw [hq] at h
      dsimp only
      cases hnext : types[current + 1]? with
      | none => exact h
      | some next =>
        have hmem := List.mem_of_getElem? hnext
        exact ⟨hp.1, ParserType.solid_fresh next ((ParserType.allSolid_iff _).mp hp.1 next hmem)⟩
    | more q' => rw [hq] at h; exact ⟨hp.1, h⟩
    | fail e => trivial

omit [Platform] in
theorem IntegerParser.parseByte_eq (u : Uint) (pre : List UInt8) (b : UInt8)
    (h : pre.length < u.sizeof) :
    IntegerParser.parseByte ⟨u, BigEndian.ofBytes pre, pre.length⟩ b =
      if pre.length + 1 = u.sizeof then .complete (BigEndian.ofBytes (pre ++ [b])) true
      else .more ⟨u, BigEndian.ofBytes (pre ++ [b]), (pre ++ [b]).length⟩ := by
  have hlt : BigEndian.ofBytes pre * 256 < 256 ^ u.sizeof := by
    calc
      BigEndian.ofBytes pre * 256 < 256 ^ pre.length * 256 :=
        Nat.mul_lt_mul_of_pos_right (BigEndian.ofBytes_lt pre) (by decide)
      _ = 256 ^ (pre.length + 1) := rfl
      _ ≤ 256 ^ u.sizeof := Nat.pow_le_pow_right (by decide) h
  have hb : b.toNat < 2 ^ 8 := b.toNat_lt
  have hresult : (BigEndian.ofBytes pre <<< 8) % 256 ^ u.sizeof ||| b.toNat =
      BigEndian.ofBytes (pre ++ [b]) := by
    rw [Nat.mod_eq_of_lt (by rw [Nat.shiftLeft_eq]; exact hlt),
      ← Nat.shiftLeft_add_eq_or_of_lt hb, Nat.shiftLeft_eq,
      BigEndian.ofBytes_append_singleton]
  simp only [IntegerParser.parseByte, hresult, List.length_append, List.length_singleton]

omit [Platform] in
/-- After `pre`, an integer parser reads what a fresh one reads from `pre` on. -/
theorem IntegerParser.forget_read (u : Uint) (pre bs : List UInt8)
    (h : pre.length < u.sizeof) :
    (Incremental.read IntegerParser.parseByte
      ⟨u, BigEndian.ofBytes pre, pre.length⟩ bs).forget = decodeInteger u (pre ++ bs) := by
  induction bs generalizing pre with
  | nil => simp [Incremental.read, decodeInteger, h]
  | cons b bs ih =>
    rw [Incremental.read, IntegerParser.parseByte_eq u pre b h]
    by_cases hlast : pre.length + 1 = u.sizeof
    · have hlen : (pre ++ [b]).length = u.sizeof := by simpa using hlast
      have happ : pre ++ b :: bs = (pre ++ [b]) ++ bs := by simp
      have hge : ¬ ((pre ++ [b]) ++ bs).length < u.sizeof := by
        rw [List.length_append, hlen]; omega
      rw [if_pos hlast, happ, decodeInteger, if_neg hge, ← hlen, List.take_left,
        List.drop_left]
      rfl
    · rw [if_neg hlast]
      have hlt : (pre ++ [b]).length < u.sizeof := by
        rw [List.length_append, List.length_singleton]; omega
      simpa using ih (pre ++ [b]) hlt

omit [Platform] in
theorem IntegerParser.forget_read_fresh (u : Uint) (bs : List UInt8) :
    (Incremental.read IntegerParser.parseByte { unsigned := u } bs).forget =
      decodeInteger u bs :=
  IntegerParser.forget_read u [] bs u.sizeof_pos

theorem read_integer (u : Uint) (bs : List UInt8) :
    ((ParserType.integer u).fresh.read bs).forget = decode (.integer u) bs := by
  have h := forget_read_wrap Parser.parseByte IntegerParser.exact Parser.integer
    (fun n => Next.done (.integer n))
    (fun p b _ => by
      have hx := IntegerParser.exact p b trivial
      rw [Parser.parseByte]
      cases hp : p.parseByte b <;> simp_all [Next.toStep])
    (s := { unsigned := u }) trivial bs
  rw [IntegerParser.forget_read_fresh] at h
  exact h

theorem read_utf8Element (pre bs : List UInt8) (k : Nat) :
    (Parser.read (.utf8Element (pre ++ List.replicate (k+1) 0) pre.length) bs).forget =
      if bs.length < k+1 then .more ()
      else if isValid (pre ++ bs.take (k+1)) then
        .complete (.utf8 (pre ++ bs.take (k+1))) (bs.drop (k+1))
      else .fail .invalidInput := by
  induction bs generalizing pre k with
  | nil => simp [Incremental.read]
  | cons b bs ih =>
    have hset : (pre ++ List.replicate (k+1) (0 : UInt8)).set pre.length b =
        (pre ++ [b]) ++ List.replicate k 0 := by
      simp [List.replicate_succ]
    have hlast : pre.length = ((pre ++ [b]) ++ List.replicate k (0 : UInt8)).length - 1 ↔
        k = 0 := by
      simp only [List.length_append, List.length_singleton, List.length_replicate]
      omega
    rw [Parser.read, Incremental.read, Parser.parseByte, hset]
    simp only [hlast]
    cases k with
    | zero =>
      by_cases hvalid : isValid (pre ++ [b]) <;> simp [hvalid]
    | succ k =>
      have hlen : pre.length + 1 = (pre ++ [b]).length := by simp
      have h := ih (pre ++ [b]) k
      rw [Parser.read, ← hlen] at h
      simp only [List.append_assoc, List.singleton_append] at h
      simpa [List.take_succ_cons, List.drop_succ_cons] using h

theorem read_utf8 (u : Uint) (bs : List UInt8) :
    ((ParserType.utf8 u).fresh.read bs).forget = decode (.utf8 u) bs := by
  have h := forget_read_wrap Parser.parseByte IntegerParser.exact Parser.utf8Length
    (fun n => if stringMaxSize < n then .fail .lengthError
      else if n = 0 then .done (.utf8 [])
      else .go (.utf8Element (List.replicate n 0) 0))
    (fun p b _ => by
      have hx := IntegerParser.exact p b trivial
      rw [Parser.parseByte]
      cases hp : p.parseByte b with
      | complete n c =>
        rw [hp] at hx
        simp only at hx
        subst hx
        dsimp only
        split_ifs <;> rfl
      | more q => rfl
      | fail e => rfl)
    (s := { unsigned := u }) trivial bs
  rw [IntegerParser.forget_read_fresh] at h
  rw [ParserType.fresh, Parser.read, h, decode]
  congr 1
  funext n rest
  unfold decodeText
  split_ifs with hmax hzero hshort hvalid
  · rfl
  · rfl
  all_goals
    obtain ⟨k, rfl⟩ := Nat.exists_eq_succ_of_ne_zero hzero
    have hread := read_utf8Element [] rest k
    simp only [List.nil_append, List.length_nil] at hread
    rw [Next.read, hread]
    simp_all

/-- The elements still to come, each read by a fresh parser of the element type. -/
theorem read_vectorElement (element : ParserType) (helement : element.solid = true)
    (ih : ∀ bs, (element.fresh.read bs).forget = decode element bs)
    (result : List Value) (k : Nat) (bs : List UInt8) :
    (Parser.read (.vectorElement element element.fresh result (result.length + (k+1)))
      bs).forget = (many (decode element) (k+1) bs).map fun vs => .vector (result ++ vs) := by
  induction k generalizing result bs with
  | zero =>
    have h := forget_read_wrap Parser.parseByte Parser.exact
      (fun p => Parser.vectorElement element p result (result.length + 1))
      (fun v => Next.done (.vector (result ++ [v])))
      (fun p b hp => by
        have hx := Parser.exact p b hp
        rw [Parser.parseByte]
        cases hq : p.parseByte b with
        | complete v c =>
          rw [hq] at hx
          simp only at hx
          subst hx
          simp [Next.toStep]
        | more q => rfl
        | fail e => rfl)
      (ParserType.solid_fresh element helement) bs
    rw [← Parser.read, ← Parser.read, ih] at h
    rw [h]
    simp only [many, Reading.map, Reading.bind_assoc]
    rfl
  | succ k ihk =>
    have h := forget_read_wrap Parser.parseByte Parser.exact
      (fun p => Parser.vectorElement element p result (result.length + (k+2)))
      (fun v => Next.go (.vectorElement element element.fresh (result ++ [v])
        (result.length + (k+2))))
      (fun p b hp => by
        rw [Parser.parseByte]
        cases hq : p.parseByte b with
        | complete v c =>
          have hne : ¬ (result ++ [v]).length = result.length + (k+2) := by
            rw [List.length_append, List.length_singleton]; omega
          simp only [hne, if_false, Next.toStep]
        | more q => rfl
        | fail e => rfl)
      (ParserType.solid_fresh element helement) bs
    rw [← Parser.read, ← Parser.read, ih] at h
    rw [h, many, Reading.map, Reading.bind_assoc]
    congr 1
    funext v rest
    have hlen : result.length + (k+2) = (result ++ [v]).length + (k+1) := by
      rw [List.length_append, List.length_singleton]; omega
    rw [Next.read, hlen, ihk]
    simp only [Reading.map, Reading.bind_assoc, Reading.bind_complete, List.append_assoc,
      List.singleton_append]

theorem read_vector (u : Uint) (element : ParserType) (helement : element.solid = true)
    (ih : ∀ bs, (element.fresh.read bs).forget = decode element bs) (bs : List UInt8) :
    ((ParserType.vector u element).fresh.read bs).forget = decode (.vector u element) bs := by
  have h := forget_read_wrap Parser.parseByte IntegerParser.exact
    (fun p => Parser.vectorLength p element)
    (fun n => if n = 0 then .done (.vector [])
      else if vectorMaxSize element.resultType < n then .fail .lengthError
      else .go (.vectorElement element element.fresh [] n))
    (fun p b _ => by
      have hx := IntegerParser.exact p b trivial
      rw [Parser.parseByte]
      cases hp : p.parseByte b with
      | complete n c =>
        rw [hp] at hx
        simp only at hx
        subst hx
        dsimp only
        split_ifs <;> rfl
      | more q => rfl
      | fail e => rfl)
    (s := { unsigned := u }) trivial bs
  rw [IntegerParser.forget_read_fresh] at h
  rw [ParserType.fresh, Parser.read, h, decode]
  congr 1
  funext n rest
  split_ifs with hzero hmax
  · rfl
  · rfl
  · obtain ⟨k, rfl⟩ := Nat.exists_eq_succ_of_ne_zero hzero
    have hread := read_vectorElement element helement ih [] k rest
    simp only [List.length_nil, Nat.zero_add, List.nil_append] at hread
    exact hread

/-- One parser per remaining element, the last one deciding the completion. -/
theorem read_currentElement (kind : Aggregate) (before : List ParserType) (p : ParserType)
    (later : List ParserType) (hsolid : ∀ q ∈ p::later, q.solid = true)
    (ih : ∀ q ∈ p::later, ∀ bs, (q.fresh.read bs).forget = decode q bs)
    (result : List Value) (bs : List UInt8) :
    (Parser.read (.currentElement kind (before ++ p::later) before.length p.fresh result)
      bs).forget = (decodeEach (p::later) bs).map fun vs => kind.build (result ++ vs) := by
  induction later generalizing before p result bs with
  | nil =>
    have h := forget_read_wrap Parser.parseByte Parser.exact
      (fun q => Parser.currentElement kind (before ++ [p]) before.length q result)
      (fun v => Next.done (kind.build (result ++ [v])))
      (fun q b hq => by
        have hx := Parser.exact q b hq
        rw [Parser.parseByte]
        cases hqb : q.parseByte b with
        | complete v c =>
          rw [hqb] at hx
          simp only at hx
          subst hx
          simp [Next.toStep]
        | more q' => rfl
        | fail e => rfl)
      (ParserType.solid_fresh p (hsolid p (by simp))) bs
    rw [← Parser.read, ← Parser.read, ih p (by simp)] at h
    rw [h]
    simp only [decodeEach, Reading.map, Reading.bind_assoc]
    rfl
  | cons p' later ihl =>
    have h := forget_read_wrap Parser.parseByte Parser.exact
      (fun q => Parser.currentElement kind (before ++ p::p'::later) before.length q result)
      (fun v => Next.go (.currentElement kind (before ++ p::p'::later) (before.length + 1)
        p'.fresh (result ++ [v])))
      (fun q b _ => by
        rw [Parser.parseByte]
        cases hqb : q.parseByte b with
        | complete v c => simp [Next.toStep]
        | more q' => rfl
        | fail e => rfl)
      (ParserType.solid_fresh p (hsolid p (by simp))) bs
    rw [← Parser.read, ← Parser.read, ih p (by simp)] at h
    rw [h, decodeEach, Reading.map, Reading.bind_assoc]
    congr 1
    funext v rest
    have hbefore : before ++ p::p'::later = (before ++ [p]) ++ p'::later := by simp
    have hlen : before.length + 1 = (before ++ [p]).length := by simp
    rw [Next.read, hbefore, hlen, ihl (before ++ [p]) p'
      (fun q hq => hsolid q (List.mem_cons_of_mem p hq))
      (fun q hq => ih q (List.mem_cons_of_mem p hq))]
    simp only [Reading.map, Reading.bind_assoc, Reading.bind_complete, List.append_assoc,
      List.singleton_append]

omit [Platform] in
theorem ParserType.resultTypes_eq_map (ps : List ParserType) :
    ParserType.resultTypes ps = ps.map ParserType.resultType := by
  induction ps with
  | nil => rfl
  | cons p ps ih => simp [ParserType.resultTypes, ih]

omit [Platform] in
/-- With pairwise distinct result types the alternative comes back with its index. -/
theorem variantOf_getElem (elements : List ParserType)
    (hnodup : (ParserType.resultTypes elements).Nodup) (index : Nat) (element : ParserType)
    (h : elements[index]? = some element) (v : Value) :
    variantOf elements element v = .variant index v := by
  rw [ParserType.resultTypes_eq_map] at hnodup
  obtain ⟨hlt, rfl⟩ := List.getElem?_eq_some_iff.mp h
  have hlt' : index < (elements.map ParserType.resultType).length := by simpa using hlt
  have hidx := hnodup.idxOf_getElem index hlt'
  rw [List.getElem_map] at hidx
  rw [variantOf, ParserType.resultTypes_eq_map, hidx]

theorem decodeCase_eq (elements : List ParserType) (index : Nat) (bs : List UInt8) :
    decodeCase elements index bs = match elements[index]? with
      | none => .fail .invalidInput
      | some p => decode p bs := by
  induction elements generalizing index with
  | nil => rfl
  | cons p ps ih => cases index with
    | zero => rfl
    | succ index => simpa [decodeCase] using ih index

theorem read_variant (elements : List ParserType)
    (hnodup : (ParserType.resultTypes elements).Nodup)
    (hsolid : ∀ q ∈ elements, q.solid = true)
    (ih : ∀ q ∈ elements, ∀ bs, (q.fresh.read bs).forget = decode q bs) (bs : List UInt8) :
    ((ParserType.variant elements).fresh.read bs).forget = decode (.variant elements) bs := by
  have h := forget_read_wrap Parser.parseByte IntegerParser.exact
    (fun p => Parser.variantIndex elements p)
    (fun index => match elements[index]? with
      | none => .fail .invalidInput
      | some element => .go (.variantElement elements element element.fresh))
    (fun p b _ => by
      rw [Parser.parseByte]
      cases hp : p.parseByte b with
      | complete index c =>
        dsimp only
        cases elements[index]? <;> rfl
      | more q => rfl
      | fail e => rfl)
    (s := { unsigned := .uint8 }) trivial bs
  rw [IntegerParser.forget_read_fresh] at h
  rw [ParserType.fresh, Parser.read, h, decode]
  congr 1
  funext index rest
  rw [decodeCase_eq]
  cases helement : elements[index]? with
  | none => rfl
  | some element =>
    have hmem := List.mem_of_getElem? helement
    have hread := forget_read_wrap Parser.parseByte Parser.exact
      (fun p => Parser.variantElement elements element p)
      (fun v => Next.done (.variant index v))
      (fun p b hp => by
        have hx := Parser.exact p b hp
        rw [Parser.parseByte]
        cases hq : p.parseByte b with
        | complete v c =>
          rw [hq] at hx
          simp only at hx
          subst hx
          simp only [variantOf_getElem elements hnodup index element helement v, Next.toStep]
        | more q => rfl
        | fail e => rfl)
      (ParserType.solid_fresh element (hsolid element hmem)) rest
    rw [← Parser.read, ← Parser.read, ih element hmem] at hread
    exact hread

mutual
/-- What the incremental parser of a type reads from a contiguous stretch of input is what
the recursive descent decodes from it. -/
theorem forget_read_fresh : ∀ (p : ParserType), p.solid = true → ∀ bs : List UInt8,
    (p.fresh.read bs).forget = decode p bs
  | .integer u, _, bs => read_integer u bs
  | .utf8 length, _, bs => read_utf8 length bs
  | .vector length element, h, bs =>
    read_vector length element h (forget_read_fresh element h) bs
  | .variant elements, h, bs => by
    simp only [ParserType.solid, Bool.and_eq_true, decide_eq_true_eq] at h
    exact read_variant elements h.1 ((ParserType.allSolid_iff _).mp h.2)
      (forget_read_freshs elements h.2) bs
  | .tuple [], h, _ | .struct _ [], h, _ => by simp [ParserType.solid] at h
  | .tuple (p::ps), h, bs => by
    simp only [ParserType.solid, Bool.and_eq_true] at h
    exact read_currentElement .tuple [] p ps ((ParserType.allSolid_iff _).mp h.2)
      (forget_read_freshs (p::ps) h.2) [] bs
  | .struct name (p::ps), h, bs => by
    simp only [ParserType.solid, Bool.and_eq_true] at h
    exact read_currentElement (.struct name) [] p ps ((ParserType.allSolid_iff _).mp h.2)
      (forget_read_freshs (p::ps) h.2) [] bs
theorem forget_read_freshs : ∀ (ps : List ParserType), ParserType.allSolid ps = true →
    ∀ p ∈ ps, ∀ bs : List UInt8, (p.fresh.read bs).forget = decode p bs
  | [], _, p, hp, _ => by simp at hp
  | q::qs, h, p, hp, bs => by
    simp only [ParserType.allSolid, Bool.and_eq_true] at h
    rcases List.mem_cons.mp hp with heq | hmem
    · rw [heq]; exact forget_read_fresh q h.1 bs
    · exact forget_read_freshs qs h.2 p hmem bs
end

end Warpcoil
