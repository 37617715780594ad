import Warpcoil.JavaScriptClient

/-! Tuples and structures inside others. Each opens a function whose own `offset` hides the one it
is initialised with, so that a nested one begins with `undefined`. -/
namespace Warpcoil
namespace JavaScript
open RecordedBuffer

/-! The writes that the statements for a value make, in their order. Those of a nested tuple or
structure go astray. -/

/-- An integer or a string. -/
def leafPieces (nested : Bool) : Ty → Value → List (Piece UInt8)
  | .integer range, .integer n =>
    if findNumberOfBytesRequired range.maximum = 8 then
      [⟨nested, BigEndian.toBytes 4 (n / 2 ^ 32)⟩, ⟨nested, BigEndian.toBytes 4 (n % 2 ^ 32)⟩]
    else [⟨nested, BigEndian.toBytes (findNumberOfBytesRequired range.maximum) n⟩]
  | .utf8 codeUnits, .utf8 text =>
    [⟨nested, BigEndian.toBytes (findNumberOfBytesRequired codeUnits.maximum) text.length⟩,
      ⟨nested, text⟩]
  | _, _ => []

mutual
/-- An element of a tuple or structure, which is itself `nested` or not. -/
def elementPieces : Bool → Ty → Value → List (Piece UInt8)
  | _, .tuple elements, .tuple vs => piecesOfElements true elements vs
  | _, .struct elements, .struct vs => piecesOfFields true elements vs
  | nested, .integer range, v => leafPieces nested (.integer range) v
  | nested, .utf8 codeUnits, v => leafPieces nested (.utf8 codeUnits) v
  | _, _, _ => []
def piecesOfElements : Bool → List Ty → List Value → List (Piece UInt8)
  | nested, t::ts, v::vs => elementPieces nested t v ++ piecesOfElements nested ts vs
  | _, _, _ => []
def piecesOfFields : Bool → List (Ty × Identifier) → List Value → List (Piece UInt8)
  | nested, (t, _)::elements, v::vs => elementPieces nested t v ++ piecesOfFields nested elements vs
  | _, _, _ => []
end

/-- A whole value. -/
def pieces : Ty → Value → List (Piece UInt8)
  | .tuple elements, .tuple vs => piecesOfElements false elements vs
  | .struct elements, .struct vs => piecesOfFields false elements vs
  | t, v => leafPieces false t v

mutual
/-- A value as the two languages have it, of integers, strings, tuples and structures. -/
def Represents : Ty → Value → Datum → Prop
  | .tuple elements, .tuple vs, .array ds => RepresentsEach elements vs ds
  | .struct elements, .struct vs, .object properties => RepresentsFields properties elements vs
  | .integer range, v, d => Leaf (.integer range) v d
  | .utf8 codeUnits, v, d => Leaf (.utf8 codeUnits) v d
  | _, _, _ => False
def RepresentsEach : List Ty → List Value → List Datum → Prop
  | [], [], [] => True
  | t::ts, v::vs, d::ds => Represents t v d ∧ RepresentsEach ts vs ds
  | _, _, _ => False
def RepresentsFields (properties : List (Identifier × Datum)) :
    List (Ty × Identifier) → List Value → Prop
  | [], [] => True
  | (t, name)::elements, v::vs =>
    ∃ d, properties.lookup name = some d ∧ Represents t v d ∧
      RepresentsFields properties elements vs
  | _, _ => False
end

/-! What the C++ serializer appends for such a value. -/

section Output
variable [Platform]

theorem leafPieces_data {t : Ty} {v : Value} {d : Datum} (h : Leaf t v d) (nested : Bool) :
    (leafPieces nested t v).flatMap Piece.data = (generateValueSerialization t v).output := by
  cases h with
  | integer contains narrow =>
    rw [leafPieces, if_neg narrow, List.flatMap_singleton, generateValueSerialization,
      serializeInteger_output contains, findNumberOfBytesRequired_eq]
  | halves contains wide =>
    rw [leafPieces, if_pos wide, generateValueSerialization, serializeInteger_output contains,
      ← findNumberOfBytesRequired_eq, wide, ← toBytes_halves]
    simp
  | utf8 contains ascii =>
    rw [leafPieces, generateValueSerialization, if_pos (Platform.isValid_ascii _ ascii),
      Emission.seq_output _ _ (serializeInteger_ok.mpr contains),
      serializeInteger_output contains, findNumberOfBytesRequired_eq]
    simp

/-- The serializer accepts the value, and what it appends are the writes. -/
def Emitted (nested : Bool → List (Piece UInt8)) (e : Emission UInt8) : Prop :=
  e.ok = true ∧ ∀ b, (nested b).flatMap Piece.data = e.output

omit [Platform] in
theorem Emitted.seq {first second : Bool → List (Piece UInt8)} {d e : Emission UInt8}
    (h : Emitted first d) (h' : Emitted second e) :
    Emitted (fun b => first b ++ second b) (d.seq e) := by
  refine ⟨?_, fun b => ?_⟩
  · rw [Emission.seq_ok, h.1, h'.1]
    rfl
  · rw [List.flatMap_append, h.2, h'.2, Emission.seq_output _ _ h.1]

mutual
theorem represents_emitted : ∀ (t : Ty) (v : Value) (d : Datum), Represents t v d →
    Emitted (fun nested => elementPieces nested t v) (generateValueSerialization t v)
  | .integer range, v, d, h => by
    rw [Represents] at h
    refine ⟨h.ok, fun nested => ?_⟩
    simp only [elementPieces]
    exact leafPieces_data h nested
  | .utf8 codeUnits, v, d, h => by
    rw [Represents] at h
    refine ⟨h.ok, fun nested => ?_⟩
    simp only [elementPieces]
    exact leafPieces_data h nested
  | .tuple elements, v, d, h => by
    cases v <;> cases d <;> simp only [Represents] at h
    rw [generateValueSerialization]
    have hall := representsEach_emitted elements _ _ h
    exact ⟨hall.1, fun _ => by simp only [elementPieces, hall.2]⟩
  | .struct elements, v, d, h => by
    cases v <;> cases d <;> simp only [Represents] at h
    rw [generateValueSerialization]
    have hall := representsFields_emitted _ elements _ h
    exact ⟨hall.1, fun _ => by simp only [elementPieces, hall.2]⟩
  | .vector _ _, _, _, h => by simp only [Represents] at h
  | .variant _, _, _, h => by simp only [Represents] at h
theorem representsEach_emitted : ∀ (ts : List Ty) (vs : List Value) (ds : List Datum),
    RepresentsEach ts vs ds →
    Emitted (fun nested => piecesOfElements nested ts vs) (serializeEach ts vs)
  | [], vs, ds, h => by
    cases vs <;> cases ds <;> simp only [RepresentsEach] at h
    exact ⟨rfl, fun _ => rfl⟩
  | t::ts, vs, ds, h => by
    cases vs <;> cases ds <;> simp only [RepresentsEach] at h
    rw [serializeEach]
    simp only [piecesOfElements]
    exact (represents_emitted t _ _ h.1).seq (representsEach_emitted ts _ _ h.2)
theorem representsFields_emitted : ∀ (properties : List (Identifier × Datum))
    (elements : List (Ty × Identifier)) (vs : List Value),
    RepresentsFields properties elements vs →
    Emitted (fun nested => piecesOfFields nested elements vs) (serializeFields elements vs)
  | properties, [], vs, h => by
    cases vs <;> simp only [RepresentsFields] at h
    exact ⟨rfl, fun _ => rfl⟩
  | properties, (t, name)::elements, vs, h => by
    cases vs <;> simp only [RepresentsFields] at h
    obtain ⟨d, -, hhead, htail⟩ := h
    rw [serializeFields]
    simp only [piecesOfFields]
    exact (represents_emitted t _ d hhead).seq
      (representsFields_emitted properties elements _ htail)
end

end Output

/-! The statements. -/

/-- What `offset` holds when `p` bytes have been written: nested, it is no number. -/
inductive Pointer : Bool → Nat → Datum → Prop
  | number (p : Nat) : Pointer false p (.number p)
  | undefined (p : Nat) : Pointer true p .undefined
  | nan (p : Nat) : Pointer true p .nan

theorem Pointer.toInteger {nested : Bool} {p : Nat} {k : Datum} (h : Pointer nested p k) :
    k.toInteger = some (if nested then 0 else p) := by
  cases h <;> rfl

theorem Pointer.add {nested : Bool} {p : Nat} {k : Datum} (h : Pointer nested p k) (n : Nat) :
    ∃ k', k.add (.number n) = some k' ∧ (Datum.number n).add k = some k' ∧
      Pointer nested (p + n) k' := by
  cases h with
  | number =>
    exact ⟨_, rfl, congrArg (fun m => some (Datum.number m)) (Nat.add_comm n p), .number _⟩
  | undefined => exact ⟨_, rfl, rfl, .nan _⟩
  | nan => exact ⟨_, rfl, rfl, .nan _⟩

/-- The statements make these writes, and nothing else. -/
def Writes (statements : List Statement) (s : State) (destination : Identifier) (p : Nat)
    (pieces : List (Piece UInt8)) : Prop :=
  ∀ buffer, s.buffers destination = some buffer →
    executeAll statements s = (writeAll p pieces buffer).map (s.store destination)

theorem Writes.append {first second : List Statement} {s : State} {destination : Identifier}
    {p : Nat} {xs ys : List (Piece UInt8)} (h : Writes first s destination p xs)
    (h' : ∀ buffer, Writes second (s.store destination buffer) destination
      (p + (xs.flatMap Piece.data).length) ys) :
    Writes (first ++ second) s destination p (xs ++ ys) := by
  intro buffer hbuffer
  rw [executeAll_append, h buffer hbuffer, writeAll_append]
  cases writeAll p xs buffer with
  | none => rfl
  | some middle =>
    rw [Option.map_some, Option.bind_some, Option.bind_some,
      h' middle middle (s.store_buffers _ _)]
    congr 1
    funext last
    exact s.store_store _ _ _

theorem write_writes {statement : Statement} {s : State} {destination : Identifier} {p : Nat}
    {nested : Bool} {data : List UInt8}
    (h : statement.execute s = s.write destination (if nested then 0 else p) data) :
    Writes [statement] s destination p [⟨nested, data⟩] := by
  intro buffer hbuffer
  rw [executeAll, h, State.write, hbuffer, Option.bind_some, writeAll]
  cases buffer.write (if nested then 0 else p) data with
  | none => rfl
  | some buffer' => rfl

theorem setUint_writes {s : State} {destination : Identifier} {offset value : Expression}
    {p bytes n : Nat} {nested : Bool} {k : Datum} (hpointer : Pointer nested p k)
    (hoffset : offset.eval s.scope = some k)
    (hvalue : (value.eval s.scope).bind Datum.toInteger = some n) :
    Writes [.setUint bytes destination offset value] s destination p
      [⟨nested, BigEndian.toBytes bytes n⟩] := by
  apply write_writes
  refine Statement.execute_setUint ?_ hvalue
  rw [hoffset, Option.bind_some, hpointer.toInteger]

/-- An integer or a string. -/
theorem Leaf.writes {t : Ty} {v : Value} {d : Datum} (h : Leaf t v d) {value : Expression}
    {destination : Identifier} {offset : Expression} {statements : List Statement}
    (hstatements : generateSerialization t value destination offset = some statements)
    {s : State} {p : Nat} {nested : Bool} {k : Datum} (hpointer : Pointer nested p k)
    (hoffset : offset.eval s.scope = some k) (hvalue : value.eval s.scope = some d) :
    Writes statements s destination p (leafPieces nested t v) := by
  cases h with
  | @integer range n contains narrow =>
    simp only [generateSerialization, Option.some.injEq] at hstatements
    rw [← hstatements, generateIntegerSerialization, if_neg narrow, leafPieces, if_neg narrow]
    exact setUint_writes hpointer hoffset (Datum.toInteger_of hvalue)
  | @halves range n properties contains wide high low =>
    simp only [generateSerialization, Option.some.injEq] at hstatements
    rw [← hstatements, generateIntegerSerialization, if_pos wide, leafPieces, if_pos wide]
    obtain ⟨k', hadd, -, hpointer'⟩ := hpointer.add 4
    refine @Writes.append [_] [_] s destination p [_] [_] ?_ fun buffer => ?_
    · exact setUint_writes hpointer hoffset
        (Datum.toInteger_of (Expression.eval_member hvalue high))
    · rw [List.flatMap_singleton, BigEndian.toBytes_length]
      refine setUint_writes hpointer' ?_
        (Datum.toInteger_of (Expression.eval_member hvalue low))
      rw [Expression.eval, State.store_scope, hoffset]
      exact hadd
  | @utf8 codeUnits text contains ascii maximum =>
    simp only [generateSerialization, Option.some.injEq] at hstatements
    have hnarrow : findNumberOfBytesRequired codeUnits.maximum ≠ 8 := by
      unfold findNumberOfBytesRequired
      rw [if_pos maximum]
      split_ifs <;> decide
    obtain ⟨k', -, hadd, hpointer'⟩ :=
      hpointer.add (findNumberOfBytesRequired codeUnits.maximum)
    rw [← hstatements, generateIntegerSerialization, if_neg hnarrow, leafPieces]
    refine @Writes.append _ [_] s destination p [_] [_] ?_ fun buffer => ?_
    · refine setUint_writes hpointer hoffset (Datum.toInteger_of ?_)
      rw [Expression.eval_length hvalue, List.length_map]
    · rw [List.flatMap_singleton, BigEndian.toBytes_length]
      apply write_writes
      refine (Statement.execute_set (s := s.store destination buffer) ?_ hvalue).trans
        (by rw [toUtf8_ascii])
      rw [Expression.eval, State.store_scope, hoffset, Expression.eval, Option.bind_eq_some_iff]
      exact ⟨k', hadd, hpointer'.toInteger⟩

section
variable {base : Identifier → Option Datum} {destination : Identifier}

/-- The statements for an element: wherever `offset` tells how much has been written, they make
the writes for the value. -/
structure Serializes (base : Identifier → Option Datum) (destination : Identifier) (t : Ty)
    (value : Expression) (n : Nat) (pieces : Bool → List (Piece UInt8)) : Prop where
  size : ∃ size, generateSizeOfValue t value = some size ∧
    ∀ k, size.eval (Function.update base (ident "offset") k) = some (.number n)
  statements : ∃ statements,
    generateSerialization t value destination (.variable (ident "offset")) = some statements ∧
      ∀ (s : State) (nested : Bool) (p : Nat) (k : Datum), Pointer nested p k →
        s.scope = Function.update base (ident "offset") (some k) →
        Writes statements s destination p (pieces nested)
  length : ∀ nested, ((pieces nested).flatMap Piece.data).length = n

inductive SerializesAll (base : Identifier → Option Datum) (destination : Identifier) :
    List (Ty × Expression) → Nat → (Bool → List (Piece UInt8)) → Prop
  | nil : SerializesAll base destination [] 0 fun _ => []
  | cons {t : Ty} {value : Expression} {values : List (Ty × Expression)} {n m : Nat}
      {first more : Bool → List (Piece UInt8)}
      (head : Serializes base destination t value n first)
      (tail : SerializesAll base destination values m more) :
      SerializesAll base destination ((t, value)::values) (n + m)
        fun nested => first nested ++ more nested

theorem SerializesAll.size {values : List (Ty × Expression)} {n : Nat}
    {pieces : Bool → List (Piece UInt8)} (h : SerializesAll base destination values n pieces)
    (total : Expression) :
    ∃ size, sizeOfAll values total = some size ∧
      ∀ k m, total.eval (Function.update base (ident "offset") k) = some (.number m) →
        size.eval (Function.update base (ident "offset") k) = some (.number (m + n)) := by
  induction h generalizing total with
  | nil => exact ⟨total, rfl, fun k m hm => hm⟩
  | @cons t value values n m first more head tail ih =>
    obtain ⟨one, hone, heval⟩ := head.size
    obtain ⟨size, hsize, hall⟩ := ih (.add total one)
    refine ⟨size, by rw [sizeOfAll, hone, Option.bind_some, hsize], fun k l hl => ?_⟩
    rw [hall k _ (Expression.eval_add hl (heval k)), Nat.add_assoc]

theorem SerializesAll.length {values : List (Ty × Expression)} {n : Nat}
    {pieces : Bool → List (Piece UInt8)} (h : SerializesAll base destination values n pieces)
    (nested : Bool) : ((pieces nested).flatMap Piece.data).length = n := by
  induction h with
  | nil => rfl
  | cons head tail ih => rw [List.flatMap_append, List.length_append, head.length, ih]

/-- The loop over the elements. -/
theorem SerializesAll.statements {values : List (Ty × Expression)} {n : Nat}
    {pieces : Bool → List (Piece UInt8)} (h : SerializesAll base destination values n pieces) :
    ∃ body, serializationOfAll (ident "offset") destination values = some body ∧
      ∀ (s : State) (nested : Bool) (p : Nat) (k : Datum) (buffer : ArrayBuffer),
        Pointer nested p k → s.scope = Function.update base (ident "offset") (some k) →
        s.buffers destination = some buffer →
        ∃ k', executeAll body s = (writeAll p (pieces nested) buffer).map
          ((s.assign (ident "offset") k').store destination) := by
  induction h with
  | nil =>
    refine ⟨[], rfl, fun s nested p k buffer _ hscope hbuffer => ⟨k, ?_⟩⟩
    rw [executeAll, writeAll, Option.map_some, State.assign, State.store, hscope,
      Function.update_idem, ← hscope, ← hbuffer, Function.update_eq_self]
  | @cons t value values n m first more head tail ih =>
    obtain ⟨statements, hstatements, hwrites⟩ := head.statements
    obtain ⟨size, hsize, heval⟩ := head.size
    obtain ⟨others, hothers, hexecute⟩ := ih
    refine ⟨statements ++ .addAssign (ident "offset") size :: others, ?_, ?_⟩
    · rw [serializationOfAll, hstatements, Option.bind_some, hsize, Option.bind_some, hothers,
        Option.map_some]
    intro s nested p k buffer hpointer hscope hbuffer
    obtain ⟨k₁, hadd, -, hpointer₁⟩ := hpointer.add n
    rw [executeAll_append, hwrites s nested p k hpointer hscope buffer hbuffer, writeAll_append,
      head.length]
    cases writeAll p (first nested) buffer with
    | none => exact ⟨k, rfl⟩
    | some middle =>
      have hvalue : ((Expression.variable (ident "offset")).add size).eval s.scope = some k₁ := by
        rw [Expression.eval, hscope, heval, Expression.eval, Function.update_self]
        exact hadd
      obtain ⟨k₂, hrest⟩ := hexecute
        ((s.store destination middle).assign (ident "offset") k₁) nested (p + n) k₁ middle hpointer₁
        (by rw [State.assign_scope, State.store_scope, hscope, Function.update_idem])
        (s.store_buffers _ _)
      refine ⟨k₂, ?_⟩
      rw [Option.map_some, Option.bind_some, executeAll, Statement.execute, State.store_scope,
        hvalue, Option.map_some, Option.bind_some, hrest, Option.bind_some]
      congr 1
      funext last
      simp only [State.assign, State.store, Function.update_idem]

/-- The function around the elements. -/
theorem call_writes {values : List (Ty × Expression)} {n : Nat}
    {pieces : Bool → List (Piece UInt8)} (h : SerializesAll base destination values n pieces)
    {body : List Statement}
    (hbody : serializationOfAll (ident "offset") destination values = some body)
    {s : State} (hscope : ∀ k, Function.update s.scope (ident "offset") k =
      Function.update base (ident "offset") k)
    {offset : Expression} {nested : Bool} {p : Nat} {k : Datum} (hpointer : Pointer nested p k)
    (hoffset : offset.eval (Function.update base (ident "offset") (some .undefined)) = some k) :
    Writes [.call (.var (ident "offset") offset :: body)] s destination p (pieces nested) := by
  intro buffer hbuffer
  obtain ⟨body', hbody', hexecute⟩ := h.statements
  obtain rfl := Option.some.inj (hbody.symm.trans hbody')
  have hdeclared : declared (.var (ident "offset") offset :: body) = [ident "offset"] := by
    rw [declared, declared_serializationOfAll hbody]
  have henter : (s.enter [ident "offset"]).scope =
      Function.update base (ident "offset") (some .undefined) := by
    rw [← hscope]
    funext name
    rw [State.enter, Function.update_apply]
    simp only [List.mem_singleton]
  obtain ⟨k', hrun⟩ := hexecute ((s.enter [ident "offset"]).assign (ident "offset") k) nested p k
    buffer hpointer (by rw [State.assign_scope, henter, Function.update_idem]) hbuffer
  rw [executeAll, Statement.execute, hdeclared, executeAll, Statement.execute, henter, hoffset,
    Option.map_some, Option.bind_some, hrun]
  cases writeAll p (pieces nested) buffer with
  | none => rfl
  | some buffer' =>
    rw [Option.map_some, Option.map_some, Option.bind_some, executeAll, Option.map_some]
    congr 1
    simp only [State.leave, State.assign, State.store, henter, Function.update_idem,
      List.mem_singleton]
    congr 1
    funext name
    by_cases hname : name = ident "offset"
    · rw [if_pos hname]
    · rw [if_neg hname, Function.update_of_ne hname, ← Function.update_of_ne hname none s.scope,
        hscope, Function.update_of_ne hname]

theorem Leaf.serializes [Platform] {t : Ty} {v : Value} {d : Datum} (h : Leaf t v d)
    {value : Expression}
    (hvalue : ∀ k, value.eval (Function.update base (ident "offset") k) = some d) :
    Serializes base destination t value (generateValueSerialization t v).output.length
      fun nested => leafPieces nested t v := by
  obtain ⟨size, hsize, heval⟩ := h.size value
  obtain ⟨statements, hstatements, -⟩ :=
    h.statements value destination (.variable (ident "offset"))
  refine ⟨⟨size, hsize, fun k => heval _ (hvalue k)⟩, ⟨statements, hstatements, ?_⟩,
    fun nested => by rw [leafPieces_data h]⟩
  intro s nested p k hpointer hscope
  apply h.writes hstatements hpointer
  · rw [Expression.eval, hscope, Function.update_self]
  · rw [hscope]
    exact hvalue _

/-- A tuple or structure that is an element. -/
theorem SerializesAll.serializes {t : Ty} {value : Expression} {values : List (Ty × Expression)}
    {n : Nat} {pieces : Bool → List (Piece UInt8)}
    (hsize : generateSizeOfValue t value = sizeOfAll values (.number 0))
    (hstatements : generateSerialization t value destination (.variable (ident "offset")) =
      if values.isEmpty then some []
      else (serializationOfAll (ident "offset") destination values).map fun body =>
        [.call (.var (ident "offset") (.variable (ident "offset")) :: body)])
    (h : SerializesAll base destination values n pieces) :
    Serializes base destination t value n fun _ => pieces true := by
  refine ⟨?_, ?_, fun _ => h.length true⟩
  · obtain ⟨size, hall, heval⟩ := h.size (.number 0)
    refine ⟨size, hsize.trans hall, fun k => ?_⟩
    rw [heval k 0 rfl, Nat.zero_add]
  · obtain ⟨body, hbody, -⟩ := h.statements
    rw [hstatements]
    cases h with
    | nil =>
      refine ⟨[], rfl, fun s nested p k _ _ buffer hbuffer => ?_⟩
      rw [executeAll, writeAll, Option.map_some, State.store, ← hbuffer, Function.update_eq_self]
    | cons head tail =>
      rw [hbody]
      refine ⟨_, rfl, fun s nested p k _ hscope => ?_⟩
      refine call_writes (.cons head tail) hbody (fun k => ?_) (.undefined p) ?_
      · rw [hscope, Function.update_idem]
      · rw [Expression.eval, Function.update_self]

variable [Platform]

mutual
theorem represents_serializes : ∀ (t : Ty) (v : Value) (d : Datum), Represents t v d →
    ∀ value : Expression,
      (∀ k, value.eval (Function.update base (ident "offset") k) = some d) →
      Serializes base destination t value (generateValueSerialization t v).output.length
        fun nested => elementPieces nested t v
  | .integer range, v, d, h, value, hvalue => by
    rw [Represents] at h
    exact h.serializes hvalue
  | .utf8 codeUnits, v, d, h, value, hvalue => by
    rw [Represents] at h
    exact h.serializes hvalue
  | .tuple elements, v, d, h, value, hvalue => by
    cases v <;> cases d <;> simp only [Represents] at h
    rw [generateValueSerialization]
    simp only [elementPieces]
    refine (representsEach_serializes elements _ _ h value _ 0 rfl hvalue).serializes ?_ ?_
    · rw [generateSizeOfValue, sizeOfElements_eq]
    · cases elements with
      | nil => rfl
      | cons t ts => rw [generateSerialization, serializationOfElements_eq]; rfl
  | .struct elements, v, d, h, value, hvalue => by
    cases v <;> cases d <;> simp only [Represents] at h
    rw [generateValueSerialization]
    simp only [elementPieces]
    refine (representsFields_serializes _ elements _ h value hvalue).serializes ?_ ?_
    · rw [generateSizeOfValue, sizeOfFields_eq]
    · cases elements with
      | nil => rfl
      | cons element elements => rw [generateSerialization, serializationOfFields_eq]; rfl
  | .vector _ _, _, _, h, _, _ => by simp only [Represents] at h
  | .variant _, _, _, h, _, _ => by simp only [Represents] at h
theorem representsEach_serializes : ∀ (ts : List Ty) (vs : List Value) (ds : List Datum),
    RepresentsEach ts vs ds → ∀ (value : Expression) (all : List Datum) (i : Nat),
      all.drop i = ds →
      (∀ k, value.eval (Function.update base (ident "offset") k) = some (.array all)) →
      SerializesAll base destination (elementsOf value ts i) (serializeEach ts vs).output.length
        fun nested => piecesOfElements nested ts vs
  | [], vs, ds, h, value, all, i, _, _ => by
    cases vs <;> cases ds <;> simp only [RepresentsEach] at h
    exact .nil
  | t::ts, vs, ds, h, value, all, i, hdrop, hvalue => by
    cases vs <;> cases ds <;> simp only [RepresentsEach] at h
    next v vs d ds =>
    have hget : all[i]? = some d := by
      rw [← Nat.add_zero i, ← List.getElem?_drop, hdrop]
      rfl
    have hnext : all.drop (i + 1) = ds := by
      rw [← List.drop_drop, hdrop]
      rfl
    rw [serializeEach, Emission.seq_output _ _ (represents_emitted t v d h.1).1,
      List.length_append]
    simp only [piecesOfElements]
    exact .cons
      (represents_serializes t v d h.1 _ fun k => Expression.eval_index (hvalue k) hget)
      (representsEach_serializes ts vs ds h.2 value all (i + 1) hnext hvalue)
theorem representsFields_serializes : ∀ (properties : List (Identifier × Datum))
    (elements : List (Ty × Identifier)) (vs : List Value),
    RepresentsFields properties elements vs → ∀ value : Expression,
      (∀ k, value.eval (Function.update base (ident "offset") k) = some (.object properties)) →
      SerializesAll base destination (fieldsOf value elements)
        (serializeFields elements vs).output.length
        fun nested => piecesOfFields nested elements vs
  | properties, [], vs, h, value, _ => by
    cases vs <;> simp only [RepresentsFields] at h
    exact .nil
  | properties, (t, name)::elements, vs, h, value, hvalue => by
    cases vs <;> simp only [RepresentsFields] at h
    next v vs =>
    obtain ⟨d, hlookup, hhead, htail⟩ := h
    rw [serializeFields, Emission.seq_output _ _ (represents_emitted t v d hhead).1,
      List.length_append]
    simp only [piecesOfFields]
    exact .cons
      (represents_serializes t v d hhead _ fun k => Expression.eval_member (hvalue k) hlookup)
      (representsFields_serializes properties elements vs htail value hvalue)
end

end

/-- The value as a whole is not nested. -/
theorem represents_writes [Platform] {t : Ty} {v : Value} {d : Datum} (h : Represents t v d)
    {s : State} {value offset : Expression} {o : Nat} (destination : Identifier)
    (hvalue : ∀ k, value.eval (Function.update s.scope (ident "offset") k) = some d)
    (hoffset : ∀ k, offset.eval (Function.update s.scope (ident "offset") k) = some (.number o)) :
    ∃ statements, generateSerialization t value destination offset = some statements ∧
      Writes statements s destination o (pieces t v) := by
  have hleaf (hleaf : Leaf t v d) :
      ∃ statements, generateSerialization t value destination offset = some statements ∧
        Writes statements s destination o (leafPieces false t v) := by
    have hvalue' := hvalue (s.scope (ident "offset"))
    have hoffset' := hoffset (s.scope (ident "offset"))
    rw [Function.update_eq_self] at hvalue' hoffset'
    obtain ⟨statements, hstatements, -⟩ := hleaf.statements value destination offset
    exact ⟨statements, hstatements, hleaf.writes hstatements (.number o) hoffset' hvalue'⟩
  -- the function that an aggregate opens
  have hcall {values : List (Ty × Expression)} {n : Nat} {ps : Bool → List (Piece UInt8)}
      (hall : SerializesAll s.scope destination values n ps) :
      ∃ statements, (if values.isEmpty then some []
        else (serializationOfAll (ident "offset") destination values).map fun body =>
          [.call (.var (ident "offset") offset :: body)]) = some statements ∧
        Writes statements s destination o (ps false) := by
    obtain ⟨body, hbody, -⟩ := hall.statements
    cases hall with
    | nil =>
      refine ⟨[], rfl, fun buffer hbuffer => ?_⟩
      rw [executeAll, writeAll, Option.map_some, State.store, ← hbuffer, Function.update_eq_self]
    | cons head tail =>
      rw [hbody]
      exact ⟨_, rfl, call_writes (.cons head tail) hbody (fun _ => rfl) (.number o) (hoffset _)⟩
  cases t with
  | integer range => rw [Represents] at h; exact hleaf h
  | utf8 codeUnits => rw [Represents] at h; exact hleaf h
  | vector length element => simp only [Represents] at h
  | variant elements => simp only [Represents] at h
  | tuple elements =>
    cases v <;> cases d <;> simp only [Represents] at h
    obtain ⟨statements, hstatements, hwrites⟩ :=
      hcall (representsEach_serializes elements _ _ h value _ 0 rfl hvalue)
    refine ⟨statements, ?_, hwrites⟩
    rw [← hstatements]
    cases elements with
    | nil => rfl
    | cons t ts => rw [generateSerialization, serializationOfElements_eq]; rfl
  | struct elements =>
    cases v <;> cases d <;> simp only [Represents] at h
    obtain ⟨statements, hstatements, hwrites⟩ :=
      hcall (representsFields_serializes _ elements _ h value hvalue)
    refine ⟨statements, ?_, hwrites⟩
    rw [← hstatements]
    cases elements with
    | nil => rfl
    | cons element elements => rw [generateSerialization, serializationOfFields_eq]; rfl

theorem pieces_data [Platform] {t : Ty} {v : Value} {d : Datum} (h : Represents t v d) :
    (pieces t v).flatMap Piece.data = (generateValueSerialization t v).output := by
  cases t with
  | integer range => rw [Represents] at h; exact leafPieces_data h false
  | utf8 codeUnits => rw [Represents] at h; exact leafPieces_data h false
  | vector length element => simp only [Represents] at h
  | variant elements => simp only [Represents] at h
  | tuple elements =>
    cases v <;> cases d <;> simp only [Represents] at h
    rw [generateValueSerialization]
    exact (representsEach_emitted elements _ _ h).2 false
  | struct elements =>
    cases v <;> cases d <;> simp only [Represents] at h
    rw [generateValueSerialization]
    exact (representsFields_emitted _ elements _ h).2 false

/-- The statements for a value write its encoding at `o`, and touch nothing else, exactly when no
nested tuple or structure writes anything, or `o` is 0 and what they write is one integer of at
most four bytes, or the length of an empty string, with which the encoding begins. -/
theorem nested_serialization [Platform] (t : Ty) (v : Value) (d : Datum) (s : State)
    (value offset : Expression) (destination : Identifier) (o : Nat) (buffer : ArrayBuffer)
    (hvalue : Represents t v d)
    (heval : ∀ k, value.eval (Function.update s.scope (ident "offset") k) = some d)
    (hoffset : ∀ k, offset.eval (Function.update s.scope (ident "offset") k) = some (.number o))
    (hbuffer : s.buffers destination = some buffer)
    (hsize : o + (generateValueSerialization t v).output.length ≤ buffer.contents.length) :
    (generateValueSerialization t v).ok = true ∧
    ∃ size statements buffer', generateSizeOfValue t value = some size ∧
      size.eval s.scope = some (.number (generateValueSerialization t v).output.length) ∧
      generateSerialization t value destination offset = some statements ∧
      executeAll statements s = some (s.store destination buffer') ∧
      (Places buffer buffer' o (generateValueSerialization t v).output ↔
        InPlace o (pieces t v)) := by
  obtain ⟨size, hsize', hlength⟩ :=
    (@represents_serializes s.scope destination _ t v d hvalue value heval).size
  obtain ⟨statements, hstatements, hwrites⟩ :=
    represents_writes hvalue destination heval hoffset
  rw [← pieces_data hvalue] at hsize ⊢
  obtain ⟨buffer', hwrite, -⟩ := writeAll_written hsize
  refine ⟨(represents_emitted t v d hvalue).1, size, statements, buffer', hsize', ?_, hstatements,
    ?_, writeAll_places_iff hsize hwrite⟩
  · have hself := hlength (s.scope (ident "offset"))
    rwa [Function.update_eq_self, ← pieces_data hvalue] at hself
  · rw [hwrites buffer hbuffer, hwrite, Option.map_some]

/-- A tuple that begins with a tuple of one byte, at the front of its buffer. -/
theorem nested_serialization_front :
    letI := Platform.reference
    let t : Ty := .tuple [.tuple [.integer ⟨0, 255⟩], .integer ⟨0, 255⟩]
    let d : Datum := .array [.array [.number 5], .number 6]
    let buffer : ArrayBuffer := ⟨[0, 0], []⟩
    let s : State := ⟨fun name => if name = ident "t" then some d else none,
      fun _ => some buffer, []⟩
    ∃ statements buffer',
      generateSerialization t (.variable (ident "t")) (ident "b") (.number 0) = some statements ∧
      executeAll statements s = some (s.store (ident "b") buffer') ∧
      Places buffer buffer' 0
        (generateValueSerialization t (.tuple [.tuple [.integer 5], .integer 6])).output := by
  letI := Platform.reference
  intro t d buffer s
  have hone (n : Nat) (hn : Integer.contains ⟨0, 255⟩ n) :
      Leaf (.integer ⟨0, 255⟩) (.integer n) (.number n) := .integer hn (by decide)
  have hvalue : Represents t (.tuple [.tuple [.integer 5], .integer 6]) d :=
    ⟨⟨hone 5 (by decide), trivial⟩, hone 6 (by decide), trivial⟩
  obtain ⟨-, size, statements, buffer', -, -, hstatements, hrun, hplaces⟩ :=
    nested_serialization t _ d s (.variable (ident "t")) (.number 0) (ident "b") 0 buffer hvalue
      (fun k => by rw [Expression.eval, Function.update_of_ne (by decide)]; rfl) (fun _ => rfl) rfl
      (by decide)
  refine ⟨statements, buffer', hstatements, hrun, hplaces.mpr (.inr ⟨rfl, [], _, _, rfl, ?_, ?_⟩)⟩
  · exact fun _ hother => absurd hother List.not_mem_nil
  · intro piece hpiece hastray
    obtain rfl := List.mem_singleton.mp hpiece
    cases hastray

/-- The byte of a tuple inside another one is written at the front of the buffer. -/
theorem nested_serialization_behind :
    letI := Platform.reference
    let t : Ty := .tuple [.integer ⟨0, 255⟩, .tuple [.integer ⟨0, 255⟩]]
    let v : Value := .tuple [.integer 5, .tuple [.integer 6]]
    let d : Datum := .array [.number 5, .array [.number 6]]
    let buffer : ArrayBuffer := ⟨[0, 0], []⟩
    let s : State := ⟨fun name => if name = ident "t" then some d else none,
      fun _ => some buffer, []⟩
    (generateValueSerialization t v).output = [5, 6] ∧ ∃ statements s' buffer',
      generateSerialization t (.variable (ident "t")) (ident "b") (.number 0) = some statements ∧
      executeAll statements s = some s' ∧ s'.buffers (ident "b") = some buffer' ∧
      buffer'.contents = [6, 0] ∧ ¬ Places buffer buffer' 0 [5, 6] := by
  letI := Platform.reference
  intro t v d buffer s
  refine ⟨by decide, _, _, _, rfl, rfl, rfl, rfl, fun hplaces => ?_⟩
  cases hplaces.contents

end JavaScript

end Warpcoil
