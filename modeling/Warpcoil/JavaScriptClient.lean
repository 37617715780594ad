import Warpcoil.JavaScript

/-! The generated JavaScript client sends what the generated C++ client appends: its sizes, its
running offsets and its encodings stay aligned. -/
namespace Warpcoil
namespace JavaScript
open RecordedBuffer

/-! Both generators choose the same number of bytes. -/

theorem findNumberOfBytesRequired_eq (range : Integer) :
    findNumberOfBytesRequired range.maximum = (findSuitableUintCppType range).sizeof := by
  unfold findNumberOfBytesRequired findSuitableUintCppType
  have hstep (m : UInt64) {a b : UInt64} (hab : b.toNat = a.toNat + 1) : m < b ↔ m ≤ a := by
    rw [UInt64.lt_iff_toNat_lt, UInt64.le_iff_toNat_le, hab]
    exact Nat.lt_succ_iff
  simp only [hstep range.maximum (a := 0xff) (b := 0x100) (by decide),
    hstep range.maximum (a := 0xffff) (b := 0x10000) (by decide),
    hstep range.maximum (a := 0xffffffff) (b := 0x100000000) (by decide)]
  split_ifs <;> rfl

theorem toUtf8_ascii (text : List UInt8) : toUtf8 (text.map UInt8.toUInt16) = text := by
  rw [toUtf8, List.map_map]
  exact (List.map_congr_left fun b _ => UInt8.toUInt8_toUInt16 b).trans (List.map_id _)

/-- The two halves of a wide integer stand behind each other. -/
theorem toBytes_halves (n : Nat) :
    BigEndian.toBytes 4 (n / 2 ^ 32) ++ BigEndian.toBytes 4 (n % 2 ^ 32) =
      BigEndian.toBytes 8 n := by
  rw [show (2 : Nat) ^ 32 = 256 ^ 4 from rfl, BigEndian.toBytes_mod]
  exact (BigEndian.toBytes_add 4 4 n).symm

theorem executeAll_append (first second : List Statement) (s : State) :
    executeAll (first ++ second) s = (executeAll first s).bind (executeAll second) := by
  induction first generalizing s with
  | nil => rfl
  | cons statement statements ih =>
    rw [List.cons_append, executeAll, executeAll, Option.bind_assoc]
    congr 1
    funext t
    exact ih t

theorem declared_append (first second : List Statement) :
    declared (first ++ second) = declared first ++ declared second := by
  induction first with
  | nil => rfl
  | cons statement statements ih => cases statement <;> simp [declared, ih]

/-- The variables of the statements for a value are hidden in a function of their own. -/
theorem declared_generateSerialization {t : Ty} {value offset : Expression}
    {destination : Identifier} {statements : List Statement}
    (h : generateSerialization t value destination offset = some statements) :
    declared statements = [] := by
  cases t with
  | integer range =>
    simp only [generateSerialization, Option.some.injEq] at h
    rw [← h, generateIntegerSerialization]
    split_ifs <;> rfl
  | variant elements => cases h
  | tuple elements =>
    cases elements with
    | nil => cases h; rfl
    | cons t ts =>
      rw [generateSerialization, Option.map_eq_some_iff] at h
      obtain ⟨body, -, rfl⟩ := h
      rfl
  | vector length element => cases h
  | utf8 codeUnits =>
    simp only [generateSerialization, Option.some.injEq] at h
    rw [← h, generateIntegerSerialization]
    split_ifs <;> rfl
  | struct elements =>
    cases elements with
    | nil => cases h; rfl
    | cons t ts =>
      rw [generateSerialization, Option.map_eq_some_iff] at h
      obtain ⟨body, -, rfl⟩ := h
      rfl

/-! A list of values that are written one after another, each given by an expression. -/

def sizeOfAll : List (Ty × Expression) → Expression → Option Expression
  | [], total => some total
  | (t, value)::rest, total =>
    (generateSizeOfValue t value).bind fun size => sizeOfAll rest (.add total size)

def serializationOfAll (pointer destination : Identifier) :
    List (Ty × Expression) → Option (List Statement)
  | [] => some []
  | (t, value)::rest =>
    (generateSerialization t value destination (.variable pointer)).bind fun statements =>
      (generateSizeOfValue t value).bind fun size =>
        (serializationOfAll pointer destination rest).map fun others =>
          statements ++ .addAssign pointer size :: others

def elementsOf (value : Expression) : List Ty → Nat → List (Ty × Expression)
  | [], _ => []
  | t::ts, i => (t, .index value i) :: elementsOf value ts (i + 1)

def fieldsOf (value : Expression) (elements : List (Ty × Identifier)) :
    List (Ty × Expression) :=
  elements.map fun element => (element.1, .member value element.2)

def parametersOf (parameters : List (Ty × Identifier)) : List (Ty × Expression) :=
  parameters.map fun parameter => (parameter.1, .variable parameter.2)

theorem sizeOfElements_eq (ts : List Ty) (value : Expression) (i : Nat) (total : Expression) :
    sizeOfElements ts value i total = sizeOfAll (elementsOf value ts i) total := by
  induction ts generalizing i total with
  | nil => rfl
  | cons t ts ih => simp only [sizeOfElements, elementsOf, sizeOfAll, ih]

theorem sizeOfFields_eq (elements : List (Ty × Identifier)) (value total : Expression) :
    sizeOfFields elements value total = sizeOfAll (fieldsOf value elements) total := by
  induction elements generalizing total with
  | nil => rfl
  | cons element elements ih =>
    simp only [sizeOfFields, fieldsOf, List.map_cons, sizeOfAll, ih]

theorem requestSize_eq (parameters : List (Ty × Identifier)) (total : Expression) :
    requestSize parameters total = sizeOfAll (parametersOf parameters) total := by
  induction parameters generalizing total with
  | nil => rfl
  | cons parameter parameters ih =>
    simp only [requestSize, parametersOf, List.map_cons, sizeOfAll, ih]

theorem serializationOfElements_eq (ts : List Ty) (value : Expression) (i : Nat)
    (destination : Identifier) :
    serializationOfElements ts value i destination =
      serializationOfAll (ident "offset") destination (elementsOf value ts i) := by
  induction ts generalizing i with
  | nil => rfl
  | cons t ts ih => simp only [serializationOfElements, elementsOf, serializationOfAll, ih]

theorem serializationOfFields_eq (elements : List (Ty × Identifier)) (value : Expression)
    (destination : Identifier) :
    serializationOfFields elements value destination =
      serializationOfAll (ident "offset") destination (fieldsOf value elements) := by
  induction elements with
  | nil => rfl
  | cons element elements ih =>
    simp only [serializationOfFields, fieldsOf, List.map_cons, serializationOfAll, ih]

theorem declared_serializationOfAll {pointer destination : Identifier}
    {values : List (Ty × Expression)} {statements : List Statement}
    (h : serializationOfAll pointer destination values = some statements) :
    declared statements = [] := by
  induction values generalizing statements with
  | nil => cases h; rfl
  | cons value values ih =>
    simp only [serializationOfAll, Option.bind_eq_some_iff, Option.map_eq_some_iff] at h
    obtain ⟨first, hfirst, size, -, others, hothers, rfl⟩ := h
    rw [declared_append, declared_generateSerialization hfirst]
    exact (ih hothers : declared others = [])

/-! An argument as the two languages have it. -/

inductive Leaf : Ty → Value → Datum → Prop
  | integer {range : Integer} {n : Nat} (contains : range.contains n)
      (narrow : findNumberOfBytesRequired range.maximum ≠ 8) :
      Leaf (.integer range) (.integer n) (.number n)
  | halves {range : Integer} {n : Nat} {properties : List (Identifier × Datum)}
      (contains : range.contains n) (wide : findNumberOfBytesRequired range.maximum = 8)
      (high : properties.lookup (ident "high") = some (.number (n / 2 ^ 32)))
      (low : properties.lookup (ident "low") = some (.number (n % 2 ^ 32))) :
      Leaf (.integer range) (.integer n) (.object properties)
  | utf8 {codeUnits : Integer} {text : List UInt8} (contains : codeUnits.contains text.length)
      (ascii : ∀ b ∈ text, b < 128) (maximum : codeUnits.maximum < 0x100000000) :
      Leaf (.utf8 codeUnits) (.utf8 text) (.string (text.map UInt8.toUInt16))

inductive Leaves : List Ty → List Value → List Datum → Prop
  | nil : Leaves [] [] []
  | cons {t : Ty} {ts : List Ty} {v : Value} {vs : List Value} {d : Datum} {ds : List Datum}
      (leaf : Leaf t v d) (rest : Leaves ts vs ds) : Leaves (t::ts) (v::vs) (d::ds)

inductive LeafFields (properties : List (Identifier × Datum)) :
    List (Ty × Identifier) → List Value → Prop
  | nil : LeafFields properties [] []
  | cons {t : Ty} {name : Identifier} {elements : List (Ty × Identifier)} {v : Value}
      {vs : List Value} {d : Datum} (lookup : properties.lookup name = some d)
      (leaf : Leaf t v d) (rest : LeafFields properties elements vs) :
      LeafFields properties ((t, name)::elements) (v::vs)

/-- An integer, a string, or a tuple or structure of these. -/
inductive Argument : Ty → Value → Datum → Prop
  | leaf {t : Ty} {v : Value} {d : Datum} (leaf : Leaf t v d) : Argument t v d
  | tuple {ts : List Ty} {vs : List Value} {ds : List Datum} (leaves : Leaves ts vs ds) :
      Argument (.tuple ts) (.tuple vs) (.array ds)
  | struct {elements : List (Ty × Identifier)} {vs : List Value}
      {properties : List (Identifier × Datum)} (fields : LeafFields properties elements vs) :
      Argument (.struct elements) (.struct vs) (.object properties)

/-! The statements for one value. -/

/-- Run where `destination` has been filled with `front`, the statements append `data` and
change nothing else. -/
def Appends (statements : List Statement) (s : State) (destination : Identifier)
    (front data : List UInt8) : Prop :=
  ∀ buffer size, s.buffers destination = some buffer → Filled buffer size front →
    front.length + data.length ≤ size →
    ∃ buffer', executeAll statements s = some (s.store destination buffer') ∧
      Filled buffer' size (front ++ data)

@[simp] theorem State.store_scope (s : State) (name : Identifier) (buffer : ArrayBuffer) :
    (s.store name buffer).scope = s.scope := rfl

@[simp] theorem State.store_sent (s : State) (name : Identifier) (buffer : ArrayBuffer) :
    (s.store name buffer).sent = s.sent := rfl

@[simp] theorem State.assign_scope (s : State) (name : Identifier) (value : Datum) :
    (s.assign name value).scope = Function.update s.scope name (some value) := rfl

@[simp] theorem State.assign_buffers (s : State) (name : Identifier) (value : Datum) :
    (s.assign name value).buffers = s.buffers := rfl

@[simp] theorem State.assign_sent (s : State) (name : Identifier) (value : Datum) :
    (s.assign name value).sent = s.sent := rfl

@[simp] theorem State.store_buffers (s : State) (name : Identifier) (buffer : ArrayBuffer) :
    (s.store name buffer).buffers name = some buffer := Function.update_self ..

@[simp] theorem State.store_store (s : State) (name : Identifier)
    (buffer buffer' : ArrayBuffer) :
    (s.store name buffer).store name buffer' = s.store name buffer' := by
  simp only [State.store, Function.update_idem]

theorem Appends.append {first second : List Statement} {s : State} {destination : Identifier}
    {front data more : List UInt8} (h : Appends first s destination front data)
    (h' : ∀ buffer, Appends second (s.store destination buffer) destination (front ++ data) more) :
    Appends (first ++ second) s destination front (data ++ more) := by
  intro buffer size hbuffer hfilled hsize
  rw [List.length_append] at hsize
  obtain ⟨middle, hmiddle, hfilled⟩ := h buffer size hbuffer hfilled (by omega)
  obtain ⟨last, hlast, hfilled⟩ := h' middle middle size (s.store_buffers _ _) hfilled
    (by rw [List.length_append]; omega)
  refine ⟨last, ?_, ?_⟩
  · rw [executeAll_append, hmiddle, Option.bind_some, hlast, State.store_store]
  · rw [← List.append_assoc]
    exact hfilled

/-- A single write where the last one ended. -/
theorem write_filled {s : State} {destination : Identifier} {buffer : ArrayBuffer} {size : Nat}
    {front data : List UInt8} (hbuffer : s.buffers destination = some buffer)
    (hfilled : Filled buffer size front) (hsize : front.length + data.length ≤ size) :
    ∃ buffer', s.write destination front.length data = some (s.store destination buffer') ∧
      Filled buffer' size (front ++ data) := by
  obtain ⟨buffer', hwrite, hfilled'⟩ := hfilled.write hsize
  refine ⟨buffer', ?_, hfilled'⟩
  rw [State.write, hbuffer, Option.bind_some, hwrite, Option.map_some]

theorem setUint_appends {s : State} {bytes n : Nat} {destination : Identifier}
    {offset value : Expression} {front : List UInt8}
    (hoffset : offset.eval s.scope = some (.number front.length))
    (hvalue : value.eval s.scope = some (.number n)) :
    Appends [.setUint bytes destination offset value] s destination front
      (BigEndian.toBytes bytes n) := by
  intro buffer size hbuffer hfilled hsize
  obtain ⟨buffer', hwrite, hfilled'⟩ := write_filled hbuffer hfilled hsize
  refine ⟨buffer', ?_, hfilled'⟩
  rw [executeAll, Statement.execute_setUint (Datum.toInteger_of hoffset)
    (Datum.toInteger_of hvalue), hwrite]
  rfl

theorem set_appends {s : State} {destination : Identifier} {offset value : Expression}
    {front text : List UInt8} (hoffset : offset.eval s.scope = some (.number front.length))
    (hvalue : value.eval s.scope = some (.string (text.map UInt8.toUInt16))) :
    Appends [.set destination value offset] s destination front text := by
  intro buffer size hbuffer hfilled hsize
  obtain ⟨buffer', hwrite, hfilled'⟩ := write_filled hbuffer hfilled hsize
  refine ⟨buffer', ?_, hfilled'⟩
  rw [executeAll, Statement.execute_set (Datum.toInteger_of hoffset) hvalue, toUtf8_ascii, hwrite]
  rfl

/-- An integer that a number holds. -/
theorem generateIntegerSerialization_appends {s : State} {range : Integer} {n : Nat}
    {destination : Identifier} {offset value : Expression} {front : List UInt8}
    (hnarrow : findNumberOfBytesRequired range.maximum ≠ 8)
    (hoffset : offset.eval s.scope = some (.number front.length))
    (hvalue : value.eval s.scope = some (.number n)) :
    Appends (generateIntegerSerialization range value destination offset) s destination front
      (BigEndian.toBytes (findSuitableUintCppType range).sizeof n) := by
  rw [generateIntegerSerialization, if_neg hnarrow, findNumberOfBytesRequired_eq]
  exact setUint_appends hoffset hvalue

/-- An integer in two halves. -/
theorem generateIntegerSerialization_halves {s : State} {range : Integer} {n : Nat}
    {destination : Identifier} {offset value : Expression} {front : List UInt8}
    {properties : List (Identifier × Datum)}
    (hwide : findNumberOfBytesRequired range.maximum = 8)
    (hhigh : properties.lookup (ident "high") = some (.number (n / 2 ^ 32)))
    (hlow : properties.lookup (ident "low") = some (.number (n % 2 ^ 32)))
    (hoffset : offset.eval s.scope = some (.number front.length))
    (hvalue : value.eval s.scope = some (.object properties)) :
    Appends (generateIntegerSerialization range value destination offset) s destination front
      (BigEndian.toBytes (findSuitableUintCppType range).sizeof n) := by
  rw [← findNumberOfBytesRequired_eq, hwide, ← toBytes_halves, generateIntegerSerialization,
    if_pos hwide]
  refine @Appends.append [_] [_] s destination front _ _ ?_ ?_
  · exact setUint_appends hoffset (Expression.eval_member hvalue hhigh)
  · intro buffer
    apply setUint_appends
    · rw [List.length_append, BigEndian.toBytes_length]
      exact Expression.eval_add hoffset rfl
    · exact Expression.eval_member hvalue hlow

/-- Wherever `pointer` tells how much has been written, the statements for the value append
`data`, and the expression for its size gives the length of that. -/
structure Emits (base : Identifier → Option Datum) (pointer destination : Identifier) (t : Ty)
    (value : Expression) (data : List UInt8) : Prop where
  size : ∃ size, generateSizeOfValue t value = some size ∧
    ∀ k, size.eval (Function.update base pointer k) = some (.number data.length)
  statements : ∃ statements,
    generateSerialization t value destination (.variable pointer) = some statements ∧
      ∀ (s : State) (front : List UInt8),
        s.scope = Function.update base pointer (some (.number front.length)) →
        Appends statements s destination front data

inductive EmitsAll (base : Identifier → Option Datum) (pointer destination : Identifier) :
    List (Ty × Expression) → List UInt8 → Prop
  | nil : EmitsAll base pointer destination [] []
  | cons {t : Ty} {value : Expression} {values : List (Ty × Expression)}
      {data more : List UInt8} (head : Emits base pointer destination t value data)
      (tail : EmitsAll base pointer destination values more) :
      EmitsAll base pointer destination ((t, value)::values) (data ++ more)

section
variable {base : Identifier → Option Datum} {pointer destination : Identifier}

theorem EmitsAll.size {values : List (Ty × Expression)} {data : List UInt8}
    (h : EmitsAll base pointer destination values data) (total : Expression) :
    ∃ size, sizeOfAll values total = some size ∧
      ∀ k n, total.eval (Function.update base pointer k) = some (.number n) →
        size.eval (Function.update base pointer k) = some (.number (n + data.length)) := by
  induction h generalizing total with
  | nil => exact ⟨total, rfl, fun k n hn => hn⟩
  | @cons t value values data more head tail ih =>
    obtain ⟨first, hfirst, hlength⟩ := head.size
    obtain ⟨size, hsize, heval⟩ := ih (.add total first)
    refine ⟨size, by rw [sizeOfAll, hfirst, Option.bind_some, hsize], fun k n hn => ?_⟩
    have htotal : (Expression.add total first).eval (Function.update base pointer k) =
        some (.number (n + data.length)) := Expression.eval_add hn (hlength k)
    rw [heval k _ htotal, List.length_append, Nat.add_assoc]

/-- The loop over the values leaves the pointer behind the last of them. -/
theorem EmitsAll.statements {values : List (Ty × Expression)} {data : List UInt8}
    (h : EmitsAll base pointer destination values data) :
    ∃ body, serializationOfAll pointer destination values = some body ∧
      ∀ (s : State) (front : List UInt8) (buffer : ArrayBuffer) (size : Nat),
        s.scope = Function.update base pointer (some (.number front.length)) →
        s.buffers destination = some buffer → Filled buffer size front →
        front.length + data.length ≤ size →
        ∃ buffer', executeAll body s = some ((s.assign pointer
            (.number (front ++ data).length)).store destination buffer') ∧
          Filled buffer' size (front ++ data) := by
  induction h with
  | nil =>
    refine ⟨[], rfl, fun s front buffer size hscope hbuffer hfilled _ => ⟨buffer, ?_, ?_⟩⟩
    · rw [executeAll, List.append_nil, State.assign, State.store, hscope, Function.update_idem,
        ← hscope, ← hbuffer, Function.update_eq_self]
    · rw [List.append_nil]
      exact hfilled
  | @cons t value values data more head tail ih =>
    obtain ⟨statements, hstatements, happends⟩ := head.statements
    obtain ⟨first, hfirst, hlength⟩ := head.size
    obtain ⟨others, hothers, hexecute⟩ := ih
    refine ⟨statements ++ .addAssign pointer first :: others, ?_, ?_⟩
    · rw [serializationOfAll, hstatements, Option.bind_some, hfirst, Option.bind_some, hothers,
        Option.map_some]
    intro s front buffer size hscope hbuffer hfilled hsize
    rw [List.length_append] at hsize
    obtain ⟨middle, hmiddle, hfilled'⟩ := happends s front hscope buffer size hbuffer hfilled
      (by omega)
    have hadd : ((Expression.variable pointer).add first).eval s.scope =
        some (.number (front ++ data).length) := by
      rw [hscope, List.length_append]
      exact Expression.eval_add (by rw [Expression.eval, Function.update_self]) (hlength _)
    obtain ⟨last, hlast, hfilled''⟩ := hexecute
      ((s.store destination middle).assign pointer (.number (front ++ data).length))
      (front ++ data) middle size
      (by rw [State.assign, State.store_scope, hscope, Function.update_idem])
      (s.store_buffers _ _) hfilled' (by rw [List.length_append]; omega)
    refine ⟨last, ?_, by rw [← List.append_assoc]; exact hfilled''⟩
    rw [executeAll_append, hmiddle, Option.bind_some, executeAll, Statement.execute,
      State.store_scope, hadd, Option.map_some, Option.bind_some, hlast, List.append_assoc]
    simp only [State.assign, State.store, Function.update_idem]

end

/-! What the C++ serializer appends for an argument. -/

variable [Platform]

theorem Leaf.ok {t : Ty} {v : Value} {d : Datum} (h : Leaf t v d) :
    (generateValueSerialization t v).ok = true := by
  cases h with
  | integer contains | halves contains =>
    rw [generateValueSerialization]
    exact serializeInteger_ok.mpr contains
  | utf8 contains ascii =>
    rw [generateValueSerialization, if_pos (Platform.isValid_ascii _ ascii), Emission.seq_ok,
      serializeInteger_ok.mpr contains]
    rfl

theorem Leaves.ok {ts : List Ty} {vs : List Value} {ds : List Datum} (h : Leaves ts vs ds) :
    (serializeEach ts vs).ok = true := by
  induction h with
  | nil => rfl
  | cons leaf rest ih => rw [serializeEach, Emission.seq_ok, leaf.ok, ih]; rfl

theorem LeafFields.ok {properties : List (Identifier × Datum)}
    {elements : List (Ty × Identifier)} {vs : List Value}
    (h : LeafFields properties elements vs) : (serializeFields elements vs).ok = true := by
  induction h with
  | nil => rfl
  | cons lookup leaf rest ih => rw [serializeFields, Emission.seq_ok, leaf.ok, ih]; rfl

theorem Argument.ok {t : Ty} {v : Value} {d : Datum} (h : Argument t v d) :
    (generateValueSerialization t v).ok = true := by
  cases h with
  | leaf h => exact h.ok
  | tuple h => rw [generateValueSerialization]; exact h.ok
  | struct h => rw [generateValueSerialization]; exact h.ok

theorem Leaf.size {t : Ty} {v : Value} {d : Datum} (h : Leaf t v d) (value : Expression) :
    ∃ size, generateSizeOfValue t value = some size ∧
      ∀ scope, value.eval scope = some d →
        size.eval scope = some (.number (generateValueSerialization t v).output.length) := by
  cases h with
  | integer contains | halves contains =>
    refine ⟨_, rfl, fun scope _ => ?_⟩
    rw [generateValueSerialization, serializeInteger_output contains, BigEndian.toBytes_length,
      findNumberOfBytesRequired_eq]
    rfl
  | @utf8 codeUnits text contains ascii maximum =>
    refine ⟨_, rfl, fun scope hvalue => ?_⟩
    rw [generateValueSerialization, if_pos (Platform.isValid_ascii _ ascii),
      Emission.seq_output _ _ (serializeInteger_ok.mpr contains),
      serializeInteger_output contains, List.length_append, BigEndian.toBytes_length,
      findNumberOfBytesRequired_eq, Expression.eval, Expression.eval, Expression.eval, hvalue]
    dsimp only
    rw [toUtf8_ascii]
    rfl

theorem Leaf.statements {t : Ty} {v : Value} {d : Datum} (h : Leaf t v d)
    (value : Expression) (destination : Identifier) (offset : Expression) :
    ∃ statements, generateSerialization t value destination offset = some statements ∧
      ∀ (s : State) (front : List UInt8),
        offset.eval s.scope = some (.number front.length) → value.eval s.scope = some d →
        Appends statements s destination front (generateValueSerialization t v).output := by
  cases h with
  | integer contains narrow =>
    refine ⟨_, rfl, fun s front hoffset hvalue => ?_⟩
    rw [generateValueSerialization, serializeInteger_output contains]
    exact generateIntegerSerialization_appends narrow hoffset hvalue
  | halves contains wide high low =>
    refine ⟨_, rfl, fun s front hoffset hvalue => ?_⟩
    rw [generateValueSerialization, serializeInteger_output contains]
    exact generateIntegerSerialization_halves wide high low hoffset hvalue
  | @utf8 codeUnits text contains ascii maximum =>
    refine ⟨_, rfl, fun s front hoffset hvalue => ?_⟩
    have hnarrow : findNumberOfBytesRequired codeUnits.maximum ≠ 8 := by
      unfold findNumberOfBytesRequired
      rw [if_pos maximum]
      split_ifs <;> decide
    rw [generateValueSerialization, if_pos (Platform.isValid_ascii _ ascii),
      Emission.seq_output _ _ (serializeInteger_ok.mpr contains),
      serializeInteger_output contains, Emission.emit_output]
    apply Appends.append
    · apply generateIntegerSerialization_appends hnarrow hoffset
      rw [Expression.eval_length hvalue, List.length_map]
    · intro buffer
      refine set_appends ?_ hvalue
      rw [List.length_append, BigEndian.toBytes_length, ← findNumberOfBytesRequired_eq,
        Nat.add_comm]
      exact Expression.eval_add rfl hoffset

section
variable {base : Identifier → Option Datum} {pointer destination : Identifier}

theorem Leaf.emits {t : Ty} {v : Value} {d : Datum} (h : Leaf t v d) {value : Expression}
    (hvalue : ∀ k, value.eval (Function.update base pointer k) = some d) :
    Emits base pointer destination t value (generateValueSerialization t v).output := by
  obtain ⟨size, hsize, heval⟩ := h.size value
  obtain ⟨statements, hstatements, happends⟩ := h.statements value destination (.variable pointer)
  refine ⟨⟨size, hsize, fun k => heval _ (hvalue k)⟩, statements, hstatements, ?_⟩
  intro s front hscope
  apply happends s front
  · rw [Expression.eval, hscope, Function.update_self]
  · rw [hscope]
    exact hvalue _

theorem Leaves.emitsAll {ts : List Ty} {vs : List Value} {ds : List Datum} (h : Leaves ts vs ds)
    {value : Expression} {all : List Datum} {i : Nat} (hdrop : all.drop i = ds)
    (hvalue : ∀ k, value.eval (Function.update base pointer k) = some (.array all)) :
    EmitsAll base pointer destination (elementsOf value ts i) (serializeEach ts vs).output := by
  induction h generalizing i with
  | nil => exact .nil
  | @cons t ts v vs d ds leaf rest ih =>
    have hget : all[i]? = some d := by
      rw [← Nat.add_zero i, ← List.getElem?_drop, hdrop]
      rfl
    have hnext : all.drop (i + 1) = ds := by
      rw [← List.drop_drop, hdrop]
      rfl
    rw [serializeEach, Emission.seq_output _ _ leaf.ok]
    exact .cons (leaf.emits fun k => Expression.eval_index (hvalue k) hget) (ih hnext)

theorem LeafFields.emitsAll {properties : List (Identifier × Datum)}
    {elements : List (Ty × Identifier)} {vs : List Value}
    (h : LeafFields properties elements vs) {value : Expression}
    (hvalue : ∀ k, value.eval (Function.update base pointer k) = some (.object properties)) :
    EmitsAll base pointer destination (fieldsOf value elements)
      (serializeFields elements vs).output := by
  induction h with
  | nil => exact .nil
  | cons lookup leaf rest ih =>
    rw [serializeFields, Emission.seq_output _ _ leaf.ok]
    exact .cons (leaf.emits fun k => Expression.eval_member (hvalue k) lookup) ih

omit [Platform] in
/-- The function around the elements of a tuple or structure hides their offset. -/
theorem call_appends {values : List (Ty × Expression)} {data front : List UInt8} {s : State}
    {body : List Statement} (hpointer : pointer ≠ ident "offset")
    (hscope : s.scope pointer = some (.number front.length))
    (hbody : serializationOfAll (ident "offset") destination values = some body)
    (h : EmitsAll s.scope (ident "offset") destination values data) :
    Appends [.call (.var (ident "offset") (.variable pointer) :: body)] s destination front
      data := by
  intro buffer size hbuffer hfilled hsize
  obtain ⟨body', hbody', hexecute⟩ := h.statements
  rw [hbody, Option.some.injEq] at hbody'
  subst hbody'
  have hdeclared : declared (.var (ident "offset") (.variable pointer) :: body) =
      [ident "offset"] := by
    rw [declared, declared_serializationOfAll hbody]
  have henter : (s.enter [ident "offset"]).scope =
      Function.update s.scope (ident "offset") (some .undefined) := by
    funext name
    rw [State.enter, Function.update_apply]
    simp only [List.mem_singleton]
  have hoffset : (Expression.variable pointer).eval (s.enter [ident "offset"]).scope =
      some (.number front.length) := by
    rw [Expression.eval, henter, Function.update_of_ne hpointer, hscope]
  obtain ⟨buffer', hrun, hfilled'⟩ := hexecute
    ((s.enter [ident "offset"]).assign (ident "offset") (.number front.length)) front buffer size
    (by rw [State.assign, henter, Function.update_idem]) hbuffer hfilled hsize
  refine ⟨buffer', ?_, hfilled'⟩
  rw [executeAll, Statement.execute, hdeclared, executeAll, Statement.execute, hoffset,
    Option.map_some, Option.bind_some, hrun, Option.map_some, Option.bind_some, executeAll]
  congr 1
  simp only [State.leave, State.assign, State.store, henter, Function.update_idem,
    List.mem_singleton]
  congr 1
  funext name
  by_cases hname : name = ident "offset"
  · rw [if_pos hname]
  · rw [if_neg hname, Function.update_of_ne hname]

omit [Platform] in
/-- A tuple or structure, whose elements are `values`. -/
theorem EmitsAll.emits {t : Ty} {value : Expression} {values : List (Ty × Expression)}
    {data : List UInt8} (hpointer : pointer ≠ ident "offset")
    (hsize : generateSizeOfValue t value = sizeOfAll values (.number 0))
    (hstatements : generateSerialization t value destination (.variable pointer) =
      if values.isEmpty then some []
      else (serializationOfAll (ident "offset") destination values).map fun body =>
        [.call (.var (ident "offset") (.variable pointer) :: body)])
    (h : EmitsAll base pointer destination values data)
    (hinner : ∀ n, EmitsAll (Function.update base pointer (some (.number n))) (ident "offset")
      destination values data) : Emits base pointer destination t value data := by
  constructor
  · obtain ⟨size, hall, hlength⟩ := h.size (.number 0)
    refine ⟨size, hsize.trans hall, fun k => ?_⟩
    rw [hlength k 0 rfl, Nat.zero_add]
  · rw [hstatements]
    cases h with
    | nil =>
      refine ⟨[], rfl, fun s front _ buffer size hbuffer hfilled _ => ⟨buffer, ?_, ?_⟩⟩
      · rw [executeAll, State.store, ← hbuffer, Function.update_eq_self]
      · rw [List.append_nil]
        exact hfilled
    | cons head tail =>
      obtain ⟨body, hbody, -⟩ := (hinner 0).statements
      rw [hbody]
      refine ⟨_, rfl, fun s front hscope => ?_⟩
      apply call_appends hpointer ?_ hbody
      · rw [hscope]
        exact hinner front.length
      · rw [hscope, Function.update_self]

theorem Argument.emits {t : Ty} {v : Value} {d : Datum} (h : Argument t v d)
    {name : Identifier} (hpointer : pointer ≠ ident "offset") (hname : name ≠ pointer)
    (hoffset : name ≠ ident "offset") (hvalue : base name = some d) :
    Emits base pointer destination t (.variable name) (generateValueSerialization t v).output := by
  have heval (k : Option Datum) :
      (Expression.variable name).eval (Function.update base pointer k) = some d := by
    rw [Expression.eval, Function.update_of_ne hname, hvalue]
  have hinner (n : Nat) (k : Option Datum) : (Expression.variable name).eval (Function.update
      (Function.update base pointer (some (.number n))) (ident "offset") k) = some d := by
    rw [Expression.eval, Function.update_of_ne hoffset, Function.update_of_ne hname, hvalue]
  cases h with
  | leaf h => exact h.emits heval
  | @tuple ts vs ds h =>
    rw [generateValueSerialization]
    refine EmitsAll.emits hpointer ?_ ?_ (h.emitsAll (i := 0) rfl heval)
      fun n => h.emitsAll (i := 0) rfl (hinner n)
    · rw [generateSizeOfValue, sizeOfElements_eq]
    · cases ts with
      | nil => rfl
      | cons t ts => rw [generateSerialization, serializationOfElements_eq]; rfl
  | @struct elements vs properties h =>
    rw [generateValueSerialization]
    refine EmitsAll.emits hpointer ?_ ?_ (h.emitsAll heval) fun n => h.emitsAll (hinner n)
    · rw [generateSizeOfValue, sizeOfFields_eq]
    · cases elements with
      | nil => rfl
      | cons element elements => rw [generateSerialization, serializationOfFields_eq]; rfl

end

/-! The parameters of a method. -/

/-- The parameters hold the arguments. -/
inductive Arguments (scope : Identifier → Option Datum) :
    List (Ty × Identifier) → List Value → Prop
  | nil : Arguments scope [] []
  | cons {t : Ty} {name : Identifier} {parameters : List (Ty × Identifier)} {v : Value}
      {vs : List Value} {d : Datum} (bound : scope name = some d) (argument : Argument t v d)
      (rest : Arguments scope parameters vs) : Arguments scope ((t, name)::parameters) (v::vs)

/-- The names that the generated function uses: its locals, those around it and the globals. -/
def generatedNames : List Identifier :=
  ["offset", "write_pointer", "request_size", "request_buffer", "request_id", "next_request_id",
    "key", "on_result", "pending_requests", "send_bytes", "library", "ArrayBuffer", "DataView",
    "Uint8Array", "JSON"].map ident

omit [Platform] in
theorem ne_of_free {name used : Identifier} (hfree : name ∉ generatedNames)
    (hused : used ∈ generatedNames) : name ≠ used :=
  (ne_of_mem_of_not_mem hused hfree).symm

theorem Arguments.ok {scope : Identifier → Option Datum} {parameters : List (Ty × Identifier)}
    {vs : List Value} (h : Arguments scope parameters vs) :
    (serializeEach (parameters.map Prod.fst) vs).ok = true := by
  induction h with
  | nil => rfl
  | cons bound argument rest ih =>
    rw [List.map_cons, serializeEach, Emission.seq_ok, argument.ok, ih]
    rfl

omit [Platform] in
/-- Only the names of the parameters matter. -/
theorem Arguments.congr {scope scope' : Identifier → Option Datum}
    {parameters : List (Ty × Identifier)} {vs : List Value} (h : Arguments scope parameters vs)
    (hscope : ∀ parameter ∈ parameters, scope' parameter.2 = scope parameter.2) :
    Arguments scope' parameters vs := by
  induction h with
  | nil => exact .nil
  | cons bound argument rest ih =>
    rw [List.forall_mem_cons] at hscope
    exact .cons (hscope.1.trans bound) argument (ih hscope.2)

theorem Arguments.emitsAll {base : Identifier → Option Datum} {destination : Identifier}
    {parameters : List (Ty × Identifier)} {vs : List Value} (h : Arguments base parameters vs)
    (hfree : ∀ parameter ∈ parameters, parameter.2 ∉ generatedNames) :
    EmitsAll base (ident "write_pointer") destination (parametersOf parameters)
      (serializeEach (parameters.map Prod.fst) vs).output := by
  induction h with
  | nil => exact .nil
  | @cons t name parameters v vs d bound argument rest ih =>
    rw [List.forall_mem_cons] at hfree
    rw [List.map_cons, serializeEach, Emission.seq_output _ _ argument.ok]
    exact .cons (argument.emits (by decide) (ne_of_free hfree.1 (by decide))
      (ne_of_free hfree.1 (by decide)) bound) (ih hfree.2)

/-- Only behind the last parameter the pointer is not moved. -/
theorem Arguments.serializeParameters {base : Identifier → Option Datum}
    {parameters : List (Ty × Identifier)} {vs : List Value} (h : Arguments base parameters vs)
    (hfree : ∀ parameter ∈ parameters, parameter.2 ∉ generatedNames) (hne : parameters ≠ []) :
    ∃ statements, JavaScript.serializeParameters parameters = some statements ∧
      ∀ (s : State) (front : List UInt8) (buffer : ArrayBuffer) (size : Nat),
        s.scope = Function.update base (ident "write_pointer") (some (.number front.length)) →
        s.buffers (ident "request_buffer") = some buffer → Filled buffer size front →
        front.length + (serializeEach (parameters.map Prod.fst) vs).output.length ≤ size →
        ∃ n buffer', executeAll statements s = some ((s.assign (ident "write_pointer")
            (.number n)).store (ident "request_buffer") buffer') ∧
          Filled buffer' size
            (front ++ (serializeEach (parameters.map Prod.fst) vs).output) := by
  induction h with
  | nil => exact (hne rfl).elim
  | @cons t name parameters v vs d bound argument rest ih =>
    rw [List.forall_mem_cons] at hfree
    have hemits : Emits base (ident "write_pointer") (ident "request_buffer") t (.variable name)
        (generateValueSerialization t v).output :=
      argument.emits (by decide) (ne_of_free hfree.1 (by decide))
        (ne_of_free hfree.1 (by decide)) bound
    obtain ⟨statements, hstatements, happends⟩ := hemits.statements
    obtain ⟨first, hfirst, hlength⟩ := hemits.size
    rw [List.map_cons, serializeEach, Emission.seq_output _ _ argument.ok]
    cases hrest : parameters with
    | nil =>
      refine ⟨statements, ?_, fun s front buffer size hscope hbuffer hfilled hsize => ?_⟩
      · rw [JavaScript.serializeParameters, hstatements]
        rfl
      · rw [hrest] at rest
        cases rest
        rw [List.map_nil, serializeEach, Emission.done_output, List.append_nil] at hsize ⊢
        obtain ⟨buffer', hrun, hfilled'⟩ := happends s front hscope buffer size hbuffer hfilled
          hsize
        refine ⟨front.length, buffer', ?_, hfilled'⟩
        rw [hrun, State.assign, hscope, Function.update_idem, ← hscope]
    | cons parameter others =>
      rw [hrest] at ih hfree rest
      obtain ⟨following, hfollowing, hexecute⟩ := ih hfree.2 (List.cons_ne_nil _ _)
      refine ⟨statements ++ .addAssign (ident "write_pointer") first :: following, ?_,
        fun s front buffer size hscope hbuffer hfilled hsize => ?_⟩
      · rw [JavaScript.serializeParameters, hstatements, Option.bind_some, hfirst, hfollowing]
        rfl
      · rw [List.length_append] at hsize
        obtain ⟨middle, hmiddle, hfilled'⟩ := happends s front hscope buffer size hbuffer hfilled
          (by omega)
        have hadd : ((Expression.variable (ident "write_pointer")).add first).eval s.scope =
            some (.number (front ++ (generateValueSerialization t v).output).length) := by
          rw [hscope, List.length_append]
          exact Expression.eval_add (by rw [Expression.eval, Function.update_self]) (hlength _)
        obtain ⟨n, last, hlast, hfilled''⟩ := hexecute
          ((s.store (ident "request_buffer") middle).assign (ident "write_pointer")
            (.number (front ++ (generateValueSerialization t v).output).length)) _ middle size
          (by rw [State.assign, State.store_scope, hscope, Function.update_idem])
          (s.store_buffers (ident "request_buffer") middle) hfilled'
          (by rw [List.length_append]; omega)
        refine ⟨n, last, ?_, by rw [← List.append_assoc]; exact hfilled''⟩
        rw [executeAll_append, hmiddle, Option.bind_some, executeAll, Statement.execute,
          State.store_scope, hadd, Option.map_some, Option.bind_some, hlast]
        simp only [State.assign, State.store, Function.update_idem]

/-! A whole method. -/

/-- The statements that come before the name: the buffer, the message type, the id. -/
def headerStatements (size : Expression) : List Statement :=
  [.var (ident "request_size") size,
    .arrayBuffer (ident "request_buffer") (.variable (ident "request_size"))] ++
  generateIntegerSerialization ⟨0, 255⟩ (.number 0) (ident "request_buffer") (.number 0) ++
  [.var (ident "request_id") (.halves (.number 0) (.variable (ident "next_request_id"))),
    .addAssign (ident "next_request_id") (.number 1)] ++
  generateIntegerSerialization ⟨0, 0xffffffffffffffff⟩ (.variable (ident "request_id"))
    (ident "request_buffer") (.number 1) ++
  [.var (ident "write_pointer") (.add (.number 1) (.number 8))]

/-- The variables after these statements. -/
def headerScope (scope : Identifier → Option Datum) (size id : Nat) :
    Identifier → Option Datum :=
  Function.update (Function.update (Function.update scope (ident "request_size")
      (some (.number size)))
    (ident "request_id") (some (.object [(ident "high", .number 0), (ident "low", .number id)])))
    (ident "next_request_id") (some (.number (id + 1)))

omit [Platform] in
theorem headerStatements_execute {s : State} {size : Expression} {n : Nat} {id : RequestId}
    (hid : id < 0x100000000) (hnext : s.scope (ident "next_request_id") = some (.number id.toNat))
    (hsize : size.eval s.scope = some (.number n)) (hn : 9 ≤ n) :
    ∃ s' buffer, executeAll (headerStatements size) s = some s' ∧
      s'.scope = Function.update (headerScope s.scope n id.toNat) (ident "write_pointer")
        (some (.number 9)) ∧
      s'.buffers (ident "request_buffer") = some buffer ∧
      Filled buffer n (messageHeader .request id) ∧ s'.sent = s.sent := by
  have hopen : executeAll [.var (ident "request_size") size,
      .arrayBuffer (ident "request_buffer") (.variable (ident "request_size"))] s =
      some ((s.assign (ident "request_size") (.number n)).store (ident "request_buffer")
        ⟨List.replicate n 0, []⟩) := by
    rw [executeAll, Statement.execute, hsize, Option.map_some, Option.bind_some, executeAll,
      Statement.execute, Expression.eval, State.assign_scope, Function.update_self]
    rfl
  have hempty : Filled (⟨List.replicate n 0, []⟩ : ArrayBuffer) n [] :=
    ⟨List.length_replicate, List.nil_prefix, rfl⟩
  have htype : Appends (generateIntegerSerialization ⟨0, 255⟩ (.number 0)
      (ident "request_buffer") (.number 0))
      ((s.assign (ident "request_size") (.number n)).store (ident "request_buffer")
        ⟨List.replicate n 0, []⟩) (ident "request_buffer") [] (BigEndian.toBytes 1 0) :=
    generateIntegerSerialization_appends (by decide) rfl rfl
  obtain ⟨typed, htyped, hfilled⟩ := htype _ n (State.store_buffers ..) hempty
    (by rw [BigEndian.toBytes_length, List.length_nil]; omega)
  rw [State.store_store] at htyped
  -- the id is an object of two halves
  let t : State := ((s.assign (ident "request_size") (.number n)).assign (ident "request_id")
    (.object [(ident "high", .number 0), (ident "low", .number id.toNat)])).assign
      (ident "next_request_id") (.number (id.toNat + 1))
  have hvars : executeAll [.var (ident "request_id")
        (.halves (.number 0) (.variable (ident "next_request_id"))),
      .addAssign (ident "next_request_id") (.number 1)]
      ((s.assign (ident "request_size") (.number n)).store (ident "request_buffer") typed) =
      some (t.store (ident "request_buffer") typed) := by
    rw [executeAll, Statement.execute, Expression.eval, Expression.eval, Expression.eval,
      State.store_scope, State.assign_scope, Function.update_of_ne (by decide), hnext,
      Option.map_some, Option.bind_some, executeAll, Statement.execute, Expression.eval,
      Expression.eval, Expression.eval, State.assign_scope, State.store_scope,
      State.assign_scope, Function.update_of_ne (by decide), Function.update_of_ne (by decide),
      hnext]
    rfl
  have hsmall : id.toNat < 2 ^ 32 := UInt64.lt_iff_toNat_lt.mp hid
  have hid : Appends (generateIntegerSerialization ⟨0, 0xffffffffffffffff⟩
      (.variable (ident "request_id")) (ident "request_buffer") (.number 1))
      (t.store (ident "request_buffer") typed) (ident "request_buffer")
      (BigEndian.toBytes 1 0) (BigEndian.toBytes 8 id.toNat) := by
    apply generateIntegerSerialization_halves (by decide) _ _ rfl
    · rw [Expression.eval, State.store_scope, State.assign_scope,
        Function.update_of_ne (by decide), State.assign_scope, Function.update_self]
    · rw [Nat.div_eq_of_lt hsmall]
      rfl
    · rw [Nat.mod_eq_of_lt hsmall]
      rfl
  obtain ⟨buffer, hbuffer, hfilled⟩ := hid typed n (State.store_buffers ..) hfilled
    (by rw [BigEndian.toBytes_length, BigEndian.toBytes_length]; omega)
  rw [State.store_store] at hbuffer
  refine ⟨(t.store (ident "request_buffer") buffer).assign (ident "write_pointer") (.number 9),
    buffer, ?_, rfl, by rw [State.assign_buffers, State.store_buffers], ?_, rfl⟩
  · simp only [headerStatements, executeAll_append]
    rw [hopen, Option.bind_some, htyped, Option.bind_some, hvars, Option.bind_some, hbuffer]
    rfl
  · rw [messageHeader, writeInteger_eq, writeInteger_eq]
    exact hfilled

omit [Platform] in
theorem generateClient_eq {name : Identifier} {parameters : List (Ty × Identifier)}
    {size nameSize : Expression} {nameStatements arguments : List Statement}
    (hsize : requestSize parameters (.add (.add (.add (.number 1) (.number 8)) (.number 1))
      (.number name.length)) = some size)
    (hname : generateSerialization nameType (.string name) (ident "request_buffer")
      (.variable (ident "write_pointer")) = some nameStatements)
    (hnameSize : generateSizeOfValue nameType (.string name) = some nameSize)
    (harguments : serializeParameters parameters = some arguments) :
    generateClient name parameters = some (headerStatements size ++ (nameStatements ++
      ((if parameters.isEmpty then [] else [.addAssign (ident "write_pointer") nameSize]) ++
        (arguments ++ [.sendBytes (ident "request_buffer")])))) := by
  rw [generateClient, hsize, hname, hnameSize, harguments]
  simp only [generateSerialization, headerStatements, Option.bind_eq_bind, Option.bind_some,
    List.append_assoc]

/-- The parameters are written behind the name, which the pointer is moved over for them. -/
theorem Arguments.execute {base : Identifier → Option Datum}
    {parameters : List (Ty × Identifier)} {vs : List Value} (h : Arguments base parameters vs)
    (hfree : ∀ parameter ∈ parameters, parameter.2 ∉ generatedNames) (nameSize : Expression) :
    ∃ statements, JavaScript.serializeParameters parameters = some statements ∧
      ∀ (s : State) (at_ : Nat) (front : List UInt8) (buffer : ArrayBuffer) (size : Nat),
        s.scope = Function.update base (ident "write_pointer") (some (.number at_)) →
        nameSize.eval s.scope = some (.number (front.length - at_)) → at_ ≤ front.length →
        s.buffers (ident "request_buffer") = some buffer → Filled buffer size front →
        front.length + (serializeEach (parameters.map Prod.fst) vs).output.length ≤ size →
        ∃ s' buffer', executeAll
            ((if parameters.isEmpty then [] else [.addAssign (ident "write_pointer") nameSize]) ++
              statements) s = some s' ∧
          s'.buffers (ident "request_buffer") = some buffer' ∧
          Filled buffer' size
            (front ++ (serializeEach (parameters.map Prod.fst) vs).output) ∧
          s'.sent = s.sent ∧ s'.scope (ident "request_size") = s.scope (ident "request_size") := by
  cases h with
  | nil =>
    refine ⟨[], rfl, fun s at_ front buffer size _ _ _ hbuffer hfilled _ => ?_⟩
    exact ⟨s, buffer, rfl, hbuffer, (List.append_nil front).symm ▸ hfilled, rfl, rfl⟩
  | @cons t name parameters v vs d bound argument rest =>
    have hall : Arguments base ((t, name)::parameters) (v::vs) := .cons bound argument rest
    obtain ⟨statements, hstatements, hexecute⟩ :=
      hall.serializeParameters hfree (List.cons_ne_nil _ _)
    refine ⟨statements, hstatements,
      fun s at_ front buffer size hscope hname hle hbuffer hfilled hsize => ?_⟩
    have hmove : ((Expression.variable (ident "write_pointer")).add nameSize).eval s.scope =
        some (.number front.length) := by
      have hat : (Expression.variable (ident "write_pointer")).eval s.scope =
          some (.number at_) := by
        rw [Expression.eval, hscope, Function.update_self]
      rw [Expression.eval_add hat hname, Nat.add_sub_cancel' hle]
    obtain ⟨n, buffer', hrun, hfilled'⟩ := hexecute
      (s.assign (ident "write_pointer") (.number front.length)) front buffer size
      (by rw [State.assign_scope, hscope, Function.update_idem]) hbuffer hfilled hsize
    have hmoved : executeAll ([.addAssign (ident "write_pointer") nameSize] ++ statements) s =
        some (((s.assign (ident "write_pointer") (.number front.length)).assign
          (ident "write_pointer") (.number n)).store (ident "request_buffer") buffer') := by
      rw [List.singleton_append, executeAll, Statement.execute, hmove, Option.map_some,
        Option.bind_some, hrun]
    refine ⟨_, buffer', hmoved, State.store_buffers .., hfilled', rfl, ?_⟩
    rw [State.store_scope, State.assign_scope, State.assign_scope,
      Function.update_of_ne (by decide), Function.update_of_ne (by decide)]

/-- What the method passes to `send_bytes` is the message that the C++ client appends. -/
theorem request_bytes (id : RequestId) (name : Identifier) (m : Method)
    (parameters : List (Ty × Identifier)) (arguments : List Value) (s : State)
    (hid : id < 0x100000000) (hlength : name.length ≤ 255) (hascii : ∀ b ∈ name, b < 128)
    (hparameters : parameters.map Prod.fst = m.parameters)
    (hfree : ∀ parameter ∈ parameters, parameter.2 ∉ generatedNames)
    (harguments : Arguments s.scope parameters arguments)
    (hnext : s.scope (ident "next_request_id") = some (.number id.toNat)) :
    (requestMessage id name m arguments).ok = true ∧
    ∃ statements s' buffer, generateClient name parameters = some statements ∧
      executeAll statements s = some s' ∧ s'.sent = s.sent ++ [buffer] ∧
      buffer.contents = (requestMessage id name m arguments).output ∧
      s'.scope (ident "request_size") = some (.number buffer.written.length) ∧
      buffer.written.length = buffer.contents.length ∧
      ∀ i, i < buffer.contents.length → buffer.written.count i = 1 := by
  have hok : (requestMessage id name m arguments).ok = true := by
    rw [requestMessage, buildRequest, ← hparameters, Emission.seq_ok, Emission.seq_ok,
      harguments.ok]
    rfl
  have hmessage : (requestMessage id name m arguments).output = messageHeader .request id ++
      (UInt8.ofNat name.length :: name) ++
        (serializeEach (parameters.map Prod.fst) arguments).output := by
    rw [requestMessage, buildRequest, ← hparameters, Emission.seq_output _ _ rfl,
      Emission.seq_output _ _ rfl, List.append_assoc]
    rfl
  refine ⟨hok, ?_⟩
  have hnine : (messageHeader .request id).length = 9 := by
    rw [messageHeader, writeInteger_eq, writeInteger_eq, List.length_append,
      BigEndian.toBytes_length, BigEndian.toBytes_length]
    rfl
  -- the name is a string of the type `{0, 255}`
  have hleaf : Leaf nameType (.utf8 name) (.string (name.map UInt8.toUInt16)) :=
    .utf8 ⟨Nat.zero_le _, hlength⟩ hascii (by decide)
  have hbytes : (generateValueSerialization nameType (.utf8 name)).output =
      UInt8.ofNat name.length :: name := by
    rw [nameType, generateValueSerialization, if_pos (Platform.isValid_ascii _ hascii),
      Emission.seq_output _ _ (serializeInteger_ok.mpr ⟨Nat.zero_le _, hlength⟩),
      serializeInteger_output ⟨Nat.zero_le _, hlength⟩]
    rfl
  obtain ⟨nameSize, hnameSize, hnameLength⟩ := hleaf.size (.string name)
  obtain ⟨nameStatements, hnameStatements, hnameAppends⟩ := hleaf.statements (.string name)
    (ident "request_buffer") (.variable (ident "write_pointer"))
  rw [hbytes] at hnameLength hnameAppends
  -- the size is computed before anything is written
  obtain ⟨size, hsize, hsum⟩ := (harguments.emitsAll hfree : EmitsAll s.scope
    (ident "write_pointer") (ident "request_buffer") _ _).size
    (.add (.add (.add (.number 1) (.number 8)) (.number 1)) (.number name.length))
  have hvalue : size.eval s.scope = some (.number (10 + name.length +
      (serializeEach (parameters.map Prod.fst) arguments).output.length)) := by
    have h := hsum (s.scope (ident "write_pointer")) (10 + name.length) rfl
    rw [Function.update_eq_self] at h
    exact h
  obtain ⟨t, header, hheader, hscope, hbuffer, hfilled, hsent⟩ :=
    headerStatements_execute hid hnext hvalue (by omega)
  have hpointer : (Expression.variable (ident "write_pointer")).eval t.scope =
      some (.number (messageHeader .request id).length) := by
    rw [Expression.eval, hscope, Function.update_self, hnine]
  obtain ⟨named, hnamed, hfilled⟩ := hnameAppends t _ hpointer rfl header _ hbuffer hfilled
    (by rw [hnine, List.length_cons]; omega)
  have hfront : (messageHeader .request id ++ (UInt8.ofNat name.length :: name)).length =
      10 + name.length := by
    rw [List.length_append, hnine, List.length_cons]
    omega
  -- the header has left the parameters alone
  have hkept : Arguments (headerScope s.scope (10 + name.length +
      (serializeEach (parameters.map Prod.fst) arguments).output.length) id.toNat)
      parameters arguments := by
    apply harguments.congr
    intro parameter hmem
    have hne {used : Identifier} (hused : used ∈ generatedNames) : parameter.2 ≠ used :=
      ne_of_free (hfree parameter hmem) hused
    rw [headerScope, Function.update_of_ne (hne (by decide)),
      Function.update_of_ne (hne (by decide)), Function.update_of_ne (hne (by decide))]
  obtain ⟨statements, hstatements, hexecute⟩ := hkept.execute hfree nameSize
  obtain ⟨u, buffer, hrun, hfinal, hfull, husent, hrequestSize⟩ := hexecute
    (t.store (ident "request_buffer") named) 9 _ named _ hscope
    (by rw [State.store_scope, hnameLength t.scope rfl, hfront, List.length_cons]; congr 2; omega)
    (by rw [hfront]; omega) (State.store_buffers ..) hfilled (by rw [hfront])
  rw [← hmessage] at hfull
  have hlength : (requestMessage id name m arguments).output.length = 10 + name.length +
      (serializeEach (parameters.map Prod.fst) arguments).output.length := by
    rw [hmessage, List.length_append, hfront]
  rw [← hlength] at hfull hscope
  obtain ⟨hcontents, hwritten, honce⟩ := hfull.full
  refine ⟨_, { u with sent := u.sent ++ [buffer] }, buffer,
    generateClient_eq ((requestSize_eq _ _).trans hsize) hnameStatements hnameSize hstatements,
    ?_, ?_, hcontents, ?_, hwritten, honce⟩
  · rw [executeAll_append, hheader, Option.bind_some, executeAll_append, hnamed, Option.bind_some,
      ← List.append_assoc, executeAll_append, hrun, Option.bind_some, executeAll,
      Statement.execute, hfinal]
    rfl
  · change u.sent ++ [buffer] = s.sent ++ [buffer]
    rw [husent, State.store_sent, hsent]
  · change u.scope (ident "request_size") = _
    rw [hrequestSize, State.store_scope, hscope, Function.update_of_ne (by decide), headerScope,
      Function.update_of_ne (by decide), Function.update_of_ne (by decide),
      Function.update_self, hwritten, hcontents]

omit [Platform] in
theorem ascii_of_all {text : List UInt8} (h : text.all (fun b => decide (b < 128)) = true) :
    ∀ b ∈ text, b < 128 := by
  simpa using h

omit [Platform] in
/-- A wide integer, and a string in a tuple. -/
theorem request_bytes_send :
    letI := Platform.reference
    let parameters : List (Ty × Identifier) :=
      [(.integer ⟨0, 0xffffffffffffffff⟩, ident "n"), (.tuple [.utf8 ⟨0, 10⟩], ident "t")]
    let scope : Identifier → Option Datum := fun name =>
      if name = ident "n" then
        some (.object [(ident "high", .number 1), (ident "low", .number 2)])
      else if name = ident "t" then some (.array [.string [0x78]])
      else if name = ident "next_request_id" then some (.number 7) else none
    ∃ statements s' buffer, generateClient (ident "send") parameters = some statements ∧
      executeAll statements { scope } = some s' ∧ s'.sent = [buffer] ∧
      buffer.contents = (requestMessage 7 (ident "send")
        ⟨.tuple [], [.integer ⟨0, 0xffffffffffffffff⟩, .tuple [.utf8 ⟨0, 10⟩]]⟩
        [.integer (2 ^ 32 + 2), .tuple [.utf8 [0x78]]]).output := by
  letI := Platform.reference
  intro parameters scope
  have hwide : Leaf (.integer ⟨0, 0xffffffffffffffff⟩) (.integer (2 ^ 32 + 2))
      (.object [(ident "high", .number 1), (ident "low", .number 2)]) :=
    .halves (by decide) (by decide) rfl rfl
  have htext : Leaf (.utf8 ⟨0, 10⟩) (.utf8 [0x78]) (.string [0x78]) :=
    .utf8 (by decide) (ascii_of_all (by decide)) (by decide)
  have hnext : scope (ident "next_request_id") = some (.number 7) := by
    simp only [scope]
    rw [if_neg (by decide), if_neg (by decide), if_pos trivial]
  have ht : scope (ident "t") = some (.array [.string [0x78]]) := by
    simp only [scope]
    rw [if_neg (by decide), if_pos trivial]
  have hn : scope (ident "n") =
      some (.object [(ident "high", .number 1), (ident "low", .number 2)]) := if_pos rfl
  have hbytes := request_bytes 7 (ident "send")
    ⟨.tuple [], [.integer ⟨0, 0xffffffffffffffff⟩, .tuple [.utf8 ⟨0, 10⟩]]⟩ parameters
    [.integer (2 ^ 32 + 2), .tuple [.utf8 [0x78]]] { scope } (by decide) (by decide)
    (ascii_of_all (by decide)) rfl (by decide)
    (.cons hn (.leaf hwide) (.cons ht (.tuple (.cons htext .nil)) .nil)) hnext
  obtain ⟨-, statements, s', buffer, hstatements, hrun, hsent, hcontents, -⟩ := hbytes
  exact ⟨statements, s', buffer, hstatements, hrun, hsent, hcontents⟩

end JavaScript

end Warpcoil
