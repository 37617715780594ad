import Mathlib.Logic.Function.Basic
import Warpcoil.Library.BigEndian
import Warpcoil.Library.RecordedBuffer
import Warpcoil.Messages

/-! The client that `javascript.hpp` generates: the statements of a method, and what they do in
ECMAScript. -/
namespace Warpcoil
namespace JavaScript
open RecordedBuffer

abbrev ArrayBuffer := Buffer UInt8

/-- The numbers are those that occur as sizes, offsets and arguments, which are integers a
number holds exactly. A string is a list of UTF-16 code units. -/
inductive Datum where
  | undefined
  | nan
  | number (n : Nat)
  | string (units : List UInt16)
  | array (elements : List Datum)
  | object (properties : List (Identifier × Datum))

/-- `ToNumber`, where the inner `none` is `NaN`. -/
def Datum.toNumber : Datum → Option (Option Nat)
  | .undefined | .nan => some none
  | .number n => some (some n)
  | .string _ | .array _ | .object _ => none

def Datum.add (left right : Datum) : Option Datum :=
  match left.toNumber, right.toNumber with
  | some (some m), some (some n) => some (.number (m + n))
  | some _, some _ => some .nan
  | _, _ => none

/-- `ToIntegerOrInfinity`: `NaN` becomes 0. -/
def Datum.toInteger (value : Datum) : Option Nat := value.toNumber.map fun n => n.getD 0

theorem Datum.toInteger_of {value : Option Datum} {n : Nat} (h : value = some (.number n)) :
    value.bind Datum.toInteger = some n := by
  rw [h]
  rfl

def ident (name : String) : Identifier := name.toList.map fun c => UInt8.ofNat c.toNat

inductive Expression where
  | number (n : Nat)
  | string (text : Identifier)
  | variable (name : Identifier)
  | add (left right : Expression)
  | index (value : Expression) (i : Nat)
  | member (value : Expression) (name : Identifier)
  /-- `{high: …, low: …}` -/
  | halves (high low : Expression)
  /-- `library.to_utf8(value).byteLength` -/
  | byteLength (value : Expression)
  /-- `value.reduce(function (previous, next) { return previous + next; }, 0)` -/
  | reduce (value : Expression)

inductive Statement where
  | var (name : Identifier) (value : Expression)
  | addAssign (name : Identifier) (value : Expression)
  /-- `var name = new ArrayBuffer(size);` -/
  | arrayBuffer (name : Identifier) (size : Expression)
  /-- `new DataView(destination).setUint8(offset, value);`, with 16 or 32 for the other widths. -/
  | setUint (bytes : Nat) (destination : Identifier) (offset value : Expression)
  /-- `new Uint8Array(destination).set(new Uint8Array(library.to_utf8(value)), offset);` -/
  | set (destination : Identifier) (value offset : Expression)
  /-- `(function () { … })();` -/
  | call (body : List Statement)
  /-- `send_bytes(buffer);` -/
  | sendBytes (buffer : Identifier)

/-- The variables in scope, the buffers by the variables that hold them, and what has been
passed to `send_bytes`. -/
structure State where
  scope : Identifier → Option Datum
  buffers : Identifier → Option ArrayBuffer := fun _ => none
  sent : List ArrayBuffer := []

/-- `library.to_utf8`: `setUint8` of every code unit. -/
def toUtf8 (units : List UInt16) : List UInt8 := units.map UInt16.toUInt8

def sum : List Datum → Option Nat
  | [] => some 0
  | .number n :: elements => (sum elements).map (n + ·)
  | .undefined :: _ | .nan :: _ | .string _ :: _ | .array _ :: _ | .object _ :: _ => none

/-- `none` where an exception is thrown or the value would not be one of these. -/
def Expression.eval (scope : Identifier → Option Datum) : Expression → Option Datum
  | .number n => some (.number n)
  | .string text => some (.string (text.map UInt8.toUInt16))
  | .variable name => scope name
  | .add left right =>
    match left.eval scope, right.eval scope with
    | some l, some r => l.add r
    | _, _ => none
  | .index value i =>
    match value.eval scope with
    | some (.array elements) => some (elements[i]?.getD .undefined)
    | _ => none
  | .member value name =>
    match value.eval scope with
    | some (.object properties) => some ((properties.lookup name).getD .undefined)
    | some (.string units) =>
      some (if name = ident "length" then .number units.length else .undefined)
    | some (.number _) | some .nan => some .undefined
    | some (.array _) | some .undefined | none => none
  | .halves high low =>
    match high.eval scope, low.eval scope with
    | some h, some l => some (.object [(ident "high", h), (ident "low", l)])
    | _, _ => none
  | .byteLength value =>
    match value.eval scope with
    | some (.string units) => some (.number (toUtf8 units).length)
    | _ => none
  | .reduce value =>
    match value.eval scope with
    | some (.array elements) => (sum elements).map .number
    | _ => none

theorem Expression.eval_add {scope : Identifier → Option Datum} {left right : Expression}
    {m n : Nat} (hleft : left.eval scope = some (.number m))
    (hright : right.eval scope = some (.number n)) :
    (left.add right).eval scope = some (.number (m + n)) := by
  rw [Expression.eval, hleft, hright]
  rfl

theorem Expression.eval_index {scope : Identifier → Option Datum} {value : Expression}
    {elements : List Datum} {i : Nat} {d : Datum}
    (hvalue : value.eval scope = some (.array elements)) (hd : elements[i]? = some d) :
    (value.index i).eval scope = some d := by
  rw [Expression.eval, hvalue]
  dsimp only
  rw [hd, Option.getD_some]

theorem Expression.eval_member {scope : Identifier → Option Datum} {value : Expression}
    {properties : List (Identifier × Datum)} {name : Identifier} {d : Datum}
    (hvalue : value.eval scope = some (.object properties))
    (hd : properties.lookup name = some d) : (value.member name).eval scope = some d := by
  rw [Expression.eval, hvalue]
  dsimp only
  rw [hd, Option.getD_some]

theorem Expression.eval_length {scope : Identifier → Option Datum} {value : Expression}
    {units : List UInt16} (hvalue : value.eval scope = some (.string units)) :
    (value.member (ident "length")).eval scope = some (.number units.length) := by
  rw [Expression.eval, hvalue]
  dsimp only
  rw [if_pos rfl]

/-- The variables that a function body declares are hoisted to its beginning. -/
def declared : List Statement → List Identifier
  | [] => []
  | .var name _ :: statements | .arrayBuffer name _ :: statements => name :: declared statements
  | .addAssign _ _ :: statements | .setUint _ _ _ _ :: statements | .set _ _ _ :: statements
  | .call _ :: statements | .sendBytes _ :: statements => declared statements

def State.assign (s : State) (name : Identifier) (value : Datum) : State :=
  { s with scope := Function.update s.scope name (some value) }

def State.store (s : State) (name : Identifier) (buffer : ArrayBuffer) : State :=
  { s with buffers := Function.update s.buffers name (some buffer) }

/-- The writes of a `DataView` and of a `Uint8Array`, which throw when they do not fit. -/
def State.write (s : State) (destination : Identifier) (offset : Nat) (data : List UInt8) :
    Option State :=
  (s.buffers destination).bind fun buffer => (buffer.write offset data).map (s.store destination)

/-- A function that is called at once: its variables are new and undefined, the others are those
around it. -/
def State.enter (s : State) (names : List Identifier) : State :=
  { s with scope := fun name => if name ∈ names then some .undefined else s.scope name }

def State.leave (s outer : State) (names : List Identifier) : State :=
  { s with scope := fun name =>
      if name ∈ names then outer.scope name else s.scope name }

mutual
def Statement.execute : Statement → State → Option State
  | .var name value, s => (value.eval s.scope).map (s.assign name)
  | .addAssign name value, s =>
    ((Expression.variable name).add value |>.eval s.scope).map (s.assign name)
  | .arrayBuffer name size, s =>
    match (size.eval s.scope).bind Datum.toInteger with
    | some n => some (s.store name ⟨List.replicate n 0, []⟩)
    | none => none
  | .setUint bytes destination offset value, s =>
    match (offset.eval s.scope).bind Datum.toInteger, (value.eval s.scope).bind Datum.toInteger with
    | some at_, some n => s.write destination at_ (BigEndian.toBytes bytes n)
    | _, _ => none
  | .set destination value offset, s =>
    match value.eval s.scope, (offset.eval s.scope).bind Datum.toInteger with
    | some (.string units), some at_ => s.write destination at_ (toUtf8 units)
    | _, _ => none
  | .call body, s =>
    (executeAll body (s.enter (declared body))).map fun inner => inner.leave s (declared body)
  | .sendBytes buffer, s =>
    (s.buffers buffer).map fun sent => { s with sent := s.sent ++ [sent] }
def executeAll : List Statement → State → Option State
  | [], s => some s
  | statement :: statements, s => (statement.execute s).bind (executeAll statements)
end

theorem Statement.execute_setUint {s : State} {bytes at_ n : Nat} {destination : Identifier}
    {offset value : Expression}
    (hoffset : (offset.eval s.scope).bind Datum.toInteger = some at_)
    (hvalue : (value.eval s.scope).bind Datum.toInteger = some n) :
    (Statement.setUint bytes destination offset value).execute s =
      s.write destination at_ (BigEndian.toBytes bytes n) := by
  rw [Statement.execute, hoffset, hvalue]

theorem Statement.execute_set {s : State} {at_ : Nat} {destination : Identifier}
    {offset value : Expression} {units : List UInt16}
    (hoffset : (offset.eval s.scope).bind Datum.toInteger = some at_)
    (hvalue : value.eval s.scope = some (.string units)) :
    (Statement.set destination value offset).execute s =
      s.write destination at_ (toUtf8 units) := by
  rw [Statement.execute, hoffset, hvalue]

/-! The generator. -/

def findNumberOfBytesRequired (maximum : UInt64) : Nat :=
  if maximum < 0x100 then 1
  else if maximum < 0x10000 then 2
  else if maximum < 0x100000000 then 4
  else 8

mutual
/-- A variant is not supported: the generator throws. -/
def generateSizeOfValue : Ty → Expression → Option Expression
  | .integer range, _ => some (.number (findNumberOfBytesRequired range.maximum))
  | .variant _, _ => none
  | .tuple elements, value => sizeOfElements elements value 0 (.number 0)
  | .vector length _, value =>
    some (.add (.number (findNumberOfBytesRequired length.maximum)) (.reduce value))
  | .utf8 codeUnits, value =>
    some (.add (.number (findNumberOfBytesRequired codeUnits.maximum)) (.byteLength value))
  | .struct elements, value => sizeOfFields elements value (.number 0)
def sizeOfElements : List Ty → Expression → Nat → Expression → Option Expression
  | [], _, _, total => some total
  | t::ts, value, i, total =>
    (generateSizeOfValue t (.index value i)).bind fun size =>
      sizeOfElements ts value (i + 1) (.add total size)
def sizeOfFields : List (Ty × Identifier) → Expression → Expression → Option Expression
  | [], _, total => some total
  | (t, name)::ts, value, total =>
    (generateSizeOfValue t (.member value name)).bind fun size =>
      sizeOfFields ts value (.add total size)
end

def generateIntegerSerialization (range : Integer) (value : Expression)
    (destination : Identifier) (offset : Expression) : List Statement :=
  if findNumberOfBytesRequired range.maximum = 8 then
    [.setUint 4 destination offset (.member value (ident "high")),
      .setUint 4 destination (.add offset (.number 4)) (.member value (ident "low"))]
  else [.setUint (findNumberOfBytesRequired range.maximum) destination offset value]

mutual
/-- Variants and vectors are not supported: the generator throws. -/
def generateSerialization : Ty → Expression → Identifier → Expression → Option (List Statement)
  | .integer range, value, destination, offset =>
    some (generateIntegerSerialization range value destination offset)
  | .variant _, _, _, _ => none
  | .tuple [], _, _, _ => some []
  | .tuple (t::ts), value, destination, offset =>
    (serializationOfElements (t::ts) value 0 destination).map fun body =>
      [.call (.var (ident "offset") offset :: body)]
  | .vector _ _, _, _, _ => none
  | .utf8 codeUnits, value, destination, offset =>
    some (generateIntegerSerialization codeUnits (.member value (ident "length")) destination
        offset ++
      [.set destination value
        (.add (.number (findNumberOfBytesRequired codeUnits.maximum)) offset)])
  | .struct [], _, _, _ => some []
  | .struct (t::ts), value, destination, offset =>
    (serializationOfFields (t::ts) value destination).map fun body =>
      [.call (.var (ident "offset") offset :: body)]
def serializationOfElements :
    List Ty → Expression → Nat → Identifier → Option (List Statement)
  | [], _, _, _ => some []
  | t::ts, value, i, destination =>
    (generateSerialization t (.index value i) destination (.variable (ident "offset"))).bind
      fun statements => (generateSizeOfValue t (.index value i)).bind fun size =>
        (serializationOfElements ts value (i + 1) destination).map fun rest =>
          statements ++ .addAssign (ident "offset") size :: rest
def serializationOfFields :
    List (Ty × Identifier) → Expression → Identifier → Option (List Statement)
  | [], _, _ => some []
  | (t, name)::ts, value, destination =>
    (generateSerialization t (.member value name) destination (.variable (ident "offset"))).bind
      fun statements => (generateSizeOfValue t (.member value name)).bind fun size =>
        (serializationOfFields ts value destination).map fun rest =>
          statements ++ .addAssign (ident "offset") size :: rest
end

/-- The sum of a method's `request_size`. -/
def requestSize : List (Ty × Identifier) → Expression → Option Expression
  | [], total => some total
  | (t, name)::parameters, total =>
    (generateSizeOfValue t (.variable name)).bind fun size =>
      requestSize parameters (.add total size)

/-- The loop over the parameters. Behind the last one the pointer is not moved. -/
def serializeParameters : List (Ty × Identifier) → Option (List Statement)
  | [] => some []
  | (t, name)::parameters =>
    (generateSerialization t (.variable name) (ident "request_buffer")
      (.variable (ident "write_pointer"))).bind fun statements =>
        if parameters.isEmpty then some statements
        else (generateSizeOfValue t (.variable name)).bind fun size =>
          (serializeParameters parameters).map fun rest =>
            statements ++ .addAssign (ident "write_pointer") size :: rest

def nameType : Ty := .utf8 ⟨0, 255⟩

/-- A method of `generate_client`, up to its `send_bytes`. -/
def generateClient (name : Identifier) (parameters : List (Ty × Identifier)) :
    Option (List Statement) := do
  let size ← requestSize parameters
    (.add (.add (.add (.number 1) (.number 8)) (.number 1)) (.number name.length))
  let type ← generateSerialization (.integer ⟨0, 255⟩) (.number 0) (ident "request_buffer")
    (.number 0)
  let id ← generateSerialization (.integer ⟨0, 0xffffffffffffffff⟩)
    (.variable (ident "request_id")) (ident "request_buffer") (.number 1)
  let nameStatements ← generateSerialization nameType (.string name) (ident "request_buffer")
    (.variable (ident "write_pointer"))
  let nameSize ← generateSizeOfValue nameType (.string name)
  let arguments ← serializeParameters parameters
  some ([.var (ident "request_size") size,
      .arrayBuffer (ident "request_buffer") (.variable (ident "request_size"))] ++ type ++
    [.var (ident "request_id") (.halves (.number 0) (.variable (ident "next_request_id"))),
      .addAssign (ident "next_request_id") (.number 1)] ++ id ++
    [.var (ident "write_pointer") (.add (.number 1) (.number 8))] ++ nameStatements ++
    (if parameters.isEmpty then [] else [.addAssign (ident "write_pointer") nameSize]) ++
    arguments ++ [.sendBytes (ident "request_buffer")])

-- The equations that the proofs below this module rewrite with are made once, here.
attribute [local simp] Expression.eval Statement.execute generateSizeOfValue generateSerialization

end JavaScript

end Warpcoil
