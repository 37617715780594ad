import Warpcoil.Library.Grounded
import Warpcoil.Library.Writing
import Warpcoil.StructureOrder

/-! The generator of the code that several interfaces share: a C++ structure and the
specialisation of its parser for each structure type. -/
namespace Warpcoil
namespace SharedCode
open Writing

/-- What is appended to the sink of the shared code. What a pair of braces encloses is the
content of an item. -/
inductive Code where
  | text (text : String)
  | name (name : Identifier)
  | number (n : Nat)
  | structureName (root : Structure)
  | parserType (parsed : Ty)
  | block (content : List Code)
  | scope (name : String) (content : List Code)
  | struct (required : Structure) (content : List Code)
  | parser (required : Structure) (base content : List Code)

/-- The sink `code` of `generate_type`: the one of the shared code, or another one, whose
content is left out. -/
inductive Sink where
  | shared | other

/-- The state is the content of `m_generated_structures`. -/
abbrev Generating := Writing (List Structure) Code

def Sink.append : Sink → Code → Generating
  | .shared, c => write c
  | .other, _ => skip

def cppName : Uint → String
  | .uint8 => "std::uint8_t"
  | .uint16 => "std::uint16_t"
  | .uint32 => "std::uint32_t"
  | .uint64 => "std::uint64_t"

/-- `std::set::find`, which compares by `less`. -/
def found (generated : List Structure) (required : Structure) : Bool :=
  generated.any fun other => !lessStructure other required && !lessStructure required other

/-- `std::set::insert` -/
def insert (required : Structure) : Generating := fun generated =>
  ([], if found generated required then generated else generated ++ [required])

/-- The members of the parser of an empty structure. -/
def emptyParser (required : Structure) : List Code :=
  [.text "typedef ", .structureName required, .text " result_type;\n",
    .text "parse_result<result_type> parse_byte(std::uint8_t const) const ",
    .text "\x7b return parse_complete<result_type>\x7b",
    .text "result_type\x7b\x7d, input_consumption::does_not_consume\x7d; \x7d\n",
    .text "Si::optional<result_type> check_for_immediate_completion() const ",
    .text "\x7b return result_type\x7b\x7d; \x7d\n"]

/-- The base class of the parser of another one. -/
def parserBase (required : Structure) : List Code :=
  [.text "> : basic_tuple_parser<structure_parser<", .structureName required, .text ">, ",
    .structureName required] ++
  required.flatMap (fun element => [.text ", ", .parserType element.1]) ++ [.text ">\n "]

/-- The specialisation of `structure_parser`. -/
def generateParser (required : Structure) (getters : Generating) : Generating :=
  if required.isEmpty then
    (writeAll (emptyParser required)).inside (.parser required [.text ">\n"])
  else getters.inside (.parser required (parserBase required))

/-- `require_structure` with the members of the structure and of its parser. -/
def requireWith (required : Structure) (members getters : Generating) : Generating :=
  fun generated =>
    if found generated required then skip generated
    else all [members.inside (.struct required),
      ((generateParser required getters).inside (.scope "cpp")).inside (.scope "warpcoil"),
      insert required] generated

mutual
def generateType : Sink → Ty → Generating
  | code, .integer range => code.append (.text (cppName (findSuitableUintCppType range)))
  | code, .variant elements =>
    (code.append (.text "Si::variant<")).seq
      ((generateElements code true elements).seq (code.append (.text ">")))
  | code, .tuple elements =>
    (code.append (.text "std::tuple<")).seq
      ((generateElements code true elements).seq (code.append (.text ">")))
  | code, .vector _ element =>
    (code.append (.text "std::vector<")).seq
      ((generateType code element).seq (code.append (.text ">")))
  | code, .utf8 _ => code.append (.text "std::string")
  | code, .struct elements =>
    (requireWith elements (generateMembers elements) (generateGetters elements 0 elements)).seq
      (code.append (.structureName elements))
/-- Elements that commas separate. -/
def generateElements : Sink → Bool → List Ty → Generating
  | _, _, [] => skip
  | code, first, t::ts =>
    (if first then skip else code.append (.text ", ")).seq
      ((generateType code t).seq (generateElements code false ts))
def generateMembers : Structure → Generating
  | [] => skip
  | (what, name)::elements =>
    (generateType .shared what).seq
      ((writeAll [.text " ", .name name, .text ";\n"]).seq (generateMembers elements))
def generateGetters : Structure → Nat → Structure → Generating
  | _, _, [] => skip
  | required, index, (what, name)::elements =>
    (generateType .shared what).seq
      ((writeAll [.text " &get(", .structureName required,
        .text " &result, std::integral_constant<std::size_t, ", .number index,
        .text ">) const\n", .block [.text "return result.", .name name, .text ";\n"]]).seq
        (generateGetters required (index + 1) elements))
end

def requireStructure (required : Structure) : Generating :=
  requireWith required (generateMembers required) (generateGetters required 0 required)

/-- A call of one of the two functions. The callers of `generate_type` pass a sink of their own. -/
inductive Call where
  | requireStructure (required : Structure)
  | generateType (root : Ty)

def Call.run : Call → Generating
  | .requireStructure required => SharedCode.requireStructure required
  | .generateType root => SharedCode.generateType .other root

def run (calls : List Call) : Generating := all (calls.map Call.run)

/-- All of the shared code. -/
def output (calls : List Call) : List Code := (run calls []).1

/-! The structures in a type. -/

mutual
/-- Those it mentions itself or through tuples, vectors and variants. -/
def mentioned : Ty → List Structure
  | .integer _ | .utf8 _ => []
  | .variant elements | .tuple elements => mentionedByAll elements
  | .vector _ element => mentioned element
  | .struct elements => [elements]
def mentionedByAll : List Ty → List Structure
  | [] => []
  | t::ts => mentioned t ++ mentionedByAll ts
end

/-- Those that the fields of a structure mention. -/
def mentionedByFields (elements : Structure) : List Structure :=
  elements.flatMap fun element => mentioned element.1

mutual
/-- Those it mentions, those that their fields mention and so on. -/
def occurring : Ty → List Structure
  | .integer _ | .utf8 _ => []
  | .variant elements | .tuple elements => occurringInAll elements
  | .vector _ element => occurring element
  | .struct elements => elements :: occurringInFields elements
def occurringInAll : List Ty → List Structure
  | [] => []
  | t::ts => occurring t ++ occurringInAll ts
def occurringInFields : Structure → List Structure
  | [] => []
  | (t, _)::elements => occurring t ++ occurringInFields elements
end

/-- The structures that a call asks for, in their order. -/
def Call.required : Call → List Structure
  | .requireStructure required => [required]
  | .generateType root => mentioned root

def Call.occurring : Call → List Structure
  | .requireStructure required => required :: occurringInFields required
  | .generateType root => SharedCode.occurring root

/-! The definitions in a text. -/

inductive Definition where
  | struct (required : Structure)
  | parser (required : Structure)

def Definition.required : Definition → Structure
  | .struct required | .parser required => required

inductive Mark where
  | opens (definition : Definition)
  | closes (definition : Definition)

def Definition.around (definition : Definition) (inner : List Mark) : List Mark :=
  .opens definition :: inner ++ [.closes definition]

mutual
/-- Where definitions begin and end. -/
def Code.marks : Code → List Mark
  | .text _ | .name _ | .number _ | .structureName _ | .parserType _ => []
  | .block content | .scope _ content => marksOfAll content
  | .struct required content => (Definition.struct required).around (marksOfAll content)
  | .parser required base content =>
    (Definition.parser required).around (marksOfAll base ++ marksOfAll content)
def marksOfAll : List Code → List Mark
  | [] => []
  | c::cs => c.marks ++ marksOfAll cs
end

mutual
/-- Nothing encloses a definition but namespaces. -/
def Code.atNamespaceScope : Code → Prop
  | .text _ | .name _ | .number _ | .structureName _ | .parserType _ => True
  | .block content | .struct _ content => marksOfAll content = []
  | .parser _ base content => marksOfAll base = [] ∧ marksOfAll content = []
  | .scope _ content => allAtNamespaceScope content
def allAtNamespaceScope : List Code → Prop
  | [] => True
  | c::cs => c.atNamespaceScope ∧ allAtNamespaceScope cs
end

def Mark.openedStruct : Mark → Option Structure
  | .opens (.struct required) => some required
  | _ => none

def Mark.openedParser : Mark → Option Structure
  | .opens (.parser required) => some required
  | _ => none

/-- The structures that a text defines, and those it defines a parser for. -/
def structs (cs : List Code) : List Structure := (marksOfAll cs).filterMap Mark.openedStruct
def parsers (cs : List Code) : List Structure := (marksOfAll cs).filterMap Mark.openedParser

/-- What must have been defined completely where a definition begins. -/
def Mark.Needs (before : List Mark) : Mark → Prop
  | .opens definition => ∀ S ∈ mentionedByFields definition.required,
    .closes (.struct S) ∈ before ∧ .closes (.parser S) ∈ before
  | .closes _ => True

/-- Two structures that `less` tells apart. -/
def Different (left right : Structure) : Prop :=
  lessStructure left right = true ∨ lessStructure right left = true

/-- The definitions are in a usable order. -/
structure Usable (calls : List Call) (cs : List Code) : Prop where
  atNamespaceScope : allAtNamespaceScope cs
  structsOnce : (structs cs).Pairwise Different
  parsersOnce : (parsers cs).Pairwise Different
  complete : ∀ S ∈ calls.flatMap Call.occurring, S ∈ structs cs ∧ S ∈ parsers cs
  preceded : Grounded Mark.Needs [] (marksOfAll cs)

/-- All that the fields of a structure mention was asked for before. -/
def FieldsKnown (before : List Structure) (S : Structure) : Prop :=
  ∀ T ∈ mentionedByFields S, T ∈ before

/-- Every structure is asked for after all those that its fields mention. -/
def Ordered (calls : List Call) : Prop :=
  Grounded FieldsKnown [] (calls.flatMap Call.required)

end SharedCode
end Warpcoil
