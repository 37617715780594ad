import Warpcoil.Serialization
import Warpcoil.Parser

/-! The messages of `protocol.hpp`: what the generated client and server append for them,
and the parsers their headers are read with. -/
namespace Warpcoil

abbrev RequestId := UInt64

inductive MessageType where
  | request | response
deriving DecidableEq, Repr

def MessageType.toNat : MessageType → Nat
  | .request => 0
  | .response => 1

/-- `integer_parser<message_type_int>`. -/
def messageTypeParser : ParserType := .integer .uint8

/-- `integer_parser<request_id>`. -/
def requestIdParser : ParserType := .integer .uint64

/-- `tuple_parser<integer_parser<request_id>, utf8_parser<integer_parser<std::uint8_t>>>`. -/
def requestHeaderParser : ParserType := .tuple [.integer .uint64, .utf8 .uint8]

/-- The first two fields of both messages. -/
def messageHeader (type : MessageType) (id : RequestId) : List UInt8 :=
  writeInteger .uint8 type.toNat ++ writeInteger .uint64 id.toNat

variable [Platform]

/-- `build_request` of the generated client. -/
def buildRequest (name : Identifier) (m : Method) (arguments : List Value) : Emission UInt8 :=
  (Emission.emit (UInt8.ofNat name.length :: name)).seq (serializeEach m.parameters arguments)

/-- What `client_pipeline::request` appends. -/
def requestMessage (id : RequestId) (name : Identifier) (m : Method)
    (arguments : List Value) : Emission UInt8 :=
  (Emission.emit (messageHeader .request id)).seq (buildRequest name m arguments)

/-- What the generated server appends for a result. -/
def responseMessage (id : RequestId) (m : Method) (result : Value) : Emission UInt8 :=
  (Emission.emit (messageHeader .response id)).seq
    (match typeEmptiness m.result with
    | .empty => .done
    | .nonEmpty => generateValueSerialization m.result result)

/-- `generate_parser_type` of the result, and of the tuple of the parameters. -/
def Method.resultParser (m : Method) : ParserType := generateParserType m.result

def Method.argumentParser (m : Method) : ParserType :=
  generateParserType (getParameterType m.parameters)

/-- The comparisons of the generated server, in the order of the map. -/
def InterfaceDefinition.find (definition : InterfaceDefinition) (name : Identifier) :
    Option Method :=
  (definition.methods.find? fun m => decide (m.1 = name)).map Prod.snd

end Warpcoil
