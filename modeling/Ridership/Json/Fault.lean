/-!
# What can be wrong with a JSON document
-/

namespace Ridership.Json

inductive Fault
  | endOfText
  | unexpectedByte (byte : UInt8)
  | unexpectedToken
  | unknownWord
  | malformedNumber
  | numberOutOfRange
  | malformedText
  | nestedTooDeeply
  | wrongType (expected : String)
  | missingField (name : String)
  | repeatedField (name : String)
deriving DecidableEq, Repr

def Fault.message : Fault → String
  | .endOfText => "the text ends inside a value"
  | .unexpectedByte b => s!"unexpected byte {b.toNat}"
  | .unexpectedToken => "a token stands where it cannot"
  | .unknownWord => "unknown word"
  | .malformedNumber => "malformed number"
  | .numberOutOfRange => "number out of range"
  | .malformedText => "string is not valid Unicode text"
  | .nestedTooDeeply => "nested too deeply"
  | .wrongType expected => s!"expected {expected}"
  | .missingField name => s!"missing field {name}"
  | .repeatedField name => s!"repeated field {name}"

end Ridership.Json
