/-!
Faults of a record's fields: where each one is and what is wrong there.
-/
namespace TopologyConfig

inductive FaultCause where
  | missing
  | unexpected
  | keyNotString
  | notRecord (record : String)
  | notString
  | emptyString
  | undecodable
  | notInteger
  | belowOne
  | notBoolean
  | unreadableBoolean
  | notAmong (choices : List String)
  | rejected (reason : String)
  | noSuchSetting (name : String)
deriving DecidableEq

namespace FaultCause

def code : FaultCause → String
  | missing => "missing"
  | unexpected => "extra_forbidden"
  | keyNotString => "invalid_key"
  | notRecord _ => "model_type"
  | notString => "string_type"
  | emptyString => "string_too_short"
  | undecodable => "string_unicode"
  | notInteger => "int_type"
  | belowOne => "greater_than_equal"
  | notBoolean => "bool_type"
  | unreadableBoolean => "bool_parsing"
  | notAmong _ => "enum"
  | rejected _ => "value_error"
  | noSuchSetting _ => "no_such_attribute"

def alternatives : List String → String
  | [] => ""
  | [a] => "'" ++ a ++ "'"
  | [a, b] => "'" ++ a ++ "' or '" ++ b ++ "'"
  | a :: rest => "'" ++ a ++ "', " ++ alternatives rest

def message : FaultCause → String
  | missing => "Field required"
  | unexpected => "Extra inputs are not permitted"
  | keyNotString => "Keys should be strings"
  | notRecord record => "Input should be a valid dictionary or instance of " ++ record
  | notString => "Input should be a valid string"
  | emptyString => "String should have at least 1 character"
  | undecodable => "Input should be a valid string, unable to parse raw data as a unicode string"
  | notInteger => "Input should be a valid integer"
  | belowOne => "Input should be greater than or equal to 1"
  | notBoolean => "Input should be a valid boolean"
  | unreadableBoolean => "Input should be a valid boolean, unable to interpret input"
  | notAmong choices => "Input should be " ++ alternatives choices
  | rejected reason => "Value error, " ++ reason
  | noSuchSetting name => "Object has no attribute '" ++ name ++ "'"

end FaultCause

/-- A cause and the path of field names to it. -/
structure Fault where
  location : List String
  cause : FaultCause
deriving DecidableEq

end TopologyConfig
