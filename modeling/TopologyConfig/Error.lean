import TopologyConfig.Json.Printer
import TopologyConfig.Json.Reader
import TopologyConfig.Logging.Fault
import TopologyConfig.Schema.Registry
import TopologyConfig.Text.Utf8
import TopologyConfig.Value.InPlace
import TopologyConfig.Yaml.Fault

/-!
Everything that can go wrong, by its cause. The message of an error is computed from the cause.
-/
namespace TopologyConfig

inductive FileFault where
  | notFound
  | exists
  | notDirectory
  | isDirectory
  | nameTooLong
deriving DecidableEq

structure FileError where
  fault : FileFault
  path : String

namespace FileError

def number (e : FileError) : Nat :=
  match e.fault with
  | .notFound => 2
  | .exists => 17
  | .notDirectory => 20
  | .isDirectory => 21
  | .nameTooLong => 36

def reason (e : FileError) : String :=
  match e.fault with
  | .notFound => "No such file or directory"
  | .exists => "File exists"
  | .notDirectory => "Not a directory"
  | .isDirectory => "Is a directory"
  | .nameTooLong => "File name too long"

def message (e : FileError) : String :=
  "[Errno " ++ toString e.number ++ "] " ++ e.reason ++ ": " ++ Text.quoted e.path

end FileError

inductive VariableFault where
  | numeral (e : NumeralError)
  | notBoolean (text : String)

namespace VariableFault

def message : VariableFault → String
  | numeral e => e.message
  | notBoolean text => "not a boolean: " ++ Text.quoted text

end VariableFault

inductive LoadError where
  | unknownFormat (path : String)
  | malformedJson (source : String) (f : Json.SyntaxFault)
  | malformedYaml (source : String)
  | rootNotMap (source typeName : String)
  | keysNotStrings (source : String) (keys : List Value)
  | unreadable (path : String) (e : FileError)
  | badVariable (envName key : String) (f : VariableFault)
  | noPath

namespace LoadError

/-- The message; what a YAML reader has to say of its own is left out. -/
def message : LoadError → String
  | unknownFormat path => "Cannot infer configuration format from '" ++ path ++ "'"
  | malformedJson source f => "Failed to parse json configuration from " ++ source ++ ": " ++ f.message
  | malformedYaml source => "Failed to parse yaml configuration from " ++ source ++ ": "
  | rootNotMap source typeName =>
    "Configuration root must be a map in " ++ source ++ ", got " ++ typeName
  | keysNotStrings source keys =>
    "Configuration keys must be strings in " ++ source ++ ": " ++ (Value.list keys).shownText
  | unreadable path e => "Unable to read configuration file " ++ path ++ ": " ++ e.message
  | badVariable envName key f => "Invalid value for " ++ envName ++ " (" ++ key ++ "): " ++ f.message
  | noPath => "No path given to save configuration to"

end LoadError

inductive CallError where
  | missing (call : String) (parameters : List String)
  | tooMany (call : String) (least most given : Nat)
  | unexpected (call parameter : String)
  | repeated (call parameter : String)

namespace CallError

def quotedNames : List String → String
  | [] => ""
  | [a] => "'" ++ a ++ "'"
  | [a, b] => "'" ++ a ++ "' and '" ++ b ++ "'"
  | names =>
    ", ".intercalate (names.dropLast.map (fun n => "'" ++ n ++ "'")) ++ ", and '" ++ names.getLastD "" ++ "'"

def message : CallError → String
  | missing call parameters =>
    call ++ "() missing " ++ toString parameters.length ++ " required positional argument" ++
      (if parameters.length = 1 then "" else "s") ++ ": " ++ quotedNames parameters
  | tooMany call least most given =>
    call ++ "() takes " ++
      (if least = most then toString most else "from " ++ toString least ++ " to " ++ toString most) ++
      " positional argument" ++ (if most = 1 then "" else "s") ++ " but " ++ toString given ++
      (if given = 1 then " was given" else " were given")
  | unexpected call parameter =>
    call ++ "() got an unexpected keyword argument '" ++ parameter ++ "'"
  | repeated call parameter => call ++ "() got multiple values for argument '" ++ parameter ++ "'"

end CallError

inductive TransferError where
  /-- A test that was made inside a function has no name to be found by. -/
  | localTest (name : String)
  /-- A test that was never given a name. The message shows where in memory it stands, which differs from one
  process to the next. -/
  | namelessTest (address : Nat)
  | view
  | unknownClass (module name : String)
  | unknownObject (className : String)

namespace TransferError

def message : TransferError → String
  | localTest name => "Can't pickle local object '" ++ name ++ "'"
  | namelessTest address =>
    "Can't pickle <function <lambda> at 0x" ++ String.ofList (Nat.toDigits 16 address) ++
      ">: attribute lookup <lambda> on stormconf.config.validators failed"
  | view => "cannot pickle 'mappingproxy' object"
  | unknownClass module name =>
    "Can't pickle <class '" ++ module ++ "." ++ name ++ "'>: import of module " ++ Text.quoted module ++ " failed"
  | unknownObject className => "Can't pickle " ++ className

end TransferError

inductive ConfigError where
  | violation (v : Violation)
  | invalid (vs : List Violation)
  | sealedMap
  | sealedValue
  | sealedKey (key : String)
  | load (e : LoadError)
  | faults (fs : List Fault)
  | keyNotString (typeName : String)
  | missingKey (key : Value)
  | nothingToPop
  | misuse (m : Misuse)
  | numeral (e : NumeralError)
  | call (e : CallError)
  | registry (e : RegistryError)
  | transfer (e : TransferError)
  | unsupportedFormat (name : String)
  | notSerializable (e : Json.WriteError)
  | notRepresentable
  | yaml (f : Yaml.Fault)
  | encoding (e : Text.Utf8Error)
  | file (e : FileError)
  | nullInPath
  | noField (record field : String)
  | noConstant (module name : String)
  | fixedField (field : String)
  | unknownLevel (name : String)
  | template (f : Logging.TemplateFault)

namespace ConfigError

def summary (vs : List Violation) : String :=
  "Configuration has " ++ toString vs.length ++ " schema violation(s):\n" ++
    "\n".intercalate (vs.map (fun v => "  - " ++ v.message))

def message : ConfigError → String
  | violation v => v.message
  | invalid vs => summary vs
  | sealedMap => "Configuration is sealed and can no longer be modified"
  | sealedValue => "Sealed configuration values cannot be modified"
  | sealedKey key => "Cannot set '" ++ key ++ "' on a sealed configuration"
  | load e => e.message
  | faults _ => ""
  | keyNotString typeName => "Configuration keys must be strings, got " ++ typeName
  | missingKey key => key.shownText
  | nothingToPop => ""
  | misuse m => m.message
  | numeral e => e.message
  | call e => e.message
  | registry e => e.message
  | transfer e => e.message
  | unsupportedFormat name =>
    "Unsupported configuration format '" ++ name ++ "', expected one of ('json', 'yaml')"
  | notSerializable e => e.message
  | notRepresentable => ""
  | yaml f => f.message
  | encoding e => e.message
  | file e => e.message
  | nullInPath => "embedded null byte"
  | noField record field => "\"" ++ record ++ "\" object has no field \"" ++ field ++ "\""
  | noConstant module name => "module '" ++ module ++ "' has no attribute '" ++ name ++ "'"
  | fixedField field => "cannot assign to field " ++ Text.quoted field
  | unknownLevel name => "Unknown level: " ++ Text.quoted name
  | template f => f.message

end ConfigError

inductive ErrorClass where
  | configError
  | schemaViolation
  | malformedEntry
  | configValidationError
  | sealedConfigError
  | configLoadError
  | valueError
  | typeError
  | keyError
deriving DecidableEq

namespace ErrorClass

def name : ErrorClass → String
  | configError => "ConfigError"
  | schemaViolation => "SchemaViolation"
  | malformedEntry => "MalformedEntry"
  | configValidationError => "ConfigValidationError"
  | sealedConfigError => "SealedConfigError"
  | configLoadError => "ConfigLoadError"
  | valueError => "ValueError"
  | typeError => "TypeError"
  | keyError => "KeyError"

def all : List ErrorClass := [
  configError, schemaViolation, malformedEntry, configValidationError, sealedConfigError, configLoadError,
  valueError, typeError, keyError]

/-- A class and all classes above it: every error of a configuration is a value error, and a change to a
sealed one is a type error as well. -/
def ancestors : ErrorClass → List ErrorClass
  | configError => [configError, valueError]
  | schemaViolation => [schemaViolation, configError, valueError]
  | malformedEntry => [malformedEntry, schemaViolation, configError, valueError]
  | configValidationError => [configValidationError, configError, valueError]
  | sealedConfigError => [sealedConfigError, configError, valueError, typeError]
  | configLoadError => [configLoadError, configError, valueError]
  | valueError => [valueError]
  | typeError => [typeError]
  | keyError => [keyError]

def ancestorsOf (name : String) : List ErrorClass :=
  match all.find? (·.name == name) with
  | some c => all.filter (fun d => c.ancestors.contains d)
  | none => []

end ErrorClass
end TopologyConfig
