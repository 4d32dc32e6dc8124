import TopologyConfig.Calendar
import TopologyConfig.Number.Binary64

/-!
Configuration values. Beside the scalars, lists and maps of a document there are the values that a
caller may hand in: tuples, sets, read-only views of a map, configurations, classes and opaque objects.
Frozen lists and maps are the forms that a sealed configuration stores. A part that can change may bear a
label; nothing but a change in place depends on it.
-/
namespace TopologyConfig

inductive Value where
  | null
  | bool (b : Bool)
  | int (n : Int)
  | float (x : Binary64)
  | str (s : String)
  | bytes (bs : List UInt8)
  | date (d : Date)
  | timestamp (t : Timestamp)
  | classRef (module name : String)
  /-- An instance of a class about which nothing else is known. -/
  | object (className : String)
  | list (xs : List Value)
  | frozenList (xs : List Value)
  | tuple (xs : List Value)
  /-- A set, in the order in which it is listed here; any copy of it may be listed in another one. -/
  | set (xs : List Value)
  | map (es : List (Value × Value))
  | frozenMap (es : List (Value × Value))
  | view (es : List (Value × Value))
  /-- A configuration held as a value, with its number, if it has one, and its present contents. -/
  | config (number : Option Nat) (isSealed : Bool) (es : List (Value × Value))
  /-- A list, map or set that may stand in several places, with the label that it bears in all of them. -/
  | labelled (label : Nat) (v : Value)
deriving Inhabited

abbrev Entries := List (Value × Value)

namespace Value

def bare : Value → Value
  | labelled _ v => bare v
  | v => v

def typeName : Value → String
  | null => "NoneType"
  | bool _ => "bool"
  | int _ => "int"
  | float _ => "float"
  | str _ => "str"
  | bytes _ => "bytes"
  | date _ => "date"
  | timestamp _ => "datetime"
  | classRef _ _ => "type"
  | object name => name
  | list _ => "list"
  | frozenList _ => "FrozenList"
  | tuple _ => "tuple"
  | set _ => "set"
  | map _ => "dict"
  | frozenMap _ => "FrozenDict"
  | view _ => "mappingproxy"
  | config _ _ _ => "ConfigMap"
  | labelled _ v => typeName v

def qualifiedTypeName (v : Value) : String :=
  match v.bare with
  | date _ => "datetime.date"
  | timestamp _ => "datetime.datetime"
  | v => v.typeName

def tag : Value → String
  | null => "null"
  | bool _ => "boolean"
  | int _ => "number"
  | float _ => "number"
  | str _ => "string"
  | map _ => "map"
  | frozenMap _ => "map"
  | list _ => "list"
  | frozenList _ => "list"
  | tuple _ => "list"
  | labelled _ v => tag v
  | v => v.typeName

def listItems? : Value → Option (List Value)
  | list xs => some xs
  | frozenList xs => some xs
  | labelled _ v => listItems? v
  | _ => none

def items? : Value → Option (List Value)
  | list xs => some xs
  | frozenList xs => some xs
  | tuple xs => some xs
  | labelled _ v => items? v
  | _ => none

def mapEntries? : Value → Option Entries
  | map es => some es
  | frozenMap es => some es
  | labelled _ v => mapEntries? v
  | _ => none

def mapping? : Value → Option Entries
  | map es => some es
  | frozenMap es => some es
  | view es => some es
  | config _ _ es => some es
  | labelled _ v => mapping? v
  | _ => none

def isString : Value → Bool
  | str _ => true
  | _ => false

mutual

def unhashable? : Value → Option String
  | list _ => some "list"
  | frozenList _ => some "FrozenList"
  | set _ => some "set"
  | map _ => some "dict"
  | frozenMap _ => some "FrozenDict"
  | view _ => some "mappingproxy"
  | config _ _ _ => some "ConfigMap"
  | tuple xs => unhashableItem? xs
  | labelled _ v => unhashable? v
  | _ => none

def unhashableItem? : List Value → Option String
  | [] => none
  | x :: xs =>
    match unhashable? x with
    | some name => some name
    | none => unhashableItem? xs

end

end Value
end TopologyConfig
