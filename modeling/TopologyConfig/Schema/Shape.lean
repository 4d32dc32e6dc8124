import TopologyConfig.Schema.MetricsConsumer

/-!
Shapes of configuration values. A shape accepts or rejects a value, is described by a phrase that
follows "must be", and for composite entries explains a rejection by the field at fault.
-/
namespace TopologyConfig

inductive Shape where
  | string
  | number
  | integer
  | boolean
  | map
  | identifier
  | powerOfTwo
  | serializationEntry
  | metricsConsumerEntry
  | listOf (element : Shape)
  | oneOf (choices : List Shape)
deriving Inhabited

structure Problem where
  field : String
  reason : String
deriving DecidableEq

namespace Shape

def strings : Shape := listOf string
def numbers : Shape := listOf number
def stringOrStrings : Shape := oneOf [string, strings]
def numberOrNumbers : Shape := oneOf [number, numbers]
def serializations : Shape := listOf serializationEntry
def metricsConsumers : Shape := listOf metricsConsumerEntry

def isIdentifier : Value → Bool
  | .str s => Text.hasInk s
  | _ => false

/-- A positive number that shares no binary digit with its predecessor. -/
def isPowerOfTwo : Value → Bool
  | .int n => 0 < n && n.toNat &&& (n.toNat - 1) == 0
  | _ => false

/-- What is wrong with a serialization entry; a string is only ever wrong by being blank. -/
def serializationProblem (v : Value) : Option Problem :=
  match v with
  | .str _ => some ⟨"class", "class identifier must not be empty"⟩
  | v =>
    match v.mapEntries? with
    | none => some ⟨"entry", "expected identifier or single-pair map, got " ++ v.typeName⟩
    | some [(className, serializer)] =>
      if !isIdentifier className then
        some ⟨"class", "class identifier must be a non-empty string"⟩
      else if !isIdentifier serializer then
        some ⟨className.plainText, "serializer identifier must be a non-empty string"⟩
      else none
    | some es =>
      some ⟨"entry", "map must hold exactly one class/serializer pair, got " ++ toString es.length⟩

def isSerializationEntry (v : Value) : Bool :=
  match v with
  | .str s => Text.hasInk s
  | v => v.mapEntries?.isSome && (serializationProblem v).isNone

def faultProblem (f : Fault) : Problem :=
  ⟨if f.location.isEmpty then "entry" else ".".intercalate f.location, f.cause.message⟩

def metricsConsumerProblem (v : Value) : Option Problem :=
  match v with
  | .str s => if Text.hasInk s then none else some ⟨"class", "class identifier must not be empty"⟩
  | v =>
    match v.mapEntries? with
    | none => some ⟨"entry", "expected identifier or record map, got " ++ v.typeName⟩
    | some es => (MetricsConsumer.entryFaults es).head?.map faultProblem

mutual

def accepts : Shape → Value → Bool
  | string, v => v.isString
  | number, v =>
    match v with
    | .int _ => true
    | .float _ => true
    | _ => false
  | integer, v =>
    match v with
    | .int _ => true
    | _ => false
  | boolean, v =>
    match v with
    | .bool _ => true
    | _ => false
  | map, v => v.mapEntries?.isSome
  | identifier, v => isIdentifier v
  | powerOfTwo, v => isPowerOfTwo v
  | serializationEntry, v => isSerializationEntry v
  | metricsConsumerEntry, v => (metricsConsumerProblem v).isNone
  | listOf element, v =>
    match v.items? with
    | some xs => xs.all (fun x => accepts element x)
    | none => false
  | oneOf choices, v => anyAccepts choices v

def anyAccepts : List Shape → Value → Bool
  | [], _ => false
  | s :: rest, v => accepts s v || anyAccepts rest v

end

mutual

def description : Shape → String
  | string => "a string"
  | number => "a number"
  | integer => "an integer"
  | boolean => "a boolean"
  | map => "a map"
  | identifier => "a non-empty identifier string"
  | powerOfTwo => "a positive integer power of two"
  | serializationEntry => "a class identifier or a \x7bclass: serializer\x7d map"
  | metricsConsumerEntry => "a class identifier or a \x7bclass, parallelism.hint, argument\x7d record"
  | listOf element => "a list where each element is " ++ description element
  | oneOf choices => " or ".intercalate (descriptions choices)

def descriptions : List Shape → List String
  | [] => []
  | s :: rest => description s :: descriptions rest

end

def element? : Shape → Option Shape
  | listOf element => some element
  | _ => none

def problem? (s : Shape) (v : Value) : Option Problem :=
  if s.accepts v then none
  else match s with
    | serializationEntry => serializationProblem v
    | metricsConsumerEntry => metricsConsumerProblem v
    | _ => none

def shown (s : Shape) : String := "Validator(" ++ Text.quoted s.description ++ ")"

end Shape
end TopologyConfig
