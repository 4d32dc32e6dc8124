import TopologyConfig.Schema.Fault
import TopologyConfig.Text.Blank
import TopologyConfig.Value.Display
import TopologyConfig.Value.Entries

/-!
The record that registers a metrics consumer: a class, a number of executors and an argument of any
shape. Nothing is converted and no other field is allowed.
-/
namespace TopologyConfig

structure MetricsConsumer where
  className : String
  parallelismHint : Int
  argument : Value

namespace MetricsConsumer

def fieldNames : List String := ["class", "parallelism.hint", "argument"]

def classFault? : Option Value → Option FaultCause
  | none => some .missing
  | some (.str s) =>
    if s.isEmpty then some .emptyString
    else if Text.hasInk s then none
    else some (.rejected "class identifier must not be blank")
  | some _ => some .notString

def hintFault? : Option Value → Option FaultCause
  | none => some .missing
  | some (.int n) => if n < 1 then some .belowOne else none
  | some _ => some .notInteger

def argumentFault? : Option Value → Option FaultCause
  | none => some .missing
  | some _ => none

/-- How a key that is no string is named in a location: truth values count as numbers. A number that is too
long to write is told by its type only. -/
def keyLabel : Value → String
  | .bool b => if b then "1" else "0"
  | v => if v.isWritable then v.shownText else "<unprintable " ++ v.typeName ++ " object>"

def extraFault? : Value → Option Fault
  | .str s => if fieldNames.contains s then none else some ⟨[s], .unexpected⟩
  | k => some ⟨[keyLabel k], .keyNotString⟩

def fieldFault (name : String) (fault? : Option Value → Option FaultCause) (es : Entries) : List Fault :=
  ((fault? (Entries.get? es (.str name))).map (Fault.mk [name] ·)).toList

/-- Every fault of a record: the fields in their order, then the other keys in the record's order. -/
def entryFaults (es : Entries) : List Fault :=
  fieldFault "class" classFault? es ++ fieldFault "parallelism.hint" hintFault? es ++
    fieldFault "argument" argumentFault? es ++ es.filterMap (fun e => extraFault? e.1)

def faults (v : Value) : List Fault :=
  match v.mapEntries? with
  | some es => entryFaults es
  | none => [⟨[], .notRecord "MetricsConsumerRecord"⟩]

def ofValue (v : Value) : Except (List Fault) MetricsConsumer :=
  match faults v, v.mapEntries? with
  | [], some es =>
    match Entries.get? es (.str "class"), Entries.get? es (.str "parallelism.hint"),
      Entries.get? es (.str "argument") with
    | some (.str className), some (.int hint), some argument => .ok ⟨className, hint, argument⟩
    | _, _, _ => .error []
  | fs, _ => .error fs

mutual

def unfrozen : Value → Value
  | .list xs => .list (unfrozenItems xs)
  | .frozenList xs => .list (unfrozenItems xs)
  | .tuple xs => .tuple (unfrozenItems xs)
  | .map es => .map (unfrozenEntries es)
  | .frozenMap es => .map (unfrozenEntries es)
  | .labelled _ v => unfrozen v
  | v => v

def unfrozenItems : List Value → List Value
  | [] => []
  | x :: xs => unfrozen x :: unfrozenItems xs

def unfrozenEntries : List (Value × Value) → List (Value × Value)
  | [] => []
  | (k, v) :: es => (k, unfrozen v) :: unfrozenEntries es

end

def toValue (r : MetricsConsumer) : Value :=
  .map [(.str "class", .str r.className), (.str "parallelism.hint", .int r.parallelismHint),
    (.str "argument", unfrozen r.argument)]

end MetricsConsumer
end TopologyConfig
