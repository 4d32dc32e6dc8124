import TopologyConfig.Value.Display

/-!
Uses of a value that its type does not allow: an unknown method, a wrong number of arguments, an index
out of range, and the like.
-/
namespace TopologyConfig

inductive MisuseKind where
  | type
  | value
  | index
  | key
  | attribute
  | overflow
  | memory
deriving DecidableEq

inductive Arity where
  | none (owner method : String)
  | exactlyOne (owner method : String)
  | exactly (method : String) (n : Nat)
  | atLeast (method : String) (n : Nat)
  | atMost (method : String) (n : Nat)
  | between (method : String) (least most : Nat)
  | noPositional (method : String)

inductive Misuse where
  | unhashable (typeName : String)
  | notIterable (typeName : String)
  | notUnpackable (typeName : String)
  | tooFewToUnpack (count : Nat)
  | tooManyToUnpack
  | noLength (typeName : String)
  | pairNotSequence (place : Nat)
  | pairLength (place length : Nat)
  | noAttribute (typeName name : String)
  | classNoAttribute (className name : String)
  | missingKey (key : Value)
  | notSubscriptable (typeName : String)
  | classNotSubscriptable (className : String)
  | noItemAssignment (typeName : String)
  | noItemDeletion (typeName : String)
  | noPlaceDeletion (typeName : String)
  | viewMerge
  | badSlice
  | badBound
  | badIndex (sequence typeName : String)
  | notInteger (typeName : String)
  | indexRange (what : String)
  | emptyList
  | emptyMap
  | emptySet
  | hugeIndex (typeName : String)
  | hugeFactor (typeName : String)
  | hugeCount
  | hugeOperand
  | tooLongText
  | tooManyBytes
  | outOfMemory
  | notInList (v : Value)
  | notRemovable
  | notInTuple
  | notInText
  | notInBytes
  | notText (typeName : String)
  | notByteOrBytes (typeName : String)
  | byteRange
  | notOrdered (sign left right : String)
  | mixedOffsets
  | dateWithTimestamp
  | badOperator (symbol left right : String)
  | badRepetition (typeName : String)
  | badTextSum (typeName : String)
  | badBytesSum (typeName : String)
  | badTupleSum (typeName : String)
  | arity (a : Arity) (given : Nat)

namespace Misuse

def kind : Misuse → MisuseKind
  | tooFewToUnpack _ => .value
  | tooManyToUnpack => .value
  | pairLength _ _ => .value
  | notInList _ => .value
  | notRemovable => .value
  | notInTuple => .value
  | notInText => .value
  | notInBytes => .value
  | byteRange => .value
  | noAttribute _ _ => .attribute
  | classNoAttribute _ _ => .attribute
  | indexRange _ => .index
  | hugeIndex _ => .index
  | emptyList => .index
  | missingKey _ => .key
  | emptyMap => .key
  | emptySet => .key
  | hugeFactor _ => .overflow
  | hugeCount => .overflow
  | hugeOperand => .overflow
  | tooLongText => .overflow
  | tooManyBytes => .overflow
  | outOfMemory => .memory
  | _ => .type

def countedArguments (n : Nat) : String :=
  toString n ++ (if n = 1 then " argument" else " arguments")

def arityMessage (given : Nat) : Arity → String
  | .none owner method =>
    owner ++ "." ++ method ++ "() takes no arguments (" ++ toString given ++ " given)"
  | .exactlyOne owner method =>
    owner ++ "." ++ method ++ "() takes exactly one argument (" ++ toString given ++ " given)"
  | .exactly method n => method ++ " expected " ++ countedArguments n ++ ", got " ++ toString given
  | .atLeast method n =>
    method ++ " expected at least " ++ countedArguments n ++ ", got " ++ toString given
  | .atMost method n =>
    method ++ " expected at most " ++ countedArguments n ++ ", got " ++ toString given
  | .between method least most =>
    let (bound, n) := if given < least then ("least ", least) else ("most ", most)
    method ++ "() takes at " ++ bound ++ countedArguments n ++ " (" ++ toString given ++ " given)"
  | .noPositional method => method ++ "() takes no positional arguments"

def message : Misuse → String
  | unhashable name => "unhashable type: '" ++ name ++ "'"
  | notIterable name => "'" ++ name ++ "' object is not iterable"
  | notUnpackable name => "cannot unpack non-iterable " ++ name ++ " object"
  | tooFewToUnpack n => "not enough values to unpack (expected 2, got " ++ toString n ++ ")"
  | tooManyToUnpack => "too many values to unpack (expected 2)"
  | noLength name => "object of type '" ++ name ++ "' has no len()"
  | pairNotSequence place =>
    "cannot convert dictionary update sequence element #" ++ toString place ++ " to a sequence"
  | pairLength place length =>
    "dictionary update sequence element #" ++ toString place ++ " has length " ++ toString length ++
      "; 2 is required"
  | noAttribute typeName name => "'" ++ typeName ++ "' object has no attribute '" ++ name ++ "'"
  | classNoAttribute className name =>
    "type object '" ++ className ++ "' has no attribute '" ++ name ++ "'"
  | missingKey key => key.shownText
  | notSubscriptable name => "'" ++ name ++ "' object is not subscriptable"
  | classNotSubscriptable name => "type '" ++ name ++ "' is not subscriptable"
  | noItemAssignment name => "'" ++ name ++ "' object does not support item assignment"
  | noItemDeletion name => "'" ++ name ++ "' object does not support item deletion"
  | noPlaceDeletion name => "'" ++ name ++ "' object doesn't support item deletion"
  | viewMerge => "'|=' is not supported by mappingproxy; use '|' instead"
  | badSlice => "slice indices must be integers or have an __index__ method"
  | badBound => "slice indices must be integers or None or have an __index__ method"
  | badIndex sequence name =>
    if sequence == "string" then "string indices must be integers, not '" ++ name ++ "'"
    else sequence ++ " indices must be integers or slices, not " ++ name
  | notInteger name => "'" ++ name ++ "' object cannot be interpreted as an integer"
  | indexRange what => what ++ " out of range"
  | emptyList => "pop from empty list"
  | emptyMap => "'popitem(): dictionary is empty'"
  | emptySet => "'pop from an empty set'"
  | hugeIndex name => "cannot fit '" ++ name ++ "' into an index-sized integer"
  | hugeFactor name => "cannot fit '" ++ name ++ "' into an index-sized integer"
  | hugeCount => "Python int too large to convert to C ssize_t"
  | hugeOperand => "int too large to convert to float"
  | tooLongText => "repeated string is too long"
  | tooManyBytes => "repeated bytes are too long"
  | outOfMemory => ""
  | notInList v => v.shownText ++ " is not in list"
  | notRemovable => "list.remove(x): x not in list"
  | notInTuple => "tuple.index(x): x not in tuple"
  | notInText => "substring not found"
  | notInBytes => "subsection not found"
  | notText name => "must be str, not " ++ name
  | notByteOrBytes name => "argument should be integer or bytes-like object, not '" ++ name ++ "'"
  | byteRange => "byte must be in range(0, 256)"
  | notOrdered sign left right =>
    "'" ++ sign ++ "' not supported between instances of '" ++ left ++ "' and '" ++ right ++ "'"
  | mixedOffsets => "can't compare offset-naive and offset-aware datetimes"
  | dateWithTimestamp => "can't compare datetime.datetime to datetime.date"
  | badOperator symbol left right =>
    "unsupported operand type(s) for " ++ symbol ++ ": '" ++ left ++ "' and '" ++ right ++ "'"
  | badRepetition name => "can't multiply sequence by non-int of type '" ++ name ++ "'"
  | badTextSum name => "can only concatenate str (not \"" ++ name ++ "\") to str"
  | badBytesSum name => "can't concat " ++ name ++ " to bytes"
  | badTupleSum name => "can only concatenate tuple (not \"" ++ name ++ "\") to tuple"
  | arity a given => arityMessage given a

def lacksAttribute (v : Value) (name : String) : Misuse :=
  match v with
  | .classRef _ className => classNoAttribute ((className.splitOn ".").getLastD className) name
  | v => noAttribute v.qualifiedTypeName name

end Misuse
end TopologyConfig
