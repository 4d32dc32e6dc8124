import TopologyConfig.Value.Misuse

/-!
The methods and operators that change a value in place or look at its parts, by their names.
-/
namespace TopologyConfig

inductive Method where
  | append
  | extend
  | insert
  | remove
  | pop
  | clear
  | sort
  | reverse
  | count
  | index
  | copy
  | get
  | popitem
  | setdefault
  | update
  | setItem
  | deleteItem
  | getItem
  | addAssign
  | multiplyAssign
  | mergeAssign
deriving DecidableEq

namespace Method

def name : Method → String
  | append => "append"
  | extend => "extend"
  | insert => "insert"
  | remove => "remove"
  | pop => "pop"
  | clear => "clear"
  | sort => "sort"
  | reverse => "reverse"
  | count => "count"
  | index => "index"
  | copy => "copy"
  | get => "get"
  | popitem => "popitem"
  | setdefault => "setdefault"
  | update => "update"
  | setItem => "setitem"
  | deleteItem => "delitem"
  | getItem => "getitem"
  | addAssign => "iadd"
  | multiplyAssign => "imul"
  | mergeAssign => "ior"

def all : List Method := [
  append, extend, insert, remove, pop, clear, sort, reverse, count, index, copy, get, popitem, setdefault,
  update, setItem, deleteItem, getItem, addAssign, multiplyAssign, mergeAssign]

def ofName? (s : String) : Option Method := all.find? (·.name == s)

/-- How many values an operator takes, with the one that it is applied to. -/
def operands? : Method → Option Nat
  | setItem => some 3
  | deleteItem => some 2
  | getItem => some 2
  | addAssign => some 2
  | multiplyAssign => some 2
  | mergeAssign => some 2
  | _ => none

def operandMisuse? (m : Method) (args : List Value) : Option Misuse :=
  match m.operands? with
  | none => none
  | some n =>
    if args.length + 1 = n then none else some (.arity (.exactly m.name n) (args.length + 1))

def changesList (m : Method) : Bool :=
  [append, extend, insert, remove, pop, clear, sort, reverse, setItem, deleteItem, addAssign,
    multiplyAssign].contains m

def changesMap (m : Method) : Bool :=
  [setItem, deleteItem, mergeAssign, clear, pop, popitem, setdefault, update].contains m

end Method
end TopologyConfig
