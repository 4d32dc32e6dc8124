import TopologyConfig.Value.Method
import TopologyConfig.Value.Search

/-!
Sums, products and unions of values that do not change by them. Only whether they exist matters: the result
is never kept.
-/
namespace TopologyConfig.Value

def unsupported (sign : String) (v w : Value) : Misuse :=
  .badOperator sign v.qualifiedTypeName w.qualifiedTypeName

/-- Two numbers can be combined unless a whole one is beyond all floating-point numbers that it meets. -/
def Number.combined (a b : Number) : Except Misuse Unit :=
  let fits (n : Int) : Except Misuse Unit :=
    if (Binary64.ofInt n).isFinite then .ok () else .error .hugeOperand
  match a, b with
  | .whole m, .real _ => fits m
  | .real _, .whole n => fits n
  | _, _ => .ok ()

def sum (v w : Value) : Except Misuse Unit :=
  match v.bare, w.bare with
  | str _, str _ => .ok ()
  | str _, w => .error (.badTextSum w.qualifiedTypeName)
  | bytes _, bytes _ => .ok ()
  | bytes _, w => .error (.badBytesSum w.qualifiedTypeName)
  | tuple _, tuple _ => .ok ()
  | tuple _, w => .error (.badTupleSum w.qualifiedTypeName)
  | v, w =>
    match v.number?, w.number? with
    | some a, some b => a.combined b
    | _, _ => .error (unsupported "+=" v w)

def isIndivisible (v : Value) : Bool :=
  match v.bare with
  | null => true
  | bool _ => true
  | int _ => true
  | float _ => true
  | date _ => true
  | timestamp _ => true
  | classRef _ _ => true
  | _ => false

def repeatable? (v : Value) : Option Nat :=
  match v.bare with
  | str s => some s.length
  | bytes bs => some bs.length
  | v => v.items?.map (·.length)

def memoryLimit : Nat := 4294967296

/-- How often a value of a length is to be repeated; where there is nothing to repeat, not once. -/
def repetitions (v : Value) (length : Nat) (times : Value) : Except Misuse Nat :=
  match times.integer? with
  | none => .error (.badRepetition times.qualifiedTypeName)
  | some n =>
    if isHuge n then .error (.hugeFactor times.qualifiedTypeName)
    else if length = 0 then .ok 0
    else if length * n.toNat ≤ memoryLimit then .ok n.toNat
    else if isHuge (Int.ofNat (length * n.toNat)) then
      match v.bare with
      | str _ => .error .tooLongText
      | bytes _ => .error .tooManyBytes
      | _ => .error .outOfMemory
    else .error .outOfMemory

def product (v w : Value) : Except Misuse Unit :=
  match v.repeatable?, w.repeatable? with
  | some n, _ => (repetitions v n w).map (fun _ => ())
  | none, some n =>
    if v.isIndivisible then (repetitions w n v).map (fun _ => ()) else .error (unsupported "*=" v w)
  | none, none =>
    match v.number?, w.number? with
    | some a, some b => a.combined b
    | _, _ => .error (unsupported "*=" v w)

/-- The union of two values: whole numbers, or classes, of which one may be null. The map behind a view takes
the view's place. -/
def union (v w : Value) : Except Misuse Unit :=
  match v.bare, w.bare with
  | view _, _ => .error .viewMerge
  | v, view _ => .error (.badOperator "|" v.qualifiedTypeName "dict")
  | classRef _ _, classRef _ _ => .ok ()
  | classRef _ _, null => .ok ()
  | null, classRef _ _ => .ok ()
  | v, w => if v.integer?.isSome && w.integer?.isSome then .ok () else .error (unsupported "|=" v w)

end TopologyConfig.Value
