import TopologyConfig.Sorting
import TopologyConfig.Value.Equality
import TopologyConfig.Value.Misuse

/-!
The order of values, and sorting by it. Not all values are ordered; when a comparison fails, a list that is
being sorted keeps the state it has reached.
-/
namespace TopologyConfig.Value

def isProperSubset (xs ys : List Value) : Bool :=
  xs.length < ys.length && xs.all (fun x => ys.any (fun y => same x y))

/-- How it is found out whether a value comes before another: by asking whether the first is the lesser one, or
whether the second is the greater one. -/
inductive Asking where
  | lesser
  | greater

def comparedTypeName (v : Value) : String :=
  match v.bare with
  | view _ => "dict"
  | v => v.qualifiedTypeName

def Asking.unordered (a : Asking) (v w : Value) : Misuse :=
  let message (sign otherSign : String) (v w : Value) : Misuse :=
    match w.bare with
    | view _ => .notOrdered otherSign w.comparedTypeName v.comparedTypeName
    | w => .notOrdered sign v.comparedTypeName w.comparedTypeName
  match a with
  | .lesser => message "<" ">" v w
  | .greater => message ">" "<" w v

def scalarBefore (a : Asking) (v w : Value) : Except Misuse Bool :=
  match v, w with
  | str s, str t => .ok (s < t)
  | bytes a, bytes b => .ok (a < b)
  | date a, date b => .ok (a.precedes b)
  | timestamp a, timestamp b => if a.comparable b then .ok (a.instant < b.instant) else .error .mixedOffsets
  | timestamp _, date _ => .error .dateWithTimestamp
  | date _, timestamp _ => .error .dateWithTimestamp
  | set xs, set ys => .ok (isProperSubset xs ys)
  | v, w =>
    match v.number?, w.number? with
    | some a, some b => .ok (a.compare? b == some .lt)
    | _, _ => .error (a.unordered v w)

mutual

/-- The first value comes before the second: lists and tuples by their first difference. Of a plain and a frozen
list, the frozen one is asked. -/
def before (a : Asking) : Value → Value → Except Misuse Bool
  | list xs, w =>
    match w.bare with
    | list ys => itemsBefore a xs ys
    | frozenList ys => itemsBefore .greater xs ys
    | w => .error (a.unordered (list xs) w)
  | frozenList xs, w =>
    match w.bare with
    | list ys => itemsBefore .lesser xs ys
    | frozenList ys => itemsBefore a xs ys
    | w => .error (a.unordered (frozenList xs) w)
  | tuple xs, w =>
    match w.bare with
    | tuple ys => itemsBefore a xs ys
    | w => .error (a.unordered (tuple xs) w)
  | labelled _ v, w => before a v w
  | v, w => scalarBefore a v w.bare

def itemsBefore (a : Asking) : List Value → List Value → Except Misuse Bool
  | [], ys => .ok (!ys.isEmpty)
  | x :: xs, ys =>
    match ys with
    | [] => .ok false
    | y :: ys => if same x y then itemsBefore a xs ys else before a x y

end

def less (v w : Value) : Except Misuse Bool := before .lesser v w

/-- Sorts a list, keeping the order of equal items. A failure comes with the order that it left behind. -/
def sortItems (xs : List Value) : Except (Misuse × List Value) (List Value) := Sorting.sort less xs

end TopologyConfig.Value
