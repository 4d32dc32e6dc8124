import TopologyConfig.Value.Basic

/-!
When two values are the same. Truth values count as the numbers 0 and 1, whole and floating-point
numbers compare exactly, a list never equals a tuple, maps and sets ignore order, frozen values equal
plain ones, and labels do not count. A value that is no number is the same as itself only.
-/
namespace TopologyConfig.Value

inductive Number where
  | whole (n : Int)
  | real (x : Binary64)

def number? : Value → Option Number
  | bool b => some (.whole (if b then 1 else 0))
  | int n => some (.whole n)
  | float x => some (.real x)
  | _ => none

def Number.compare? : Number → Number → Option Ordering
  | .whole m, .whole n => some (compare m n)
  | .whole m, .real y => (y.compareInt? m).map Ordering.swap
  | .real x, .whole n => x.compareInt? n
  | .real x, .real y => x.compare? y

/-- Equal numbers, or the same value that is no number. -/
def Number.same (a b : Number) : Bool :=
  match a, b with
  | .real x, .real y => x == y || x.compare? y == some .eq
  | a, b => a.compare? b == some .eq

def sameScalar : Value → Value → Bool
  | null, null => true
  | str s, str t => s == t
  | bytes a, bytes b => a == b
  | date a, date b => a == b
  | timestamp a, timestamp b => a.sameInstant b
  | classRef m n, classRef m' n' => m == m' && n == n'
  | object a, object b => a == b
  | _, _ => false

mutual

/-- The two values are the same as parts of a larger value, or as keys. -/
def same : Value → Value → Bool
  | list xs, w =>
    match w.listItems? with
    | some ys => sameItems xs ys
    | none => false
  | frozenList xs, w =>
    match w.listItems? with
    | some ys => sameItems xs ys
    | none => false
  | tuple xs, w =>
    match w.bare with
    | tuple ys => sameItems xs ys
    | _ => false
  | set xs, w =>
    match w.bare with
    | set ys => xs.length == ys.length && allAmong xs ys
    | _ => false
  | map es, w =>
    match w.mapping? with
    | some fs => es.length == fs.length && allEntriesAmong es fs
    | none => false
  | frozenMap es, w =>
    match w.mapping? with
    | some fs => es.length == fs.length && allEntriesAmong es fs
    | none => false
  | view es, w =>
    match w.mapping? with
    | some fs => es.length == fs.length && allEntriesAmong es fs
    | none => false
  | config _ _ es, w =>
    match w.mapping? with
    | some fs => es.length == fs.length && allEntriesAmong es fs
    | none => false
  | labelled _ v, w => same v w
  | v, w =>
    match v.number?, w.bare.number? with
    | some a, some b => a.same b
    | _, _ => sameScalar v w.bare
termination_by structural v => v

def sameItems : List Value → List Value → Bool
  | [], ys => ys.isEmpty
  | x :: xs, ys =>
    match ys with
    | [] => false
    | y :: ys => same x y && sameItems xs ys

def allAmong : List Value → List Value → Bool
  | [], _ => true
  | x :: xs, ys => ys.any (fun y => same x y) && allAmong xs ys

def allEntriesAmong : List (Value × Value) → Entries → Bool
  | [], _ => true
  | (k, v) :: es, fs =>
    (match fs.find? (fun f => same k f.1) with
      | some f => same v f.2
      | none => false) && allEntriesAmong es fs

end

/-- The entries are the same, in any order. -/
def sameMapping (es : Entries) : Option Entries → Bool
  | some fs => es.length == fs.length && allEntriesAmong es fs
  | none => false

def equal (v w : Value) : Bool :=
  match v with
  | float x => !x.isNaN && same v w
  | _ => same v w

end TopologyConfig.Value
