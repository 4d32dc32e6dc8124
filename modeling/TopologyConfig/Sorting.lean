/-!
Sorting by a comparison that may fail. The list is cut into runs that are in order already, short ones are
filled up by insertion, and neighbouring runs are merged so that the merges stay balanced. Equal items keep
their order. When a comparison fails, the items stay where they are at that moment.
-/
namespace TopologyConfig.Sorting

section

variable {α ε : Type}

inductive End where
  | front
  | back
deriving DecidableEq

def End.arranged (e : End) (xs : List α) : List α :=
  match e with
  | .front => xs
  | .back => xs.reverse

def End.middle (e : End) (low high : Nat) : Nat :=
  match e with
  | .front => low + (high - low) / 2
  | .back => high - 1 - (high - low) / 2

/-- How many items pass a test, when those before `low` do and those from `high` on do not. -/
def halve (e : End) (test : α → Except ε Bool) (xs : Array α) (low high : Nat) : Except ε Nat :=
  if low < high then
    match xs[e.middle low high]? with
    | none => .ok low
    | some x => do
      if ← test x then halve e test xs (e.middle low high + 1) high
      else halve e test xs low (e.middle low high)
  else .ok low
termination_by high - low
decreasing_by
  all_goals
    cases e <;> simp only [End.middle] <;> omega

def leapAlong (test : α → Except ε Bool) (xs : Array α) (passed next : Nat) : Except ε (Nat × Nat) :=
  if h : next < xs.size then do
    if ← test xs[next] then leapAlong test xs next (2 * next + 1) else .ok (passed, next)
  else .ok (passed, xs.size)
termination_by xs.size - next

def leading (e : End) (test : α → Except ε Bool) (xs : List α) : Except ε Nat :=
  match xs with
  | [] => .ok 0
  | x :: rest => do
    if ← test x then do
      let items := (x :: rest).toArray
      let (passed, next) ← leapAlong test items 0 1
      halve e test items (passed + 1) next
    else .ok 0

def enough : Nat := 7

/-- How a merge goes on: item by item, with a count of those that came in a row from one side, or in leaps. -/
inductive Pace where
  | steps (fromLeft : Bool) (count : Nat)
  | leaps

/-- A merge of two runs. Each list begins with the item that was or will be met next. -/
structure Merge (α : Type) where
  merged : List α
  left : List α
  right : List α
  patience : Nat
  pace : Pace

namespace Merge

def takeLeft (m : Merge α) (n : Nat) : Merge α :=
  { m with merged := (m.left.take n).reverse ++ m.merged, left := m.left.drop n }

def takeRight (m : Merge α) (n : Nat) : Merge α :=
  { m with merged := (m.right.take n).reverse ++ m.merged, right := m.right.drop n }

/-- The places of the remaining items are known without a comparison. The last item of the run at which the
merge began belongs behind all others. -/
def isOver (e : End) (m : Merge α) : Bool :=
  match e with
  | .front => (m.left.drop 1).isEmpty || m.right.isEmpty
  | .back => (m.right.drop 1).isEmpty || m.left.isEmpty

def items (e : End) (isDone : Bool) (m : Merge α) : List α :=
  if isDone == (e == .front) then e.arranged (m.merged.reverse ++ m.right ++ m.left)
  else e.arranged (m.merged.reverse ++ m.left ++ m.right)

/-- The item of the left run is taken before that of the right run: at the front if it is not the greater
one, at the back if it is. -/
def leftFirst (less : α → α → Except ε Bool) (e : End) (a b : α) : Except ε Bool :=
  (less b a).map (· == (e == .back))

def rightFirst (less : α → α → Except ε Bool) (e : End) (a b : α) : Except ε Bool :=
  (leftFirst less e a b).map (!·)

def step (less : α → α → Except ε Bool) (e : End) (m : Merge α) (fromLeft : Bool) (count : Nat) :
    Except ε (Merge α) :=
  match m.left, m.right with
  | a :: _, b :: _ => do
    let isLeft ← leftFirst less e a b
    let count := if isLeft == fromLeft then count + 1 else 1
    let m := if isLeft then m.takeLeft 1 else m.takeRight 1
    .ok { m with pace := if m.patience ≤ count then .leaps else .steps isLeft count }
  | _, _ => .ok m

def paced (isLong : Bool) (m : Merge α) : Merge α :=
  if isLong then { m with patience := max 1 (m.patience - 1) }
  else { m with patience := m.patience + 1, pace := .steps true 0 }

def unlessOver (e : End) (m : Merge α) (f : Merge α → Except (ε × Merge α) (Merge α)) :
    Except (ε × Merge α) (Merge α) :=
  if m.isOver e then .ok m else f m

def leap (less : α → α → Except ε Bool) (e : End) (m : Merge α) : Except (ε × Merge α) (Merge α) :=
  match m.right with
  | [] => .ok m
  | b :: _ => do
    let n ← (leading e (leftFirst less e · b) m.left).mapError (·, m)
    (m.takeLeft n).unlessOver e fun m =>
      (m.takeRight 1).unlessOver e fun m =>
        match m.left with
        | [] => .ok m
        | a :: _ => do
          let k ← (leading e (rightFirst less e a) m.right).mapError (·, m)
          (m.takeRight k).unlessOver e fun m =>
            (m.takeLeft 1).unlessOver e fun m => .ok (m.paced (enough ≤ n || enough ≤ k))

def finish (less : α → α → Except ε Bool) (e : End) : Nat → Merge α → Except (ε × Merge α) (Merge α)
  | 0, m => .ok m
  | fuel + 1, m =>
    m.unlessOver e fun m =>
      match m.pace with
      | .steps fromLeft count => do
        let m ← (m.step less e fromLeft count).mapError (·, m)
        finish less e fuel m
      | .leaps => do
        let m ← m.leap less e
        finish less e fuel m

def begin (e : End) (patience : Nat) (xs ys : List α) : Merge α :=
  let m : Merge α := ⟨[], e.arranged xs, e.arranged ys, patience, .steps true 0⟩
  match e with
  | .front => m.takeRight 1
  | .back => m.takeLeft 1

end Merge

/-- Merges two runs. Items that are in their places already are left there; of what remains, the shorter run
tells the end at which the merge begins. The patience at the end is returned too. -/
def joined (less : α → α → Except ε Bool) (patience : Nat) (xs ys : List α) :
    Except (ε × List α) (List α × Nat) :=
  match xs.getLast?, ys.head? with
  | some x, some y => do
    let n ← (leading .front (Merge.leftFirst less .front · y) xs).mapError (·, xs ++ ys)
    let before := xs.take n
    let xs := xs.drop n
    if xs.isEmpty then .ok (before ++ ys, patience)
    else do
      let k ← (leading .back (Merge.rightFirst less .back x) ys.reverse).mapError (·, before ++ xs ++ ys)
      let after := ys.drop (ys.length - k)
      let ys := ys.take (ys.length - k)
      if ys.isEmpty then .ok (before ++ xs ++ after, patience)
      else
        let e : End := if xs.length ≤ ys.length then .front else .back
        match (Merge.begin e patience xs ys).finish less e (xs.length + ys.length) with
        | .ok m => .ok (before ++ m.items e true ++ after, m.patience)
        | .error (err, m) => .error (err, before ++ m.items e false ++ after)
  | _, _ => .ok (xs ++ ys, patience)

structure Run (α : Type) where
  items : List α
  depth : Nat

/-- The runs found so far, the latest first. -/
structure Progress (α : Type) where
  runs : List (Run α)
  patience : Nat

namespace Progress

def items (p : Progress α) : List α := (p.runs.reverse.map (·.items)).flatten

def mergeRuns (less : α → α → Except ε Bool) (patience : Nat) (above : List (Run α)) (y x : Run α)
    (below : List (Run α)) : Except (ε × List α) (Progress α) :=
  match joined less patience x.items y.items with
  | .ok (xs, patience) => .ok ⟨above ++ ⟨xs, x.depth⟩ :: below, patience⟩
  | .error (err, xs) => .error (err, (Progress.mk (above ++ ⟨xs, 0⟩ :: below) patience).items)

/-- Merges the latest runs as long as the border between them is deeper than the new one. -/
def mergeDeeper (less : α → α → Except ε Bool) (depth : Nat) :
    Nat → Progress α → Except (ε × List α) (Progress α)
  | fuel + 1, ⟨y :: x :: below, patience⟩ =>
    if depth < x.depth then do
      let p ← mergeRuns less patience [] y x below
      mergeDeeper less depth fuel p
    else .ok ⟨y :: x :: below, patience⟩
  | _, p => .ok p

def mergeAll (less : α → α → Except ε Bool) : Nat → Progress α → Except (ε × List α) (Progress α)
  | fuel + 1, ⟨z :: y :: x :: below, patience⟩ =>
    if x.items.length < z.items.length then do
      let p ← mergeRuns less patience [z] y x below
      mergeAll less fuel p
    else do
      let p ← mergeRuns less patience [] z y (x :: below)
      mergeAll less fuel p
  | _ + 1, ⟨[y, x], patience⟩ => mergeRuns less patience [] y x []
  | _, p => .ok p

/-- The depth of the border between two neighbouring runs in a list: the first binary place in which the
middles of the runs differ, as fractions of the list. -/
def depth (start first second total : Nat) : Nat :=
  let a := 2 * start + first
  let b := a + first + second
  ((List.range (total + 1)).find? (fun k => a * Nat.pow 2 k / total != b * Nat.pow 2 k / total)).getD 0

def start (p : Progress α) : Nat := ((p.runs.drop 1).map (·.items.length)).foldl (· + ·) 0

def push (less : α → α → Except ε Bool) (total : Nat) (p : Progress α) (xs : List α) :
    Except (ε × List α) (Progress α) :=
  match p.runs with
  | [] => .ok { p with runs := [⟨xs, 0⟩] }
  | y :: _ => do
    let d := depth p.start y.items.length xs.length total
    let p ← (mergeDeeper less d p.runs.length p).mapError (fun (err, ys) => (err, ys ++ xs))
    match p.runs with
    | [] => .ok { p with runs := [⟨xs, 0⟩] }
    | y :: below => .ok { p with runs := ⟨xs, 0⟩ :: { y with depth := d } :: below }

end Progress

def ascendingRun (less : α → α → Except ε Bool) (previous : α) : List α → Except ε Nat
  | [] => .ok 0
  | x :: xs => do
    if ← less x previous then .ok 0
    else do
      let n ← ascendingRun less x xs
      .ok (n + 1)

def descendingRun (less : α → α → Except ε Bool) (previous : α) : List α → Except ε Nat
  | [] => .ok 0
  | x :: xs => do
    if ← less x previous then do
      let n ← descendingRun less x xs
      .ok (n + 1)
    else .ok 0

def firstRun (less : α → α → Except ε Bool) : List α → Except ε (List α × Nat)
  | [] => .ok ([], 0)
  | [x] => .ok ([x], 1)
  | x :: y :: rest => do
    if ← less y x then do
      let n := (← descendingRun less y rest) + 2
      .ok (((x :: y :: rest).take n).reverse, n)
    else do
      let n := (← ascendingRun less y rest) + 2
      .ok ((x :: y :: rest).take n, n)

def insertAll (less : α → α → Except ε Bool) (sorted : List α) :
    List α → Except (ε × List α) (List α)
  | [] => .ok sorted
  | x :: xs => do
    let n ← (halve .front (fun y => (less x y).map (!·)) sorted.toArray 0 sorted.length).mapError
      (·, sorted ++ x :: xs)
    insertAll less (sorted.take n ++ x :: sorted.drop n) xs

/-- The least length of a run: the list is then cut into a power of two of runs, or into hardly fewer. -/
def leastRun (length : Nat) (isOdd : Bool) : Nat :=
  if length < 64 then length + (if isOdd then 1 else 0)
  else leastRun (length / 2) (isOdd || length % 2 == 1)
termination_by length

def nextRun (less : α → α → Except ε Bool) (least : Nat) (xs : List α) :
    Except (ε × List α) (List α × List α) := do
  let (run, n) ← (firstRun less xs).mapError (·, xs)
  let filling := (xs.drop n).take (least - n)
  let behind := xs.drop (max n least)
  let run ← (insertAll less run filling).mapError (fun (err, ys) => (err, ys ++ behind))
  .ok (run, behind)

def sortOn (less : α → α → Except ε Bool) (total least : Nat) :
    Nat → Progress α → List α → Except (ε × List α) (List α)
  | fuel + 1, p, x :: xs => do
    let (run, behind) ← (nextRun less least (x :: xs)).mapError (fun (err, ys) => (err, p.items ++ ys))
    let p ← (p.push less total run).mapError (fun (err, ys) => (err, ys ++ behind))
    sortOn less total least fuel p behind
  | _, p, xs => do
    let p ← (p.mergeAll less p.runs.length).mapError (fun (err, ys) => (err, ys ++ xs))
    .ok (p.items ++ xs)

/-- Sorts a list. A failure comes with the order that it left behind. -/
def sort (less : α → α → Except ε Bool) (xs : List α) : Except (ε × List α) (List α) :=
  sortOn less xs.length (leastRun xs.length false) xs.length ⟨[], enough⟩ xs

end

end TopologyConfig.Sorting
