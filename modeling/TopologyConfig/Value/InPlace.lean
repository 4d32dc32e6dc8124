import TopologyConfig.Value.Operator
import TopologyConfig.Value.Order

/-!
Changes in place: the methods of lists, maps and sets, applied to a value. Frozen lists and maps reject every
method that would change them, whatever its arguments; all other values can only be looked at.
-/
namespace TopologyConfig.Value

inductive InPlaceError where
  | frozen
  | misuse (m : Misuse)
  | numeral (e : NumeralError)

structure Change where
  result : Except InPlaceError Value
  after : Value

namespace Change

def failed (v : Value) (m : Misuse) : Change :=
  match m with
  | .notInList x => ⟨.error (if x.isWritable then .misuse m else .numeral .tooLongToWrite), v⟩
  | m => ⟨.error (.misuse m), v⟩

def returned (v result : Value) : Change := ⟨.ok result, v⟩

def silent (v : Value) : Change := ⟨.ok .null, v⟩

def answered (v : Value) (r : Except Misuse Value) : Change :=
  match r with
  | .ok x => returned v x
  | .error m => failed v m

def orFailed (v : Value) (r : Except Misuse Change) : Change :=
  match r with
  | .ok c => c
  | .error m => failed v m

end Change

def shortClassName (className : String) : String := (className.splitOn ".").getLastD className

/-- The misuse of an item's place or key by a value that has no items to put or delete. A place is read before
the value is found to have none. -/
def placeMisuse (v : Value) (key : Value) (byPlace otherwise : Misuse) : Misuse :=
  match key.integer? with
  | some n =>
    if v.isIndivisible then otherwise
    else if isHuge n then .hugeIndex key.qualifiedTypeName
    else byPlace
  | none => otherwise

def otherwise (v : Value) (m : Method) (args : List Value) : Except Misuse Value :=
  let name := v.qualifiedTypeName
  let key := args.headD .null
  match m with
  | .getItem =>
    match v with
    | classRef _ className => .error (.classNotSubscriptable (shortClassName className))
    | _ => .error (.notSubscriptable name)
  | .setItem => .error (placeMisuse v key (.noItemAssignment name) (.noItemAssignment name))
  | .deleteItem => .error (placeMisuse v key (.noPlaceDeletion name) (.noItemDeletion name))
  | .addAssign => (sum v key).map (fun _ => .null)
  | .multiplyAssign => (product v key).map (fun _ => .null)
  | .mergeAssign => (union v key).map (fun _ => .null)
  | m => .error (.lacksAttribute v m.name)

def inspectItems? (owner sequence : String) (xs : List Value) (m : Method) (args : List Value) :
    Option (Except Misuse Value) :=
  match m, args with
  | .count, [x] => some (.ok (.int (Int.ofNat (countItem xs x))))
  | .count, args => some (.error (.arity (.exactlyOne owner "count") args.length))
  | .index, args =>
    let missing := if sequence == "list" then Misuse.notInList else fun _ => .notInTuple
    some ((indexOf xs missing args).map (fun n => .int (Int.ofNat n)))
  | .getItem, args => some do
    let n ← subscript sequence (args.headD .null)
    let n ← placeAt (sequence ++ " index") xs.length n
    pure (itemAt xs n)
  | _, _ => none

def copied (owner : String) (v : Value) (args : List Value) : Except Misuse Value :=
  if args.isEmpty then .ok v else .error (.arity (.none owner "copy") args.length)

def changeList (xs : List Value) (m : Method) (args : List Value) : Change :=
  let v := Value.list xs
  let fail (m : Misuse) : Change := .failed v m
  match m, args with
  | .append, [x] => .silent (.list (xs ++ [x]))
  | .append, args => fail (.arity (.exactlyOne "list" "append") args.length)
  | .extend, [x] => .orFailed v do pure (.silent (.list (xs ++ (← x.parts))))
  | .extend, args => fail (.arity (.exactlyOne "list" "extend") args.length)
  | .addAssign, args => .orFailed v do pure (.silent (.list (xs ++ (← (args.headD .null).parts))))
  | .multiplyAssign, args => .orFailed v do
    let n ← repetitions v xs.length (args.headD .null)
    pure (.silent (.list (List.replicate n xs).flatten))
  | .insert, [i, x] => .orFailed v do
    let n := insertPlace xs.length (← i.integer)
    pure (.silent (.list (xs.take n ++ x :: xs.drop n)))
  | .insert, args => fail (.arity (.exactly "insert" 2) args.length)
  | .remove, [x] =>
    match xs.findIdx? (fun y => same y x) with
    | some n => .silent (.list (xs.eraseIdx n))
    | none => fail .notRemovable
  | .remove, args => fail (.arity (.exactlyOne "list" "remove") args.length)
  | .pop, [] => if xs.isEmpty then fail .emptyList else popAt v xs (-1)
  | .pop, [i] =>
    match i.integer with
    | .error e => fail e
    | .ok n => if xs.isEmpty then fail .emptyList else popAt v xs n
  | .pop, args => fail (.arity (.atMost "pop" 1) args.length)
  | .clear, [] => .silent (.list [])
  | .clear, args => fail (.arity (.none "list" "clear") args.length)
  | .sort, [] =>
    match sortItems xs with
    | .ok ys => .silent (.list ys)
    | .error (e, ys) => .failed (.list ys) e
  | .sort, args =>
    fail (.arity (if args.length ≤ 2 then .noPositional "sort" else .between "sort" 0 2) args.length)
  | .reverse, [] => .silent (.list xs.reverse)
  | .reverse, args => fail (.arity (.none "list" "reverse") args.length)
  | .copy, args => .answered v (copied "list" v args)
  | .setItem, args => .orFailed v do
    let n ← subscript "list" (args.headD .null)
    let n ← placeAt "list assignment index" xs.length n
    pure (.silent (.list (xs.set n ((args.drop 1).headD .null))))
  | .deleteItem, args => .orFailed v do
    let n ← subscript "list" (args.headD .null)
    let n ← placeAt "list assignment index" xs.length n
    pure (.silent (.list (xs.eraseIdx n)))
  | m, args => .answered v ((inspectItems? "list" "list" xs m args).getD (otherwise v m args))
where
  popAt (v : Value) (xs : List Value) (i : Int) : Change :=
    match place? xs.length i with
    | some n => .returned (.list (xs.eraseIdx n)) (itemAt xs n)
    | none => .failed v (.indexRange "pop index")

def inspectEntries? (owner : String) (es : Entries) (m : Method) (args : List Value) :
    Option (Except Misuse Value) :=
  match m, args with
  | .get, [k] => some do
    hashable k
    pure ((Entries.get? es k).getD .null)
  | .get, [k, d] => some do
    hashable k
    pure ((Entries.get? es k).getD d)
  | .get, [] => some (.error (.arity (.atLeast "get" 1) 0))
  | .get, args => some (.error (.arity (.atMost "get" 2) args.length))
  | .getItem, args => some do
    let k := args.headD .null
    hashable k
    match Entries.get? es k with
    | some x => pure x
    | none => .error (.missingKey k)
  | .copy, args => some (copied owner (.map es) args)
  | _, _ => none

def changeMap (es : Entries) (m : Method) (args : List Value) : Change :=
  let v := Value.map es
  let fail (m : Misuse) : Change := .failed v m
  match m, args with
  | .pop, [k] => popped v es k (.failed v (.missingKey k))
  | .pop, [k, d] => popped v es k (.returned v d)
  | .pop, [] => fail (.arity (.atLeast "pop" 1) 0)
  | .pop, args => fail (.arity (.atMost "pop" 2) args.length)
  | .popitem, [] =>
    match es.getLast? with
    | some (k, x) => .returned (.map es.dropLast) (.tuple [k, x])
    | none => fail .emptyMap
  | .popitem, args => fail (.arity (.none "dict" "popitem") args.length)
  | .setdefault, [] => fail (.arity (.atLeast "setdefault" 1) 0)
  | .setdefault, [k] => setDefault v es k .null
  | .setdefault, [k, d] => setDefault v es k d
  | .setdefault, args => fail (.arity (.atMost "setdefault" 2) args.length)
  | .update, [] => .silent v
  | .update, [x] => merged es x
  | .update, args => fail (.arity (.atMost "update" 1) args.length)
  | .mergeAssign, args => merged es (args.headD .null)
  | .clear, [] => .silent (.map [])
  | .clear, args => fail (.arity (.none "dict" "clear") args.length)
  | .setItem, args => .orFailed v do
    let k := args.headD .null
    hashable k
    pure (.silent (.map (Entries.put k ((args.drop 1).headD .null) es)))
  | .deleteItem, args => .orFailed v do
    let k := args.headD .null
    hashable k
    if Entries.contains es k then pure (.silent (.map (Entries.remove k es))) else .error (.missingKey k)
  | m, args => .answered v ((inspectEntries? "dict" es m args).getD (otherwise v m args))
where
  popped (v : Value) (es : Entries) (k : Value) (missing : Change) : Change :=
    if es.isEmpty then missing
    else .orFailed v do
      hashable k
      match Entries.get? es k with
      | some x => pure (.returned (.map (Entries.remove k es)) x)
      | none => pure missing
  setDefault (v : Value) (es : Entries) (k d : Value) : Change :=
    .orFailed v do
      hashable k
      match Entries.get? es k with
      | some x => pure (.returned v x)
      | none => pure (.returned (.map (Entries.put k d es)) d)
  merged (es : Entries) (x : Value) : Change :=
    match putFrom es x with
    | (fs, none) => .silent (.map fs)
    | (fs, some e) => .failed (.map fs) e

def addItems (xs : List Value) : List Value → List Value × Option Misuse
  | [] => (xs, none)
  | y :: ys =>
    match hashable y with
    | .error e => (xs, some e)
    | .ok () => addItems (if xs.any (fun x => same x y) then xs else xs ++ [y]) ys

def addParts (xs : List Value) : List Value → List Value × Option Misuse
  | [] => (xs, none)
  | v :: vs =>
    match v.parts with
    | .error e => (xs, some e)
    | .ok ys =>
      match addItems xs ys with
      | (xs, none) => addParts xs vs
      | (xs, some e) => (xs, some e)

/-- What is sought in a set: another set is compared with the items, all else must be a key. -/
def sought (v : Value) : Except Misuse Unit :=
  match v.bare with
  | set _ => .ok ()
  | v => hashable v

def changeSet (xs : List Value) (m : Method) (args : List Value) : Change :=
  let v := Value.set xs
  match m, args with
  | .pop, [] =>
    match xs with
    | x :: rest => .returned (.set rest) x
    | [] => .failed v .emptySet
  | .pop, args => .failed v (.arity (.none "set" "pop") args.length)
  | .clear, [] => .silent (.set [])
  | .clear, args => .failed v (.arity (.none "set" "clear") args.length)
  | .copy, args => .answered v (copied "set" v args)
  | .remove, [x] => .orFailed v do
    sought x
    match xs.findIdx? (fun y => same y x) with
    | some n => pure (.silent (.set (xs.eraseIdx n)))
    | none => .error (.missingKey x)
  | .remove, args => .failed v (.arity (.exactlyOne "set" "remove") args.length)
  | .update, args =>
    match addParts xs args with
    | (ys, none) => .silent (.set ys)
    | (ys, some e) => .failed (.set ys) e
  | .mergeAssign, [.set ys] => .silent (.set (addItems xs ys).1)
  | m, args => .answered v (otherwise v m args)

def inspectText? {β : Type} [BEq β] (owner range : String) (missing : Misuse) (xs : List β)
    (item : β → Value) (read : Value → Except Misuse (List β)) (m : Method) (args : List Value) :
    Option (Except Misuse Value) :=
  match m with
  | .count => some do
    let s ← partSearch "count" xs.length read args
    pure (.int (Int.ofNat (s.count xs)))
  | .index => some do
    let s ← partSearch "index" xs.length read args
    match s.place? xs with
    | some n => pure (.int (Int.ofNat n))
    | none => .error missing
  | .getItem => some do
    let n ← subscript owner (args.headD .null)
    let n ← placeAt range xs.length n
    pure ((xs[n]?).elim .null item)
  | _ => none

def inspect (v : Value) (m : Method) (args : List Value) : Except Misuse Value :=
  let found : Option (Except Misuse Value) :=
    match v with
    | frozenList xs =>
      if m = .copy then some (copied "FrozenList" (.list xs) args)
      else inspectItems? "FrozenList" "list" xs m args
    | tuple xs => inspectItems? "tuple" "tuple" xs m args
    | frozenMap es => inspectEntries? "FrozenDict" es m args
    | view es => inspectEntries? "mappingproxy" es m args
    | str s =>
      inspectText? "string" "string index" .notInText s.toList (fun c => str (String.ofList [c])) textPart
        m args
    | bytes bs =>
      inspectText? "byte" "index" .notInBytes bs (fun b => int (Int.ofNat b.toNat)) bytesPart m args
    | _ => none
  found.getD (otherwise v m args)

def applyBare (v : Value) (m : Method) (args : List Value) : Change :=
  match v with
  | list xs => changeList xs m args
  | map es => changeMap es m args
  | set xs => changeSet xs m args
  | frozenList _ => if m.changesList then ⟨.error .frozen, v⟩ else .answered v (v.inspect m args)
  | frozenMap _ => if m.changesMap then ⟨.error .frozen, v⟩ else .answered v (v.inspect m args)
  | v => .answered v (v.inspect m args)

/-- Applies a method to a value in place; the value that it leaves behind bears no label. -/
def apply (v : Value) (m : Method) (args : List Value) : Change :=
  match m.operandMisuse? args with
  | some e => .failed v.bare e
  | none => v.bare.applyBare m args

end TopologyConfig.Value
