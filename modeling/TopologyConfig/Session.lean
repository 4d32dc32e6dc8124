import TopologyConfig.ConfigMap.Methods
import TopologyConfig.ConfigMap.Transfer
import TopologyConfig.Document

/-!
Sessions: programs over named configurations. A step acts on one map, and one that makes a new map binds
it to a name. A map may also be held inside the value of another, and so may a list, map or set: every part
of a stored value that can change bears a label, and a change to it shows wherever the label stands.
-/
namespace TopologyConfig

/-- Every map that was made, by its number, and the names bound to them. Labels below `labels` are in use. -/
structure Session where
  registry : Registry
  maps : List ConfigMap
  names : List (String × Nat)
  labels : Nat

inductive Step where
  | make (initial : Value)
  | set (key value : Value)
  | assign (key value : Value)
  | find (key : Value)
  | remove (key : Value)
  | contains (key : Value)
  | count
  | get (key default : Value)
  | keys
  | items
  | pop (key : Value) (default? : Option Value)
  | popFirst
  | setDefault (key default : Value)
  | update (v : Value)
  | clear
  | equals (v : Value)
  | display
  | append (key entry : Value)
  | validate
  | close (collect : Bool)
  | plain
  | copy
  | deepCopy
  /-- A nameless test that gets in the way stands at the given address. -/
  | transfer (address : Nat)
  | merge (base overlay : Value)
  | mergeLayers (layers : List Value)
  | call (t : TypedCall) (positional : List Value) (named : List (String × Value))
  | mutate (path : List Value) (m : Method) (args : List Value)
  | write (format : String)
  | read (format text : String)
  | roundTrip (format : String)
  | sameRegistry

inductive Answer where
  | made
  | itself
  | value (v : Value)
  | entries (es : Entries)
  | violations (vs : List Violation)

structure Effect where
  session : Session
  result : Except ConfigError Answer
  logs : List LogRecord := []

namespace Session

def start (r : Registry) : Session := ⟨r, [ConfigMap.empty r], [("c", 0)], 0⟩

def number? (s : Session) (name : String) : Option Nat := s.names.lookup name

def mapAt (s : Session) (n : Nat) : ConfigMap := s.maps.getD n (ConfigMap.empty s.registry)

def map? (s : Session) (name : String) : Option ConfigMap := (s.number? name).map s.mapAt

def valueAt (s : Session) (n : Nat) : Value :=
  let c := s.mapAt n
  .config (some n) c.isSealed c.entries

def value? (s : Session) (name : String) : Option Value := (s.number? name).map s.valueAt

def put (s : Session) (n : Nat) (c : ConfigMap) : Session := { s with maps := s.maps.set n c }

def bind (s : Session) (name : String) (c : ConfigMap) : Session :=
  { s with maps := s.maps ++ [c], names := (name, s.maps.length) :: s.names }

end Session

namespace Value

mutual

def holdsConfig : Value → Bool
  | list xs => itemsHoldConfig xs
  | frozenList xs => itemsHoldConfig xs
  | tuple xs => itemsHoldConfig xs
  | map es => entriesHoldConfig es
  | frozenMap es => entriesHoldConfig es
  | view es => entriesHoldConfig es
  | config _ _ _ => true
  | labelled _ v => holdsConfig v
  | _ => false

def itemsHoldConfig : List Value → Bool
  | [] => false
  | x :: xs => holdsConfig x || itemsHoldConfig xs

def entriesHoldConfig : List (Value × Value) → Bool
  | [] => false
  | (_, v) :: es => holdsConfig v || entriesHoldConfig es

end

mutual

def refreshed (maps : List ConfigMap) : Value → Value
  | list xs => list (refreshedItems maps xs)
  | frozenList xs => frozenList (refreshedItems maps xs)
  | tuple xs => tuple (refreshedItems maps xs)
  | map es => map (refreshedEntries maps es)
  | frozenMap es => frozenMap (refreshedEntries maps es)
  | view es => view (refreshedEntries maps es)
  | config number isSealed es =>
    match number.bind (maps[·]?) with
    | some c => config number c.isSealed c.entries
    | none => config number isSealed es
  | labelled label v => labelled label (refreshed maps v)
  | v => v

def refreshedItems (maps : List ConfigMap) : List Value → List Value
  | [] => []
  | x :: xs => refreshed maps x :: refreshedItems maps xs

def refreshedEntries (maps : List ConfigMap) : List (Value × Value) → List (Value × Value)
  | [] => []
  | (k, v) :: es => (k, refreshed maps v) :: refreshedEntries maps es

end

mutual

/-- The value with labels on all lists, maps and sets inside that have none, from the given label on, and the
next label. What bears a label has been dealt with. -/
def withLabels (next : Nat) : Value → Value × Nat
  | list xs =>
    let (xs, next) := itemsWithLabels next xs
    (labelled next (list xs), next + 1)
  | map es =>
    let (es, next) := entriesWithLabels next es
    (labelled next (map es), next + 1)
  | set xs => (labelled next (set xs), next + 1)
  | frozenList xs =>
    let (xs, next) := itemsWithLabels next xs
    (frozenList xs, next)
  | tuple xs =>
    let (xs, next) := itemsWithLabels next xs
    (tuple xs, next)
  | frozenMap es =>
    let (es, next) := entriesWithLabels next es
    (frozenMap es, next)
  | view es =>
    let (es, next) := entriesWithLabels next es
    (view es, next)
  | v => (v, next)

def itemsWithLabels (next : Nat) : List Value → List Value × Nat
  | [] => ([], next)
  | x :: xs =>
    let (x, next) := withLabels next x
    let (xs, next) := itemsWithLabels next xs
    (x :: xs, next)

def entriesWithLabels (next : Nat) : List (Value × Value) → List (Value × Value) × Nat
  | [] => ([], next)
  | (k, v) :: es =>
    let (v, next) := withLabels next v
    let (es, next) := entriesWithLabels next es
    ((k, v) :: es, next)

end

mutual

def relabelled (label : Nat) (contents : Value) : Value → Value
  | list xs => list (relabelledItems label contents xs)
  | frozenList xs => frozenList (relabelledItems label contents xs)
  | tuple xs => tuple (relabelledItems label contents xs)
  | map es => map (relabelledEntries label contents es)
  | frozenMap es => frozenMap (relabelledEntries label contents es)
  | view es => view (relabelledEntries label contents es)
  | labelled l v => if l = label then labelled l contents else labelled l (relabelled label contents v)
  | v => v

def relabelledItems (label : Nat) (contents : Value) : List Value → List Value
  | [] => []
  | x :: xs => relabelled label contents x :: relabelledItems label contents xs

def relabelledEntries (label : Nat) (contents : Value) : List (Value × Value) → List (Value × Value)
  | [] => []
  | (k, v) :: es => (k, relabelled label contents v) :: relabelledEntries label contents es

end

end Value

namespace Session

def refreshRound (maps : List ConfigMap) : List ConfigMap :=
  maps.map (fun c => { c with entries := Value.refreshedEntries maps c.entries })

def refreshRounds : Nat → List ConfigMap → List ConfigMap
  | 0, maps => maps
  | n + 1, maps => refreshRounds n (refreshRound maps)

/-- Brings the session up to date: maps may hold each other as deeply as there are maps. -/
def refresh (s : Session) : Session :=
  if s.maps.any (fun c => Value.entriesHoldConfig c.entries) then
    { s with maps := refreshRounds s.maps.length s.maps }
  else s

def labelMaps (next : Nat) : List ConfigMap → List ConfigMap × Nat
  | [] => ([], next)
  | c :: cs =>
    let (es, next) := Value.entriesWithLabels next c.entries
    let (cs, next) := labelMaps next cs
    ({ c with entries := es } :: cs, next)

def label (s : Session) : Session :=
  let (maps, labels) := labelMaps s.labels s.maps
  { s with maps := maps, labels := labels }

inductive Target where
  | map (n : Nat)
  | part (v : Value)

def Target.of : Value → Target
  | .config (some held) _ _ => .map held
  | v => .part v

def inPlaceError : Value.InPlaceError → ConfigError
  | .frozen => .sealedValue
  | .misuse m => .misuse m
  | .numeral e => .numeral e

def follow (s : Session) : List Value → Target → Except ConfigError Target
  | [], t => .ok t
  | key :: path, .map n => do
    let v ← (s.mapAt n).get key
    follow s path (Target.of v)
  | key :: path, .part v =>
    match (v.apply .getItem [key]).result with
    | .ok x => follow s path (Target.of x)
    | .error e => .error (inPlaceError e)

def replace (s : Session) (label : Nat) (contents : Value) : Session :=
  let (v, labels) := contents.withLabels s.labels
  { s with
    maps := s.maps.map (fun c => { c with entries := Value.relabelledEntries label v.bare c.entries })
    labels := labels }

def refreshAssignment (s : Session) : ConfigMap.Assignment → ConfigMap.Assignment
  | .entry k v => .entry k (v.refreshed s.maps)
  | .element v => .element (v.refreshed s.maps)
  | .failure e => .failure e

/-- Makes assignments to a map one after the other until one of them fails. A value that holds the map itself is
stored as it is by then. -/
def assignAll (s : Session) (n : Nat) : List ConfigMap.Assignment → Session × Option ConfigError
  | [] => (s, none)
  | a :: rest =>
    match (s.mapAt n).assign (s.refreshAssignment a) with
    | .ok c => assignAll (s.put n c).refresh n rest
    | .error e => (s, some e)

def update (s : Session) (n : Nat) (v : Value) : Effect :=
  let (after, e?) := s.assignAll n (ConfigMap.assignments v)
  { session := after
    result := match e? with
      | none => .ok (.value .null)
      | some e => .error e }

/-- Applies a method in place to what stands at the end of a path. Only a part with a label can change. -/
def mutate (s : Session) (n : Nat) (path : List Value) (m : Method) (args : List Value) : Effect :=
  match s.follow path (.map n), m, args with
  | .error e, _, _ => { session := s, result := .error e }
  | .ok (.map held), .update, [v] => s.update held v
  | .ok (.map held), m, args =>
    let o := (s.mapAt held).applyMethod m args
    { session := s.put held o.after, result := o.result.map .value, logs := o.logs }
  | .ok (.part v), m, args =>
    let change := v.apply m args
    { session := match v with
        | .labelled label _ => s.replace label change.after
        | _ => s
      result := (change.result.mapError inPlaceError).map .value }

def looked (s : Session) (r : Except ConfigError Answer) : Effect := { session := s, result := r }

def changed (s : Session) (n : Nat) : Except ConfigError (Answer × ConfigMap) → Effect
  | .ok (a, c) => { session := s.put n c, result := .ok a }
  | .error e => { session := s, result := .error e }

def making (s : Session) (name : String) (made : ConfigMap.Logged ConfigMap) : Effect :=
  match made.result with
  | .ok c => { session := s.bind name c, result := .ok .made, logs := made.logs }
  | .error e => { session := s, result := .error e, logs := made.logs }

def appended (s : Session) (n : Nat) (a : ConfigMap.Appended) : Effect :=
  { session := s.put n a.after, result := a.outcome.result.map (fun _ => .itself), logs := a.outcome.logs }

def perform (s : Session) (n : Nat) (name : String) (step : Step) : Effect :=
  let c := s.mapAt n
  match step with
  | .make initial => s.making name (.silent (ConfigMap.ofValue s.registry initial))
  | .set k v => s.changed n ((c.set k v).map (.itself, ·))
  | .assign k v => s.changed n ((c.set k v).map (.value .null, ·))
  | .find k => s.looked ((c.get k).map .value)
  | .remove k => s.changed n ((c.remove k).map (.value .null, ·))
  | .contains k => s.looked ((c.contains k).map (fun b => .value (.bool b)))
  | .count => s.looked (.ok (.value (.int (Int.ofNat c.entries.length))))
  | .get k d => s.looked ((c.getD k d).map .value)
  | .keys => s.looked (.ok (.value (.list (Entries.keys c.entries))))
  | .items => s.looked (.ok (.entries c.entries))
  | .pop k d? => s.changed n ((c.pop k d?).map (fun (v, c) => (.value v, c)))
  | .popFirst => s.changed n (c.popFirst.map (fun (k, v, c) => (.value (.tuple [k, v]), c)))
  | .setDefault k d => s.changed n ((c.setDefault k d).map (fun (v, c) => (.value v, c)))
  | .update v => s.update n v
  | .clear => s.changed n (c.clear.map (.value .null, ·))
  | .equals v => s.looked (.ok (.value (.bool (c.equals v))))
  | .display => s.looked (c.shown.map (fun text => .value (.str text)))
  | .append k entry => s.appended n (c.append k entry)
  | .validate => s.looked (c.validate.map .violations)
  | .close collect =>
    let done := c.toSealed collect
    { s.changed n (done.result.map (.itself, ·)) with logs := done.logs }
  | .plain => s.looked (.ok (.value c.toValue))
  | .copy => s.making name (.silent c.copy)
  | .deepCopy => s.making name c.deepCopy
  | .transfer address => s.making name (c.transfer (s.maps.length + 1) address)
  | .merge base overlay => s.making name (ConfigMap.merge s.registry base overlay)
  | .mergeLayers layers => s.making name (ConfigMap.mergeLayers s.registry layers)
  | .call t positional named => s.appended n (c.call t positional named)
  | .mutate path m args => s.mutate n path m args
  | .write format =>
    s.looked do
      let f ← DocumentFormat.ofName format
      pure (.value (.str (← c.write f)))
  | .read format text =>
    s.making name (.silent do
      Document.load s.registry (← DocumentFormat.ofName format) Document.unnamed text)
  | .roundTrip format =>
    s.making name (.silent do
      let f ← DocumentFormat.ofName format
      Document.load s.registry f Document.unnamed (← c.write f))
  | .sameRegistry => s.looked (.ok (.value (.bool (c.registry.number == s.registry.number))))

def refreshAnswer (s : Session) : Answer → Answer
  | .value v => .value (v.refreshed s.maps)
  | a => a

def run (s : Session) (name bound : String) (step : Step) : Option Effect :=
  (s.number? name).map fun n =>
    let e := s.perform n bound step
    let s := e.session.label.refresh
    { e with session := s, result := e.result.map s.refreshAnswer }

end Session
end TopologyConfig
