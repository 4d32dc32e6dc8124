import TopologyConfig.ConfigMap.Seal

/-!
Handing a registry or a map over to another process. A shape can be handed over only if its test has a
name by which the other process finds it; the standard registry is known there and needs no such test.
-/
namespace TopologyConfig

def Shape.transferError? (address : Nat) : Shape → Option TransferError
  | .boolean => some (.namelessTest address)
  | .map => some (.namelessTest address)
  | .metricsConsumerEntry => some (.namelessTest address)
  | .listOf _ => some (.localTest "list_of.<locals>.predicate")
  | .oneOf _ => some (.localTest "one_of.<locals>.<lambda>")
  | _ => none

namespace Registry

def isStandard (r : Registry) : Bool := r.number == 0

/-- The registry as the other process has it: a standard one is the same, any other is a new one. -/
def transfer (r : Registry) (address : Nat) : Except TransferError Registry :=
  if r.isStandard then .ok r
  else
    match r.keys.findSome? (fun k => k.shape.bind (Shape.transferError? address)) with
    | some e => .error e
    | none => .ok { r with number := r.number + 1 }

end Registry

namespace Value

mutual

def transferError? : Value → Option TransferError
  | classRef module name => some (.unknownClass module name)
  | object className => some (.unknownObject className)
  | list xs => itemsTransferError? xs
  | frozenList xs => itemsTransferError? xs
  | tuple xs => itemsTransferError? xs
  | set xs => itemsTransferError? xs
  | map es => entriesTransferError? es
  | frozenMap es => entriesTransferError? es
  | config _ _ es => entriesTransferError? es
  | view _ => some .view
  | labelled _ v => transferError? v
  | _ => none

def itemsTransferError? : List Value → Option TransferError
  | [] => none
  | x :: xs => (transferError? x).or (itemsTransferError? xs)

def entriesTransferError? : List (Value × Value) → Option TransferError
  | [] => none
  | (k, v) :: es => (transferError? k).or ((transferError? v).or (entriesTransferError? es))

end

/-- A floating-point value on the other side of the given hand-over: one that is no number is a new one. -/
def renewedFloat (stamp : Nat) (x : Binary64) : Binary64 :=
  if x.isNaN then Binary64.nan (stamp * Nat.pow 2 20 + x.fraction % Nat.pow 2 20) else x

mutual

def renewed (stamp : Nat) : Value → Value
  | float x => float (renewedFloat stamp x)
  | list xs => list (renewedItems stamp xs)
  | frozenList xs => frozenList (renewedItems stamp xs)
  | tuple xs => tuple (renewedItems stamp xs)
  | set xs => set (renewedItems stamp xs)
  | map es => map (renewedEntries stamp es)
  | frozenMap es => frozenMap (renewedEntries stamp es)
  | labelled _ v => renewed stamp v
  | v => v

def renewedItems (stamp : Nat) : List Value → List Value
  | [] => []
  | x :: xs => renewed stamp x :: renewedItems stamp xs

def renewedEntries (stamp : Nat) : List (Value × Value) → List (Value × Value)
  | [] => []
  | (k, v) :: es => (renewed stamp k, renewed stamp v) :: renewedEntries stamp es

end

def transfer (stamp : Nat) (v : Value) : Except TransferError Value :=
  match v.transferError? with
  | some e => .error e
  | none => .ok (v.renewed stamp)

end Value

def ConfigMap.transfer (stamp address : Nat) (c : ConfigMap) : ConfigMap.Logged ConfigMap :=
  match c.toValue.transfer stamp, c.registry.transfer address with
  | .error e, _ => .failed (.transfer e)
  | .ok _, .error e => .failed (.transfer e)
  | .ok _, .ok r => rebuild r (Value.renewedEntries stamp c.plainEntries) c.isSealed

end TopologyConfig
