import TopologyConfig.ConfigMap.Registration

/-!
The methods of a configuration that is met inside another value. They take their arguments like those of
plain lists and maps, and are checked against their parameters first.
-/
namespace TopologyConfig.ConfigMap

structure MethodOutcome where
  result : Except ConfigError Value
  after : ConfigMap
  logs : List LogRecord := []

namespace MethodOutcome

def failed (c : ConfigMap) (e : ConfigError) : MethodOutcome := { result := .error e, after := c }

def looked (c : ConfigMap) (r : Except ConfigError Value) : MethodOutcome := { result := r, after := c }

def changed (c : ConfigMap) : Except ConfigError (Value × ConfigMap) → MethodOutcome
  | .ok (v, after) => { result := .ok v, after := after }
  | .error e => failed c e

def silent (c : ConfigMap) (r : Except ConfigError ConfigMap) : MethodOutcome :=
  changed c (r.map (fun after => (.null, after)))

end MethodOutcome

/-- A value that no argument equals: it stands for an argument that was not given. -/
def absentArgument : Value := .object ""

def signatureOf? : Method → Option Signature
  | .append => some ⟨"ConfigMap.append", [⟨"self", none⟩, ⟨"key", none⟩, ⟨"entry", none⟩]⟩
  | .get => some ⟨"Mapping.get", [⟨"self", none⟩, ⟨"key", none⟩, ⟨"default", some .null⟩]⟩
  | .pop => some ⟨"MutableMapping.pop", [⟨"self", none⟩, ⟨"key", none⟩, ⟨"default", some absentArgument⟩]⟩
  | .popitem => some ⟨"MutableMapping.popitem", [⟨"self", none⟩]⟩
  | .setdefault =>
    some ⟨"MutableMapping.setdefault", [⟨"self", none⟩, ⟨"key", none⟩, ⟨"default", some .null⟩]⟩
  | .update => some ⟨"MutableMapping.update", [⟨"self", none⟩, ⟨"other", some (.tuple [])⟩]⟩
  | .clear => some ⟨"ConfigMap.clear", [⟨"self", none⟩]⟩
  | .copy => some ⟨"ConfigMap.copy", [⟨"self", none⟩]⟩
  | _ => none

def applyBound (c : ConfigMap) (m : Method) (args : List Value) : MethodOutcome :=
  let first := args.headD .null
  let second := (args.drop 1).headD .null
  match m with
  | .append =>
    let a := c.append first second
    { result := a.outcome.result.map (fun _ => a.after.asLayer), after := a.after, logs := a.outcome.logs }
  | .get => .looked c (c.getD first second)
  | .getItem => .looked c (c.get first)
  | .setItem => .silent c (c.set first second)
  | .deleteItem => .silent c (c.remove first)
  | .pop => .changed c (c.pop first (if second.same absentArgument then none else some second))
  | .popitem => .changed c (c.popFirst.map (fun (k, v, after) => (.tuple [k, v], after)))
  | .setdefault => .changed c (c.setDefault first second)
  | .update =>
    let (after, e?) := c.update first
    { result := match e? with
        | none => .ok .null
        | some e => .error e
      after := after }
  | .clear => .silent c c.clear
  | .copy => .looked c (c.copy.map asLayer)
  | m => .looked c ((Value.otherwise c.asLayer m args).mapError .misuse)

def applyMethod (c : ConfigMap) (m : Method) (args : List Value) : MethodOutcome :=
  match m.operandMisuse? args, signatureOf? m with
  | some e, _ => .failed c (.misuse e)
  | none, none => c.applyBound m args
  | none, some s =>
    match s.bind (c.asLayer :: args) [] with
    | .ok bound => c.applyBound m (bound.drop 1)
    | .error e => .failed c (.call e)

end TopologyConfig.ConfigMap
