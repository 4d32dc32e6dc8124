import TopologyConfig.ConfigMap.Merge

/-!
Appending single entries to the list under a key. An entry that its key's element shape rejects is
reported at once, by the field at fault where the shape can name it.
-/
namespace TopologyConfig.ConfigMap

def entryViolation? (r : Registry) (key entry : Value) : Option Violation :=
  match r.element? key with
  | none => none
  | some s =>
    if s.accepts entry then none
    else some { key := key, expected := s.description, value := entry, problem := s.problem? entry }

def extended (c : ConfigMap) (key entry : Value) : List Value :=
  asEntries ((Entries.get? c.entries key).getD .null) ++ [entry.thaw]

def appendRecord (key : Value) (count : Nat) : Logged Unit :=
  match key.plain with
  | .ok text => ⟨.ok (), [debugRecord ("Appended entry #" ++ toString count ++ " to '" ++ text ++ "'")]⟩
  | .error e => .failed (.numeral e)

/-- A map that may have changed, whether or not the operation on it succeeded. -/
structure Appended where
  after : ConfigMap
  outcome : Logged Unit

namespace Appended

def refused (c : ConfigMap) (e : ConfigError) : Appended := ⟨c, .failed e⟩

end Appended

/-- Appends an entry. A missing key, or one that holds null, starts a new list, and a value that is no
list becomes its first entry. Whatever can be a key may name the list. -/
def append (c : ConfigMap) (key entry : Value) : Appended :=
  if c.isSealed then .refused c .sealedMap
  else match hashable key with
    | .error e => .refused c e
    | .ok () =>
      match entryViolation? c.registry key entry with
      | some v =>
        match v.checked with
        | .ok v => .refused c (.violation v)
        | .error e => .refused c (.numeral e)
      | none =>
        let xs := c.extended key entry
        ⟨{ c with entries := Entries.put key (.list xs) c.entries }, appendRecord key xs.length⟩

end TopologyConfig.ConfigMap
