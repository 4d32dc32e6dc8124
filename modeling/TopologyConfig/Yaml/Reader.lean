import TopologyConfig.Yaml.Draft

/-!
Reading YAML: a text holds one document or none, and the value of no document is null.
-/
namespace TopologyConfig.Yaml

def read (text : String) : Except Fault Value := do
  let cs := text.toList
  if cs.all isPrintable then do
    match ← Node.ofTokens (TokenStream.ofText cs) with
    | none => pure .null
    | some n =>
      let d := Draft.ofNode n.tag n
      d.check
      pure d.value
  else .error .malformed

end TopologyConfig.Yaml
