/-!
The environment variables of a process. A variable without any text counts as unset for all that reads
settings from the environment.
-/
namespace TopologyConfig

structure Environment where
  entries : List (String × String)
deriving Inhabited

namespace Environment

def get? (e : Environment) (name : String) : Option String := e.entries.lookup name

/-- The text of a variable that has some. -/
def text? (e : Environment) (name : String) : Option String := (e.get? name).filter (fun s => !s.isEmpty)

def put (e : Environment) (name : String) (text : Option String) : Environment :=
  let others := e.entries.filter (fun v => v.1 != name)
  match text with
  | some s => ⟨others ++ [(name, s)]⟩
  | none => ⟨others⟩

end Environment
end TopologyConfig
