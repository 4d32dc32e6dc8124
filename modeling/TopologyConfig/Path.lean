import TopologyConfig.Text.Blank

/-!
Paths of documents. A path is its directories and its name, however it was written: repeated separators
and the parts that mean the present directory do not count.
-/
namespace TopologyConfig

structure Path where
  root : String
  parts : List String
deriving DecidableEq, Inhabited

namespace Path

/-- The separators at the start: exactly two are kept apart from one. -/
def rootOf (cs : List Char) : String :=
  match (cs.takeWhile (· == '/')).length with
  | 0 => ""
  | 2 => "//"
  | _ => "/"

def ofText (s : String) : Path :=
  ⟨rootOf s.toList, ((Text.splitAt '/' s.toList).map String.ofList).filter (fun p => p != "" && p != ".")⟩

def text (p : Path) : String :=
  if p.root.isEmpty && p.parts.isEmpty then "." else p.root ++ "/".intercalate p.parts

def name (p : Path) : String := p.parts.getLastD ""

def parent (p : Path) : Path := { p with parts := p.parts.dropLast }

/-- The last point of the name and what follows it, unless the point is its first or last character. -/
def suffix (p : Path) : String :=
  let reversed := p.name.toList.reverse
  let after := reversed.takeWhile (· != '.')
  if after.length + 1 < reversed.length && !after.isEmpty then String.ofList ('.' :: after.reverse) else ""

def stepInto (parts : List String) (part : String) : List String :=
  if part == ".." then
    match parts.getLast? with
    | none => [part]
    | some above => if above == ".." then parts ++ [part] else parts.dropLast
  else parts ++ [part]

def collapsed (p : Path) : Path := { p with parts := p.parts.foldl stepInto [] }

end Path
end TopologyConfig
