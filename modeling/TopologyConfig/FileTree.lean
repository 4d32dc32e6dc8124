import TopologyConfig.Error
import TopologyConfig.Path

/-!
The files below the present directory. A path is followed part by part, each of them looked up in the
directory reached so far; what lies outside the present directory is taken to be empty.
-/
namespace TopologyConfig

/-- What a file holds: a text, stored as UTF-8, or bytes of any kind. -/
inductive FileContent where
  | text (s : String)
  | bytes (bs : List UInt8)

inductive FileNode where
  | directory
  | file (content : FileContent)

/-- The nodes at their places; the present directory itself has the empty place. -/
structure FileTree where
  nodes : List (List String × FileNode)
deriving Inhabited

namespace FileTree

inductive Place where
  | outside
  | inside (parts : List String)
deriving DecidableEq

def node? (t : FileTree) : List String → Option FileNode
  | [] => some .directory
  | parts => t.nodes.lookup parts

def put (t : FileTree) (parts : List String) (n : FileNode) : FileTree :=
  ⟨(parts, n) :: t.nodes.filter (fun e => e.1 != parts)⟩

def isDirectory (t : FileTree) : Place → Bool
  | .outside => true
  | .inside parts =>
    match t.node? parts with
    | some .directory => true
    | _ => false

def maxName : Nat := 255

def maxPath : Nat := 4095

def enter (t : FileTree) (place : Place) (part : String) : Except FileFault Place :=
  if !t.isDirectory place then .error .notDirectory
  else if part.utf8ByteSize > maxName then .error .nameTooLong
  else
    match place with
    | .outside => if part == ".." then .ok .outside else .error .notFound
    | .inside parts =>
      if part == ".." then .ok (if parts.isEmpty then .outside else .inside parts.dropLast)
      else if (t.node? (parts ++ [part])).isSome then .ok (.inside (parts ++ [part]))
      else .error .notFound

def start (p : Path) : Place := if p.root.isEmpty then .inside [] else .outside

def follow (t : FileTree) (p : Path) : Except FileFault Place :=
  if p.text.utf8ByteSize > maxPath then .error .nameTooLong
  else p.parts.foldlM t.enter (start p)

/-- Something stands where the path leads. Only a name that is too long has no answer. -/
def exists? (t : FileTree) (p : Path) : Except FileFault Bool :=
  if p.text.toList.contains '\x00' then .ok false
  else
    match t.follow p with
    | .ok _ => .ok true
    | .error .nameTooLong => .error .nameTooLong
    | .error _ => .ok false

def read (t : FileTree) (p : Path) : Except FileFault FileContent := do
  match ← t.follow p with
  | .outside => .error .isDirectory
  | .inside parts =>
    match t.node? parts with
    | some (.file content) => .ok content
    | _ => .error .isDirectory

def target (t : FileTree) (p : Path) : Except FileFault (List String × Option FileNode) := do
  if p.parts.isEmpty then .error .exists
  else if p.text.utf8ByteSize > maxPath then .error .nameTooLong
  else
    let above ← t.follow p.parent
    match t.enter above p.name, above with
    | .ok (.inside parts), _ => .ok (parts, t.node? parts)
    | .ok .outside, _ => .error .exists
    | .error .notFound, .inside parts => .ok (parts ++ [p.name], none)
    | .error f, _ => .error f

def makeDirectory (t : FileTree) (p : Path) : Except FileFault FileTree := do
  match ← t.target p with
  | (parts, none) => .ok (t.put parts .directory)
  | (_, some _) => .error .exists

def leadsToDirectory (t : FileTree) (p : Path) : Bool :=
  match t.follow p with
  | .ok place => t.isDirectory place
  | .error _ => false

def settleDirectory (t : FileTree) (p : Path) : Except FileError FileTree :=
  match t.makeDirectory p with
  | .ok t => .ok t
  | .error f => if t.leadsToDirectory p then .ok t else .error ⟨f, p.text⟩

/-- Makes the directory with the given parts, last one first, and the missing ones above it. -/
def ensureParts (t : FileTree) (root : String) : List String → Except FileError FileTree
  | [] => .ok t
  | part :: above =>
    let p : Path := ⟨root, (part :: above).reverse⟩
    match t.makeDirectory p with
    | .error .notFound => do (← ensureParts t root above).settleDirectory p
    | _ => t.settleDirectory p

def ensureDirectory (t : FileTree) (p : Path) : Except FileError FileTree :=
  t.ensureParts p.root p.parts.reverse

/-- The files after the attempt to make a directory and the missing ones above it. Where it fails, those that could
be made stay. -/
def attemptParts (t : FileTree) (root : String) : List String → FileTree
  | [] => t
  | part :: above =>
    let p : Path := ⟨root, (part :: above).reverse⟩
    match t.makeDirectory p with
    | .ok t => t
    | .error .notFound =>
      match t.ensureParts root above with
      | .ok t => (t.settleDirectory p).toOption.getD t
      | .error _ => attemptParts t root above
    | .error _ => t

def attemptDirectory (t : FileTree) (p : Path) : FileTree := t.attemptParts p.root p.parts.reverse

def write (t : FileTree) (p : Path) (content : FileContent) : Except FileFault FileTree := do
  match ← t.target p with
  | (_, some .directory) => .error .isDirectory
  | (parts, _) => .ok (t.put parts (.file content))

def create (t : FileTree) (p : Path) (content : FileContent) : Except FileError FileTree := do
  let t ← t.ensureDirectory p.parent
  (t.write p content).mapError (FileError.mk · p.text)

def remove (t : FileTree) (p : Path) : Except FileError FileTree :=
  match t.target p with
  | .ok (parts, some (.file _)) => .ok ⟨t.nodes.filter (fun e => e.1 != parts)⟩
  | .ok (_, some .directory) => .error ⟨.isDirectory, p.text⟩
  | .ok (_, none) => .error ⟨.notFound, p.text⟩
  | .error f => .error ⟨f, p.text⟩

end FileTree
end TopologyConfig
