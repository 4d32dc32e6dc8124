import TopologyConfig.Document
import TopologyConfig.FileTree
import TopologyConfig.Text.Newline

/-!
Documents in files. The suffix of a path decides on the format; a directory that is missing on the way to
a new document is made.
-/
namespace TopologyConfig

def FileContent.read : FileContent → Except ConfigError String
  | .text s => .ok (Text.withUnifiedNewlines s)
  | .bytes bs => ((Text.decodeUtf8 bs).mapError .encoding).map Text.withUnifiedNewlines

namespace Document

/-- The system takes no path with a null character. -/
def ensureNoNull (p : Path) : Except ConfigError Unit :=
  if p.text.toList.contains '\x00' then .error .nullInPath else .ok ()

def readText (t : FileTree) (p : Path) : Except ConfigError String := do
  ensureNoNull p
  match t.read p with
  | .ok content => content.read
  | .error f => .error (.load (.unreadable p.text ⟨f, p.text⟩))

def readFile (t : FileTree) (p : Path) : Except ConfigError Entries := do
  let text ← readText t p
  let format ← DocumentFormat.ofPath p.text
  read format p.text text

def loadFile (r : Registry) (t : FileTree) (p : Path) : Except ConfigError ConfigMap := do
  ConfigMap.ofEntries r (← readFile t p)

structure Written where
  files : FileTree
  text : String

def writeFile (t : FileTree) (p : Path) (v : Value) : Except ConfigError Written := do
  let format ← DocumentFormat.ofPath p.text
  let text ← write format v
  ensureNoNull p.parent
  let t ← (t.ensureDirectory p.parent).mapError .file
  ensureNoNull p
  let t ← (t.write p (.text text)).mapError (fun f => .file ⟨f, p.text⟩)
  .ok ⟨t, text⟩

/-- What is settled before any file or directory is touched. -/
def ensureWritable (p : Path) (v : Value) : Except ConfigError Unit := do
  let format ← DocumentFormat.ofPath p.text
  let _ ← write format v
  ensureNoNull p.parent

/-- The files after a document could not be written. Directories that were made for it stay. -/
def filesAfterFailure (t : FileTree) (p : Path) (v : Value) : FileTree :=
  match ensureWritable p v with
  | .ok () => t.attemptDirectory p.parent
  | .error _ => t

end Document
end TopologyConfig
