import TopologyConfig.Text.Utf8
import TopologyConfig.Yaml.Scalar

/-!
Tokens of a YAML text. Indentation opens and closes block collections. A node that a colon follows on its
own line, within 1024 characters, is a key: its key token is put in front of it when the colon is met.
-/
namespace TopologyConfig.Yaml

inductive Token where
  | streamEnd
  | version (major : Int)
  | tagHandle (handle start : String)
  | ignoredDirective
  | documentStart
  | documentEnd
  | blockSequenceStart
  | blockMappingStart
  | blockEnd
  | flowSequenceStart
  | flowSequenceEnd
  | flowMappingStart
  | flowMappingEnd
  | key
  | value
  | blockEntry
  | flowEntry
  | alias (name : String)
  | anchor (name : String)
  | tag (handle : Option String) (suffix : String)
  | scalar (plain : Bool) (text : String)
deriving DecidableEq

namespace Token

def isNameChar (c : Char) : Bool := c.isAlphanum || c == '-' || c == '_'

def isUriChar (c : Char) : Bool := c.isAlphanum || "-;/?:@&=+$,_.!~*'()[]%".toList.contains c

def name (c : Cursor) : Except Fault (String × Cursor) :=
  let cs := c.rest.takeWhile isNameChar
  if cs.isEmpty then .error .malformed else .ok (String.ofList cs, c.skip cs.length)

def anchorName (c : Cursor) : Except Fault (String × Cursor) := do
  let (s, c) ← name c.next
  let closes (x : Char) : Bool := "?:,]\x7d%@\x60".toList.contains x
  if isSeparator c.peek || c.peek.any closes then pure (s, c) else .error .malformed

def uriEscapes : Nat → Cursor → Except Fault (List UInt8 × Cursor)
  | 0, c => .ok ([], c)
  | fuel + 1, c =>
    match c.rest with
    | '%' :: a :: b :: _ =>
      match hexNumber? [a, b] with
      | none => .error .malformed
      | some n => do
        let (bytes, c) ← uriEscapes fuel (c.skip 3)
        pure (UInt8.ofNat n :: bytes, c)
    | '%' :: _ => .error .malformed
    | _ => .ok ([], c)

def uriChars : Nat → Cursor → Except Fault (List Char × Cursor)
  | 0, c => .ok ([], c)
  | fuel + 1, c =>
    match c.rest with
    | [] => .ok ([], c)
    | '%' :: _ => do
      let (bytes, next) ← uriEscapes (c.rest.length + 1) c
      match Text.decodeUtf8 bytes with
      | .error _ => .error .malformed
      | .ok s => do
        let (rest, next) ← uriChars fuel next
        pure (s.toList ++ rest, next)
    | x :: _ =>
      if isUriChar x then do
        let (rest, next) ← uriChars fuel c.next
        pure (x :: rest, next)
      else .ok ([], c)

def uri (c : Cursor) : Except Fault (String × Cursor) := do
  let (cs, next) ← uriChars (c.rest.length + 1) c
  if next.index == c.index then .error .malformed else pure (String.ofList cs, next)

def handle (c : Cursor) : Except Fault (String × Cursor) :=
  if c.peek != some '!' then .error .malformed
  else if c.peekAt 1 == some ' ' then .ok ("!", c.next)
  else
    let cs := (c.rest.drop 1).takeWhile isNameChar
    if c.peekAt (cs.length + 1) == some '!' then
      .ok ("!" ++ String.ofList cs ++ "!", c.skip (cs.length + 2))
    else .error .malformed

def hasHandle (c : Cursor) : Bool :=
  ((c.rest.drop 1).takeWhile (fun x => !endsWord (some x))).contains '!'

def scanTag (c : Cursor) : Except Fault (Token × Cursor) := do
  let (t, c) ←
    if c.peekAt 1 == some '<' then do
      let (s, c) ← uri (c.skip 2)
      if c.peek == some '>' then pure (tag none s, c.next) else .error .malformed
    else if isSeparator (c.peekAt 1) then pure (tag none "!", c.next)
    else if hasHandle c then do
      let (h, c) ← handle c
      let (s, c) ← uri c
      pure (tag (some h) s, c)
    else do
      let (s, c) ← uri c.next
      pure (tag (some "!") s, c)
  if endsWord c.peek then pure (t, c) else .error .malformed

def versionNumber (c : Cursor) : Except Fault (Int × Cursor) := do
  let cs := c.rest.takeWhile Char.isDigit
  if cs.isEmpty then .error .malformed
  else
    match Numeral.read 10 (String.ofList cs) with
    | .ok n => pure (n, c.skip cs.length)
    | .error e => .error (.numeral e)

def scanVersion (c : Cursor) : Except Fault (Token × Cursor) := do
  let (major, c) ← versionNumber c.skipSpaces
  if c.peek != some '.' then .error .malformed
  else do
    let (_, c) ← versionNumber c.next
    if endsWord c.peek then pure (version major, c) else .error .malformed

def scanTagHandle (c : Cursor) : Except Fault (Token × Cursor) := do
  let (h, c) ← handle c.skipSpaces
  if c.peek != some ' ' then .error .malformed
  else do
    let (s, c) ← uri c.skipSpaces
    if endsWord c.peek then pure (tagHandle h s, c) else .error .malformed

def scanDirective (c : Cursor) : Except Fault (Token × Cursor) := do
  let (s, c) ← name c.next
  if endsWord c.peek then do
    let (t, c) ←
      if s == "YAML" then scanVersion c
      else if s == "TAG" then scanTagHandle c
      else pure (ignoredDirective, c.skipWhile (!isBreak ·))
    let c := c.skipSpaces.skipComment
    if endsLine c.peek then pure (t, c.skipBreak) else .error .malformed
  else .error .malformed

end Token

/-- A node that turns out to be a key if a colon follows it. -/
structure PossibleKey where
  flowLevel : Nat
  /-- How many tokens stand before the node. -/
  place : Nat
  required : Bool
  index : Nat
  line : Nat
  column : Nat

/-- A key lies on the line of its colon, and at most 1024 characters before it. -/
def PossibleKey.isStale (k : PossibleKey) (c : Cursor) : Bool :=
  k.line != c.line || c.index > k.index + 1024

structure Lexer where
  cursor : Cursor
  tokens : Array Token := #[]
  flowLevel : Nat := 0
  indent : Int := -1
  outerIndents : List Int := []
  keyAllowed : Bool := true
  possibleKeys : List PossibleKey := []
  finished : Bool := false

namespace Lexer

def inFlow (l : Lexer) : Bool := l.flowLevel > 0

def push (l : Lexer) (t : Token) : Lexer := { l with tokens := l.tokens.push t }

def take (l : Lexer) (n : Nat) (t : Token) : Lexer := { l.push t with cursor := l.cursor.skip n }

def column (l : Lexer) : Int := Int.ofNat l.cursor.column

def skipBlank : Nat → Lexer → Lexer
  | 0, l => l
  | fuel + 1, l =>
    let c := l.cursor.skipSpaces.skipComment
    match c.lineBreak? with
    | none => { l with cursor := c }
    | some (_, next) => skipBlank fuel { l with cursor := next, keyAllowed := l.keyAllowed || !l.inFlow }

def toNextToken (l : Lexer) : Lexer :=
  let c := l.cursor
  let c := if c.index == 0 && c.peek == some byteOrderMark then c.next else c
  skipBlank (c.rest.length + 1) { l with cursor := c }

def dropStaleKeys (l : Lexer) : Except Fault Lexer :=
  if l.possibleKeys.any (fun k => k.isStale l.cursor && k.required) then .error .malformed
  else .ok { l with possibleKeys := l.possibleKeys.filter (!·.isStale l.cursor) }

/-- How many tokens are settled: before a node that may still become a key, its key token is missing. -/
def settled (l : Lexer) : Nat :=
  let keys := l.possibleKeys.filter (!·.isStale l.cursor)
  (keys.map PossibleKey.place).foldl min l.tokens.size

def dropKey (l : Lexer) : Except Fault Lexer :=
  if l.possibleKeys.any (fun k => k.flowLevel == l.flowLevel && k.required) then .error .malformed
  else .ok { l with possibleKeys := l.possibleKeys.filter (·.flowLevel != l.flowLevel) }

def saveKey (l : Lexer) : Except Fault Lexer :=
  if l.keyAllowed then do
    let required := !l.inFlow && l.indent == l.column
    let l ← l.dropKey
    let k : PossibleKey :=
      ⟨l.flowLevel, l.tokens.size, required, l.cursor.index, l.cursor.line, l.cursor.column⟩
    pure { l with possibleKeys := k :: l.possibleKeys }
  else .ok l

def unwindFrom (column : Int) : List Int → Lexer → Lexer
  | [], l => l
  | outer :: rest, l =>
    if l.indent > column then
      unwindFrom column rest { l.push .blockEnd with indent := outer, outerIndents := rest }
    else l

def unwind (l : Lexer) (column : Int) : Lexer :=
  if l.inFlow then l else unwindFrom column l.outerIndents l

def indentTo (l : Lexer) (column : Int) (place : Nat) (t : Token) : Lexer :=
  if l.indent < column then
    { l with
      indent := column, outerIndents := l.indent :: l.outerIndents, tokens := l.tokens.insertIdxIfInBounds place t }
  else l

def openBlock (l : Lexer) (t : Token) : Lexer := l.indentTo l.column l.tokens.size t

def fetchStreamEnd (l : Lexer) : Except Fault Lexer := do
  let l ← (l.unwind (-1)).dropKey
  pure { l.push .streamEnd with finished := true }

def fetchDirective (l : Lexer) : Except Fault Lexer := do
  let l ← (l.unwind (-1)).dropKey
  let (t, c) ← Token.scanDirective l.cursor
  pure { l.push t with cursor := c, keyAllowed := false }

def fetchDocumentMark (l : Lexer) (t : Token) : Except Fault Lexer := do
  let l ← (l.unwind (-1)).dropKey
  pure { l.take 3 t with keyAllowed := false }

def fetchFlowStart (l : Lexer) (t : Token) : Except Fault Lexer := do
  let l ← l.saveKey
  pure { l.take 1 t with flowLevel := l.flowLevel + 1, keyAllowed := true }

/-- Closes a flow collection. Outside of all, nothing that follows can make the text right again. -/
def fetchFlowEnd (l : Lexer) (t : Token) : Except Fault Lexer := do
  let l ← l.dropKey
  pure { l.take 1 t with flowLevel := l.flowLevel - 1, keyAllowed := false, finished := !l.inFlow }

def fetchFlowEntry (l : Lexer) : Except Fault Lexer := do
  let l ← l.dropKey
  pure { l.take 1 .flowEntry with keyAllowed := true }

def fetchBlockEntry (l : Lexer) : Except Fault Lexer := do
  if !l.inFlow && !l.keyAllowed then .error .malformed
  else
    let l := if l.inFlow then l else l.openBlock .blockSequenceStart
    let l ← l.dropKey
    pure { l.take 1 .blockEntry with keyAllowed := true }

def fetchKey (l : Lexer) : Except Fault Lexer := do
  if !l.inFlow && !l.keyAllowed then .error .malformed
  else
    let l := if l.inFlow then l else l.openBlock .blockMappingStart
    let l ← l.dropKey
    pure { l.take 1 .key with keyAllowed := !l.inFlow }

def fetchValue (l : Lexer) : Except Fault Lexer := do
  match l.possibleKeys.find? (·.flowLevel == l.flowLevel) with
  | some k =>
    let l := { l with
      possibleKeys := l.possibleKeys.filter (·.flowLevel != l.flowLevel)
      tokens := l.tokens.insertIdxIfInBounds k.place .key }
    let l := if l.inFlow then l else l.indentTo (Int.ofNat k.column) k.place .blockMappingStart
    pure { l.take 1 .value with keyAllowed := false }
  | none =>
    if !l.inFlow && !l.keyAllowed then .error .malformed
    else
      let l := if l.inFlow then l else l.openBlock .blockMappingStart
      let l ← l.dropKey
      pure { l.take 1 .value with keyAllowed := !l.inFlow }

def fetchNode (l : Lexer) (scan : Cursor → Except Fault (Token × Cursor)) : Except Fault Lexer := do
  let l ← l.saveKey
  let (t, c) ← scan l.cursor
  pure { l.push t with cursor := c, keyAllowed := false }

def fetchQuoted (l : Lexer) (double : Bool) : Except Fault Lexer :=
  l.fetchNode (fun c => do
    let s ← scanQuoted double c
    pure (.scalar false (String.ofList s.text), s.after))

def fetchBlock (l : Lexer) (folded : Bool) : Except Fault Lexer := do
  let l ← l.dropKey
  let s ← scanBlock folded l.indent l.cursor
  pure { l.push (.scalar false (String.ofList s.text)) with cursor := s.after, keyAllowed := true }

def fetchPlain (l : Lexer) : Except Fault Lexer := do
  let l ← l.saveKey
  let s := scanPlain l.inFlow (l.indent + 1) l.cursor
  pure { l.push (.scalar true (String.ofList s.text)) with cursor := s.after, keyAllowed := s.keyAllowed }

def indicators : List Char := "-?:,[]\x7b\x7d#&*!|>'\"%@\x60".toList

def atPlain (l : Lexer) (x : Char) (following : Option Char) : Bool :=
  (!isSeparator (some x) && !indicators.contains x) ||
    (!isSeparator following && (x == '-' || (!l.inFlow && (x == '?' || x == ':'))))

def fetchAt (l : Lexer) (x : Char) : Except Fault Lexer :=
  let c := l.cursor
  let following := c.peekAt 1
  let separate := isSeparator following
  if x == '%' && c.column == 0 then l.fetchDirective
  else if c.column == 0 && c.atMarks '-' then l.fetchDocumentMark .documentStart
  else if c.column == 0 && c.atMarks '.' then l.fetchDocumentMark .documentEnd
  else if x == '[' then l.fetchFlowStart .flowSequenceStart
  else if x == '\x7b' then l.fetchFlowStart .flowMappingStart
  else if x == ']' then l.fetchFlowEnd .flowSequenceEnd
  else if x == '\x7d' then l.fetchFlowEnd .flowMappingEnd
  else if x == ',' then l.fetchFlowEntry
  else if x == '-' && separate then l.fetchBlockEntry
  else if x == '?' && (l.inFlow || separate) then l.fetchKey
  else if x == ':' && (l.inFlow || separate) then l.fetchValue
  else if x == '*' then
    l.fetchNode (fun c => (Token.anchorName c).map (fun (s, c) => (.alias s, c)))
  else if x == '&' then
    l.fetchNode (fun c => (Token.anchorName c).map (fun (s, c) => (.anchor s, c)))
  else if x == '!' then l.fetchNode Token.scanTag
  else if x == '|' && !l.inFlow then l.fetchBlock false
  else if x == '>' && !l.inFlow then l.fetchBlock true
  else if x == '\'' then l.fetchQuoted false
  else if x == '"' then l.fetchQuoted true
  else if l.atPlain x following then l.fetchPlain
  else .error .malformed

def fetch (l : Lexer) : Except Fault Lexer := do
  let l ← l.toNextToken.dropStaleKeys
  let l := l.unwind l.column
  match l.cursor.peek with
  | none => l.fetchStreamEnd
  | some x => l.fetchAt x

end Lexer

/-- The tokens of a text, and the fault that stopped their reading, if one did. Then only the tokens that
were settled before it are there, since nothing can be said about the others. -/
structure TokenStream where
  tokens : List Token
  fault : Option Fault

namespace TokenStream

def readFrom : Nat → Lexer → TokenStream
  | 0, l => ⟨l.tokens.toList, none⟩
  | fuel + 1, l =>
    if l.finished then ⟨l.tokens.toList, none⟩
    else
      match l.fetch with
      | .ok next => readFrom fuel next
      | .error f => ⟨l.tokens.toList.take l.settled, some f⟩

def ofText (text : List Char) : TokenStream :=
  readFrom (text.length + 2) { cursor := Cursor.start text }

end TokenStream
end TopologyConfig.Yaml
