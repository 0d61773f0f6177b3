import ServantGen.Json.Reader
import ServantGen.Output.FileSystem
import ServantGen.Text.Ascii
import ServantGen.Yaml.Value

/-!
# Documents in files

A document is a file in one of two formats, told apart by the extension of its name. Both
stand for the same trees.
-/

namespace ServantGen

inductive SourceFormat where
  | json
  | yaml
  deriving DecidableEq, Repr

/-- Why a file gives no document. -/
inductive SourceError where
  /-- The file could not be read. -/
  | unreadable (path : String) (error : FileError)
  | unsupportedFormat (extension : String)
  /-- The text is not JSON; the fault is so many bytes into it. -/
  | json (fault : Json.Fault) (offset : Nat)
  | yaml (fault : Yaml.Fault)
  deriving DecidableEq, Repr

def Yaml.Fault.message : Yaml.Fault → String
  | .character => "unexpected character"
  | .tab => "a tab may not indent"
  | .openQuote => "a quoted scalar is not closed"
  | .escape => "unknown escape in a quoted scalar"
  | .blockHeader => "unexpected text after the mark of a block scalar"
  | .anchor => "an anchor or alias needs a name"
  | .tag => "a tag cannot be read"
  | .directive => "a directive cannot be read"
  | .key => "a key or a mark is not allowed here"
  | .order => "unexpected token"
  | .unknownAnchor => "an alias has no anchor"
  | .manyDocuments => "there is more than one document"
  | .tooDeep => "collections nest too deep"
  | .tooManyAliases => "aliases repeat too much"
  | .value => "a value does not match its tag"

def SourceError.message : SourceError → String
  | .unreadable path _ => "failed to read '" ++ path ++ "'"
  | .unsupportedFormat extension => "unsupported specification format '" ++ extension ++ "'"
  | .json fault _ => "failed to parse specification: " ++ fault.message
  | .yaml fault => "failed to parse specification: " ++ fault.message

/-- The name of the file that a path leads to; none when the path leads upwards. -/
def fileName? (path : String) : Option String :=
  match (WrittenPath.ofText path).names.getLast? with
  | some ".." => none
  | name => name

/-- The text after the last dot of a name; a dot that starts the name does not count. -/
def extensionOf (name : String) : String :=
  match Text.splitOn '.' name with
  | [] | [_] => ""
  | ["", _] => ""
  | parts => parts.getLastD ""

/-- The format of a path, by its extension in letters of any case. -/
def SourceFormat.ofPath (path : String) : Except SourceError SourceFormat :=
  match Text.lower ((fileName? path).elim "" extensionOf) with
  | "json" => .ok .json
  | "yaml" | "yml" => .ok .yaml
  | extension => .error (.unsupportedFormat extension)

/-- How many bytes of a text are before a place that is given by line and column. A column
counts the bytes read, so the place is one byte before it. -/
def byteOffset (text : String) (line column : Nat) : Nat :=
  let lines := Text.splitBy (· == '\n') text.toList
  let before := (lines.take (line - 1)).foldl (fun n cs => n + Json.Reader.byteCount cs + 1) 0
  min (before + (column - 1)) text.utf8ByteSize

def parseSource (format : SourceFormat) (text : String) : Except SourceError Json :=
  match format with
  | .json =>
    match Json.parse text with
    | .ok tree => .ok tree
    | .error fault => .error (.json fault (byteOffset text fault.line fault.column))
  | .yaml =>
    match Yaml.parse text with
    | .ok tree => .ok tree
    | .error fault => .error (.yaml fault)

/-- The tree of a file that a path leads to. The format is decided before the file is looked
for. -/
def readSource (files : FileSystem) (path : String) : Except SourceError Json := do
  let format ← SourceFormat.ofPath path
  match files.readFile (.ofText path) with
  | .error error => .error (.unreadable path error)
  | .ok text => parseSource format text

end ServantGen
