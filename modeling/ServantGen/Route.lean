import ServantGen.DataType
import ServantGen.Text.Split

/-!
# Routes

A route is a list of segments: fixed text, placeholders for path parameters, or the single
segment `root` when there is nothing else. Fixed text may hold several components with
slashes between them. `Route.ofSegments` brings any list of segments into the form the rest
of the library relies on: no empty text, no text with a slash at either end, no two
neighbouring texts.
-/

namespace ServantGen

/-- A unit of a route. -/
inductive Segment where
  /-- Fixed text; neighbouring components keep the slash between them. -/
  | literal (text : String)
  /-- A placeholder for the path parameter of this name in the document. -/
  | parameter (name : String) (type : DataType)
  /-- The empty route. -/
  | root
  deriving DecidableEq, Repr, Inhabited

namespace Segment

/-- What stands between the components of a route. -/
def isSlash (c : Char) : Bool :=
  c == '/'

/-- The components of fixed text that are not empty; other segments have none. -/
def components : Segment → List String
  | .literal text => (Text.splitOn '/' text).filter (· ≠ "")
  | .parameter .. | .root => []

/-- A segment with its outer slashes removed; nothing when nothing remains of it. -/
def trimmed? : Segment → Option Segment
  | .literal text =>
    match Text.trimBy isSlash text.toList with
    | [] => none
    | inner => some (.literal (String.ofList inner))
  | .parameter name type => some (.parameter name type)
  | .root => none

/-- Put a segment in front of others, joining two fixed texts with a slash. -/
def glue : Segment → List Segment → List Segment
  | .literal text, .literal next :: rest => .literal (text ++ "/" ++ next) :: rest
  | segment, rest => segment :: rest

end Segment

/-- A route in normal form. -/
structure Route where
  segments : List Segment
  deriving DecidableEq, Repr, Inhabited

namespace Route

/-- The normal form of any list of segments: text that is empty or only slashes is dropped,
neighbouring texts are joined, and an empty result is the root. -/
def ofSegments (segments : List Segment) : Route :=
  match (segments.filterMap Segment.trimmed?).foldr Segment.glue [] with
  | [] => ⟨[.root]⟩
  | segments => ⟨segments⟩

def isRoot (route : Route) : Bool :=
  route.segments == [.root]

def parameters (route : Route) : List String :=
  route.segments.filterMap fun
    | .parameter name _ => some name
    | _ => none

def text (route : Route) : String :=
  if route.isRoot then "/"
  else String.join (route.segments.map fun
    | .literal text => String.join ((Segment.literal text).components.map ("/" ++ ·))
    | .parameter name _ => "/\x7b" ++ name ++ "\x7d"
    | .root => "")

end Route

end ServantGen
