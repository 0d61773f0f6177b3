import ServantGen.Document.Site
import ServantGen.Text.Split

/-!
# References inside a document

A reference is a hash sign followed by an address: a slash and a token for each step. In a
token `~0` stands for a tilde and `~1` for a slash. A chain of references is followed up to a
fixed number of hops.
-/

namespace ServantGen

namespace Pointer

/-- The text of a token. -/
def unescape : List Char → List Char
  | [] => []
  | '~' :: '1' :: rest => '/' :: unescape rest
  | '~' :: '0' :: rest => '~' :: unescape rest
  | c :: rest => c :: unescape rest

/-- The token for a text. -/
def escape : List Char → List Char
  | [] => []
  | '~' :: rest => '~' :: '0' :: escape rest
  | '/' :: rest => '~' :: '1' :: escape rest
  | c :: rest => c :: escape rest

@[simp] theorem unescape_escape (text : List Char) : unescape (escape text) = text := by
  induction text with
  | nil => rfl
  | cons c rest ih =>
    by_cases htilde : c = '~'
    · subst htilde
      simp [escape, unescape, ih]
    · by_cases hslash : c = '/'
      · subst hslash
        simp [escape, unescape, ih]
      · simp [escape, unescape, ih, htilde]

/-- The largest position an array can have. -/
def maxIndex : Nat := twoTo 64 - 1

def stepOf? (node : Json) (token : List Char) : Option Step :=
  let text := unescape token
  match node with
  | .object _ => some (.key (String.ofList text))
  | .array _ => (Text.numeral? maxIndex text).map Step.index
  | _ => none

def walk? (site : Site) : List (List Char) → Option Site
  | [] => some site
  | token :: tokens => do
    let step ← stepOf? site.node token
    let below ← site.step? step
    walk? below tokens

def find? (tree : Json) (reference : String) : Option Site :=
  match reference.toList with
  | ['#'] => some (Site.root tree)
  | '#' :: '/' :: rest => walk? (Site.root tree) (Text.splitBy (· == '/') rest)
  | _ => none

/-- The last token of a reference, as it is written. -/
def lastToken (reference : String) : String :=
  (Text.splitOn '/' reference).getLastD reference

def ofAddress (address : Address) : String :=
  String.ofList ('#' :: address.flatMap fun
    | .key name => '/' :: escape name.toList
    | .index position => '/' :: Nat.toDigits 10 position)

/-- How many references in a row are followed. -/
def maxHops : Nat := 32

/-- Follow references from a site until a node that is none, for at most `hops` tests.
Otherwise the answer is the reference at which the chain ended. -/
def follow (tree : Json) : Nat → Site → Except String Site
  | 0, site => .error (site.reference?.getD "")
  | hops + 1, site =>
    match site.reference? with
    | none => .ok site
    | some reference =>
      match find? tree reference with
      | none => .error reference
      | some target => follow tree hops target

/-- The node that a chain of references leads to, or the reference at which it ended. -/
def resolve (tree : Json) (site : Site) : Except String Site :=
  follow tree maxHops site

end Pointer

end ServantGen
