import ServantGen.Text.Ascii
import ServantGen.Text.Numeral

/-!
# HTTP words of an interface

Request methods, the places a parameter travels in, and the keys under which responses are
described.
-/

namespace ServantGen

/-- A request method, in the order in which methods are tried. -/
inductive Method where
  | get
  | put
  | post
  | delete
  | options
  | head
  | patch
  deriving DecidableEq, Repr, Inhabited

namespace Method

def all : List Method :=
  [.get, .put, .post, .delete, .options, .head, .patch]

def key : Method → String
  | .get => "get"
  | .put => "put"
  | .post => "post"
  | .delete => "delete"
  | .options => "options"
  | .head => "head"
  | .patch => "patch"

def name (method : Method) : String :=
  Text.upper method.key

/-- The method of a key, written in letters of any case. -/
def ofKey? (key : String) : Option Method :=
  all.find? fun method => Text.sameLetters method.key key

def defaultStatus : Method → Nat
  | .post => 201
  | _ => 200

end Method

/-- Where a parameter travels. -/
inductive Location where
  | path
  | query
  | header
  | cookie
  | body
  deriving DecidableEq, Repr, Inhabited

namespace Location

def name : Location → String
  | .path => "path"
  | .query => "query"
  | .header => "header"
  | .cookie => "cookie"
  | .body => "body"

/-- The location that a document names; a form counts as a body. -/
def ofName? : String → Option Location
  | "path" => some .path
  | "query" => some .query
  | "header" => some .header
  | "cookie" => some .cookie
  | "body" => some .body
  | "formData" => some .body
  | _ => none

end Location

/-- Which responses a description stands for. -/
inductive Status where
  /-- One status code. -/
  | code (value : Nat)
  /-- All codes with this first digit. -/
  | range (digit : Nat)
  /-- Every code that is not described otherwise. -/
  | default
  deriving DecidableEq, Repr, Inhabited

namespace Status

/-- Read the key of a response: `default`, a number from 100 to 599, or a digit from 1 to 5
followed by `XX`. -/
def ofKey? (key : String) : Option Status :=
  if Text.sameLetters key "default" then some .default
  else match Text.numeral? 65535 key.toList with
    | some value => if 100 ≤ value && value ≤ 599 then some (.code value) else none
    | none =>
      match key.toList with
      | [first, x, y] =>
        if x.toLower = 'x' && y.toLower = 'x' && '1' ≤ first && first ≤ '5' then
          some (.range (first.toNat - '0'.toNat))
        else none
      | _ => none

def isSuccess : Status → Bool
  | .code value => 200 ≤ value && value < 300
  | .range digit => digit == 2
  | .default => false

/-- One code that stands for the status. -/
def code? : Status → Option Nat
  | .code value => some value
  | .range digit => some (digit * 100)
  | .default => none

def name : Status → String
  | .code value => Text.decimal value
  | .range digit => Text.decimal digit ++ "XX"
  | .default => "default"

end Status

end ServantGen
