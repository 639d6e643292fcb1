import UrlPolicy.Text.Basic

set_option autoImplicit false

namespace UrlPolicy

inductive Number where
  | natural (n : Nat)
  /-- The number below zero with the given absolute value. -/
  | negative (n : Nat)
  | float (x : Float)
  deriving Repr

/-- Equality of numbers of one form. The two zeros of the floating-point numbers are equal. -/
def Number.same : Number → Number → Bool
  | .natural m, .natural n => m == n
  | .negative m, .negative n => m == n
  | .float x, .float y => x == y
  | _, _ => false

inductive Json where
  | null
  | bool (b : Bool)
  | number (n : Number)
  | string (t : Text)
  | array (items : List Json)
  | object (members : List (Text × Json))
  deriving Repr

namespace Json

mutual

def same : Json → Json → Bool
  | .null, .null => true
  | .bool a, .bool b => a == b
  | .number m, .number n => m.same n
  | .string s, .string t => s == t
  | .array vs, .array ws => sameItems vs ws
  | .object ms, .object ns => sameMembers ms ns
  | _, _ => false

def sameItems : List Json → List Json → Bool
  | [], [] => true
  | v :: vs, w :: ws => v.same w && sameItems vs ws
  | _, _ => false

def sameMembers : List (Text × Json) → List (Text × Json) → Bool
  | [], [] => true
  | (k, v) :: ms, (l, w) :: ns => k == l && v.same w && sameMembers ms ns
  | _, _ => false

end

def member? (key : Text) : Json → Option Json
  | .object members => members.lookup key
  | _ => none

/-- Puts a member in its place by key, instead of an older one with that key. -/
def insertMember (key : Text) (v : Json) : List (Text × Json) → List (Text × Json)
  | [] => [(key, v)]
  | (k, w) :: ms =>
    if key = k then (key, v) :: ms
    else if key < k then (key, v) :: (k, w) :: ms
    else (k, w) :: insertMember key v ms

/-- Members in the order of their keys. The last of several with one key counts. -/
def sortMembers (ms : List (Text × Json)) : List (Text × Json) :=
  ms.foldl (fun sorted m => insertMember m.1 m.2 sorted) []

end Json

end UrlPolicy
