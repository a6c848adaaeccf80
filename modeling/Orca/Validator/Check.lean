import Mathlib.Data.List.DropRight
import Mathlib.Data.List.Infix
import Orca.OpenApi.Readings

/-!
# The validator of JSON values

`validate` checks a JSON value against a schema and lists what it finds wrong, with the path of the
place.  The functions here are those of the source: `checkOnce` is one level of `check`, with the
check of the next level as an argument, and `check` counts down the levels that are left before
`MAX_DEPTH`, so that a reference, a combinator and a step into the value all cost one level.

How a JSON value is written in a message belongs to `serde_json`, and is a parameter (`display`).
-/

namespace Orca.Validator

open Orca.OpenApi

/-! ## Schema objects -/

/-- `resolve_ref`: the definition with the name behind the last slash. -/
def resolveRef (r : String) (defs : Json) : Option Json :=
  defs.get? (String.ofList (r.toList.rtakeWhile (· ≠ '/')))

/-- The text of `$ref`, if it is one. -/
def refOf (obj : JsonMap) : Option String := (obj.lookup "$ref").bind Json.asStr

/-- The array at a keyword, if it is one. -/
def arrayAt (obj : JsonMap) (keyword : String) : Option (List Json) :=
  (obj.lookup keyword).bind Json.asArray

/-- The schemas of `properties`, if it is an object. -/
def propertiesOf (obj : JsonMap) : Option JsonMap := (obj.lookup "properties").bind Json.asObject

/-- `nullable`. -/
def nullable (obj : JsonMap) : Bool :=
  match obj.lookup "nullable" with
  | some (.bool b) => b
  | _ => false

/-- `is_null`. -/
def isNull : Json → Bool
  | .null => true
  | _ => false

/-- `contains_key`. -/
def containsKey (obj : JsonMap) (key : String) : Bool := (obj.lookup key).isSome

/-! ## Types -/

/-- `as_f64` and a zero fraction: a number that stands for an integer. -/
def hasZeroFraction : Json → Bool
  | .number n => (numberToRat n).isInt
  | _ => false

/-- `single_type_matches`.  A name that is no type rejects nothing. -/
def singleTypeMatches (value : Json) (t : String) : Bool :=
  if t = "object" then value.asObject.isSome
  else if t = "array" then value.asArray.isSome
  else if t = "string" then value.asStr.isSome
  else if t = "boolean" then
    match value with
    | .bool _ => true
    | _ => false
  else if t = "null" then isNull value
  else if t = "integer" then
    value.asI64.isSome || value.asU64.isSome || hasZeroFraction value
  else if t = "number" then
    match value with
    | .number _ => true
    | _ => false
  else true

/-- `type_matches`. -/
def typeMatches (value : Json) : Json → Bool
  | .string s => singleTypeMatches value s
  | .array types => (types.filterMap Json.asStr).any (singleTypeMatches value)
  | _ => true

/-- `kind_of`. -/
def kindOf : Json → String
  | .null => "null"
  | .bool _ => "boolean"
  | .number _ => "number"
  | .string _ => "string"
  | .array _ => "array"
  | .object _ => "object"

/-! ## One level -/

/-- `if let Some(..)`: the messages for what is there. -/
def ifSome {α : Type*} (found : Option α) (errors : α → List String) : List String :=
  found.elim [] errors

/-- The message is pushed unless the test holds. -/
def pushUnless (test : Bool) (message : String) : List String := if test then [] else [message]

/-- A check of a value against a schema at a path: the messages that are pushed. -/
abbrev Checker := Json → Json → String → List String

/-- `validate_sub`. -/
def validateSub (next : Checker) (value schema : Json) : Bool := (next value schema "$").isEmpty

/-- The messages of the combinators. -/
def combinatorErrors (next : Checker) (obj : JsonMap) (value : Json) (path : String) :
    List String :=
  (ifSome (arrayAt obj "allOf") fun all => all.flatMap fun sub => next value sub path) ++
  (ifSome (arrayAt obj "anyOf") fun any =>
    pushUnless (any.any (validateSub next value)) (path ++ ": matched none of anyOf")) ++
  ifSome (arrayAt obj "oneOf") fun one =>
    let found := (one.filter (validateSub next value)).length
    pushUnless (found == 1)
      (path ++ ": matched " ++ toString found ++ " of oneOf (want exactly 1)")

/-- The messages of `enum` and `const`. -/
def constantErrors (obj : JsonMap) (value : Json) (path : String) : List String :=
  (ifSome (arrayAt obj "enum") fun allowed =>
    pushUnless (allowed.any fun a => a.eqv value) (path ++ ": value not in enum")) ++
  ifSome (obj.lookup "const") fun c => pushUnless (c.eqv value) (path ++ ": value != const")

/-- The listed keys, where another key is rejected: without `properties` none is. -/
def closedTo (obj : JsonMap) : Option JsonMap :=
  match obj.lookup "additionalProperties" with
  | some (.bool false) => propertiesOf obj
  | _ => none

/-- The messages for the keys of an object. -/
def memberErrors (next : Checker) (obj vmap : JsonMap) (path : String) : List String :=
  (ifSome (arrayAt obj "required") fun req => (req.filterMap Json.asStr).flatMap fun r =>
    pushUnless (containsKey vmap r) (path ++ ": missing required `" ++ r ++ "`")) ++
  (ifSome (propertiesOf obj) fun props => props.flatMap fun prop =>
    ifSome (vmap.lookup prop.1) fun child => next child prop.2 (path ++ "." ++ prop.1)) ++
  ifSome (closedTo obj) fun props => vmap.flatMap fun member =>
    pushUnless (containsKey props member.1) (path ++ ": unexpected property `" ++ member.1 ++ "`")

/-- The messages for what is in the value. -/
def childErrors (next : Checker) (obj : JsonMap) (value : Json) (path : String) : List String :=
  match value with
  | .object vmap => memberErrors next obj vmap path
  | .array items => ifSome (obj.lookup "items") fun item => items.zipIdx.flatMap fun it =>
    next it.1 item (path ++ "[" ++ toString it.2 ++ "]")
  | _ => []

/-- The value of `type`, if the value is of another type. -/
def mismatch (obj : JsonMap) (value : Json) : Option Json :=
  (obj.lookup "type").filter fun t => !typeMatches value t

/-- The messages of `type`, or else those for what is in the value. -/
def typeErrors (display : Json → String) (next : Checker) (obj : JsonMap) (value : Json)
    (path : String) : List String :=
  if isNull value && nullable obj then []
  else
    match mismatch obj value with
    | some t => [path ++ ": expected type " ++ display t ++ ", got " ++ kindOf value]
    | none => childErrors next obj value path

/-- One level of `check`. -/
def checkOnce (display : Json → String) (defs : Json) (next : Checker) : Checker :=
  fun value schema path =>
    match schema with
    | .bool true => []
    | .bool false => [path ++ ": schema `false` rejects all values"]
    | .object obj =>
      match refOf obj with
      | some r =>
        match resolveRef r defs with
        | some target => next value target path
        | none => [path ++ ": unresolved $ref `" ++ r ++ "`"]
      | none =>
        combinatorErrors next obj value path ++ constantErrors obj value path ++
          typeErrors display next obj value path
    | _ => []

/-! ## All levels -/

/-- `MAX_DEPTH`. -/
def maxDepth : ℕ := 128

/-- `check`, where so many levels are left: below the deepest level nothing is checked. -/
def check (display : Json → String) (defs : Json) : (left : ℕ) → Checker
  | 0 => fun _ _ _ => []
  | left + 1 => checkOnce display defs (check display defs left)

/-- `validate`. -/
def validate (display : Json → String) (value schema defs : Json) : Except (List String) Unit :=
  match check display defs (maxDepth + 1) value schema "$" with
  | [] => .ok ()
  | errs => .error errs

end Orca.Validator
