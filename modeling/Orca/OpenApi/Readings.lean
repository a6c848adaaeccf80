import Mathlib.Algebra.Order.Ring.Rat
import Orca.OpenApi.Lower31

/-!
# What schemas accept

The instances of JSON Schema, and which of them a schema object accepts by its type, bounds and
enumeration: once as a schema of OpenAPI 3.1 and once as one of OpenAPI 3.0.  A number is a
rational, and an object is a function of its keys, so two JSON texts of one instance are the same
instance.

A keyword whose value is none of the kinds it may have in a version says nothing in that version;
only a `type` that names no type accepts nothing.
-/

namespace Orca.OpenApi

/-! ## Instances -/

/-- An instance of JSON Schema. -/
inductive Instance where
  | null
  | bool (b : Bool)
  | number (q : ℚ)
  | string (s : String)
  | array (elems : List Instance)
  | object (members : String → Option Instance)

/-- The number a finite double stands for. -/
def doubleToRat (d : Double) : ℚ :=
  let sign : ℚ := if d.1 >>> 63 = 0 then 1 else -1
  let exponent := ((d.1 >>> 52) &&& 0x7FF).toNat
  let fraction := (d.1 &&& 0xFFFFFFFFFFFFF).toNat
  -- a subnormal number has no leading bit
  if exponent = 0 then sign * fraction / 2 ^ 1074
  else sign * (2 ^ 52 + fraction) * 2 ^ exponent / 2 ^ 1075

/-- The number of a JSON number. -/
def numberToRat : JsonNumber → ℚ
  | .posInt n => n.toNat
  | .negInt i => i.toInt
  | .float d => doubleToRat d.1

mutual

/-- The instance of a JSON value. -/
def toInstance : Json → Instance
  | .null => .null
  | .bool b => .bool b
  | .number n => .number (numberToRat n)
  | .string s => .string s
  | .array elems => .array (toInstances elems)
  | .object entries => .object (toMembers entries)

/-- The instances of the elements of an array. -/
def toInstances : List Json → List Instance
  | [] => []
  | v :: rest => toInstance v :: toInstances rest

/-- The instances of the members of an object. -/
def toMembers : List (String × Json) → String → Option Instance
  | [], _ => none
  | (k, v) :: rest, key => if key = k then some (toInstance v) else toMembers rest key

end

/-- The instance is of the type with a name of JSON Schema. -/
def hasType (name : String) (i : Instance) : Prop :=
  match i with
  | .null => name = "null"
  | .bool _ => name = "boolean"
  | .number q => name = "number" ∨ name = "integer" ∧ q.isInt = true
  | .string _ => name = "string"
  | .array _ => name = "array"
  | .object _ => name = "object"

/-! ## Keywords -/

/-- A value of `type` names a type of the instance. -/
def Names (t : Json) (i : Instance) : Prop := ∃ name, t = .string name ∧ hasType name i

/-- What `type` accepts in 3.1. -/
def typeAccepts31 (m : JsonMap) (i : Instance) : Prop :=
  match m.lookup "type" with
  | none => True
  | some (.array types) => ∃ t ∈ types, Names t i
  | some t => Names t i

/-- `nullable` is set. -/
def Nullable (m : JsonMap) : Prop := m.lookup "nullable" = some (.bool true)

/-- What `type` accepts in 3.0, where no type has the name null and `nullable` adds it to a type. -/
def typeAccepts30 (m : JsonMap) (i : Instance) : Prop :=
  match m.lookup "type" with
  | none => True
  | some t => Names t i ∧ i ≠ .null ∨ Nullable m ∧ i = .null

/-- The two sides of a range. -/
inductive Side where
  | lower
  | upper
  deriving DecidableEq, Repr

namespace Side

/-- The keyword of the bound. -/
def bound : Side → String
  | .lower => "minimum"
  | .upper => "maximum"

/-- The keyword of the exclusive bound. -/
def exclusive : Side → String
  | .lower => "exclusiveMinimum"
  | .upper => "exclusiveMaximum"

/-- A number is within a bound. -/
def Within : Side → JsonNumber → ℚ → Prop
  | .lower, n, q => numberToRat n ≤ q
  | .upper, n, q => q ≤ numberToRat n

/-- A number is within a bound and not the bound. -/
def Beyond (side : Side) (n : JsonNumber) (q : ℚ) : Prop := side.Within n q ∧ q ≠ numberToRat n

end Side

/-- What the keywords of one side accept in 3.1: two bounds. -/
def rangeAccepts31 (side : Side) (m : JsonMap) (i : Instance) : Prop :=
  ∀ q, i = .number q →
    (∀ n, m.lookup side.bound = some (.number n) → side.Within n q) ∧
      ∀ n, m.lookup side.exclusive = some (.number n) → side.Beyond n q

/-- What the keywords of one side accept in 3.0: a bound and a flag. -/
def rangeAccepts30 (side : Side) (m : JsonMap) (i : Instance) : Prop :=
  ∀ q, i = .number q → ∀ n, m.lookup side.bound = some (.number n) →
    side.Within n q ∧ (m.lookup side.exclusive = some (.bool true) → q ≠ numberToRat n)

/-- What `enum` accepts, in both versions. -/
def enumAccepts (m : JsonMap) (i : Instance) : Prop :=
  ∀ values, m.lookup "enum" = some (.array values) → ∃ v ∈ values, toInstance v = i

/-- What `const` accepts in 3.1. -/
def constAccepts (m : JsonMap) (i : Instance) : Prop :=
  ∀ v, m.lookup "const" = some v → toInstance v = i

/-- The instance is valid under the schema object as one of 3.1. -/
structure Accepts31 (m : JsonMap) (i : Instance) : Prop where
  type : typeAccepts31 m i
  range : ∀ side, rangeAccepts31 side m i
  /-- It is one of the listed values. -/
  enum : enumAccepts m i
  const : constAccepts m i

/-- The instance is valid under the schema object as one of 3.0. -/
structure Accepts30 (m : JsonMap) (i : Instance) : Prop where
  type : typeAccepts30 m i
  range : ∀ side, rangeAccepts30 side m i
  /-- It is one of the listed values. -/
  enum : enumAccepts m i

end Orca.OpenApi
