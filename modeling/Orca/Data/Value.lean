import Mathlib.Data.List.Basic

/-!
# JSON values and SQLite cells

The two value types that meet at the replication boundary: `serde_json::Value`, the type of a
bundle on the wire, and `rusqlite::types::Value`, the type of a stored cell, with the conversions
`sql_to_json` and `json_to_sql` of `macro-runtime/src/replicate_table.rs` between them.

A double is carried as its 64 bits, the two zeros as one value.  SQLite text is a Lean `String`,
hence valid UTF-8, on which `String::from_utf8_lossy` is the identity.  The serializer and the
parser of JSON text belong to `serde_json` and are a parameter (`JsonText`) wherever the code uses
them.
-/

namespace Orca

/-- A double by its 64 bits.  Negative zero is not among them: SQLite and `serde_json` both compare
it as equal to zero, and the model writes the two alike. -/
abbrev Double := {bits : UInt64 // bits ≠ 0x8000000000000000}

/-- `f64::is_finite`: the exponent field is not all ones. -/
def Double.isFinite (d : Double) : Bool := (d.1 >>> 52) &&& 0x7FF != 0x7FF

/-- The number a double stands for. -/
def Double.toFloat (d : Double) : Float := Float.ofBits d.1

/-- `serde_json::Number`.  A float is always finite. -/
inductive JsonNumber where
  | posInt (n : UInt64)
  | negInt (i : Int64)
  | float (d : {d : Double // d.isFinite = true})
deriving DecidableEq

/-- `serde_json::Value`.  An object is the list of its entries; a key is looked up with
`Json.get?`. -/
inductive Json where
  | null
  | bool (b : Bool)
  | number (n : JsonNumber)
  | string (s : String)
  | array (elems : List Json)
  | object (entries : List (String × Json))

/-- `rusqlite::types::Value`. -/
inductive SqlValue where
  | null
  | integer (i : Int64)
  | real (d : Double)
  | text (s : String)
  | blob (bytes : List UInt8)
deriving DecidableEq

/-! ## Reading JSON -/

namespace JsonNumber

/-- `Number::as_i64`. -/
def asI64 : JsonNumber → Option Int64
  | posInt n => if n.toNat < 0x8000000000000000 then some n.toInt64 else none
  | negInt i => some i
  | float _ => none

/-- `Number::as_u64`. -/
def asU64 : JsonNumber → Option UInt64
  | posInt n => some n
  | negInt _ => none
  | float _ => none

/-- `Number::as_f64`, which never fails without arbitrary precision. -/
def asF64 : JsonNumber → Float
  | posInt n => n.toFloat
  | negInt i => i.toFloat
  | float d => d.1.toFloat

end JsonNumber

namespace Json

/-- `Value::as_str`. -/
def asStr : Json → Option String
  | string s => some s
  | _ => none

/-- `Value::as_i64`. -/
def asI64 : Json → Option Int64
  | number n => n.asI64
  | _ => none

/-- `Value::as_u64`. -/
def asU64 : Json → Option UInt64
  | number n => n.asU64
  | _ => none

/-- `Value::as_array`. -/
def asArray : Json → Option (List Json)
  | array elems => some elems
  | _ => none

/-- `Value::as_object`. -/
def asObject : Json → Option (List (String × Json))
  | object entries => some entries
  | _ => none

/-- `Value::get` with a string index: the entry of an object, nothing on any other value. -/
def get? : Json → String → Option Json
  | object entries, k => entries.lookup k
  | _, _ => none

mutual

/-- `PartialEq` of JSON values.  Numbers are equal when they are the same kind of number with the
same value, objects when they have the same keys with equal values, in whatever order. -/
def eqv : Json → Json → Bool
  | null, null => true
  | bool a, bool b => a == b
  | number m, number n => m == n
  | string s, string t => s == t
  | array as, array bs => eqvList as bs
  | object as, object bs => as.length == bs.length && eqvEntries as bs
  | _, _ => false

/-- Elementwise equality of two arrays. -/
def eqvList : List Json → List Json → Bool
  | [], [] => true
  | a :: as, b :: bs => eqv a b && eqvList as bs
  | _, _ => false

/-- Every entry of the first object is an entry of the second. -/
def eqvEntries : List (String × Json) → List (String × Json) → Bool
  | [], _ => true
  | (k, v) :: rest, bs =>
      (match bs.lookup k with
        | some w => eqv v w
        | none => false) && eqvEntries rest bs

end

end Json

/-! ## Objects as maps -/

/-- `Map::remove`. -/
def removeEntry (entries : List (String × Json)) (k : String) : List (String × Json) :=
  entries.filter fun e => e.1 != k

/-- `Map::insert`.  Objects are maps: the order of the entries carries no meaning. -/
def insertEntry (entries : List (String × Json)) (k : String) (v : Json) : List (String × Json) :=
  (k, v) :: removeEntry entries k

/-- Reading an object after a removal. -/
lemma lookup_removeEntry (entries : List (String × Json)) (k k' : String) :
    (removeEntry entries k).lookup k' = if k' = k then none else entries.lookup k' := by
  unfold removeEntry
  induction entries with
  | nil => simp
  | cons e entries ih =>
    obtain ⟨a, w⟩ := e
    by_cases hak : a = k
    · subst hak
      rw [List.filter_cons_of_neg (by simp), ih]
      by_cases hk : k' = a
      · simp [hk]
      · have hne : (k' == a) = false := by simpa using hk
        simp only [if_neg hk, List.lookup_cons, hne]
    · rw [List.filter_cons_of_pos (by simpa using hak), List.lookup_cons, List.lookup_cons, ih]
      by_cases hk : k' = k
      · subst hk
        have hne : (k' == a) = false := by simpa using fun h : k' = a => hak h.symm
        simp [hne]
      · simp [hk]

lemma lookup_insertEntry (entries : List (String × Json)) (k : String) (v : Json) (k' : String) :
    (insertEntry entries k v).lookup k' = if k' = k then some v else entries.lookup k' := by
  unfold insertEntry
  rw [List.lookup_cons, lookup_removeEntry]
  by_cases hk : k' = k
  · simp [hk]
  · have hne : (k' == k) = false := by simpa using hk
    simp [hne, hk]

/-! ## Between the two -/

/-- The text side of `serde_json`: `from_str::<Map<String, Value>>` and `Value::to_string`. -/
structure JsonText where
  /-- Parse a text as a JSON object. -/
  parseObject : String → Option (List (String × Json))
  toText : Json → String

/-- `sql_to_json`.  A double that is not finite has no JSON number and becomes `null`. -/
def sqlToJson : SqlValue → Json
  | .null => .null
  | .integer i => .number (if i < 0 then .negInt i else .posInt i.toUInt64)
  | .real d => if h : d.isFinite = true then .number (.float ⟨d, h⟩) else .null
  | .text s => .string s
  | .blob bytes => .array (bytes.map fun b => .number (.posInt b.toUInt64))

/-- The byte a JSON array element stands for, if it is an integer from `0` to `255`. -/
def jsonByte (e : Json) : Option UInt8 :=
  e.asU64.bind fun n => if n.toNat ≤ 255 then some n.toUInt8 else none

/-- `json_to_sql`. -/
def jsonToSql (jt : JsonText) : Json → SqlValue
  | .null => .null
  | .bool b => .integer (if b then 1 else 0)
  | .number n =>
      match n.asI64 with
      | some i => .integer i
      | none =>
          match n with
          | .posInt u => .integer u.toInt64
          | .negInt i => .integer i
          | .float d => .real d.1
  | .string s => .text s
  | .array elems =>
      if elems.all fun e => (jsonByte e).isSome then .blob (elems.filterMap jsonByte)
      else .text (jt.toText (.array elems))
  | .object entries => .text (jt.toText (.object entries))

/-- Whether a cell survives the way to JSON and back: every cell does but a real that is infinite
or not a number. -/
def SqlValue.RoundTrips : SqlValue → Prop
  | .real d => d.isFinite = true
  | _ => True

instance : DecidablePred SqlValue.RoundTrips := fun v => by
  cases v <;> unfold SqlValue.RoundTrips <;> infer_instance

lemma jsonByte_number (b : UInt8) : jsonByte (.number (.posInt b.toUInt64)) = some b := by
  have hle : b.toNat ≤ 255 := by
    have := b.toNat_lt
    omega
  simp [jsonByte, Json.asU64, JsonNumber.asU64, hle]

/-- `json_to_sql` undoes `sql_to_json` on every cell that round-trips. -/
lemma jsonToSql_sqlToJson (jt : JsonText) {v : SqlValue} (h : v.RoundTrips) :
    jsonToSql jt (sqlToJson v) = v := by
  cases v with
  | null => rfl
  | integer i =>
    by_cases hi : i < 0
    · simp [sqlToJson, hi, jsonToSql, JsonNumber.asI64]
    · have hcast : i.toUInt64.toInt64 = i := rfl
      simp only [sqlToJson, if_neg hi, jsonToSql, JsonNumber.asI64]
      split <;> simp_all
  | real d =>
    have hfin : d.isFinite = true := h
    simp [sqlToJson, hfin, jsonToSql, JsonNumber.asI64]
  | text s => rfl
  | blob bytes =>
    have hall : (bytes.map fun b => Json.number (.posInt b.toUInt64)).all
        (fun e => (jsonByte e).isSome) = true := by
      simp [jsonByte_number]
    have hbytes : (bytes.map fun b => Json.number (.posInt b.toUInt64)).filterMap jsonByte =
        bytes := by
      simp [List.filterMap_map, jsonByte_number]
    simp only [sqlToJson, jsonToSql, hall, if_true, hbytes]

/-! ## Equality of values -/

mutual

/-- Whether two values are equal. -/
def Json.decEq (v w : Json) : Decidable (v = w) :=
  match v, w with
  | .null, .null => isTrue rfl
  | .bool b, .bool b' => decidable_of_iff (b = b') (by simp)
  | .number n, .number n' => decidable_of_iff (n = n') (by simp)
  | .string s, .string s' => decidable_of_iff (s = s') (by simp)
  | .array elems, .array elems' =>
      let _ := Json.decEqItems elems elems'
      decidable_of_iff (elems = elems') (by simp)
  | .object entries, .object entries' =>
      let _ := Json.decEqEntries entries entries'
      decidable_of_iff (entries = entries') (by simp)
  | .null, .bool _ | .null, .number _ | .null, .string _ | .null, .array _ | .null, .object _
  | .bool _, .null | .bool _, .number _ | .bool _, .string _ | .bool _, .array _
  | .bool _, .object _
  | .number _, .null | .number _, .bool _ | .number _, .string _ | .number _, .array _
  | .number _, .object _
  | .string _, .null | .string _, .bool _ | .string _, .number _ | .string _, .array _
  | .string _, .object _
  | .array _, .null | .array _, .bool _ | .array _, .number _ | .array _, .string _
  | .array _, .object _
  | .object _, .null | .object _, .bool _ | .object _, .number _ | .object _, .string _
  | .object _, .array _ => isFalse (by simp)

/-- Whether two lists of values are equal. -/
def Json.decEqItems (vs ws : List Json) : Decidable (vs = ws) :=
  match vs, ws with
  | [], [] => isTrue rfl
  | v :: vs, w :: ws =>
      let _ := Json.decEq v w
      let _ := Json.decEqItems vs ws
      decidable_of_iff (v = w ∧ vs = ws) (by simp)
  | [], _ :: _ | _ :: _, [] => isFalse (by simp)

/-- Whether two lists of entries are equal. -/
def Json.decEqEntries (es fs : List (String × Json)) : Decidable (es = fs) :=
  match es, fs with
  | [], [] => isTrue rfl
  | (k, v) :: es, (k', w) :: fs =>
      let _ := Json.decEq v w
      let _ := Json.decEqEntries es fs
      decidable_of_iff ((k = k' ∧ v = w) ∧ es = fs) (by simp)
  | [], _ :: _ | _ :: _, [] => isFalse (by simp)

end

instance : DecidableEq Json := Json.decEq

end Orca
