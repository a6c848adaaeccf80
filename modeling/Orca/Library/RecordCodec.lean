import Mathlib.Data.List.Basic

/-!
# Codecs of records

A record is written as a list of keys with values.  A key that is absent has a default value, and a
value that is its default can be left out; keys that are not known are ignored, and a key that is
there twice is refused.  A record is also read from its values alone, in their order.

A codec carries the proof that it reads what it writes.  Fields with different keys are put together
with `Fields.and`, so that a record is its list of fields and needs no proof of its own.
-/

namespace RecordCodec

/-- A way to write values of a type and to read them back. -/
structure Codec (V : Type*) (α : Type*) where
  write : α → V
  /-- Read a value, if there is one. -/
  read : V → Option α
  /-- What is written is read back. -/
  read_write : ∀ a, read (write a) = some a

/-- Some fields of a record. -/
structure Fields (K V : Type*) (α : Type*) where
  keys : List K
  write : α → List (K × V)
  read : List (K × V) → Option α
  /-- Read the values of the fields in their order, and leave the others. -/
  readSeq : List V → Option (α × List V)
  mem_keys : ∀ a, ∀ e ∈ write a, e.1 ∈ keys
  /-- What is written is read back, whatever other keys there are. -/
  read_write : ∀ a before after, (∀ e ∈ before ++ after, e.1 ∉ keys) →
    read (before ++ write a ++ after) = some a

variable {K V α β : Type*}

/-! ## Single fields -/

section Single

variable [DecidableEq K]

/-- The values of a key. -/
def valuesOf (key : K) (entries : List (K × V)) : List V :=
  (entries.filter (·.1 = key)).map Prod.snd

lemma valuesOf_eq_nil {key : K} {entries : List (K × V)} (h : ∀ e ∈ entries, e.1 ≠ key) :
    valuesOf key entries = [] := by
  rw [valuesOf, List.filter_eq_nil_iff.mpr fun e he => by simpa using h e he, List.map_nil]

lemma valuesOf_append (key : K) (a b : List (K × V)) :
    valuesOf key (a ++ b) = valuesOf key a ++ valuesOf key b := by
  rw [valuesOf, List.filter_append, List.map_append, ← valuesOf, ← valuesOf]

lemma valuesOf_singleton (key : K) (v : V) : valuesOf key [(key, v)] = [v] := by
  simp [valuesOf]

/-- The values of a key among other keys. -/
lemma valuesOf_between {key : K} {before after : List (K × V)}
    (h : ∀ e ∈ before ++ after, e.1 ∉ [key]) (entries : List (K × V)) :
    valuesOf key (before ++ entries ++ after) = valuesOf key entries := by
  have hne : ∀ e ∈ before ++ after, e.1 ≠ key := fun e he heq =>
    h e he (List.mem_singleton.mpr heq)
  rw [valuesOf_append, valuesOf_append,
    valuesOf_eq_nil fun e he => hne e (List.mem_append_left _ he),
    valuesOf_eq_nil fun e he => hne e (List.mem_append_right _ he), List.nil_append,
    List.append_nil]

/-- A field that must be there. -/
def required (key : K) (c : Codec V α) : Fields K V α where
  keys := [key]
  write a := [(key, c.write a)]
  read entries :=
    match valuesOf key entries with
    | [v] => c.read v
    | _ => none
  readSeq
    | [] => none
    | v :: vs => (c.read v).map (·, vs)
  mem_keys a e he := by
    rw [List.mem_singleton.mp he]
    exact List.mem_singleton_self key
  read_write a before after h := by
    rw [valuesOf_between h, valuesOf_singleton]
    exact c.read_write a

/-- A field with a default, which is left out of what is written in some cases. -/
def defaulted (key : K) (c : Codec V α) (dflt : α) (skip : α → Bool)
    (hskip : ∀ a, skip a = true → a = dflt) : Fields K V α where
  keys := [key]
  write a := if skip a then [] else [(key, c.write a)]
  read entries :=
    match valuesOf key entries with
    | [] => some dflt
    | [v] => c.read v
    | _ => none
  readSeq
    | [] => some (dflt, [])
    | v :: vs => (c.read v).map (·, vs)
  mem_keys a e he := by
    split at he
    · exact absurd he List.not_mem_nil
    · rw [List.mem_singleton.mp he]
      exact List.mem_singleton_self key
  read_write a before after h := by
    rw [valuesOf_between h]
    by_cases hdflt : skip a = true
    · rw [if_pos hdflt, hskip a hdflt]
      rfl
    · rw [if_neg hdflt, valuesOf_singleton]
      exact c.read_write a

end Single

/-! ## Records -/

namespace Fields

/-- A record without fields. -/
def unit : Fields K V Unit where
  keys := []
  write _ := []
  read _ := some ()
  readSeq vs := some ((), vs)
  mem_keys _ _ he := absurd he List.not_mem_nil
  read_write _ _ _ _ := rfl

/-- Fields with other keys after them. -/
def and (f : Fields K V α) (g : Fields K V β) (h : ∀ k ∈ f.keys, k ∉ g.keys := by decide) :
    Fields K V (α × β) where
  keys := f.keys ++ g.keys
  write x := f.write x.1 ++ g.write x.2
  read entries := (f.read entries).bind fun a => (g.read entries).map (a, ·)
  readSeq vs := (f.readSeq vs).bind fun (a, vs) => (g.readSeq vs).map fun (b, vs) => ((a, b), vs)
  mem_keys x e he := by
    rcases List.mem_append.mp he with he | he
    · exact List.mem_append_left _ (f.mem_keys x.1 e he)
    · exact List.mem_append_right _ (g.mem_keys x.2 e he)
  read_write x before after hothers := by
    have hf : f.read (before ++ (f.write x.1 ++ g.write x.2) ++ after) = some x.1 := by
      rw [List.append_assoc, List.append_assoc, ← List.append_assoc before]
      refine f.read_write x.1 before (g.write x.2 ++ after) fun e he hkey => ?_
      rw [← List.append_assoc] at he
      rcases List.mem_append.mp he with he | he
      · rcases List.mem_append.mp he with he | he
        · exact hothers e (List.mem_append_left _ he) (List.mem_append_left _ hkey)
        · exact h e.1 hkey (g.mem_keys x.2 e he)
      · exact hothers e (List.mem_append_right _ he) (List.mem_append_left _ hkey)
    have hg : g.read (before ++ (f.write x.1 ++ g.write x.2) ++ after) = some x.2 := by
      rw [← List.append_assoc before]
      refine g.read_write x.2 (before ++ f.write x.1) after fun e he hkey => ?_
      rcases List.mem_append.mp he with he | he
      · rcases List.mem_append.mp he with he | he
        · exact hothers e (List.mem_append_left _ he) (List.mem_append_right _ hkey)
        · exact h e.1 (f.mem_keys x.1 e he) hkey
      · exact hothers e (List.mem_append_right _ he) (List.mem_append_right _ hkey)
    rw [hf, hg]
    rfl

/-- The same fields of another type of records. -/
def iso (f : Fields K V α) (pack : α → β) (unpack : β → α) (h : ∀ b, pack (unpack b) = b) :
    Fields K V β where
  keys := f.keys
  write b := f.write (unpack b)
  read entries := (f.read entries).map pack
  readSeq vs := (f.readSeq vs).map fun (a, vs) => (pack a, vs)
  mem_keys b := f.mem_keys (unpack b)
  read_write b before after hothers := by
    rw [f.read_write (unpack b) before after hothers, Option.map_some, h]

end Fields

/-- What a record is read from: values with keys, or values alone. -/
inductive Content (K V : Type*) where
  | map (entries : List (K × V))
  | seq (vs : List V)

/-- Read a record.  Of values alone none may be left. -/
def Fields.readContent (f : Fields K V α) : Content K V → Option α
  | .map entries => f.read entries
  | .seq vs =>
    match f.readSeq vs with
    | some (a, []) => some a
    | _ => none

lemma Fields.readContent_write (f : Fields K V α) (a : α) :
    f.readContent (.map (f.write a)) = some a := by
  have hread := f.read_write a [] [] fun _ he => absurd he List.not_mem_nil
  rwa [List.nil_append, List.append_nil] at hread

lemma Fields.ne_of_mem_write {f : Fields K V α} {key : K} (h : key ∉ f.keys) (a : α) :
    ∀ e ∈ f.write a, e.1 ≠ key := by
  rintro e he rfl
  exact h (f.mem_keys a e he)

end RecordCodec
