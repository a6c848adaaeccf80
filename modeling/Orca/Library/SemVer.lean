import Mathlib.Data.Prod.Lex
import Mathlib.Data.List.Lex
import Mathlib.Data.String.Basic

/-!
# Precedence of semantic versions

A version is three numbers and the identifiers of a pre-release, of which there are none in a
release.  The numbers are compared first.  Of versions with the same numbers a pre-release precedes
the release, and the identifiers of two pre-releases are compared one after the other: numbers by
their value, other identifiers by their characters, and a number precedes any other identifier; of
two lists that agree as far as the shorter one goes, the shorter one precedes.
-/

namespace SemVer

/-- An identifier of a pre-release. -/
inductive Identifier
  | numeric (n : ℕ)
  | alphanumeric (s : String)

/-- An identifier comes before another one. -/
def Identifier.Precedes : Identifier → Identifier → Prop
  | .numeric m, .numeric n => m < n
  | .numeric _, .alphanumeric _ => True
  | .alphanumeric _, .numeric _ => False
  | .alphanumeric s, .alphanumeric t => s < t

/-- A version. -/
structure Version where
  major : ℕ
  minor : ℕ
  patch : ℕ
  pre : List Identifier

/-- The numbers of a version, in the order in which they are compared. -/
def Version.core (v : Version) : ℕ ×ₗ ℕ ×ₗ ℕ := toLex (v.major, toLex (v.minor, v.patch))

/-- A pre-release precedes the release, and pre-releases are compared by their identifiers. -/
def PrePrecedes (p q : List Identifier) : Prop :=
  p ≠ [] ∧ (q = [] ∨ List.Lex Identifier.Precedes p q)

/-- A version precedes another one. -/
def Precedes (v w : Version) : Prop :=
  v.core < w.core ∨ v.core = w.core ∧ PrePrecedes v.pre w.pre

/-- Numbers behind the same identifier are compared by their value. -/
lemma lex_numeric_iff {s : String} {m n : ℕ} :
    List.Lex Identifier.Precedes [.alphanumeric s, .numeric m] [.alphanumeric s, .numeric n] ↔
      m < n := by
  constructor
  · intro h
    cases h with
    | rel h => exact absurd h (lt_irrefl s)
    | cons h =>
      cases h with
      | rel h => exact h
      | cons h => cases h
  · exact fun h => .cons (.rel h)

end SemVer
