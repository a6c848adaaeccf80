import Mathlib.Data.List.Basic

/-!
# Streams of bytes

A stream is what is left to read: some bytes, and then its end or an error of the transport.  To
read a number of bytes takes exactly as many (`readExact_prepend`) or fails (`readExact_of_lt`),
however the bytes arrive in between.  A number of 32 bits is four bytes, the lowest first.
-/

namespace ByteStream

/-- Why some bytes could not be read. -/
inductive IoError (ε : Type*) where
  | unexpectedEof
  | transport (e : ε)

/-- What is left of a stream. -/
structure Stream (ε : Type*) where
  /-- The bytes that can still be read. -/
  bytes : List UInt8
  /-- The error of the transport after them; without one the stream ends there. -/
  fault : Option ε

variable {ε : Type*}

namespace Stream

/-- Some bytes before a stream. -/
def prepend (w : List UInt8) (s : Stream ε) : Stream ε := { s with bytes := w ++ s.bytes }

/-- Read a number of bytes, or all there are and fail. -/
def readExact (n : Nat) (s : Stream ε) : Except (IoError ε) (List UInt8) × Stream ε :=
  if n ≤ s.bytes.length then (.ok (s.bytes.take n), { s with bytes := s.bytes.drop n })
  else (.error (s.fault.elim .unexpectedEof .transport), { s with bytes := [] })

lemma readExact_prepend {n : Nat} {w : List UInt8} (h : w.length = n) (s : Stream ε) :
    readExact n (prepend w s) = (.ok w, s) := by
  subst h
  rw [readExact, if_pos (by rw [prepend, List.length_append]; omega), prepend, List.take_left,
    List.drop_left]

lemma readExact_of_lt {n : Nat} {s : Stream ε} (h : s.bytes.length < n) :
    readExact n s =
      (.error (s.fault.elim .unexpectedEof .transport), { s with bytes := [] }) :=
  if_neg (Nat.not_le.mpr h)

lemma prepend_append (v w : List UInt8) (s : Stream ε) :
    prepend (v ++ w) s = prepend v (prepend w s) := by
  rw [prepend, prepend, prepend, List.append_assoc]

end Stream

/-! ## Numbers -/

/-- The bytes of a number, the lowest first. -/
def leBytes (n : UInt32) : List UInt8 :=
  [n.toUInt8, (n >>> 8).toUInt8, (n >>> 16).toUInt8, (n >>> 24).toUInt8]

/-- The number of some bytes, the lowest first. -/
def ofLeBytes (bytes : List UInt8) : UInt32 :=
  UInt32.ofNat (bytes.foldr (fun b n => b.toNat + 256 * n) 0)

/-- There are four bytes. -/
@[simp] lemma length_leBytes (n : UInt32) : (leBytes n).length = 4 := rfl

lemma ofLeBytes_leBytes (n : UInt32) : ofLeBytes (leBytes n) = n := by
  have hlt : n.toNat < 2 ^ 32 := n.toNat_lt
  apply UInt32.toNat_inj.mp
  simp only [ofLeBytes, leBytes, List.foldr_cons, List.foldr_nil, UInt32.toNat_ofNat',
    UInt32.toNat_toUInt8, UInt32.toNat_shiftRight, UInt32.reduceToNat, Nat.reduceMod,
    Nat.shiftRight_eq_div_pow]
  omega

end ByteStream
