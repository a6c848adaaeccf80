import Orca.Library.ByteStream
import Orca.PluginProto.Frame

/-!
# The codec of the plugin protocol

A frame goes over the socket as its length, in four bytes, and its JSON text.  Frames that were
written are read back in their order (`readFrame_encode`).  What comes after them is told apart from
a clean end, except where the stream ends one to three bytes into a length: `read_exact` reports
that as it reports an end before the first byte, and the reader takes both for the end of the frames
(`stream_exact_iff`).
-/

namespace Orca.PluginProto

open ByteStream

/-- The bytes of JSON values: `serde_json::to_vec` and `serde_json::from_slice`. -/
structure JsonBytes where
  toVec : Json → Option (List UInt8)
  fromSlice : List UInt8 → Option Json

/-- `MAX_FRAME_BYTES`. -/
def maxFrameBytes : UInt32 := 64 * 1024 * 1024

/-- `ProtoError`, as far as the codec reports it. -/
inductive ProtoError (ε : Type*) where
  | io (e : IoError ε)
  | tooLarge (len max : UInt32)
  /-- It is not the JSON text of a frame. -/
  | json

variable {ε : Type*} (text : JsonBytes)

/-- `encode`. -/
def encode (frame : Frame) : Except (ProtoError ε) (List UInt8) :=
  match text.toVec frame.toJson with
  | none => .error .json
  | some body =>
    if body.length < UInt32.size then
      let len := UInt32.ofNat body.length
      if maxFrameBytes < len then .error (.tooLarge len maxFrameBytes)
      else .ok (leBytes len ++ body)
    else .error (.tooLarge (UInt32.ofNat (UInt32.size - 1)) maxFrameBytes)

/-- `read_frame`, and what is left of the stream. -/
def readFrame (s : Stream ε) : Except (ProtoError ε) (Option Frame) × Stream ε :=
  match s.readExact 4 with
  | (.error .unexpectedEof, s) => (.ok none, s)
  | (.error e, s) => (.error (.io e), s)
  | (.ok lenBuf, s) =>
    let len := ofLeBytes lenBuf
    if maxFrameBytes < len then (.error (.tooLarge len maxFrameBytes), s)
    else
      match s.readExact len.toNat with
      | (.error e, s) => (.error (.io e), s)
      | (.ok body, s) =>
        match (text.fromSlice body).bind Frame.ofJson with
        | none => (.error .json, s)
        | some frame => (.ok (some frame), s)

/-- What a number of calls of `read_frame` return. -/
def readFrames : Nat → Stream ε → List (Except (ProtoError ε) (Option Frame))
  | 0, _ => []
  | n + 1, s => (readFrame text s).1 :: readFrames n (readFrame text s).2

/-- The encodings of some frames, one after the other. -/
def encodeAll : List Frame → Except (ProtoError ε) (List UInt8)
  | [] => .ok []
  | f :: fs =>
    match encode text f with
    | .error e => .error e
    | .ok w => (encodeAll fs).map (w ++ ·)

/-- What is written of a frame is read back as it was. -/
def JsonBytes.Faithful (frame : Frame) : Prop :=
  ∀ body, text.toVec frame.toJson = some body → text.fromSlice body = some frame.toJson

/-- A stream of some frames, with some bytes after them, is read as it should be: the frames are
read in their order; then the end is reported if and only if the stream ends there; and a part of a
frame is an error. -/
def StreamExact (frames : List Frame) (wire : List UInt8) (rest : Stream ε) : Prop :=
  ∃ r, readFrames text (frames.length + 1) (rest.prepend wire) =
      frames.map (fun f => .ok (some f)) ++ [r] ∧
    (r = .ok none ↔ rest.bytes = [] ∧ rest.fault = none) ∧
    ∀ f w, encode (ε := ε) text f = .ok w → rest.bytes <+: w → rest.bytes ≠ [] →
      rest.bytes ≠ w → ∃ e, r = .error e

/-- The stream ends one to three bytes into a length. -/
def EndsInLength (rest : Stream ε) : Prop :=
  rest.fault = none ∧ 0 < rest.bytes.length ∧ rest.bytes.length < 4

variable {text}

/-! ## One frame -/

/-- What is encoded is a length within the limit, and a body of that length. -/
lemma exists_of_encode {f : Frame} {w : List UInt8} (h : encode (ε := ε) text f = .ok w) :
    ∃ body len, text.toVec f.toJson = some body ∧ ¬maxFrameBytes < len ∧
      len.toNat = body.length ∧ w = leBytes len ++ body := by
  unfold encode at h
  split at h
  · exact nomatch h
  · rename_i body hbody
    dsimp only at h
    split at h
    · rename_i hsize
      split at h
      · exact nomatch h
      · rename_i hmax
        exact ⟨body, UInt32.ofNat body.length, hbody, hmax, UInt32.toNat_ofNat_of_lt hsize,
          (Except.ok.inj h).symm⟩
    · exact nomatch h

/-- A frame that was encoded is read back, and the rest of the stream is left. -/
lemma readFrame_encode {f : Frame} {w : List UInt8} (h : encode (ε := ε) text f = .ok w)
    (htext : text.Faithful f) (rest : Stream ε) :
    readFrame text (rest.prepend w) = (.ok (some f), rest) := by
  obtain ⟨body, len, hbody, hmax, hlen, rfl⟩ := exists_of_encode h
  rw [Stream.prepend_append, readFrame, Stream.readExact_prepend (length_leBytes len)]
  dsimp only
  rw [ofLeBytes_leBytes, if_neg hmax, Stream.readExact_prepend hlen.symm]
  dsimp only
  rw [htext body hbody, Option.bind_some, ofJson_toJson]

lemma readFrame_of_lt {s : Stream ε} (h : s.bytes.length < 4) :
    (readFrame text s).1 = s.fault.elim (.ok none) fun e => .error (.io (.transport e)) := by
  rw [readFrame, Stream.readExact_of_lt h]
  cases s.fault <;> rfl

lemma readFrame_ne_none {s : Stream ε} (h : 4 ≤ s.bytes.length) :
    (readFrame text s).1 ≠ .ok none := by
  rw [readFrame, Stream.readExact, if_pos h]
  dsimp only
  intro h
  split at h
  · cases h
  · split at h
    · cases h
    · split at h
      · cases h
      · cases h

/-- A part of a frame with its whole length is an error. -/
lemma readFrame_truncated {f : Frame} {w : List UInt8} (h : encode (ε := ε) text f = .ok w)
    {s : Stream ε} (hbegins : s.bytes <+: w) (hne : s.bytes ≠ w) (hlength : 4 ≤ s.bytes.length) :
    ∃ e, (readFrame text s).1 = .error e := by
  obtain ⟨body, len, -, hmax, hlen, rfl⟩ := exists_of_encode h
  obtain ⟨part, hpart⟩ : ∃ part, s.bytes = leBytes len ++ part := by
    obtain ⟨part, hpart⟩ := List.prefix_of_prefix_length_le (List.prefix_append _ _) hbegins
      (by rwa [length_leBytes])
    exact ⟨part, hpart.symm⟩
  have hshort : part.length < len.toNat := by
    rw [hpart] at hbegins hne
    have hbody := (List.prefix_append_right_inj _).mp hbegins
    rw [hlen]
    refine Nat.lt_of_le_of_ne hbody.length_le fun heq => hne ?_
    rw [hbody.eq_of_length heq]
  have hs : s = Stream.prepend (leBytes len) ⟨part, s.fault⟩ := by
    rw [Stream.prepend, ← hpart]
  rw [hs, readFrame, Stream.readExact_prepend (length_leBytes len)]
  dsimp only
  rw [ofLeBytes_leBytes, if_neg hmax, Stream.readExact_of_lt hshort]
  exact ⟨_, rfl⟩

/-! ## Streams -/

/-- Frames that were encoded are read back in their order, and then comes what is read of the
rest. -/
lemma readFrames_encodeAll {frames : List Frame} {wire : List UInt8}
    (h : encodeAll (ε := ε) text frames = .ok wire) (htext : ∀ f ∈ frames, text.Faithful f)
    (rest : Stream ε) :
    readFrames text (frames.length + 1) (rest.prepend wire) =
      frames.map (fun f => .ok (some f)) ++ [(readFrame text rest).1] := by
  induction frames generalizing wire with
  | nil =>
    obtain rfl := Except.ok.inj h
    rfl
  | cons f fs ih =>
    obtain ⟨hf, hfs⟩ := List.forall_mem_cons.mp htext
    unfold encodeAll at h
    split at h
    · exact nomatch h
    · rename_i w hw
      cases hrest : encodeAll (ε := ε) text fs with
      | error e =>
        rw [hrest] at h
        exact nomatch h
      | ok ws =>
        rw [hrest] at h
        obtain rfl := Except.ok.inj h
        rw [List.length_cons, readFrames, Stream.prepend_append, readFrame_encode hw hf,
          ih hrest hfs]
        rfl

/-- **The frame codec.**  A stream of frames is read as it should be if and only if it does not end
one to three bytes into a length. -/
theorem stream_exact_iff {frames : List Frame} {wire : List UInt8}
    (h : encodeAll (ε := ε) text frames = .ok wire) (htext : ∀ f ∈ frames, text.Faithful f)
    (rest : Stream ε) : StreamExact text frames wire rest ↔ ¬EndsInLength rest := by
  have hrun := readFrames_encodeAll h htext rest
  constructor
  · rintro ⟨r, hr, hend, -⟩ ⟨hfault, hpos, hlt⟩
    obtain rfl := List.singleton_injective (List.append_cancel_left (hrun.symm.trans hr))
    have hnone : (readFrame text rest).1 = .ok none := by
      rw [readFrame_of_lt hlt, hfault, Option.elim_none]
    rw [(hend.mp hnone).1] at hpos
    exact Nat.lt_irrefl 0 hpos
  · intro hwhole
    refine ⟨_, hrun, ⟨fun hnone => ?_, fun ⟨hnil, hfault⟩ => ?_⟩,
      fun f w hw hbegins hne hpart => ?_⟩
    · -- the end is reported only without a whole length
      by_cases hlt : rest.bytes.length < 4
      · rw [readFrame_of_lt hlt] at hnone
        cases hfault : rest.fault with
        | some e =>
          rw [hfault] at hnone
          exact nomatch hnone
        | none =>
          refine ⟨List.eq_nil_of_length_eq_zero ?_, rfl⟩
          by_contra hpos
          exact hwhole ⟨hfault, Nat.pos_of_ne_zero hpos, hlt⟩
      · exact absurd hnone (readFrame_ne_none (Nat.not_lt.mp hlt))
    · rw [readFrame_of_lt (by rw [hnil]; decide), hfault, Option.elim_none]
    · by_cases hlt : rest.bytes.length < 4
      · rw [readFrame_of_lt hlt]
        cases hfault : rest.fault with
        | some e => exact ⟨_, rfl⟩
        | none => exact absurd ⟨hfault, List.length_pos_iff.mpr hne, hlt⟩ hwhole
      · exact readFrame_truncated hw hbegins hpart (Nat.not_lt.mp hlt)

/-- The JSON text of a `Shutdown`. -/
def shutdownBytes : List UInt8 :=
  "\x7b\"kind\":\"shutdown\"\x7d".toList.map fun c => c.toNat.toUInt8

/-- The JSON text of this one frame, written and read. -/
def shutdownText : JsonBytes where
  toVec
    | .object [("kind", .string "shutdown")] => some shutdownBytes
    | _ => none
  fromSlice bytes := if bytes = shutdownBytes then some Frame.shutdown.toJson else none

/-- A frame is read back, and then the end of the stream. -/
theorem stream_exact_shutdown :
    StreamExact (ε := Unit) shutdownText [.shutdown] (leBytes 19 ++ shutdownBytes) ⟨[], none⟩ := by
  refine (stream_exact_iff rfl ?_ _).mpr fun h => absurd h.2.1 (by decide)
  rintro f (_ | ⟨_, ⟨⟩⟩) body hbody
  obtain rfl := Option.some.inj hbody
  unfold shutdownText
  dsimp only
  rw [if_pos rfl]

/-- A stream that ends in a length is read as one that ends before it. -/
theorem stream_not_exact : ¬∀ (text : JsonBytes) (frames : List Frame) (wire : List UInt8)
    (rest : Stream Unit), encodeAll (ε := Unit) text frames = .ok wire →
    (∀ f ∈ frames, text.Faithful f) → StreamExact text frames wire rest := by
  intro h
  obtain ⟨r, hr, hend, -⟩ := h shutdownText [] [] ⟨[0x01], none⟩ rfl
    fun _ hf => absurd hf List.not_mem_nil
  have hnone : r = .ok none := (List.singleton_injective hr).symm
  exact absurd (hend.mp hnone).1 (List.cons_ne_nil _ _)

end Orca.PluginProto
