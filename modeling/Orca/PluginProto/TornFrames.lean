import Orca.PluginProto.Codec

/-!
# Frames that are torn

A read that times out inside of a frame has lost the start of it, and a write that times out inside
of a frame leaves the other side without the end.  Neither puts the two sides out of step unnoticed.
The text of a frame is printable, so that any four bytes with one of them at the end are a length
beyond the limit, while the last byte of a length within the limit occurs in no JSON text.

So nothing is read as a frame from inside of a frame (`torn_not_read`).  After a frame that was cut
short at most one is read before the reader fails, and only if no more than three bytes are missing
(`cut_frames_read`): the first bytes of the next length may stand for them.  Those of a `Shutdown`
cannot (`cut_before_shutdown`).  The frame that is read is of the kind of the one that was cut
short, unless that is a `Shutdown`, whose kind may not be there as a whole.
-/

namespace Orca.PluginProto

open ByteStream

variable {ε : Type*} {text : JsonBytes}

/-- The start of the text of a frame, up to its `kind`. -/
def kindBytes (kind : String) : List UInt8 :=
  ("\x7b\"kind\":\"".toList ++ kind.toList ++ "\"".toList).map fun c => c.toNat.toUInt8

/-- A control character that is not white space. -/
def IsControl (b : UInt8) : Prop := b < 9 ∨ 13 < b ∧ b < 0x20

/-- What `serde_json` writes without spaces, and what it refuses. -/
structure JsonBytes.Compact (text : JsonBytes) : Prop where
  printable : ∀ v body, text.toVec v = some body → ∀ b ∈ body, 0x20 ≤ b
  /-- The text of an object with an entry has its braces and the quotes of a key. -/
  long : ∀ e es body, text.toVec (.object (e :: es)) = some body → 3 ≤ body.length
  /-- The text of a frame starts with its kind, and then there are its fields. -/
  starts : ∀ f : Frame, f ≠ .shutdown → ∀ body, text.toVec f.toJson = some body →
    ∃ rest, body = kindBytes f.kind ++ rest ∧ 3 ≤ rest.length
  /-- A text that starts with a kind is that of an object with the kind first. -/
  kind_first : ∀ (f : Frame) body v, kindBytes f.kind <+: body → text.fromSlice body = some v →
    ∃ es, v = .object (("kind", .string f.kind) :: es)
  refuses : ∀ body, (∃ b ∈ body, IsControl b) → text.fromSlice body = none
  /-- Two bytes leave no room between the brackets of an object or an array. -/
  short : ∀ body v, body.length < 3 → text.fromSlice body = some v →
    (∀ e es, v ≠ .object (e :: es)) ∧ ∀ e es, v ≠ .array (e :: es)

/-- The next call of `read_frame` gives no frame. -/
def NoFrame (text : JsonBytes) (s : Stream ε) : Prop := ∀ g, (readFrame text s).1 ≠ .ok (some g)

/-! ## Bytes of lengths and of texts -/

lemma last_leBytes_lt {len : UInt32} (h : ¬maxFrameBytes < len) : (len >>> 24).toUInt8 < 9 := by
  have hle : len.toNat ≤ 64 * 1024 * 1024 := by
    have := UInt32.not_lt.mp h
    exact UInt32.le_iff_toNat_le.mp this
  rw [UInt8.lt_iff_toNat_lt]
  simp only [UInt32.toNat_toUInt8, UInt32.toNat_shiftRight, UInt32.reduceToNat, Nat.reduceMod,
    Nat.shiftRight_eq_div_pow, UInt8.reduceToNat]
  omega

/-- Four bytes with a printable one at the end are a length beyond the limit. -/
lemma maxFrameBytes_lt {a b c d : UInt8} (h : 0x20 ≤ d) :
    maxFrameBytes < ofLeBytes [a, b, c, d] := by
  have hd : 32 ≤ d.toNat := UInt8.le_iff_toNat_le.mp h
  have ha := a.toNat_lt
  have hb := b.toNat_lt
  have hc := c.toNat_lt
  have hd' := d.toNat_lt
  rw [UInt32.lt_iff_toNat_lt]
  simp only [ofLeBytes, List.foldr_cons, List.foldr_nil, UInt32.toNat_ofNat']
  change 64 * 1024 * 1024 < _
  omega

lemma le_ofLeBytes (a b c d : UInt8) : a.toNat ≤ (ofLeBytes [a, b, c, d]).toNat := by
  have ha := a.toNat_lt
  have hb := b.toNat_lt
  have hc := c.toNat_lt
  have hd := d.toNat_lt
  simp only [ofLeBytes, List.foldr_cons, List.foldr_nil, UInt32.toNat_ofNat']
  omega

lemma exists_of_four_le {bytes : List UInt8} (h : 4 ≤ bytes.length) :
    ∃ a b c d rest, bytes = a :: b :: c :: d :: rest := by
  obtain _ | ⟨a, _ | ⟨b, _ | ⟨c, _ | ⟨d, rest⟩⟩⟩⟩ := bytes
  · exact absurd h (by decide)
  · exact absurd h (by simp only [List.length_cons, List.length_nil]; omega)
  · exact absurd h (by simp only [List.length_cons, List.length_nil]; omega)
  · exact absurd h (by simp only [List.length_cons, List.length_nil]; omega)
  · exact ⟨a, b, c, d, rest, rfl⟩

lemma ofJson_eq_none {v : Json} (hobject : ∀ e es, v ≠ .object (e :: es))
    (harray : ∀ e es, v ≠ .array (e :: es)) : Frame.ofJson v = none := by
  cases v with
  | object entries =>
    cases entries with
    | nil => rfl
    | cons e es => exact absurd rfl (hobject e es)
  | array vs =>
    cases vs with
    | nil => rfl
    | cons e es => exact absurd rfl (harray e es)
  | _ => rfl

lemma kind_of_readVariant {kind : String} {c : RecordCodec.Content String Json} {g : Frame}
    (h : readVariant kind c = some g) : g.kind = kind := by
  unfold readVariant at h
  split at h
  case h_13 => cases h
  all_goals
    obtain ⟨fields, -, rfl⟩ := Option.map_eq_some_iff.mp h
    rfl

/-- What is read of an object is of the kind that comes first. -/
lemma kind_of_ofJson {kind : String} {es : List (String × Json)} {g : Frame}
    (h : Frame.ofJson (.object (("kind", .string kind) :: es)) = some g) : g.kind = kind := by
  rw [Frame.ofJson, ← List.singleton_append, RecordCodec.valuesOf_append,
    RecordCodec.valuesOf_singleton] at h
  split at h
  · rename_i kind' hkind
    obtain rfl : kind = kind' := Json.string.inj (List.cons.inj hkind).1
    exact kind_of_readVariant h
  · cases h

/-! ## What a reader makes of some bytes -/

lemma noFrame_of_lt {s : Stream ε} (h : s.bytes.length < 4) : NoFrame text s := by
  intro g
  rw [readFrame_of_lt h]
  cases s.fault with
  | none => exact fun h => absurd (Except.ok.inj h).symm (Option.some_ne_none g)
  | some e =>
    intro h
    cases h

/-- A frame is what the length says there is, and its text is that of a frame. -/
lemma readFrame_ok {s : Stream ε} {g : Frame} (h : (readFrame text s).1 = .ok (some g)) :
    4 ≤ s.bytes.length ∧ ¬maxFrameBytes < ofLeBytes (s.bytes.take 4) ∧
      (ofLeBytes (s.bytes.take 4)).toNat ≤ (s.bytes.drop 4).length ∧
      (text.fromSlice ((s.bytes.drop 4).take (ofLeBytes (s.bytes.take 4)).toNat)).bind
        Frame.ofJson = some g ∧
      (readFrame text s).2.bytes = s.bytes.drop (4 + (ofLeBytes (s.bytes.take 4)).toNat) := by
  have hlength : 4 ≤ s.bytes.length := by
    by_contra hlt
    exact noFrame_of_lt (Nat.not_le.mp hlt) g h
  have hread : s.readExact 4 = (.ok (s.bytes.take 4), ⟨s.bytes.drop 4, s.fault⟩) :=
    if_pos hlength
  rw [readFrame, hread] at h ⊢
  dsimp only at h ⊢
  split at h
  · cases h
  · rename_i hmax
    rw [if_neg hmax]
    by_cases hbody : (ofLeBytes (s.bytes.take 4)).toNat ≤ (s.bytes.drop 4).length
    · rw [Stream.readExact, if_pos hbody] at h ⊢
      dsimp only at h ⊢
      split at h
      · cases h
      · rename_i frame hframe
        obtain rfl := Option.some.inj (Except.ok.inj h)
        rw [hframe]
        exact ⟨hlength, hmax, hbody, rfl, List.drop_drop⟩
    · rw [Stream.readExact_of_lt (Nat.not_le.mp hbody)] at h
      cases h

/-- With a printable byte at the end of the length there is no frame. -/
lemma noFrame_of_fourth {s : Stream ε} {wire : List UInt8} {d : UInt8} (hs : s.bytes <+: wire)
    (hd : wire[3]? = some d) (hprint : 0x20 ≤ d) : NoFrame text s := by
  intro g hg
  obtain ⟨hlength, hmax, -⟩ := readFrame_ok hg
  obtain ⟨a, b, c, d', rest, hbytes⟩ := exists_of_four_le hlength
  obtain ⟨more, rfl⟩ := hs
  rw [hbytes] at hmax hd
  obtain rfl : d' = d := Option.some.inj hd
  exact hmax (maxFrameBytes_lt hprint)

/-- With a control character inside of the text there is no frame. -/
lemma noFrame_of_control (htext : text.Compact) {s : Stream ε} {wire : List UInt8} {i : Nat}
    {b : UInt8} (hs : s.bytes <+: wire) (hb : wire[i]? = some b) (hcontrol : IsControl b)
      (hi : 4 ≤ i)
    (hlen : i < 4 + (ofLeBytes (wire.take 4)).toNat) : NoFrame text s := by
  intro g hg
  obtain ⟨hlength, -, hbody, hread, -⟩ := readFrame_ok hg
  obtain ⟨more, rfl⟩ := hs
  rw [List.take_append_of_le_length hlength] at hlen
  rw [List.length_drop] at hbody
  have hin : i < s.bytes.length := by omega
  rw [List.getElem?_append_left hin] at hb
  have hmem : b ∈ (s.bytes.drop 4).take (ofLeBytes (s.bytes.take 4)).toNat := by
    refine List.mem_of_getElem? (i := i - 4) ?_
    rw [List.getElem?_take_of_lt (by omega), List.getElem?_drop, Nat.add_sub_cancel' hi, hb]
  rw [htext.refuses _ ⟨b, hmem, hcontrol⟩] at hread
  cases hread

/-- With a length of less than three bytes there is no frame. -/
lemma noFrame_of_short (htext : text.Compact) {s : Stream ε} {wire : List UInt8}
    (hs : s.bytes <+: wire) (hlen : (ofLeBytes (wire.take 4)).toNat < 3) : NoFrame text s := by
  intro g hg
  obtain ⟨hlength, -, -, hread, -⟩ := readFrame_ok hg
  obtain ⟨more, rfl⟩ := hs
  rw [List.take_append_of_le_length hlength] at hlen
  cases hv : text.fromSlice ((s.bytes.drop 4).take (ofLeBytes (s.bytes.take 4)).toNat) with
  | none =>
    rw [hv] at hread
    cases hread
  | some v =>
    obtain ⟨hobject, harray⟩ :=
      htext.short _ v (Nat.lt_of_le_of_lt (List.length_take_le _ _) hlen) hv
    rw [hv, Option.bind_some, ofJson_eq_none hobject harray] at hread
    cases hread

/-! ## Frames on the wire -/

lemma exists_parts (htext : text.Compact) {f : Frame} {w : List UInt8}
    (h : encode (ε := ε) text f = .ok w) :
    ∃ body len, w = leBytes len ++ body ∧ len.toNat = body.length ∧ 3 ≤ body.length ∧
      (len >>> 24).toUInt8 < 9 ∧ ∀ b ∈ body, 0x20 ≤ b := by
  obtain ⟨body, len, hbody, hmax, hlen, rfl⟩ := exists_of_encode h
  exact ⟨body, len, rfl, hlen, htext.long _ _ _ hbody, last_leBytes_lt hmax,
    htext.printable _ _ hbody⟩

/-- Some frames on the wire start with one of them. -/
lemma exists_first (htext : text.Compact) {fs : List Frame} {wire : List UInt8}
    (h : encodeAll (ε := ε) text fs = .ok wire) :
    wire = [] ∨ ∃ body len more, wire = leBytes len ++ (body ++ more) ∧ 3 ≤ body.length ∧
      (len >>> 24).toUInt8 < 9 ∧ ∀ b ∈ body, 0x20 ≤ b := by
  cases fs with
  | nil => exact Or.inl (Except.ok.inj h).symm
  | cons f fs =>
    unfold encodeAll at h
    split at h
    · cases h
    · rename_i w hw
      obtain ⟨body, len, rfl, -, hlong, hlast, hprint⟩ := exists_parts htext hw
      cases hrest : encodeAll (ε := ε) text fs with
      | error e =>
        rw [hrest] at h
        cases h
      | ok more =>
        rw [hrest] at h
        obtain rfl := Except.ok.inj h
        exact Or.inr ⟨body, len, more, List.append_assoc .., hlong, hlast, hprint⟩

/-- The last byte of the length of the next frame, after what is left of a torn one. -/
lemma getElem?_last_leBytes {p more : List UInt8} {len : UInt32} :
    (p ++ (leBytes len ++ more))[p.length + 3]? = some (len >>> 24).toUInt8 := by
  rw [List.getElem?_append_right (Nat.le_add_right _ _), Nat.add_sub_cancel_left]
  rfl

/-- **Torn frames.**  From inside of a frame, with further frames behind it, no frame is read,
however much of them has come. -/
theorem torn_not_read (htext : text.Compact) {f : Frame} {w p : List UInt8}
    (h : encode (ε := ε) text f = .ok w) (hp : p <:+ w) (hne : p ≠ w) (hnil : p ≠ [])
    {fs : List Frame} {wire : List UInt8} (hwire : encodeAll (ε := ε) text fs = .ok wire)
    {s : Stream ε} (hs : s.bytes <+: p ++ wire) : NoFrame text s := by
  obtain ⟨body, len, rfl, -, hlong, -, hprint⟩ := exists_parts htext h
  obtain ⟨lost, hlost⟩ := hp
  have hlength := congrArg List.length hlost
  rw [List.length_append, List.length_append, length_leBytes] at hlength
  have hpos : 0 < lost.length := by
    refine List.length_pos_iff.mpr fun hnil => hne ?_
    rw [← hlost, hnil, List.nil_append]
  -- a byte of what is left that is not one of the length is a byte of the text
  have hbyte : ∀ i b, 4 ≤ lost.length + i → p[i]? = some b → 0x20 ≤ b := by
    intro i b hi hb
    refine hprint b (List.mem_of_getElem? (i := lost.length + i - 4) ?_)
    have := congrArg (·[lost.length + i]?) hlost
    rwa [List.getElem?_append_right (Nat.le_add_right _ _), Nat.add_sub_cancel_left, hb,
      List.getElem?_append_right (by rwa [length_leBytes]), length_leBytes, eq_comm] at this
  by_cases hfour : 4 ≤ p.length
  · have hd : p[3]? = some p[3] := List.getElem?_eq_getElem _
    refine noFrame_of_fourth hs ?_ (hbyte 3 _ (by omega) hd)
    rwa [List.getElem?_append_left hfour]
  · obtain rfl | ⟨body', len', more, rfl, -, hlast, -⟩ := exists_first htext hwire
    · refine noFrame_of_lt (Nat.lt_of_le_of_lt hs.length_le ?_)
      rw [List.append_nil]
      omega
    · have hppos := List.length_pos_iff.mpr hnil
      refine noFrame_of_control htext hs getElem?_last_leBytes (Or.inl hlast) (by omega) ?_
      -- the length that is read is at least its lowest byte, a byte of the text
      obtain ⟨a, p', rfl⟩ := List.exists_cons_of_ne_nil hnil
      have hwhole : 4 ≤ (a :: p' ++ (leBytes len' ++ (body' ++ more))).length := by
        rw [List.length_append, List.length_append, length_leBytes]
        omega
      obtain ⟨a', b, c, d, rest, hbytes⟩ := exists_of_four_le hwhole
      obtain rfl : a = a' := (List.cons.inj hbytes).1
      have hle := le_ofLeBytes a b c d
      have hprinta : 32 ≤ a.toNat := UInt8.le_iff_toNat_le.mp (hbyte 0 a (by omega) rfl)
      rw [hbytes]
      change _ < 4 + (ofLeBytes [a, b, c, d]).toNat
      omega

/-- What is missing of a length is filled with what comes next, and then there is no frame. -/
lemma noFrame_of_cut_length (htext : text.Compact) {q body more : List UInt8} {len : UInt32}
    (hnil : q ≠ []) (hq : q.length < 4) (hlast : (len >>> 24).toUInt8 < 9) {s : Stream ε}
    (hs : s.bytes <+: q ++ (leBytes len ++ (body ++ more))) : NoFrame text s := by
  have hpos := List.length_pos_iff.mpr hnil
  by_cases hshort : (ofLeBytes ((q ++ (leBytes len ++ (body ++ more))).take 4)).toNat < 3
  · exact noFrame_of_short htext hs hshort
  · exact noFrame_of_control htext hs getElem?_last_leBytes (Or.inl hlast) (by omega) (by omega)

/-- A byte of the next text, after the missing bytes of a frame and the rest of a length. -/
lemma fourth_after_cut {q body more : List UInt8} {len : UInt32} {n : Nat} (hq : q.length < n)
    (hn : n ≤ q.length + 3) (hlong : 3 ≤ body.length) :
    ∃ b ∈ body, ((q ++ (leBytes len ++ (body ++ more))).drop n)[3]? = some b := by
  have hin : n - q.length - 1 < body.length := by omega
  refine ⟨body[n - q.length - 1], List.getElem_mem hin, ?_⟩
  rw [List.getElem?_drop, List.getElem?_append_right (by omega),
    List.getElem?_append_right (by rw [length_leBytes]; omega), length_leBytes,
    show n + 3 - q.length - 4 = n - q.length - 1 from by omega, List.getElem?_append_left hin]
  exact List.getElem?_eq_getElem hin

/-- What is read of a frame that is nearly whole is of its kind. -/
lemma kind_of_cut (htext : text.Compact) {f : Frame} {w q : List UInt8}
    (h : encode (ε := ε) text f = .ok w) (hf : f ≠ .shutdown) (hq : q <+: w)
    (hmissing : w.length ≤ q.length + 3) {s : Stream ε} (hs : q <+: s.bytes) {g : Frame}
    (hg : (readFrame text s).1 = .ok (some g)) : g.kind = f.kind := by
  obtain ⟨body, len, hbody, -, hlen, rfl⟩ := exists_of_encode h
  obtain ⟨rest, rfl, hrest⟩ := htext.starts f hf body hbody
  have hstart : leBytes len ++ kindBytes f.kind <+: s.bytes := by
    refine (List.prefix_of_prefix_length_le ?_ hq ?_).trans hs
    · rw [← List.append_assoc]
      exact List.prefix_append _ _
    · simp only [List.length_append] at hmissing ⊢
      omega
  obtain ⟨more, hmore⟩ := hstart
  obtain ⟨-, -, -, hread, -⟩ := readFrame_ok hg
  rw [← hmore, List.append_assoc, List.take_left' (length_leBytes len),
    List.drop_left' (length_leBytes len), ofLeBytes_leBytes, hlen] at hread
  cases hv : text.fromSlice
      ((kindBytes f.kind ++ more).take (kindBytes f.kind ++ rest).length) with
  | none =>
    rw [hv] at hread
    cases hread
  | some v =>
    have hkind : kindBytes f.kind <+:
        (kindBytes f.kind ++ more).take (kindBytes f.kind ++ rest).length := by
      rw [List.length_append, List.take_length_add_append]
      exact List.prefix_append _ _
    obtain ⟨es, rfl⟩ := htext.kind_first f _ v hkind hv
    rw [hv, Option.bind_some] at hread
    exact kind_of_ofJson hread

/-- **Frames cut short.**  Of a part of a frame with further frames behind it, however much of them
has come, a frame is read only if no more than three bytes are missing.  It is of the same kind,
unless that of a `Shutdown`, and then there is no other one. -/
theorem cut_frames_read (htext : text.Compact) {f : Frame} {w q : List UInt8}
    (h : encode (ε := ε) text f = .ok w) (hq : q <+: w) (hne : q ≠ w) (hnil : q ≠ [])
    {fs : List Frame} {wire : List UInt8} (hwire : encodeAll (ε := ε) text fs = .ok wire)
    {s : Stream ε} (hs : s.bytes <+: q ++ wire) {g : Frame}
    (hg : (readFrame text s).1 = .ok (some g)) :
    w.length ≤ q.length + 3 ∧ (f ≠ .shutdown → g.kind = f.kind) ∧
      NoFrame text (readFrame text s).2 := by
  have hlength := (readFrame_ok hg).1
  obtain rfl | ⟨body', len', more, rfl, hlong', hlast', hprint'⟩ := exists_first htext hwire
  · -- nothing comes after it
    rw [List.append_nil] at hs
    have hpart : s.bytes ≠ w := fun heq =>
      hne (hq.eq_of_length_le (heq ▸ hs.length_le))
    obtain ⟨e, he⟩ := readFrame_truncated h (hs.trans hq) hpart hlength
    rw [he] at hg
    cases hg
  by_cases hhead : q.length < 4
  · exact absurd hg (noFrame_of_cut_length htext hnil hhead hlast' hs g)
  obtain ⟨body, len, rfl, hlen, -, -, -⟩ := exists_parts htext h
  obtain ⟨part, rfl⟩ : ∃ part, leBytes len ++ part = q :=
    List.prefix_of_prefix_length_le (List.prefix_append _ _) hq (Nat.not_lt.mp hhead)
  have hlt : (leBytes len ++ part).length < (leBytes len ++ body).length :=
    Nat.lt_of_le_of_ne hq.length_le fun heq => hne (hq.eq_of_length heq)
  have htake : (leBytes len ++ part ++ (leBytes len' ++ (body' ++ more))).take 4 = leBytes len := by
    rw [List.append_assoc, List.take_left' (length_leBytes len)]
  have hsize : (leBytes len ++ body).length = 4 + len.toNat := by
    rw [List.length_append, length_leBytes, hlen]
  have hmissing : (leBytes len ++ body).length ≤ (leBytes len ++ part).length + 3 := by
    by_contra hmore
    refine noFrame_of_control htext hs getElem?_last_leBytes (Or.inl hlast') (by omega) ?_ g hg
    rw [htake, ofLeBytes_leBytes]
    omega
  have hheader : s.bytes.take 4 = leBytes len := by
    obtain ⟨rest, hrest⟩ := hs
    rw [← htake, ← hrest, List.take_append_of_le_length hlength]
  have hpart : leBytes len ++ part <+: s.bytes := by
    refine List.prefix_of_prefix_length_le (List.prefix_append _ _) hs ?_
    have hread := (readFrame_ok hg).2.2.1
    rw [hheader, ofLeBytes_leBytes, List.length_drop] at hread
    omega
  refine ⟨hmissing, fun hf => kind_of_cut htext h hf hq hmissing hpart hg, ?_⟩
  have hafter : ∃ b ∈ body', ((leBytes len ++ part ++
      (leBytes len' ++ (body' ++ more))).drop (4 + len.toNat))[3]? = some b :=
    fourth_after_cut (hsize ▸ hlt) (hsize ▸ hmissing) hlong'
  obtain ⟨b, hb, hfourth⟩ := hafter
  refine noFrame_of_fourth ?_ hfourth (hprint' b hb)
  rw [(readFrame_ok hg).2.2.2.2, hheader, ofLeBytes_leBytes]
  obtain ⟨rest, hrest⟩ := hs
  rw [← hrest, List.drop_append]
  exact List.prefix_append _ _

/-- **A `Shutdown` after a frame cut short.**  With a `Shutdown` behind the part of a frame no frame
is read of it: its length has a control character. -/
theorem cut_before_shutdown (htext : text.Compact)
    (hshutdown : text.toVec Frame.shutdown.toJson = some shutdownBytes) {f : Frame}
    {w q : List UInt8} (h : encode (ε := ε) text f = .ok w) (hq : q <+: w) (hne : q ≠ w)
    (hnil : q ≠ []) {fs : List Frame} {wire : List UInt8}
    (hwire : encodeAll (ε := ε) text (.shutdown :: fs) = .ok wire) {s : Stream ε}
    (hs : s.bytes <+: q ++ wire) : NoFrame text s := by
  obtain ⟨more, rfl⟩ : ∃ more, wire = leBytes 19 ++ (shutdownBytes ++ more) := by
    have hencode : encode (ε := ε) text .shutdown = .ok (leBytes 19 ++ shutdownBytes) := by
      rw [encode, hshutdown]
      rfl
    rw [encodeAll, hencode] at hwire
    dsimp only at hwire
    cases hrest : encodeAll (ε := ε) text fs with
    | error e =>
      rw [hrest] at hwire
      cases hwire
    | ok more =>
      rw [hrest] at hwire
      exact ⟨more, (Except.ok.inj hwire).symm.trans (List.append_assoc ..)⟩
  by_cases hhead : q.length < 4
  · exact noFrame_of_cut_length htext hnil hhead (by decide) hs
  obtain ⟨body, len, rfl, hlen, -, -, -⟩ := exists_parts htext h
  obtain ⟨part, rfl⟩ : ∃ part, leBytes len ++ part = q :=
    List.prefix_of_prefix_length_le (List.prefix_append _ _) hq (Nat.not_lt.mp hhead)
  have hlt : (leBytes len ++ part).length < (leBytes len ++ body).length :=
    Nat.lt_of_le_of_ne hq.length_le fun heq => hne (hq.eq_of_length heq)
  -- the first byte that is missing is the lowest one of the next length
  have hbyte : (leBytes len ++ part ++ (leBytes 19 ++ (shutdownBytes ++ more)))[
      (leBytes len ++ part).length]? = some 19 := by
    rw [List.getElem?_append_right (Nat.le_refl _), Nat.sub_self]
    rfl
  refine noFrame_of_control htext hs hbyte (Or.inr (by decide)) (Nat.not_lt.mp hhead) ?_
  rw [List.append_assoc, List.take_left' (length_leBytes len), ofLeBytes_leBytes, hlen]
  have hsize : (leBytes len ++ body).length = 4 + body.length := by
    rw [List.length_append, length_leBytes]
  exact hsize ▸ hlt

/-! ## A `Shutdown` that is torn and one that is cut short -/

/-- A line of the log whose text has as many bytes as a closing brace is worth. -/
def longLine : Frame := .log "info" (String.ofList (List.replicate 87 'x')) .null

/-- The JSON text of this line. -/
def longLineBytes : List UInt8 :=
  ("\x7b\"kind\":\"log\",\"level\":\"info\",\"msg\":\"".toList ++ List.replicate 87 'x' ++
    "\"\x7d".toList).map fun c => c.toNat.toUInt8

/-- The JSON texts of a `Shutdown` and of this line, written and read. -/
def twoTexts : JsonBytes where
  toVec
    | .object [("kind", .string "shutdown")] => some shutdownBytes
    | .object [("kind", .string "log"), ("level", .string "info"), ("msg", .string _)] =>
      some longLineBytes
    | _ => none
  fromSlice bytes :=
    if bytes = shutdownBytes then some Frame.shutdown.toJson
    else if bytes = longLineBytes then some longLine.toJson
    else none

lemma toVec_twoTexts {v : Json} {body : List UInt8} (h : twoTexts.toVec v = some body) :
    body = shutdownBytes ∨ body = longLineBytes := by
  unfold twoTexts at h
  dsimp only at h
  split at h
  · exact Or.inl (Option.some.inj h).symm
  · exact Or.inr (Option.some.inj h).symm
  · cases h

/-- One of the two texts is read. -/
lemma fromSlice_twoTexts {body : List UInt8} {v : Json} (h : twoTexts.fromSlice body = some v) :
    body = shutdownBytes ∨ body = longLineBytes := by
  unfold twoTexts at h
  dsimp only at h
  split at h
  · exact Or.inl ‹_›
  · split at h
    · exact Or.inr ‹_›
    · cases h

lemma kind_of_toJson {f : Frame} {kind : String} {es : List (String × Json)}
    (h : f.toJson = .object (("kind", .string kind) :: es)) : f.kind = kind :=
  Json.string.inj (Prod.mk.inj (List.cons.inj (Json.object.inj h)).1).2

/-- Only a `Shutdown` is called so. -/
lemma eq_shutdown {f : Frame} (h : f.kind = "shutdown") : f = .shutdown := by
  cases f <;> first | rfl | exact absurd h (by simp only [Frame.kind]; decide)

/-- The two texts are as `serde_json` has them. -/
lemma twoTexts_compact : twoTexts.Compact where
  printable v body h := by
    obtain rfl | rfl := toVec_twoTexts h <;> decide +kernel
  long e es body h := by
    obtain rfl | rfl := toVec_twoTexts h <;> decide +kernel
  starts f hf body h := by
    unfold twoTexts at h
    dsimp only at h
    split at h
    · rename_i heq
      exact absurd (eq_shutdown (kind_of_toJson heq)) hf
    · rename_i heq
      obtain rfl := Option.some.inj h
      rw [kind_of_toJson heq]
      exact ⟨longLineBytes.drop 13, by decide +kernel, by decide +kernel⟩
    · cases h
  kind_first f body v hprefix hv := by
    unfold twoTexts at hv
    dsimp only at hv
    split at hv
    · rename_i heq
      obtain rfl := Option.some.inj hv
      have hkind : f.kind = "shutdown" := by
        rw [heq] at hprefix
        cases f <;> first | rfl | exact absurd hprefix (by simp only [Frame.kind]; decide +kernel)
      exact ⟨_, by rw [hkind]; rfl⟩
    · split at hv
      · rename_i heq
        obtain rfl := Option.some.inj hv
        have hkind : f.kind = "log" := by
          rw [heq] at hprefix
          cases f <;> first | rfl | exact absurd hprefix (by simp only [Frame.kind]; decide +kernel)
        exact ⟨_, by rw [hkind]; rfl⟩
      · cases hv
  refuses body h := by
    obtain ⟨b, hb, hlt⟩ := h
    cases hv : twoTexts.fromSlice body with
    | none => rfl
    | some v =>
      have hshutdown : ∀ b ∈ shutdownBytes, ¬(b < 9 ∨ 13 < b ∧ b < 0x20) := by decide +kernel
      have hline : ∀ b ∈ longLineBytes, ¬(b < 9 ∨ 13 < b ∧ b < 0x20) := by decide +kernel
      obtain rfl | rfl := fromSlice_twoTexts hv
      · exact absurd hlt (hshutdown b hb)
      · exact absurd hlt (hline b hb)
  short body v h hv := by
    obtain rfl | rfl := fromSlice_twoTexts hv
    · exact absurd h (by decide)
    · exact absurd h (by decide +kernel)

/-- The first five bytes of a `Shutdown` are lost, and another one follows. -/
theorem torn_not_read_shutdown :
    NoFrame (ε := Unit) twoTexts ⟨shutdownBytes.tail ++ (leBytes 19 ++ shutdownBytes), none⟩ := by
  have hencode : encode (ε := Unit) twoTexts .shutdown = .ok (leBytes 19 ++ shutdownBytes) := rfl
  have hwire : encodeAll (ε := Unit) twoTexts [.shutdown] =
      .ok (leBytes 19 ++ shutdownBytes) := rfl
  refine torn_not_read twoTexts_compact hencode ?_ ?_ ?_ hwire List.prefix_rfl
  · exact ⟨leBytes 19 ++ [0x7b], rfl⟩
  · exact fun h => absurd (congrArg List.length h) (by decide)
  · exact fun h => absurd (congrArg List.length h) (by decide)

set_option maxRecDepth 2000 in
/-- The brace of a `Shutdown` is missing, and the length of the line that follows has one. -/
theorem cut_frames_read_shutdown :
    let s : Stream Unit := ⟨leBytes 19 ++ shutdownBytes.dropLast ++ (leBytes 125 ++ longLineBytes),
      none⟩
    (readFrame twoTexts s).1 = .ok (some .shutdown) ∧
      NoFrame twoTexts (readFrame twoTexts s).2 := by
  have hread : (readFrame (ε := Unit) twoTexts ⟨leBytes 19 ++ shutdownBytes.dropLast ++
      (leBytes 125 ++ longLineBytes), none⟩).1 = .ok (some .shutdown) := rfl
  have hencode : encode (ε := Unit) twoTexts .shutdown = .ok (leBytes 19 ++ shutdownBytes) := rfl
  have hwire : encodeAll (ε := Unit) twoTexts [longLine] = .ok (leBytes 125 ++ longLineBytes) := rfl
  refine ⟨hread, (cut_frames_read twoTexts_compact hencode ?_ ?_ ?_ hwire List.prefix_rfl
    hread).2.2⟩
  · exact ⟨[0x7d], rfl⟩
  · exact fun h => absurd (congrArg List.length h) (by decide)
  · exact fun h => absurd (congrArg List.length h) (by decide)

end Orca.PluginProto
