import Mathlib.Data.List.DropRight
import Orca.Library.Cut
import Orca.Library.Words

/-!
# The generic syntax of URLs

A URL is a scheme, `://`, an authority and what follows it.  The authority is ended by the first
`/`, `?` or `#`; in front of its last `@` stands the userinfo, behind it the host, which is a name
or a literal in brackets, and then the port if there is one.

The parts of a `Url` fulfil the grammar, so that each text that is a URL is the text of such a
value. The text determines the host: `hostOf` reads it back (`hostOf_text`).
-/

namespace GenericUrl

/-! ## The grammar -/

/-- A character of a scheme behind the first one. -/
def isSchemeChar (c : Char) : Bool := c.isAlphanum || c == '+' || c == '-' || c == '.'

/-- The characters that end the authority. -/
def endsAuthority (c : Char) : Bool := c == '/' || c == '?' || c == '#'

/-- A character of the authority behind the userinfo. -/
def isHostChar (c : Char) : Bool := !endsAuthority c && c != '@'

/-- What a host may be. -/
inductive IsHost : List Char → Prop
  /-- A name or the four numbers of an address: no colon, which starts the port, and no bracket. -/
  | name {s : List Char} (chars : ∀ c ∈ s, isHostChar c = true)
      (plain : ∀ c ∈ s, c ≠ ':' ∧ c ≠ '[' ∧ c ≠ ']') : IsHost s
  /-- A literal in brackets, which may have colons. -/
  | literal {s : List Char} (chars : ∀ c ∈ s, isHostChar c = true)
      (plain : ∀ c ∈ s, c ≠ '[' ∧ c ≠ ']') : IsHost ('[' :: (s ++ [']']))

/-- A URL with an authority, in its parts. -/
structure Url where
  /-- The scheme is a letter and then letters, digits, `+`, `-` and `.`. -/
  scheme : List Char
  /-- What stands in front of the last `@` of the authority. -/
  userinfo : Option (List Char)
  host : List Char
  /-- The digits of the port; there may be none behind the colon. -/
  port : Option (List Char)
  /-- The path, the query and the fragment. -/
  rest : List Char
  scheme_head : ∃ c ∈ scheme.head?, c.isAlpha = true
  scheme_chars : ∀ c ∈ scheme, isSchemeChar c = true
  userinfo_chars : ∀ s ∈ userinfo, ∀ c ∈ s, endsAuthority c = false
  host_ok : IsHost host
  port_digits : ∀ s ∈ port, ∀ c ∈ s, c.isDigit = true
  rest_head : ∀ c ∈ rest.head?, endsAuthority c = true

namespace Url

/-- The userinfo with the `@` behind it. -/
def userinfoText (u : Url) : List Char := (u.userinfo.map (· ++ ['@'])).getD []

/-- The port with the colon in front of it. -/
def portText (u : Url) : List Char := (u.port.map (':' :: ·)).getD []

/-- The host and the port. -/
def hostPort (u : Url) : List Char := u.host ++ u.portText

/-- The authority. -/
def authority (u : Url) : List Char := u.userinfoText ++ u.hostPort

/-- The URL as a text. -/
def text (u : Url) : List Char := u.scheme ++ "://".toList ++ (u.authority ++ u.rest)

end Url

/-! ## Reading the host -/

/-- The host in front of the port. -/
def hostOfHostPort : List Char → List Char
  | '[' :: s => '[' :: (s.takeWhile (· != ']') ++ [']'])
  | s => s.takeWhile (· != ':')

/-- What stands behind the last `@`, or everything. -/
def afterUserinfo (authority : List Char) : List Char := authority.rtakeWhile (· != '@')

/-- The host of a text that is a URL. -/
def hostOf (url : List Char) : Option (List Char) := do
  let (_, hier) ← Cut.once (· == ':') url
  match hier with
  | '/' :: '/' :: s => some (hostOfHostPort (afterUserinfo (s.takeWhile (!endsAuthority ·))))
  | _ => none

/-! ## Characters -/

lemma ne_colon_of_isSchemeChar {c : Char} (h : isSchemeChar c = true) : (c == ':') = false := by
  refine beq_eq_false_iff_ne.mpr fun hc => ?_
  subst hc
  exact absurd h (by decide)

lemma isHostChar_of_isDigit {c : Char} (h : c.isDigit = true) : isHostChar c = true := by
  have hne : ∀ d : Char, d.isDigit = false → c ≠ d := fun d hd hc =>
    Bool.false_ne_true ((hc ▸ hd).symm.trans h)
  simp only [isHostChar, endsAuthority, Bool.and_eq_true, Bool.not_eq_true', Bool.or_eq_false_iff,
    beq_eq_false_iff_ne, bne_iff_ne]
  exact ⟨⟨⟨hne '/' rfl, hne '?' rfl⟩, hne '#' rfl⟩, hne '@' rfl⟩

/-- A host is made of its characters. -/
lemma IsHost.isHostChar {host : List Char} (h : IsHost host) :
    ∀ c ∈ host, isHostChar c = true := by
  cases h with
  | name chars _ => exact chars
  | literal chars _ =>
    intro c hc
    rcases List.mem_cons.mp hc with rfl | hc
    · rfl
    · rcases List.mem_append.mp hc with hc | hc
      · exact chars c hc
      · rw [List.mem_singleton.mp hc]
        rfl

/-- The host comes before the port. -/
lemma IsHost.hostOfHostPort_append {host port : List Char} (h : IsHost host)
    (hport : ∀ c ∈ port.head?, c = ':') : hostOfHostPort (host ++ port) = host := by
  cases h with
  | name _ plain =>
    have htake : (host ++ port).takeWhile (· != ':') = host := by
      refine Words.takeWhile_append_stop (fun c hc => bne_iff_ne.mpr (plain c hc).1) fun c hc => ?_
      rw [hport c hc]
      rfl
    have hhead : ∀ s, host ++ port ≠ '[' :: s := by
      intro s hs
      cases host with
      | nil =>
        rw [List.nil_append] at hs
        exact absurd (hport '[' (by rw [hs]; rfl)) (by decide)
      | cons c name => exact (plain c List.mem_cons_self).2.1 (List.cons.inj hs).1
    unfold hostOfHostPort
    split
    · exact absurd ‹_› (hhead _)
    · exact htake
  | @literal s _ plain =>
    have htake : (s ++ ']' :: port).takeWhile (· != ']') = s :=
      Words.takeWhile_append_stop (fun c hc => bne_iff_ne.mpr (plain c hc).2) fun c hc => by
        rw [← Option.some.inj hc]
        rfl
    change '[' :: ((s ++ [']'] ++ port).takeWhile (· != ']') ++ [']']) = _
    rw [List.append_assoc, List.singleton_append, htake]

namespace Url

variable {u : Url}

lemma head_portText : ∀ c ∈ u.portText.head?, c = ':' := by
  unfold portText
  cases u.port with
  | none => exact fun c hc => nomatch hc
  | some digits => exact fun c hc => (Option.some.inj hc).symm

/-- The host and the port are made of their characters. -/
lemma isHostChar_hostPort (u : Url) : ∀ c ∈ u.hostPort, isHostChar c = true := by
  intro c hc
  rcases List.mem_append.mp hc with hc | hc
  · exact u.host_ok.isHostChar c hc
  · have hport := u.port_digits
    unfold portText at hc
    cases hp : u.port with
    | none =>
      rw [hp] at hc
      exact absurd hc List.not_mem_nil
    | some digits =>
      rw [hp] at hc hport
      rcases List.mem_cons.mp hc with rfl | hc
      · rfl
      · exact isHostChar_of_isDigit (hport digits rfl c hc)

/-- The authority does not have the characters that end it. -/
lemma endsAuthority_authority (u : Url) : ∀ c ∈ u.authority, endsAuthority c = false := by
  intro c hc
  rcases List.mem_append.mp hc with hc | hc
  · have hinfo := u.userinfo_chars
    unfold userinfoText at hc
    cases hu : u.userinfo with
    | none =>
      rw [hu] at hc
      exact absurd hc List.not_mem_nil
    | some info =>
      rw [hu] at hc hinfo
      rcases List.mem_append.mp hc with hc | hc
      · exact hinfo info rfl c hc
      · rw [List.mem_singleton.mp hc]
        rfl
  · have hchar := u.isHostChar_hostPort c hc
    simp only [isHostChar, Bool.and_eq_true, Bool.not_eq_true'] at hchar
    exact hchar.1

/-- Behind the host comes the port, or what ends the authority. -/
lemma head_behind_host (u : Url) :
    ∀ c ∈ (u.portText ++ u.rest).head?, c = ':' ∨ endsAuthority c = true := by
  intro c hc
  cases hport : u.portText with
  | nil =>
    rw [hport] at hc
    exact Or.inr (u.rest_head c hc)
  | cons d port =>
    rw [hport] at hc
    exact Or.inl (Option.some.inj hc ▸ u.head_portText d (by rw [hport]; rfl))

/-- The scheme and what follows it are known from the text. -/
lemma scheme_eq_of_text {name t : List Char} (hname : ∀ c ∈ name, isSchemeChar c = true)
    (h : u.text = name ++ "://".toList ++ t) : u.scheme = name ∧ u.authority ++ u.rest = t := by
  have hcolon : ∀ s : List Char, (∀ c ∈ s, isSchemeChar c = true) → ∀ l,
      (s ++ "://".toList ++ l).takeWhile (· != ':') = s := by
    intro s hs l
    rw [List.append_assoc, Words.takeWhile_append_stop fun c hc => by
      rw [bne, ne_colon_of_isSchemeChar (hs c hc)]
      rfl]
    exact fun c hc => Option.some.inj hc ▸ rfl
  have hscheme : u.scheme = name :=
    (hcolon _ u.scheme_chars _).symm.trans ((congrArg _ h).trans (hcolon _ hname t))
  unfold text at h
  rw [hscheme] at h
  exact ⟨hscheme, List.append_cancel_left h⟩

/-! ## The round trip -/

lemma takeWhile_authority (u : Url) :
    (u.authority ++ u.rest).takeWhile (!endsAuthority ·) = u.authority := by
  refine Words.takeWhile_append_stop (fun c hc => ?_) fun c hc => ?_
  · rw [u.endsAuthority_authority c hc]
    rfl
  · rw [u.rest_head c hc]
    rfl

/-- The host and the port are what comes behind the last `@`. -/
lemma afterUserinfo_authority (u : Url) : afterUserinfo u.authority = u.hostPort := by
  have hplain : ∀ c ∈ u.hostPort.reverse, (c != '@') = true := by
    intro c hc
    have hchar := u.isHostChar_hostPort c (List.mem_reverse.mp hc)
    simp only [isHostChar, Bool.and_eq_true] at hchar
    exact hchar.2
  unfold afterUserinfo List.rtakeWhile authority
  rw [List.reverse_append, Words.takeWhile_append_stop hplain, List.reverse_reverse]
  intro c hc
  unfold userinfoText at hc
  cases hu : u.userinfo with
  | none =>
    rw [hu] at hc
    exact nomatch hc
  | some info =>
    rw [hu, Option.map_some, Option.getD_some, List.reverse_append] at hc
    rw [← Option.some.inj hc]
    rfl

/-- The host is read back with the URL. -/
theorem hostOf_text (u : Url) : hostOf u.text = some u.host := by
  have hscheme : ∀ c ∈ u.scheme, (c == ':') = false := fun c hc =>
    ne_colon_of_isSchemeChar (u.scheme_chars c hc)
  have htext : u.text = u.scheme ++ ':' :: '/' :: '/' :: (u.authority ++ u.rest) :=
    List.append_assoc _ _ _
  have hcut : Cut.once (· == ':') u.text = some (u.scheme, '/' :: '/' :: (u.authority ++ u.rest)) :=
    htext ▸ Cut.once_append hscheme rfl
  unfold hostOf
  rw [hcut]
  change some (hostOfHostPort (afterUserinfo _)) = _
  rw [u.takeWhile_authority, u.afterUserinfo_authority]
  exact congrArg some (u.host_ok.hostOfHostPort_append u.head_portText)

end Url

end GenericUrl
