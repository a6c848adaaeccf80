import Orca.Library.Url

/-!
# The guard of loopback requests

`loopback_only_request` starts a request that does not check the certificate and carries the
loopback token.  It reads the host from the URL by hand, and panics unless this is a loopback host.

The guard strips `https://` and then `http://` as often as they come, and takes the host up to the
first colon of what is left, so that it does not read the host of a URL where the loopback host
stands in the userinfo, behind a second scheme or in the scheme itself (`Disguised`).  All other
URLs that pass have a loopback host (`admitted_host_loopback_iff`).
-/

namespace Orca.Auth

open GenericUrl

/-- `str::trim_start_matches`, for a pattern that is not empty. -/
def trimStartMatches (pattern s : List Char) : List Char :=
  if pattern ≠ [] ∧ pattern <+: s then trimStartMatches pattern (s.drop pattern.length) else s
termination_by s.length
decreasing_by
  rename_i h
  have hpattern := List.length_pos_iff.mpr h.1
  have hle := h.2.length_le
  rw [List.length_drop]
  omega

/-- What follows the schemes: `after_scheme`. -/
def afterScheme (url : List Char) : List Char :=
  trimStartMatches "http://".toList (trimStartMatches "https://".toList url)

/-- The host that the guard reads from an authority. -/
def authorityHost (authority : List Char) : List Char :=
  if authority.head? = some '[' then
    match Cut.once (· == ']') authority with
    | some (front, _) => front ++ [']']
    | none => authority
  else authority.takeWhile (· != ':')

/-- The host that the guard reads from a URL. -/
def guardHost (url : List Char) : List Char :=
  authorityHost ((afterScheme url).takeWhile (· != '/'))

/-- The hosts that the guard lets through. -/
def loopbackHosts : List (List Char) :=
  ["127.0.0.1".toList, "localhost".toList, "[::1]".toList]

/-- `HttpError`, as far as a request that is not sent has one. -/
inductive HttpError
  | invalidUrl (message : String)
  deriving DecidableEq, Repr

/-- `RequestBuilder`, as far as the guard sets it. -/
structure RequestBuilder where
  method : String
  url : String
  insecure : Bool
  followRedirects : Bool
  deriving DecidableEq, Repr

/-- `request_str`, with the methods that the library for HTTP accepts. -/
def requestStr (isMethod : String → Bool) (method url : String) :
    Except HttpError RequestBuilder :=
  if isMethod method then
    .ok { method, url, insecure := false, followRedirects := true }
  else .error (.invalidUrl s!"bad HTTP method '{method}'")

/-- `loopback_only_request`: the outer error is the panic. -/
def loopbackOnlyRequest (isMethod : String → Bool) (method url : String) :
    Except String (Except HttpError RequestBuilder) :=
  if loopbackHosts.contains (guardHost url.toList) then
    .ok ((requestStr isMethod method url).map
      -- A redirect would carry the token off the host.
      fun request => { request with insecure := true, followRedirects := false })
  else
    .error (s!"loopback_only_request called with non-loopback URL '{url}' — " ++
      "disabled cert verification is only safe on the loopback interface")

/-- The guard does not panic. -/
def Admitted (isMethod : String → Bool) (method url : String) : Prop :=
  ∃ result, loopbackOnlyRequest isMethod method url = .ok result

/-! ## What the guard accepts -/

/-- Schemes, as the guard strips them. -/
def schemes (n m : ℕ) : List Char :=
  (List.replicate n "https://".toList).flatten ++ (List.replicate m "http://".toList).flatten

/-- A text that starts with a loopback host, behind which an authority or a host may end. -/
def ShowsLoopback (s : List Char) : Prop :=
  ∃ name ∈ loopbackHosts, ∃ r, s = name ++ r ∧
    (name = "[::1]".toList ∨ ∀ c ∈ r.head?, c = ':' ∨ c = '/')

/-- Characters of an address or a name. -/
def isNameChar (c : Char) : Bool := isHostChar c && c != ':' && c != '['

/-- A loopback host is the literal, or has the characters of a name. -/
lemma loopbackHosts_cases {name : List Char} (h : name ∈ loopbackHosts) :
    name = "[::1]".toList ∨
      (name.head?.isSome = true ∧ ∀ c ∈ name, isNameChar c = true) := by
  have hall : loopbackHosts.all (fun name => name == "[::1]".toList ||
      (name.head?.isSome && name.all isNameChar)) = true := by decide
  have hname := List.all_eq_true.mp hall name h
  rw [Bool.or_eq_true, beq_iff_eq, Bool.and_eq_true, List.all_eq_true] at hname
  exact hname

lemma isNameChar_iff {c : Char} :
    isNameChar c = true ↔ endsAuthority c = false ∧ c ≠ '@' ∧ c ≠ ':' ∧ c ≠ '[' := by
  simp only [isNameChar, isHostChar, Bool.and_eq_true, Bool.not_eq_true', bne_iff_ne, and_assoc]

/-- What the trimmed text is. -/
theorem trimStartMatches_eq_iff {pattern s t : List Char} (hpattern : pattern ≠ []) :
    trimStartMatches pattern s = t ↔
      (∃ n, s = (List.replicate n pattern).flatten ++ t) ∧ ¬ pattern <+: t := by
  constructor
  · intro h
    subst h
    fun_induction trimStartMatches pattern s with
    | case1 s h ih =>
      obtain ⟨⟨n, hn⟩, hstop⟩ := ih
      refine ⟨⟨n + 1, ?_⟩, hstop⟩
      rw [List.replicate_succ, List.flatten_cons, List.append_assoc, ← hn]
      exact (List.prefix_iff_eq_append.mp h.2).symm
    | case2 s h => exact ⟨⟨0, rfl⟩, fun hstart => h ⟨hpattern, hstart⟩⟩
  · rintro ⟨⟨n, rfl⟩, hstop⟩
    induction n with
    | zero =>
      rw [List.replicate_zero, List.flatten_nil, List.nil_append, trimStartMatches,
        if_neg fun h => hstop h.2]
    | succ n ih =>
      rw [trimStartMatches, List.replicate_succ, List.flatten_cons, List.append_assoc,
        if_pos ⟨hpattern, List.prefix_append _ _⟩, List.drop_left, ih]

/-- The host of an authority is a loopback host if and only if the authority starts with one, and
behind a name comes the port or nothing. -/
lemma authorityHost_mem_iff {a : List Char} :
    authorityHost a ∈ loopbackHosts ↔ ∃ name ∈ loopbackHosts, ∃ r, a = name ++ r ∧
      (name = "[::1]".toList ∨ ∀ c ∈ r.head?, c = ':') := by
  constructor
  · intro h
    unfold authorityHost at h
    split at h
    · rename_i hbracket
      split at h
      · rename_i front behind hcut
        obtain ⟨c, rfl, hc, -⟩ := Cut.once_eq_some_iff.mp hcut
        rw [eq_of_beq hc] at hbracket ⊢
        refine ⟨_, h, behind, (List.append_assoc front [']'] behind).symm, Or.inl ?_⟩
        rcases loopbackHosts_cases h with hname | ⟨-, hplain⟩
        · exact hname
        · refine absurd (hplain '[' ?_) (by decide)
          cases front with
          | nil => exact absurd (Option.some.inj hbracket) (by decide)
          | cons d front => exact Option.some.inj hbracket ▸ List.mem_cons_self
      · rename_i hcut
        have hplain := Cut.once_eq_none_iff.mp hcut
        rcases loopbackHosts_cases h with rfl | ⟨-, hname⟩
        · exact absurd (hplain ']' (by decide)) (by decide)
        · exact absurd (hname '[' (List.mem_of_mem_head? hbracket)) (by decide)
    · refine ⟨_, h, a.dropWhile (· != ':'), List.takeWhile_append_dropWhile.symm,
        Or.inr fun c hc => ?_⟩
      have hhead := List.head?_dropWhile_not (· != ':') a
      rw [Option.mem_def.mp hc] at hhead
      simpa using hhead
  · rintro ⟨name, hname, r, rfl, hend⟩
    rcases loopbackHosts_cases hname with rfl | ⟨hsome, hplain⟩
    · exact hname
    · have hplain' := fun c hc => isNameChar_iff.mp (hplain c hc)
      have hne : name ≠ "[::1]".toList := fun h =>
        absurd (hplain '[' (by rw [h]; decide)) (by decide)
      have hstop : ∀ c ∈ r.head?, (c != ':') = false := by
        intro c hc
        rw [hend.resolve_left hne c hc]
        rfl
      obtain ⟨d, hd⟩ := Option.isSome_iff_exists.mp hsome
      have hbracket : (name ++ r).head? ≠ some '[' := by
        rw [List.head?_append, hd]
        exact fun h => (hplain' d (List.mem_of_mem_head? hd)).2.2.2 (Option.some.inj h)
      rw [authorityHost, if_neg hbracket,
        Words.takeWhile_append_stop (fun c hc => bne_iff_ne.mpr (hplain' c hc).2.2.1) hstop]
      exact hname

/-- The guard reads a loopback host if and only if the text behind the schemes shows one. -/
lemma authorityHost_takeWhile_mem_iff {s : List Char} :
    authorityHost (s.takeWhile (· != '/')) ∈ loopbackHosts ↔ ShowsLoopback s := by
  rw [authorityHost_mem_iff]
  constructor
  · rintro ⟨name, hname, r, hr, hend⟩
    refine ⟨name, hname, r ++ s.dropWhile (· != '/'), ?_, hend.imp_right fun hcolon c hc => ?_⟩
    · rw [← List.append_assoc, ← hr, List.takeWhile_append_dropWhile]
    · cases r with
      | nil =>
        have hhead := List.head?_dropWhile_not (· != '/') s
        rw [show (s.dropWhile (· != '/')).head? = some c from hc] at hhead
        exact Or.inr (by simpa using hhead)
      | cons d r => exact Or.inl (hcolon c hc)
  · rintro ⟨name, hname, r, rfl, hend⟩
    have hslash : '/' ∉ name := by
      rcases loopbackHosts_cases hname with rfl | ⟨-, hplain⟩
      · decide
      · exact fun h => absurd (hplain '/' h) (by decide)
    refine ⟨name, hname, r.takeWhile (· != '/'), List.takeWhile_append_of_pos fun c hc =>
      bne_iff_ne.mpr fun h => hslash (h ▸ hc), hend.imp_right fun hcolon c hc => ?_⟩
    cases r with
    | nil => exact nomatch hc
    | cons d r =>
      rcases hcolon d rfl with rfl | rfl
      · exact (Option.some.inj hc).symm
      · exact nomatch hc

lemma head_of_showsLoopback {s : List Char} (h : ShowsLoopback s) : s.head? ≠ some 'h' := by
  obtain ⟨name, hname, r, rfl, -⟩ := h
  have hall : loopbackHosts.all (·.head?.any (· != 'h')) = true := by decide
  obtain ⟨d, hd, hne⟩ := (Option.any_eq_true _ _).mp (List.all_eq_true.mp hall name hname)
  rw [List.head?_append, hd]
  exact fun h => bne_iff_ne.mp hne (Option.some.inj h)

/-- The schemes are stripped from a text that shows a loopback host. -/
lemma afterScheme_schemes {n m : ℕ} {s : List Char} (h : ShowsLoopback s) :
    afterScheme (schemes n m ++ s) = s := by
  have hhead : ∀ scheme : List Char, scheme.head? = some 'h' → ¬ scheme <+: s := by
    rintro scheme hscheme ⟨r, rfl⟩
    exact head_of_showsLoopback h (by rw [List.head?_append, hscheme]; rfl)
  have hsecure : ¬ "https://".toList <+:
      (List.replicate m "http://".toList).flatten ++ s := by
    cases m with
    | zero => exact hhead _ rfl
    | succ m => simp [List.replicate_succ, List.cons_prefix_cons]
  have hfirst := (trimStartMatches_eq_iff (by decide)).mpr
    ⟨⟨n, List.append_assoc _ (List.replicate m "http://".toList).flatten s⟩, hsecure⟩
  unfold afterScheme schemes
  rw [hfirst]
  exact (trimStartMatches_eq_iff (by decide)).mpr ⟨⟨m, rfl⟩, hhead _ rfl⟩

/-- The guard lets a text pass if and only if it shows a loopback host behind schemes. -/
theorem admitted_iff {isMethod : String → Bool} {method url : String} :
    Admitted isMethod method url ↔
      ∃ n m s, url.toList = schemes n m ++ s ∧ ShowsLoopback s := by
  have hguard : Admitted isMethod method url ↔ ShowsLoopback (afterScheme url.toList) := by
    rw [← authorityHost_takeWhile_mem_iff, ← List.contains_iff_mem]
    unfold Admitted loopbackOnlyRequest
    split
    · exact iff_of_true ⟨_, rfl⟩ ‹_›
    · exact iff_of_false (fun ⟨_, h⟩ => nomatch h) ‹_›
  rw [hguard]
  constructor
  · intro h
    obtain ⟨⟨n, hn⟩, -⟩ := (trimStartMatches_eq_iff (by decide)).mp
      (rfl : trimStartMatches "https://".toList url.toList = _)
    obtain ⟨⟨m, hm⟩, -⟩ := (trimStartMatches_eq_iff (by decide)).mp
      (rfl : trimStartMatches "http://".toList (trimStartMatches "https://".toList url.toList) = _)
    refine ⟨n, m, afterScheme url.toList, ?_, h⟩
    rw [schemes, List.append_assoc]
    exact hn.trans (congrArg _ hm)
  · rintro ⟨n, m, s, hurl, hs⟩
    rw [hurl, afterScheme_schemes hs]
    exact hs

/-! ## URLs -/

/-- The starts of a userinfo that the guard takes for a host. -/
def loopbackStarts : List (List Char) :=
  ["127.0.0.1:".toList, "localhost:".toList, "[::1]".toList]

/-- The URLs of which the guard reads another text than the host. -/
inductive Disguised (u : Url) : Prop
  | scheme (name : u.scheme = "localhost".toList)
  /-- The userinfo starts like a loopback host. -/
  | userinfo {info : List Char} (web : u.scheme = "https".toList ∨ u.scheme = "http".toList)
      (some_info : u.userinfo = some info) (start : ∃ s ∈ loopbackStarts, s <+: info)
  /-- A loopback host stands behind several schemes. -/
  | repeated {n m : ℕ} {s : List Char} (several : 2 ≤ n + m) (text_eq : u.text = schemes n m ++ s)
      (shows : ShowsLoopback s)

lemma not_isNameChar {c : Char} (h : c = ':' ∨ endsAuthority c = true) : isNameChar c = false := by
  rcases h with rfl | h
  · rfl
  · exact Bool.eq_false_iff.mpr fun hc => Bool.false_ne_true ((isNameChar_iff.mp hc).1.symm.trans h)

/-- If a text that shows a loopback host starts with a host, then it is a loopback host. -/
lemma IsHost.mem_loopbackHosts {host behind : List Char} (hhost : IsHost host)
    (hbehind : ∀ c ∈ behind.head?, c = ':' ∨ endsAuthority c = true)
    (h : ShowsLoopback (host ++ behind)) : host ∈ loopbackHosts := by
  obtain ⟨name, hname, r, hr, hend⟩ := h
  cases hhost with
  | name chars plain =>
    rcases loopbackHosts_cases hname with rfl | ⟨-, hnamechars⟩
    · exfalso
      cases host with
      | nil =>
        rcases hbehind '[' (by rw [← List.nil_append behind, hr]; rfl) with h | h <;>
          exact absurd h (by decide)
      | cons d host => exact (plain d List.mem_cons_self).2.1 (List.cons.inj hr).1
    · have hlit : name ≠ "[::1]".toList := fun h =>
        absurd (hnamechars '[' (by rw [h]; decide)) (by decide)
      have hhostchars : ∀ c ∈ host, isNameChar c = true := by
        intro c hc
        have hchar := chars c hc
        simp only [isHostChar, Bool.and_eq_true, Bool.not_eq_true', bne_iff_ne] at hchar
        exact isNameChar_iff.mpr ⟨hchar.1, hchar.2, (plain c hc).1, (plain c hc).2.1⟩
      have htake := Words.takeWhile_append_stop hhostchars fun c hc => not_isNameChar (hbehind c hc)
      have hstop : ∀ c ∈ r.head?, isNameChar c = false := fun c hc =>
        not_isNameChar ((hend.resolve_left hlit c hc).imp_right fun h => by rw [h]; rfl)
      rw [hr, Words.takeWhile_append_stop hnamechars hstop] at htake
      exact htake ▸ hname
  | @literal s chars plain =>
    rcases loopbackHosts_cases hname with rfl | ⟨hsome, hnamechars⟩
    · have htake : ∀ l t : List Char, (∀ c ∈ l, c ≠ ']') →
          (l ++ ']' :: t).takeWhile (· != ']') = l := fun l t hl =>
        Words.takeWhile_append_stop (fun c hc => bne_iff_ne.mpr (hl c hc)) fun c hc =>
          Option.some.inj hc ▸ rfl
      have hinner : s ++ ']' :: behind = "::1".toList ++ ']' :: r := by
        rw [List.cons_append, List.append_assoc] at hr
        exact (List.cons.inj hr).2
      have hs : s = "::1".toList := by
        rw [← htake s behind fun c hc => (plain c hc).2, hinner, htake _ r]
        exact fun c hc => bne_iff_ne.mp
          (List.all_eq_true.mp (show "::1".toList.all (· != ']') = true by decide) c hc)
      rw [hs]
      exact hname
    · cases name with
      | nil => exact absurd hsome Bool.false_ne_true
      | cons d name =>
        have hd := hnamechars d List.mem_cons_self
        rw [← (List.cons.inj hr).1] at hd
        exact absurd hd (by decide)

/-- A userinfo in which a loopback host is shown starts like one. -/
lemma start_of_showsLoopback {info l : List Char} (hinfo : ∀ c ∈ info, endsAuthority c = false)
    (h : ShowsLoopback (info ++ '@' :: l)) : ∃ s ∈ loopbackStarts, s <+: info := by
  obtain ⟨name, hname, r, hr, hend⟩ := h
  have hat : '@' ∉ name := by
    rcases loopbackHosts_cases hname with rfl | ⟨-, hchars⟩
    · decide
    · exact fun h => absurd (hchars '@' h) (by decide)
  obtain ⟨t, rfl, rfl⟩ : ∃ t, info = name ++ t ∧ r = t ++ '@' :: l := by
    rcases List.append_eq_append_iff.mp hr with ⟨t, hname, ht⟩ | h
    · cases t with
      | nil => exact ⟨[], by rw [hname, List.append_nil, List.append_nil], ht.symm⟩
      | cons d t =>
        rw [hname, ← (List.cons.inj ht).1] at hat
        exact absurd (List.mem_append_right info List.mem_cons_self) hat
    · exact h
  rcases hend with rfl | hend
  · exact ⟨_, by decide, List.prefix_append _ t⟩
  · cases t with
    | nil => rcases hend '@' rfl with h | h <;> exact absurd h (by decide)
    | cons d t =>
      rcases hend d rfl with rfl | rfl
      · have hall : loopbackHosts.all (fun name => loopbackStarts.any
            (·.isPrefixOf (name ++ [':']))) = true := by decide
        obtain ⟨s, hs, hstart⟩ := List.any_eq_true.mp (List.all_eq_true.mp hall name hname)
        refine ⟨s, hs, (List.isPrefixOf_iff_prefix.mp hstart).trans ⟨t, ?_⟩⟩
        rw [List.append_assoc, List.singleton_append]
      · exact absurd (hinfo '/' (List.mem_append_right _ List.mem_cons_self)) (by decide)

/-- A text that starts like a loopback host shows one. -/
lemma showsLoopback_of_start {info l s : List Char} (hs : s ∈ loopbackStarts) (h : s <+: info) :
    ShowsLoopback (info ++ l) := by
  obtain ⟨t, rfl⟩ := h
  have hcolon : ∀ name, name ∈ loopbackHosts → ShowsLoopback (name ++ [':'] ++ t ++ l) := by
    intro name hname
    refine ⟨name, hname, ':' :: (t ++ l), by simp, Or.inr fun c hc => ?_⟩
    exact Or.inl (Option.some.inj hc).symm
  simp only [loopbackStarts, List.mem_cons, List.not_mem_nil, or_false] at hs
  rcases hs with rfl | rfl | rfl
  · exact hcolon "127.0.0.1".toList (by decide)
  · exact hcolon "localhost".toList (by decide)
  · exact ⟨_, by decide, t ++ l, List.append_assoc _ t l, Or.inl rfl⟩

/-- A URL that shows a loopback host before any scheme has the scheme `localhost`. -/
lemma scheme_of_showsLoopback {u : Url} (h : ShowsLoopback u.text) :
    u.scheme = "localhost".toList := by
  obtain ⟨name, hname, r, hr, hend⟩ := h
  obtain ⟨c, hc, halpha⟩ := u.scheme_head
  have hall : loopbackHosts.all (fun name => name.head?.any fun c =>
      !c.isAlpha || name == "localhost".toList) = true := by decide
  obtain ⟨d, hd, hlocal⟩ := (Option.any_eq_true _ _).mp (List.all_eq_true.mp hall name hname)
  have hhead : some c = some d :=
    calc some c = u.text.head? := by
            rw [Url.text, List.append_assoc, List.head?_append, hc]
            rfl
      _ = (name ++ r).head? := congrArg _ hr
      _ = some d := by
            rw [List.head?_append, hd]
            rfl
  rw [← Option.some.inj hhead, halpha, Bool.not_true, Bool.false_or, beq_iff_eq] at hlocal
  subst hlocal
  have hplain : ∀ c ∈ "localhost".toList, isSchemeChar c = true := List.all_eq_true.mp (by decide)
  have hstop : ∀ c ∈ r.head?, isSchemeChar c = false := by
    intro c hc
    rcases hend.resolve_left (by decide) c hc with rfl | rfl <;> rfl
  have htake := Words.takeWhile_append_stop u.scheme_chars
    (r := "://".toList ++ (u.authority ++ u.rest)) fun c hc => Option.some.inj hc ▸ rfl
  rw [← List.append_assoc] at htake
  exact htake.symm.trans ((congrArg _ hr).trans (Words.takeWhile_append_stop hplain hstop))

/-- A URL with one scheme of the web that shows a loopback host behind it has this host, or a
userinfo that starts like it. -/
lemma host_or_disguised {u : Url} {name s : List Char}
    (hname : name = "https".toList ∨ name = "http".toList)
    (htext : u.text = name ++ "://".toList ++ s) (hs : ShowsLoopback s) :
    u.host ∈ loopbackHosts ∨ Disguised u := by
  have hchars : ∀ c ∈ name, isSchemeChar c = true := by
    rcases hname with rfl | rfl <;> exact List.all_eq_true.mp (by decide)
  obtain ⟨hscheme, hrest⟩ := Url.scheme_eq_of_text hchars htext
  cases hinfo : u.userinfo with
  | none =>
    left
    refine IsHost.mem_loopbackHosts u.host_ok u.head_behind_host ?_
    rw [← hrest, Url.authority, Url.userinfoText, hinfo, Url.hostPort] at hs
    rw [← List.append_assoc]
    exact hs
  | some info =>
    right
    rw [← hrest, Url.authority, Url.userinfoText, hinfo, Option.map_some, Option.getD_some] at hs
    simp only [List.append_assoc, List.singleton_append] at hs
    exact .userinfo (hscheme ▸ hname) hinfo
      (start_of_showsLoopback (u.userinfo_chars info hinfo) hs)

/-- The guard lets a URL pass that is disguised. -/
lemma admitted_of_disguised {isMethod : String → Bool} {method : String} {u : Url}
    (h : Disguised u) : Admitted isMethod method (String.ofList u.text) := by
  rw [admitted_iff, String.toList_ofList]
  cases h with
  | scheme name =>
    refine ⟨0, 0, u.text, rfl, "localhost".toList, by decide,
      "://".toList ++ (u.authority ++ u.rest),
      ?_, Or.inr fun c hc => Or.inl (Option.some.inj hc).symm⟩
    rw [Url.text, name, List.append_assoc]
  | userinfo web some_info start =>
    obtain ⟨s, hs, hstart⟩ := start
    have hshows : ShowsLoopback (u.authority ++ u.rest) := by
      rw [Url.authority, Url.userinfoText, some_info, Option.map_some, Option.getD_some]
      simp only [List.append_assoc]
      exact showsLoopback_of_start hs hstart
    rcases web with web | web
    · exact ⟨1, 0, _, by rw [Url.text, web]; rfl, hshows⟩
    · exact ⟨0, 1, _, by rw [Url.text, web]; rfl, hshows⟩
  | repeated several text_eq shows => exact ⟨_, _, _, text_eq, shows⟩

/-- A URL that passes has a loopback host, or is disguised. -/
lemma host_or_disguised_of_admitted {isMethod : String → Bool} {method : String} {u : Url}
    (h : Admitted isMethod method (String.ofList u.text)) :
    u.host ∈ loopbackHosts ∨ Disguised u := by
  rw [admitted_iff, String.toList_ofList] at h
  obtain ⟨n, m, s, htext, hs⟩ := h
  rcases Nat.lt_or_ge (n + m) 2 with hfew | hseveral
  · obtain ⟨rfl, rfl⟩ | ⟨rfl, rfl⟩ | ⟨rfl, rfl⟩ :
        (n = 0 ∧ m = 0) ∨ (n = 1 ∧ m = 0) ∨ (n = 0 ∧ m = 1) := by omega
    · exact Or.inr (.scheme (scheme_of_showsLoopback (htext ▸ hs)))
    · exact host_or_disguised (Or.inl rfl) htext hs
    · exact host_or_disguised (Or.inr rfl) htext hs
  · exact Or.inr (.repeated hseveral htext hs)

/-- The guard lets a URL pass only for a loopback host if and only if the URL is not disguised, or
has a loopback host all the same. -/
theorem admitted_host_loopback_iff (isMethod : String → Bool) (method : String) (u : Url) :
    (Admitted isMethod method (String.ofList u.text) → u.host ∈ loopbackHosts) ↔
      (Disguised u → u.host ∈ loopbackHosts) := by
  constructor
  · exact fun h hdisguised => h (admitted_of_disguised hdisguised)
  · intro h hadmitted
    exact (host_or_disguised_of_admitted hadmitted).elim id h

/-- A URL with a loopback host and a port as its userinfo. -/
def misleadingUrl : Url where
  scheme := "https".toList
  userinfo := some "127.0.0.1:80".toList
  host := "evil.com".toList
  port := none
  rest := "/".toList
  scheme_head := ⟨'h', rfl, rfl⟩
  scheme_chars := List.all_eq_true.mp (by decide)
  userinfo_chars := by
    rintro s ⟨⟩ c hc
    exact Bool.not_eq_true' _ ▸ List.all_eq_true.mp
      (show "127.0.0.1:80".toList.all (!endsAuthority ·) = true by decide) c hc
  host_ok := .name (List.all_eq_true.mp (by decide)) fun c hc => by
    have hall :
        "evil.com".toList.all (fun c => c != ':' && c != '[' && c != ']') = true := by decide
    simpa [and_assoc] using List.all_eq_true.mp hall c hc
  port_digits := nofun
  rest_head := fun c hc => Option.some.inj hc ▸ rfl

/-- The guard lets a URL pass whose host is no loopback host. -/
theorem misleadingUrl_admitted :
    Admitted (fun _ => true) "GET" "https://127.0.0.1:80@evil.com/" ∧
      hostOf "https://127.0.0.1:80@evil.com/".toList = some "evil.com".toList ∧
      "evil.com".toList ∉ loopbackHosts := by
  have htext : misleadingUrl.text = "https://127.0.0.1:80@evil.com/".toList := by decide
  have hdisguised : Disguised misleadingUrl :=
    .userinfo (Or.inl rfl) rfl ⟨"127.0.0.1:".toList, by decide, by decide⟩
  refine ⟨?_, htext ▸ Url.hostOf_text misleadingUrl, by decide⟩
  have hadmitted : Admitted (fun _ => true) "GET" (String.ofList misleadingUrl.text) :=
    admitted_of_disguised hdisguised
  rwa [htext, String.ofList_toList] at hadmitted

end Orca.Auth
