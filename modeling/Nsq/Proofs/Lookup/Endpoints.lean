import Nsq.Lookup.Address
import Mathlib.Data.List.TakeWhile
import Mathlib.Tactic.SplitIfs

/-!
# Endpoints of lookup services

An address of a lookup service names a URL in three parts (`Names`): a text with a slash is the URL
itself, and any other is the authority of one, which has the scheme `http` and no path yet. The
authority is all that stands up to the next slash, brackets, colons and question marks included.
Each address names one URL only, because a scheme has no colon and an authority no slash.

The endpoint is the same URL with the path completed (`Parts.complete`), and completing it again
changes nothing: `endpoint_normal`.
-/

namespace Nsq.Lookup

/-- A URL in its parts. -/
structure Parts where
  /-- What stands before `://`. -/
  scheme : List Char
  /-- What stands between that and the next slash. -/
  authority : List Char
  /-- The rest, which begins with the slash. -/
  path : List Char
deriving DecidableEq

namespace Parts

/-- The parts in writing. -/
def text (p : Parts) : List Char := p.scheme ++ "://".toList ++ (p.authority ++ p.path)

/-- The parts are those of a URL that can be queried. -/
structure IsUrl (p : Parts) : Prop where
  scheme : p.scheme ∈ schemes
  authority : p.authority ≠ []
  slashless : '/' ∉ p.authority
  path : p.path = [] ∨ ∃ rest, p.path = '/' :: rest

/-- The path that is queried: the given one, unless there is none or just a slash. -/
def queried (p : Parts) : List Char :=
  if p.path = [] ∨ p.path = ['/'] then "/lookup".toList else p.path

/-- The URL with the path that is queried. -/
def complete (p : Parts) : Parts := { p with path := p.queried }

variable {p q : Parts}

theorem queried_ne_nil (p : Parts) : p.queried ≠ [] := by
  unfold queried
  split_ifs with h
  · decide
  · exact fun hp => h (.inl hp)

theorem queried_ne_slash (p : Parts) : p.queried ≠ ['/'] := by
  unfold queried
  split_ifs with h
  · decide
  · exact fun hp => h (.inr hp)

theorem complete_complete (p : Parts) : p.complete.complete = p.complete := by
  have h : ¬(p.queried = [] ∨ p.queried = ['/']) :=
    not_or_intro p.queried_ne_nil p.queried_ne_slash
  exact congrArg (fun path => { p with path := path }) (if_neg h)

theorem IsUrl.complete (h : p.IsUrl) : p.complete.IsUrl where
  scheme := h.scheme
  authority := h.authority
  slashless := h.slashless
  path := by
    right
    show ∃ rest, p.queried = '/' :: rest
    unfold queried
    split_ifs with hp
    · exact ⟨"lookup".toList, rfl⟩
    · exact h.path.resolve_left fun hnil => hp (.inl hnil)

/-! ### Reading the parts back -/

theorem IsUrl.splitScheme?_text (h : p.IsUrl) :
    splitScheme? p.text = some (p.scheme, p.authority ++ p.path) := by
  have hs : p.scheme = "http".toList ∨ p.scheme = "https".toList := by
    simpa [schemes] using h.scheme
  rcases hs with hs | hs <;> simp [text, hs, splitScheme?]

theorem IsUrl.behindScheme_text (h : p.IsUrl) : behindScheme p.text = p.authority ++ p.path := by
  rw [behindScheme, h.splitScheme?_text]

theorem IsUrl.takeWhile_text (h : p.IsUrl) :
    (p.authority ++ p.path).takeWhile (· != '/') = p.authority := by
  have hall : ∀ c ∈ p.authority, (c != '/') = true := by
    intro c hc
    rw [bne_iff_ne]
    rintro rfl
    exact h.slashless hc
  rw [List.takeWhile_append_of_pos hall]
  rcases h.path with hp | ⟨rest, hp⟩ <;> simp [hp]

theorem IsUrl.dropWhile_text (h : p.IsUrl) :
    (p.authority ++ p.path).dropWhile (· != '/') = p.path := by
  have hcut := List.takeWhile_append_dropWhile (p := (· != '/')) (l := p.authority ++ p.path)
  rw [h.takeWhile_text] at hcut
  exact List.append_cancel_left hcut

/-- A URL is written in one way only. -/
theorem IsUrl.eq_of_text_eq (hp : p.IsUrl) (hq : q.IsUrl) (h : p.text = q.text) : p = q := by
  have hsplit := hp.splitScheme?_text
  rw [h, hq.splitScheme?_text] at hsplit
  obtain ⟨hs, hrest⟩ := Prod.mk.inj (Option.some.inj hsplit)
  have ha : q.authority = p.authority := by rw [← hq.takeWhile_text, hrest, hp.takeWhile_text]
  have hpath : q.path = p.path := by rw [← hq.dropWhile_text, hrest, hp.dropWhile_text]
  cases p
  cases q
  simp_all

theorem slash_mem_text (p : Parts) : '/' ∈ p.text := by simp [text]

end Parts

/-- An address, as its characters, names a URL: it is the URL, or the authority of one. -/
inductive Names (addr : List Char) : Parts → Prop
  | url {p : Parts} (hp : p.IsUrl) (h : addr = p.text) : Names addr p
  | bare (hne : addr ≠ []) (h : '/' ∉ addr) : Names addr ⟨"http".toList, addr, []⟩

variable {addr : List Char} {p q : Parts}

theorem Names.isUrl (h : Names addr p) : p.IsUrl := by
  cases h with
  | url hp _ => exact hp
  | bare hne h => exact ⟨List.mem_cons_self, hne, h, .inl rfl⟩

/-- **An address names one URL only.** -/
theorem Names.unique (hp : Names addr p) (hq : Names addr q) : p = q := by
  cases hp with
  | url hp h =>
    cases hq with
    | url hq h' => exact hp.eq_of_text_eq hq (h.symm.trans h')
    | bare _ h' => exact absurd (h ▸ p.slash_mem_text) h'
  | bare _ h =>
    cases hq with
    | url _ h' => exact absurd (h' ▸ q.slash_mem_text) h
    | bare _ _ => rfl

/-! ### Addresses -/

theorem eq_of_splitScheme? {cs scheme rest : List Char}
    (h : splitScheme? cs = some (scheme, rest)) : cs = scheme ++ "://".toList ++ rest := by
  fun_induction splitScheme? cs generalizing scheme with
  | case1 => exact absurd h (by simp)
  | case2 rest' =>
    obtain ⟨rfl, rfl⟩ := Prod.mk.inj (Option.some.inj h)
    rfl
  | case3 c cs _ ih =>
    obtain ⟨⟨scheme', rest'⟩, hcs, heq⟩ := Option.map_eq_some_iff.mp h
    obtain ⟨rfl, rfl⟩ := Prod.mk.inj heq
    rw [ih hcs]
    rfl

/-- A text is cut in two behind its scheme. -/
theorem isUrl_of_cut {scheme rest : List Char} (hs : scheme ∈ schemes)
    (ha : (rest.takeWhile (· != '/')).isEmpty = false) :
    Parts.IsUrl ⟨scheme, rest.takeWhile (· != '/'), rest.dropWhile (· != '/')⟩ where
  scheme := hs
  authority := by simpa using ha
  slashless := by
    intro hmem
    simpa using List.mem_takeWhile_imp hmem
  path := by
    cases hd : rest.dropWhile (· != '/') with
    | nil => exact .inl rfl
    | cons c cs =>
      right
      have hc := List.head_dropWhile_not (· != '/') (l := rest) (by simp [hd])
      simp only [hd, List.head_cons, bne_eq_false_iff_eq] at hc
      exact ⟨cs, by rw [hc]⟩

theorem names_of_checkAddress {s : String} (h : checkAddress s = .ok ()) :
    ∃ p, Names s.toList p := by
  unfold checkAddress at h
  dsimp only at h
  split_ifs at h with hslash
  · -- a URL: cut behind the scheme, and again at the next slash
    split at h
    · exact absurd h (by simp)
    · rename_i scheme rest hsplit
      split_ifs at h with hs ha
      refine ⟨_, .url (isUrl_of_cut hs (Bool.eq_false_iff.mpr ha)) ?_⟩
      rw [Parts.text, List.takeWhile_append_dropWhile]
      exact eq_of_splitScheme? hsplit
  · have hne : s.toList ≠ [] := by
      intro hnil
      rw [hnil] at h
      exact absurd h (by simp [splitPort?])
    exact ⟨_, .bare hne (by simpa using hslash)⟩

/-- The writing of a URL is an address. -/
theorem checkAddress_text (h : p.IsUrl) : checkAddress (String.ofList p.text) = .ok () := by
  have hslash : p.text.contains '/' = true := by
    simpa using p.slash_mem_text
  unfold checkAddress
  simp only [String.toList_ofList, hslash, if_true, h.splitScheme?_text, h.takeWhile_text]
  rw [if_neg (not_not_intro h.scheme), if_neg (by simpa using h.authority)]

theorem endpoint_of_names {s : String} (h : Names s.toList p) :
    endpoint s = String.ofList p.complete.text := by
  have hp := h.isUrl
  have hurl : (if s.toList.contains '/' then s.toList else "http://".toList ++ s.toList) =
      p.text := by
    cases h with
    | url _ h => rw [h, if_pos (by simpa using p.slash_mem_text)]
    | bare _ h => rw [if_neg (by simpa using h)]; simp [Parts.text]
  unfold endpoint
  dsimp only
  rw [hurl, hp.behindScheme_text, hp.dropWhile_text]
  split_ifs with hnil hone
  · simp [Parts.text, Parts.complete, Parts.queried, hnil]
  · simp [Parts.text, Parts.complete, Parts.queried, hone]
  · simp [Parts.complete, Parts.queried, hnil, hone]

/-- **Endpoints are normal forms.** An address names exactly one URL, and so does its endpoint,
which is an address again: the URL has the same scheme, which is `http` for a bare host and port,
the same authority, and the path that is queried, which is never empty. The endpoint of an endpoint
is the endpoint itself. -/
theorem endpoint_normal (s : String) (h : checkAddress s = .ok ()) :
    checkAddress (endpoint s) = .ok () ∧ endpoint (endpoint s) = endpoint s ∧
      ∃ p q : Parts, (∀ p', Names s.toList p' ↔ p' = p) ∧
        (∀ q', Names (endpoint s).toList q' ↔ q' = q) ∧
        (endpoint s).toList = q.text ∧ q.scheme = p.scheme ∧ q.authority = p.authority ∧
        q.path = p.queried ∧ q.path ≠ [] := by
  obtain ⟨p, hp⟩ := names_of_checkAddress h
  have hend := endpoint_of_names hp
  have hurl := hp.isUrl.complete
  have htext : (endpoint s).toList = p.complete.text := by rw [hend, String.toList_ofList]
  have hq : Names (endpoint s).toList p.complete := .url hurl htext
  refine ⟨?_, ?_, p, p.complete, ?_, ?_, htext, rfl, rfl, rfl, p.queried_ne_nil⟩
  · rw [hend]
    exact checkAddress_text hurl
  · rw [endpoint_of_names hq, Parts.complete_complete, ← hend]
  · exact fun p' => ⟨fun hp' => hp'.unique hp, fun heq => heq ▸ hp⟩
  · exact fun q' => ⟨fun hq' => hq'.unique hq, fun heq => heq ▸ hq⟩

/-- A second scheme separator stands behind the authority, and is part of the path. -/
theorem endpoint_of_nested_separator :
    checkAddress "http://[::1]:://x/" = .ok () ∧
      endpoint "http://[::1]:://x/" = "http://[::1]:://x/" ∧
      endpoint (endpoint "http://[::1]:://x/") = "http://[::1]:://x/" := by
  have hok : checkAddress "http://[::1]:://x/" = .ok () := rfl
  have hend : endpoint "http://[::1]:://x/" = "http://[::1]:://x/" := rfl
  obtain ⟨-, hfix, -⟩ := endpoint_normal "http://[::1]:://x/" hok
  exact ⟨hok, hend, hfix.trans hend⟩

example : endpoint "[::1]:4161" = "http://[::1]:4161/lookup" := rfl

end Nsq.Lookup
