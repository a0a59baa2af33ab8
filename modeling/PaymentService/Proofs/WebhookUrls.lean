import PaymentService.Values
import Mathlib.Data.List.TakeWhile

/-!
# A webhook URL is checked for an authority, not for a host

The grammar of a URL with an authority is stated on its own (`UrlSplit`, `AuthoritySplit`), and what
`urlparse` computes are its parts. `WebhookUrl` accepts the texts with a host, except that it also
takes an authority of user information or a port alone, and that `urlparse` may raise.
-/

namespace PaymentService

open Python

/-! ## The grammar -/

/-- `scheme://authority` and then nothing, a path, a query or a fragment. -/
structure UrlSplit (cs scheme authority rest : List Char) : Prop where
  eq : cs = scheme ++ ':' :: '/' :: '/' :: (authority ++ rest)
  scheme_head : ∃ c, scheme.head? = some c ∧ c.isAlpha
  scheme_chars : ∀ c ∈ scheme, Url.isSchemeChar c
  authority_chars : ∀ c ∈ authority, ¬ Url.isNetlocEnd c
  rest_head : ∀ c, rest.head? = some c → Url.isNetlocEnd c

/-- A name, or an address in brackets, of which the closing one may be missing at the end. -/
def IsHost (host port : List Char) : Prop :=
  (':' ∉ host ∧ '[' ∉ host ++ port) ∨ ∃ inner, ']' ∉ inner ∧
    (host = '[' :: inner ++ [']'] ∨ host = '[' :: inner ∧ port = [])

/-- User information up to the last `@`, a host, and a port from its colon on. -/
structure AuthoritySplit (authority userinfo host port : List Char) : Prop where
  eq : authority = userinfo ++ (host ++ port)
  userinfo_last : userinfo = [] ∨ userinfo.getLast? = some '@'
  no_at : '@' ∉ host ++ port
  port_head : port = [] ∨ port.head? = some ':'
  isHost : IsHost host port

/-- A URL of an allowed scheme whose authority has a host, if any host at all. -/
def HasHost (s : String) : Prop :=
  ∃ scheme authority rest userinfo host port, UrlSplit (Url.clean s) scheme authority rest
    ∧ String.ofList (scheme.map Char.toLower) ∈ ALLOWED_WEBHOOK_SCHEMES
    ∧ AuthoritySplit authority userinfo host port ∧ host ≠ []

/-- A URL of an allowed scheme whose authority is user information or a port, and no host. -/
def LacksHost (s : String) : Prop :=
  ∃ scheme authority rest userinfo port, UrlSplit (Url.clean s) scheme authority rest
    ∧ String.ofList (scheme.map Char.toLower) ∈ ALLOWED_WEBHOOK_SCHEMES
    ∧ authority ≠ [] ∧ AuthoritySplit authority userinfo [] port

/-! ## Parts of a text -/

section Parts

variable {c : Char} {cs p r : List Char}

theorem before_append (h : c ∉ p) : Url.before c (p ++ c :: r) = p := by
  rw [Url.before, List.takeWhile_append_of_pos fun d hd => by
    simpa using fun heq : d = c => h (heq ▸ hd)]
  simp

theorem afterFirst?_append (h : c ∉ p) : Url.afterFirst? c (p ++ c :: r) = some r := by
  rw [Url.afterFirst?, List.dropWhile_append_of_pos fun d hd => by
    simpa using fun heq : d = c => h (heq ▸ hd)]
  simp

theorem not_mem_before : c ∉ Url.before c cs := fun h => by
  simpa using List.mem_takeWhile_imp h

/-- A text is what stands before a character, and then nothing or the character and the rest. -/
theorem before_cases (c : Char) (cs : List Char) :
    (Url.afterFirst? c cs = none ∧ cs = Url.before c cs) ∨
      ∃ r, Url.afterFirst? c cs = some r ∧ cs = Url.before c cs ++ c :: r := by
  have h := (List.takeWhile_append_dropWhile (p := (· ≠ c)) (l := cs)).symm
  rcases hd : cs.dropWhile (· ≠ c) with _ | ⟨d, r⟩
  · exact .inl ⟨by rw [Url.afterFirst?, hd], by rw [hd, List.append_nil] at h; exact h⟩
  · have hdc : d = c := by
      have := List.head?_dropWhile_not (· ≠ c) cs
      rw [hd] at this
      simpa using this
    subst hdc
    exact .inr ⟨r, by rw [Url.afterFirst?, hd], by rw [hd] at h; exact h⟩

theorem afterLast_append (hr : c ∉ r) (hp : p = [] ∨ p.getLast? = some c) :
    Url.afterLast c (p ++ r) = r := by
  rw [Url.afterLast, List.reverse_append, List.takeWhile_append_of_pos fun d hd => by
    simpa using fun heq : d = c => hr (heq ▸ List.mem_reverse.1 hd)]
  have hnil : p.reverse.takeWhile (· ≠ c) = [] := by
    rcases hp with rfl | hp
    · rfl
    · obtain ⟨q, rfl⟩ := List.getLast?_eq_some_iff.1 hp
      simp
  rw [hnil, List.append_nil, List.reverse_reverse]

theorem afterLast_cases (c : Char) (cs : List Char) : ∃ p, cs = p ++ Url.afterLast c cs ∧
    (p = [] ∨ p.getLast? = some c) ∧ c ∉ Url.afterLast c cs := by
  refine ⟨(cs.reverse.dropWhile (· ≠ c)).reverse, ?_, ?_, ?_⟩
  · rw [Url.afterLast, ← List.reverse_append, List.takeWhile_append_dropWhile,
      List.reverse_reverse]
  · rcases hd : cs.reverse.dropWhile (· ≠ c) with _ | ⟨d, r⟩
    · exact .inl rfl
    · refine .inr ?_
      have := List.head?_dropWhile_not (· ≠ c) cs.reverse
      rw [hd] at this
      simpa using this
  · intro h
    simpa using List.mem_takeWhile_imp (List.mem_reverse.1 h)

end Parts

/-! ## The parser finds the parts of the grammar -/

section Split

variable {cs scheme authority rest userinfo host port : List Char}

theorem UrlSplit.splitScheme (h : UrlSplit cs scheme authority rest) :
    Url.splitScheme cs = (scheme.map Char.toLower, '/' :: '/' :: (authority ++ rest)) := by
  have hcolon : ':' ∉ scheme := fun hmem => absurd (h.scheme_chars _ hmem) (by decide)
  obtain ⟨c, hc, halpha⟩ := h.scheme_head
  rw [Url.splitScheme, h.eq, before_append hcolon, afterFirst?_append hcolon]
  simp only [hc]
  rw [if_pos (by simpa [halpha] using h.scheme_chars)]

theorem UrlSplit.netlocOf (h : UrlSplit cs scheme authority rest) :
    Url.netlocOf ('/' :: '/' :: (authority ++ rest)) = authority := by
  rw [Url.netlocOf, List.takeWhile_append_of_pos fun c hc => by
    simpa using h.authority_chars c hc]
  rcases rest with _ | ⟨c, rest⟩
  · simp
  · rw [List.takeWhile_cons_of_neg (by simpa using h.rest_head c rfl), List.append_nil]

theorem exists_urlSplit (hscheme : (Url.splitScheme cs).1 ≠ [])
    (hnetloc : Url.netlocOf (Url.splitScheme cs).2 ≠ []) : ∃ scheme rest,
      scheme.map Char.toLower = (Url.splitScheme cs).1 ∧
        UrlSplit cs scheme (Url.netlocOf (Url.splitScheme cs).2) rest := by
  rcases before_cases ':' cs with ⟨hnone, -⟩ | ⟨r, hsome, hcs⟩
  · simp [Url.splitScheme, hnone] at hscheme
  · unfold Url.splitScheme at hscheme hnetloc ⊢
    simp only [hsome] at hscheme hnetloc ⊢
    rcases hhead : (Url.before ':' cs).head? with _ | c
    · simp [hhead] at hscheme
    · simp only [hhead] at hscheme hnetloc ⊢
      by_cases hchars : (c.isAlpha && (Url.before ':' cs).all Url.isSchemeChar) = true
      · rw [if_pos hchars] at hscheme hnetloc ⊢
        simp only [Bool.and_eq_true, List.all_eq_true] at hchars
        simp only at hnetloc ⊢
        unfold Url.netlocOf at hnetloc ⊢
        split at hnetloc
        · rename_i tail
          refine ⟨_, tail.dropWhile fun c => !Url.isNetlocEnd c, rfl, ?_, ⟨c, hhead, hchars.1⟩,
            hchars.2, ?_, ?_⟩
          · simp only [List.takeWhile_append_dropWhile]
            exact hcs
          · intro d hd
            simpa using List.mem_takeWhile_imp hd
          · intro d hd
            have := List.head?_dropWhile_not (fun c => !Url.isNetlocEnd c) tail
            rw [hd] at this
            simpa using this
        · exact absurd rfl hnetloc
      · rw [if_neg hchars] at hscheme
        exact absurd rfl hscheme

theorem AuthoritySplit.afterLast (h : AuthoritySplit authority userinfo host port) :
    Url.afterLast '@' authority = host ++ port := by
  rw [h.eq, afterLast_append h.no_at h.userinfo_last]

/-- The host of an authority is empty or not, however the authority is split. -/
theorem AuthoritySplit.host_nil_iff (h : AuthoritySplit authority userinfo host port) :
    host = [] ↔ ∀ c, (Url.afterLast '@' authority).head? = some c → c = ':' := by
  rw [h.afterLast]
  constructor
  · rintro rfl c hc
    rcases h.port_head with rfl | hport
    · cases hc
    · rw [List.nil_append, hport] at hc
      exact (Option.some.inj hc).symm
  · intro hall
    rcases host with _ | ⟨d, host⟩
    · rfl
    · obtain rfl := hall d rfl
      rcases h.isHost with ⟨hcolon, -⟩ | ⟨inner, -, heq | ⟨heq, -⟩⟩
      · exact absurd List.mem_cons_self hcolon
      · cases heq
      · cases heq

/-- An authority the parser lets pass can be split. -/
theorem exists_authoritySplit
    (hbrackets : '[' ∈ authority → Url.bracketsOk authority = true) :
    ∃ userinfo host port, AuthoritySplit authority userinfo host port := by
  obtain ⟨userinfo, heq, hlast, hat⟩ := afterLast_cases '@' authority
  generalize hhp : Url.afterLast '@' authority = hp at heq hat
  rcases before_cases '[' hp with ⟨-, hbare⟩ | ⟨bracketed, hsome, hopen⟩
  · have hno : '[' ∉ hp := hbare ▸ not_mem_before
    rcases before_cases ':' hp with ⟨-, hname⟩ | ⟨r, -, hname⟩
    · exact ⟨userinfo, hp, [], by simpa using heq, hlast, by simpa using hat, .inl rfl,
        .inl ⟨hname ▸ not_mem_before, by simpa using hno⟩⟩
    · exact ⟨userinfo, Url.before ':' hp, ':' :: r, hname ▸ heq, hlast, hname ▸ hat, .inr rfl,
        .inl ⟨not_mem_before, hname ▸ hno⟩⟩
  · have hok := hbrackets (by rw [heq, hopen]; simp)
    rw [Url.bracketsOk, hhp, hsome] at hok
    simp only [Option.bind_some, Bool.and_eq_true, Bool.or_eq_true, decide_eq_true_eq] at hok
    obtain ⟨⟨hfirst, hport⟩, -⟩ := hok
    rw [hfirst, List.nil_append] at hopen
    rcases before_cases ']' bracketed with ⟨-, hinner⟩ | ⟨r, hclosed, hinner⟩
    · exact ⟨userinfo, hp, [], by simpa using heq, hlast, by simpa using hat, .inl rfl,
        .inr ⟨bracketed, hinner ▸ not_mem_before, .inr ⟨hopen, rfl⟩⟩⟩
    · have hsplit : hp = '[' :: Url.before ']' bracketed ++ [']'] ++ r := by
        rw [hopen]
        simpa using hinner
      rw [hclosed, Option.getD_some] at hport
      exact ⟨userinfo, _, r, hsplit ▸ heq, hlast, hsplit ▸ hat, hport,
        .inr ⟨_, not_mem_before, .inl rfl⟩⟩

end Split

/-! ## `WebhookUrl` -/

theorem urlparse_ok {s : String} {u : Url} (h : Url.urlparse s = .ok u) :
    u.scheme = String.ofList (Url.splitScheme (Url.clean s)).1
      ∧ u.netloc = String.ofList (Url.netlocOf (Url.splitScheme (Url.clean s)).2)
      ∧ ∃ userinfo host port, AuthoritySplit (Url.netlocOf (Url.splitScheme (Url.clean s)).2)
          userinfo host port := by
  simp only [Url.urlparse] at h
  split_ifs at h with hpair hok hnfkc
  cases h
  refine ⟨rfl, rfl, exists_authoritySplit fun hopen => ?_⟩
  simpa [hopen] using hok

theorem hasHost_or_lacksHost {s : String} {u : Url} (h : Url.urlparse s = .ok u)
    (hscheme : u.scheme ∈ ALLOWED_WEBHOOK_SCHEMES) (hnetloc : u.netloc ≠ "") :
    HasHost s ∨ LacksHost s := by
  obtain ⟨hs, hn, userinfo, host, port, hauthority⟩ := urlparse_ok h
  have hscheme' : (Url.splitScheme (Url.clean s)).1 ≠ [] := by
    intro hnil
    rw [hs, hnil] at hscheme
    revert hscheme
    decide
  have hnetloc' : Url.netlocOf (Url.splitScheme (Url.clean s)).2 ≠ [] := by
    intro hnil
    rw [hn, hnil] at hnetloc
    exact hnetloc rfl
  obtain ⟨scheme, rest, hlower, hurl⟩ := exists_urlSplit hscheme' hnetloc'
  have hallowed : String.ofList (scheme.map Char.toLower) ∈ ALLOWED_WEBHOOK_SCHEMES := by
    rwa [hlower, ← hs]
  by_cases hhost : host = []
  · subst hhost
    exact .inr ⟨scheme, _, rest, userinfo, port, hurl, hallowed, hnetloc', hauthority⟩
  · exact .inl ⟨scheme, _, rest, userinfo, host, port, hurl, hallowed, hauthority, hhost⟩

theorem not_hasHost_of_lacksHost {s : String} (h : LacksHost s) : ¬ HasHost s := by
  rintro ⟨scheme', authority', rest', userinfo', host', port', hurl', -, hauthority', hhost'⟩
  obtain ⟨scheme, authority, rest, userinfo, port, hurl, -, -, hauthority⟩ := h
  have hrest := hurl.splitScheme.symm.trans hurl'.splitScheme
  have heq : authority' = authority := by
    rw [← hurl.netlocOf, ← hurl'.netlocOf, (Prod.mk.inj hrest).2]
  subst heq
  exact hhost' (hauthority'.host_nil_iff.2 (hauthority.host_nil_iff.1 rfl))

/-- What `WebhookUrl` reads of a text of the grammar, unless the parser raises. -/
theorem UrlSplit.urlparse {s : String} {scheme authority rest : List Char}
    (h : UrlSplit (Url.clean s) scheme authority rest) {u : Url} (hu : Url.urlparse s = .ok u) :
    u.scheme = String.ofList (scheme.map Char.toLower) ∧ u.netloc = String.ofList authority := by
  obtain ⟨hs, hn, -⟩ := urlparse_ok hu
  rw [hs, hn, h.splitScheme]
  exact ⟨rfl, congrArg _ h.netlocOf⟩

theorem WebhookUrl.new_ok_iff {s : String} {u : Url} (h : Url.urlparse s = .ok u) :
    (∃ w, WebhookUrl.new (.value s) = .ok w) ↔
      u.scheme ∈ ALLOWED_WEBHOOK_SCHEMES ∧ u.netloc ≠ "" := by
  have hvalid : isWebhookUrl s = true ↔
      u.scheme ∈ ALLOWED_WEBHOOK_SCHEMES ∧ u.netloc ≠ "" := by
    simp [isWebhookUrl, h]
  rw [← hvalid]
  constructor
  · rintro ⟨w, hw⟩
    exact WebhookUrl.value_of_new hw ▸ w.valid
  · intro hs
    exact ⟨⟨s, hs⟩, WebhookUrl.new_value ⟨s, hs⟩⟩

theorem WebhookUrl.new_parsed {s : String} {u : Url} (h : Url.urlparse s = .ok u) :
    (∃ w, WebhookUrl.new (.value s) = .ok w) ∨
      ∃ text, WebhookUrl.new (.value s) = .error (.domainError text) := by
  unfold WebhookUrl.new
  simp only
  split
  · rename_i text herror
    rw [h] at herror
    cases herror
  · split_ifs
    · exact .inr ⟨_, rfl⟩
    · exact .inl ⟨_, rfl⟩
    all_goals exact .inr ⟨_, rfl⟩

theorem WebhookUrl.new_raised {s text : String} (h : Url.urlparse s = .error text) :
    WebhookUrl.new (.value s) = .error (.valueError text) := by
  unfold WebhookUrl.new
  simp only
  split
  · rename_i herror
    rw [h] at herror
    cases herror
    rfl
  · rename_i hok
    rw [h] at hok
    cases hok

/-- What the check is for: texts with a host are accepted, and the domain refuses any other. -/
structure AcceptsHosts (s : String) : Prop where
  accepts : (∃ w, WebhookUrl.new (.value s) = .ok w) ↔ HasHost s
  refuses : ¬ HasHost s → ∃ text, WebhookUrl.new (.value s) = .error (.domainError text)

theorem acceptsHosts_iff (s : String) :
    AcceptsHosts s ↔ (∀ text, Url.urlparse s ≠ .error text) ∧ ¬ LacksHost s := by
  rcases hu : Url.urlparse s with text | u
  · refine iff_of_false (fun h => ?_) fun h => h.1 text rfl
    have hnew := WebhookUrl.new_raised hu
    by_cases hhost : HasHost s
    · obtain ⟨w, hw⟩ := h.accepts.2 hhost
      rw [hnew] at hw
      cases hw
    · obtain ⟨text', hraised⟩ := h.refuses hhost
      rw [hnew] at hraised
      cases hraised
  · constructor
    · refine fun h => ⟨fun text herror => (nomatch herror), fun hlacks => ?_⟩
      refine not_hasHost_of_lacksHost hlacks (h.accepts.1 ((WebhookUrl.new_ok_iff hu).2 ?_))
      obtain ⟨scheme, authority, rest, userinfo, port, hurl, hallowed, hne, -⟩ := hlacks
      obtain ⟨hs, hn⟩ := hurl.urlparse hu
      exact ⟨hs ▸ hallowed, hn ▸ fun hnil => hne (String.ofList_eq_empty_iff.1 hnil)⟩
    · rintro ⟨-, hlacks⟩
      have haccepts : (∃ w, WebhookUrl.new (.value s) = .ok w) ↔ HasHost s := by
        rw [WebhookUrl.new_ok_iff hu]
        constructor
        · rintro ⟨hs, hn⟩
          exact (hasHost_or_lacksHost hu hs hn).resolve_right hlacks
        · rintro ⟨scheme, authority, rest, userinfo, host, port, hurl, hallowed, hsplit, hne⟩
          obtain ⟨hs, hn⟩ := hurl.urlparse hu
          refine ⟨hs ▸ hallowed, hn ▸ fun hnil => hne ?_⟩
          have hauthority := hsplit.eq
          rw [String.ofList_eq_empty_iff.1 hnil, List.nil_eq_append_iff,
            List.append_eq_nil_iff] at hauthority
          exact hauthority.2.1
      exact ⟨haccepts, fun hhost =>
        (WebhookUrl.new_parsed hu).resolve_left fun hok => hhost (haccepts.1 hok)⟩

theorem lacksHost_port : LacksHost "http://:80/hook" := by
  have hport : ∀ c ∈ ":80".toList, ¬ Url.isNetlocEnd c := by
    intro c hc
    have hall : ":80".toList.all (fun c => !Url.isNetlocEnd c) = true := by decide
    simpa using List.all_eq_true.1 hall c hc
  have hrest : ∀ c, "/hook".toList.head? = some c → Url.isNetlocEnd c := by
    intro c hc
    obtain rfl : '/' = c := Option.some.inj hc
    decide
  refine ⟨"http".toList, ":80".toList, "/hook".toList, [], ":80".toList, ?_, ?_, ?_, ?_⟩
  · exact ⟨by decide, ⟨'h', by decide⟩, List.all_eq_true.1 (by decide), hport, hrest⟩
  · decide
  · decide
  · exact ⟨rfl, .inl rfl, by decide, .inr rfl, .inl (by decide)⟩

/-- An authority that is only a port is accepted, and a bracket that is not closed is raised for
by the parser. -/
theorem not_acceptsHosts :
    ¬ AcceptsHosts "http://:80/hook" ∧ ¬ AcceptsHosts "http://[::1/hook" := by
  constructor
  · intro h
    have hvalid : isWebhookUrl "http://:80/hook" = true := by decide
    exact not_hasHost_of_lacksHost lacksHost_port
      (h.accepts.1 ⟨⟨_, hvalid⟩, WebhookUrl.new_value ⟨_, hvalid⟩⟩)
  · intro h
    have hnew := WebhookUrl.new_raised
      (show Url.urlparse "http://[::1/hook" = .error "Invalid IPv6 URL" by decide)
    have hnot : ¬ HasHost "http://[::1/hook" := by
      intro hhost
      obtain ⟨w, hw⟩ := h.accepts.2 hhost
      rw [hnew] at hw
      cases hw
    obtain ⟨text, hraised⟩ := h.refuses hnot
    rw [hnew] at hraised
    cases hraised

end PaymentService
