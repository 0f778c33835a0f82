import Idhan.Downloader.Cookies

/-!
# Whose cookies a request carries

The jar after any history of responses, and the cookies that a later request is given.
`normalizeHost` cuts off what stands before the first colon or slash and two bytes behind it, so
that two IPv6 addresses can become one host; and the domain of a cookie can become empty.  Where
neither happens, a cookie goes back to where it came from.

The jar is traced back to the headers: `exists_setBy` finds, for every cookie in it, the response
and the header that have set it.  What a request is given is a matter of one cookie then.
`cookies_stay_on_host` compares the host that set it with the host of the request: without a domain
they are one, and with a domain both are within it.  `address_prefix_is_lost` is a cookie of one
IPv6 address that is sent to another.
-/

namespace Idhan.Downloader

open List

/-- A response whose cookies are kept, with the time at which it arrived. -/
structure CookieResponse where
  url : Text
  headers : HttpHeaders
  now : ℤ
  deriving DecidableEq, Repr

/-- The jar after a history of responses. -/
def Jar.keepAll (libraries : Libraries) (responses : List CookieResponse) (jar : Jar) :
    Except String Jar :=
  responses.foldlM
    (fun jar response => do
      let collected ← collectResponseCookies libraries response.now response.url response.headers
      return jar.keep collected)
    jar

/-- The response has a header that sets the cookie. -/
structure SetBy (libraries : Libraries) (response : CookieResponse) (parsed : SetCookie)
    (cookie : Cookie) : Prop where
  header : ∃ header ∈ response.headers.all "set-cookie".toList,
    parseSetCookie libraries header = some parsed
  domain : ∃ target, targetFor libraries response.url = .ok (some target) ∧
    cookieDomain target parsed = .ok (some (cookie.domain, cookie.hostOnly))
  name : cookie.name = parsed.name
  value : cookie.value = parsed.value

/-! ## The cookies of the jar come from the history -/

section Jar

variable {cookies : List Cookie} {cookie held : Cookie} {jar : Jar}

theorem mem_upsert (h : held ∈ upsert cookies cookie) : held ∈ cookies ∨ held = cookie := by
  unfold upsert at h
  split at h
  · exact (mem_append.1 h).imp_right mem_singleton.1
  · exact (mem_or_eq_of_mem_set h)

/-- The cookie is in one of the two parts of the jar. -/
def Jar.Holds (jar : Jar) (cookie : Cookie) : Prop :=
  cookie ∈ jar.overlay ∨ cookie ∈ jar.store

/-- The cookie is one of those to be kept. -/
def ResponseCookies.Keeps (collected : ResponseCookies) (cookie : Cookie) : Prop :=
  cookie ∈ collected.persistent ∨ cookie ∈ collected.session

theorem holds_setPersistent (h : (jar.setPersistent cookie).Holds held) :
    jar.Holds held ∨ held = cookie := by
  unfold Jar.setPersistent at h
  split at h
  · exact Or.inl h
  · rcases h with h | h
    · exact Or.inl (Or.inl h)
    · exact (mem_upsert h).imp_left Or.inr

theorem holds_setSession (h : (jar.setSession cookie).Holds held) :
    jar.Holds held ∨ held = cookie := by
  rcases h with h | h
  · exact (mem_upsert h).imp_left Or.inl
  · exact Or.inl (Or.inr h)

theorem holds_erase (h : (jar.erase cookie).Holds held) : jar.Holds held :=
  h.imp (fun h => (mem_filter.1 h).1) fun h => (mem_filter.1 h).1

/-- What is done with each of several cookies adds no others. -/
theorem holds_foldl {put : Jar → Cookie → Jar} {added : List Cookie}
    (hput : ∀ jar cookie, (put jar cookie).Holds held → jar.Holds held ∨ held = cookie)
    (h : (added.foldl put jar).Holds held) : jar.Holds held ∨ held ∈ added := by
  induction added generalizing jar with
  | nil => exact Or.inl h
  | cons cookie added ih =>
    rcases ih h with h | h
    · exact (hput jar cookie h).imp_right fun heq => mem_cons.2 (Or.inl heq)
    · exact Or.inr (mem_cons_of_mem _ h)

theorem holds_foldl_erase {removed : List Cookie} (h : (removed.foldl Jar.erase jar).Holds held) :
    jar.Holds held := by
  induction removed generalizing jar with
  | nil => exact h
  | cons cookie removed ih => exact holds_erase (ih h)

/-- What the jar holds once the cookies of a response are kept. -/
theorem holds_keep {collected : ResponseCookies} (h : (jar.keep collected).Holds held) :
    jar.Holds held ∨ collected.Keeps held := by
  rcases holds_foldl (fun _ _ => holds_setSession) (holds_foldl_erase h) with h | h
  · rcases holds_foldl (fun _ _ => holds_setPersistent) h with h | h
    · exact Or.inl h
    · exact Or.inr (Or.inl h)
  · exact Or.inr (Or.inr h)

end Jar

section Collecting

variable {libraries : Libraries} {now : ℤ} {target : RequestTarget} {held : Cookie}

theorem keeps_sortCookie {parsed : SetCookie} {cookie : Cookie} {collected : ResponseCookies}
    (h : (sortCookie now parsed cookie collected).Keeps held) :
    collected.Keeps held ∨ ∃ expires, held = { cookie with expires := expires } := by
  have happend : ∀ {cookies : List Cookie} {expires : Option ℤ},
      held ∈ cookies ++ [{ cookie with expires := expires }] →
      held ∈ cookies ∨ ∃ expires, held = { cookie with expires := expires } :=
    fun h => (mem_append.1 h).imp_right fun h => ⟨_, mem_singleton.1 h⟩
  unfold sortCookie at h
  split at h
  · split at h
    · exact Or.inl h
    · rcases h with h | h
      · exact (happend h).imp_left Or.inl
      · exact Or.inl (Or.inr h)
  · split at h
    · exact Or.inl h
    · rcases h with h | h
      · exact (happend h).imp_left Or.inl
      · exact Or.inl (Or.inr h)
  · rcases h with h | h
    · exact Or.inl (Or.inl h)
    · exact (@happend _ cookie.expires h).imp_left Or.inr

/-- The header sets the cookie for the host of the target. -/
def Sets (libraries : Libraries) (target : RequestTarget) (parsed : SetCookie) (header : Text)
    (cookie : Cookie) : Prop :=
  parseSetCookie libraries header = some parsed ∧
    cookieDomain target parsed = .ok (some (cookie.domain, cookie.hostOnly)) ∧
    cookie.name = parsed.name ∧ cookie.value = parsed.value

/-- One round of the loop keeps what was kept, and what its header sets. -/
theorem returns_collectCookie (collected : ResponseCookies) (header : Text) :
    Returns (collectCookie libraries now target collected header) fun collected' =>
      ∀ held, collected'.Keeps held → collected.Keeps held ∨ ∃ parsed,
      Sets libraries target parsed header held := by
  unfold collectCookie
  cases hparsed : parseSetCookie libraries header with
  | none => exact .ok fun held h => Or.inl h
  | some parsed =>
    intro collected' h held hheld
    obtain ⟨found, hfound, h⟩ := bind_eq_ok_iff.1 h
    cases found with
    | none =>
      cases h
      exact Or.inl hheld
    | some found =>
      cases h
      refine (keeps_sortCookie hheld).imp_right ?_
      rintro ⟨expires, rfl⟩
      exact ⟨parsed, hparsed, hfound, rfl, rfl⟩

/-- What is kept of a response was set by one of its headers. -/
theorem returns_collectResponseCookies (response : CookieResponse) :
    Returns (collectResponseCookies libraries response.now response.url response.headers)
      fun collected =>
      ∀ held, collected.Keeps held → ∃ parsed, SetBy libraries response parsed held := by
  have hnothing : ∀ held, ¬(⟨[], [], []⟩ : ResponseCookies).Keeps held :=
    fun held h => h.elim not_mem_nil not_mem_nil
  intro collected h
  obtain ⟨target, htarget, h⟩ := bind_eq_ok_iff.1 h
  cases target with
  | none =>
    cases h
    exact fun held hheld => absurd hheld (hnothing held)
  | some target =>
    refine Returns.foldlM (I := fun collected => ∀ held, collected.Keeps held →
      ∃ parsed, SetBy libraries response parsed held)
        (fun held hheld => absurd hheld (hnothing held)) ?_ collected h
    intro header hheader collected hcollected
    refine (returns_collectCookie collected header).mono fun collected' hround held hheld => ?_
    rcases hround held hheld with hheld | ⟨parsed, hparsed, hdomain, hname, hvalue⟩
    · exact hcollected held hheld
    · exact ⟨parsed, ⟨header, hheader, hparsed⟩, ⟨target, htarget, hdomain⟩, hname, hvalue⟩

/-- **Every cookie of the jar was set by a response of the history.** -/
theorem exists_setBy {responses : List CookieResponse} {jar : Jar}
    (hrun : Jar.keepAll libraries responses ⟨[], []⟩ = .ok jar) (hheld : jar.Holds held) :
    ∃ response ∈ responses, ∃ parsed, SetBy libraries response parsed held := by
  refine Returns.foldlM (I := fun jar => ∀ held, jar.Holds held → ∃ response ∈ responses, ∃ parsed,
    SetBy libraries response parsed held) ?_ ?_ jar hrun held hheld
  · exact fun held h => absurd h fun h => h.elim not_mem_nil not_mem_nil
  · intro response hresponse jar hjar
    refine (returns_collectResponseCookies response).bind fun collected hcollected => .ok
      fun held h => ?_
    rcases holds_keep h with h | h
    · exact hjar held h
    · exact ⟨response, hresponse, hcollected held h⟩

end Collecting

/-! ## Hosts -/

/-- A text without the separators that `normalizeHost` looks for. -/
def PlainHost (host : Text) : Prop :=
  ∀ c ∈ host, c ≠ ':' ∧ c ≠ '/'

instance (host : Text) : Decidable (PlainHost host) :=
  inferInstanceAs (Decidable (∀ c ∈ host, _))

variable {host domain : Text} {hostOnly : Bool}

theorem normalizeHost_of_plainHost (h : PlainHost host) :
    normalizeHost host = .ok (lowered host) := by
  have hnone : host.findIdx? (fun c => c ∈ "://".toList) = none := by
    rw [findIdx?_eq_none_iff]
    intro c hc
    simp [h c hc]
  unfold normalizeHost
  rw [hnone]

/-- A host name without colons is no address in brackets. -/
theorem Libraries.plainHost_hostname {libraries : Libraries} {text : Text} {base : Option Url}
    {url : Url} (h : libraries.parseUrl text base = some url) (hcolon : ':' ∉ url.hostname) :
    PlainHost url.hostname := by
  rcases libraries.hostname_shape text base url h with hplain | ⟨address, haddress, -, hcolons⟩
  · exact hplain
  · have hmem : ':' ∈ address := count_pos_iff.1 (by omega)
    refine absurd ?_ hcolon
    rw [haddress]
    exact mem_append_left _ (mem_cons_of_mem _ hmem)

/-- The host is the domain, or it ends in a dot and the domain. -/
def Within (domain host : Text) : Prop :=
  host = domain ∨ ∃ labels, host = labels ++ '.' :: domain

theorem within_of_isSubdomainOf (h : isSubdomainOf host domain) : Within domain host := by
  unfold isSubdomainOf at h
  split at h
  · cases h
  split at h
  · cases h
  rename_i hlen hsuffix
  obtain ⟨front, rfl⟩ : domain <:+ host := by simpa using hsuffix
  simp only [length_append, Nat.add_sub_cancel] at h hlen
  -- the byte before the domain is the last one of what stands in front of it
  rcases eq_nil_or_concat front with rfl | ⟨labels, c, rfl⟩
  · simp at hlen
  · refine Or.inr ⟨labels, ?_⟩
    simp at h
    simp [h]

theorem cookieDomainMatches_iff :
    cookieDomainMatches host domain hostOnly ↔ host = domain ∨ hostOnly = false ∧
    isSubdomainOf host domain := by
  unfold cookieDomainMatches
  by_cases heq : host = domain <;> cases hostOnly <;> simp [heq]

theorem within_of_cookieDomainMatches (h : cookieDomainMatches host domain hostOnly) :
    Within domain host := by
  rcases cookieDomainMatches_iff.1 h with heq | ⟨-, hsub⟩
  · exact Or.inl heq
  · exact within_of_isSubdomainOf hsub

/-! ## Cookies go back to where they came from -/

/-- The response is not from an IPv6 address, and the domains of its cookies have neither colons nor
slashes and are not empty once a leading dot is removed. -/
def PlainResponse (libraries : Libraries) (response : CookieResponse) : Prop :=
  (∀ url ∈ libraries.parseUrl response.url none, ':' ∉ url.hostname) ∧
    ∀ header ∈ response.headers.all "set-cookie".toList, ∀ parsed ∈ parseSetCookie libraries header,
      parsed.domain ≠ [] → withoutDot parsed.domain ≠ [] ∧ PlainHost (withoutDot parsed.domain)

/-- A cookie of `setter` may go to `host`: it is the same host if the cookie has no domain, and both
are within the domain if it has one. -/
def Stays (parsed : SetCookie) (setter host : Text) : Prop :=
  (parsed.domain = [] → lowered host = lowered setter) ∧
    (parsed.domain ≠ [] → withoutDot parsed.domain ≠ [] ∧
      Within (lowered (withoutDot parsed.domain)) (lowered setter) ∧
      Within (lowered (withoutDot parsed.domain)) (lowered host))

section Requests

variable {libraries : Libraries} {url : Text} {parsedUrl : Url} {target : RequestTarget}
  {cookie : Cookie} {now : ℤ} {host : Text}

/-- The host of a target is the host name of its URL in lower case. -/
theorem host_of_targetFor (hurl : libraries.parseUrl url none = some parsedUrl)
    (hcolon : ':' ∉ parsedUrl.hostname) (htarget : targetFor libraries url = .ok (some target)) :
    target.host = lowered parsedUrl.hostname := by
  unfold targetFor at htarget
  rw [hurl] at htarget
  simp only [normalizeHost_of_plainHost (libraries.plainHost_hostname hurl hcolon)] at htarget
  cases htarget
  rfl

theorem matchesRequest_iff {path : Text} {secure : Bool} :
    matchesRequest cookie host path secure now ↔ expired cookie now = false ∧
    (cookie.secure → secure) ∧ cookieDomainMatches host cookie.domain cookie.hostOnly ∧
      cookiePathMatches path cookie.path := by
  unfold matchesRequest
  cases expired cookie now <;> cases cookie.secure <;> cases secure <;>
    cases cookieDomainMatches host cookie.domain cookie.hostOnly <;> simp

/-- What goes into a request is in the jar, and its domain matches. -/
theorem of_mem_matchingCookies {jar : Jar} (h : cookie ∈ matchingCookies jar target now) :
    jar.Holds cookie ∧ cookieDomainMatches target.host cookie.domain cookie.hostOnly := by
  rw [matchingCookies, mem_insertionSort, mem_append] at h
  rcases h with h | h
  · obtain ⟨hheld, hmatches⟩ := mem_filter.1 h
    exact ⟨Or.inl hheld, (matchesRequest_iff.1 hmatches).2.2.1⟩
  · obtain ⟨hheld, hmatches⟩ := mem_filter.1 (mem_filter.1 h).1
    exact ⟨Or.inr hheld, (matchesRequest_iff.1 hmatches).2.2.1⟩

/-- A cookie that a response has set and that matches a host stays where it belongs. -/
theorem SetBy.stays {response : CookieResponse} {parsed : SetCookie}
    (hset : SetBy libraries response parsed cookie) (hplain : PlainResponse libraries response)
    (hurl : libraries.parseUrl response.url none = some parsedUrl)
    (hmatches : cookieDomainMatches (lowered host) cookie.domain cookie.hostOnly) :
    Stays parsed parsedUrl.hostname host := by
  obtain ⟨header, hheader, hparsed⟩ := hset.header
  obtain ⟨target, htarget, hdomain⟩ := hset.domain
  have hhost := host_of_targetFor hurl (hplain.1 parsedUrl hurl) htarget
  unfold cookieDomain at hdomain
  constructor
  · intro hempty
    rw [if_pos hempty] at hdomain
    injection hdomain with hdomain
    injection hdomain with hdomain
    injection hdomain with hdomain honly
    rw [← honly, ← hdomain] at hmatches
    -- a cookie for one host only matches that host
    rcases cookieDomainMatches_iff.1 hmatches with heq | ⟨honly, -⟩
    · exact heq.trans hhost
    · cases honly
  · intro hgiven
    obtain ⟨hne, hplain⟩ := hplain.2 header hheader parsed hparsed hgiven
    rw [if_neg hgiven, normalizeHost_of_plainHost hplain] at hdomain
    obtain ⟨domain, h, hdomain⟩ := bind_eq_ok_iff.1 hdomain
    cases h
    injection hdomain with hdomain
    split at hdomain
    · rename_i hserver
      injection hdomain with hdomain
      injection hdomain with hdomain honly
      rw [← honly, ← hdomain] at hmatches
      rw [hhost] at hserver
      exact ⟨hne, within_of_cookieDomainMatches hserver, within_of_cookieDomainMatches hmatches⟩
    · cases hdomain

/-- **A cookie that a request carries was set by a response before it, and it stays where it
belongs**: without a domain the request goes to the host of the response, and with a domain both are
within it.  That is so where no host is an IPv6 address and no domain is empty or has a colon or a
slash. -/
theorem cookies_stay_on_host {responses : List CookieResponse} {jar : Jar} {now : ℤ}
    (hrun : Jar.keepAll libraries responses ⟨[], []⟩ = .ok jar)
    (hplain : ∀ response ∈ responses, PlainResponse libraries response)
    (hurl : libraries.parseUrl url none = some parsedUrl) (hcolon : ':' ∉ parsedUrl.hostname)
    (htarget : targetFor libraries url = .ok (some target))
    (hsent : cookie ∈ matchingCookies jar target now) :
    (∃ response ∈ responses, ∃ parsed, SetBy libraries response parsed cookie) ∧
      ∀ response ∈ responses, ∀ parsed, SetBy libraries response parsed cookie →
        ∀ setter ∈ libraries.parseUrl response.url none,
        Stays parsed setter.hostname parsedUrl.hostname := by
  obtain ⟨hheld, hmatches⟩ := of_mem_matchingCookies hsent
  refine ⟨exists_setBy hrun hheld, fun response hresponse parsed hset setter hsetter => ?_⟩
  rw [host_of_targetFor hurl hcolon htarget] at hmatches
  exact hset.stays (hplain response hresponse) hsetter hmatches

end Requests

/-! ## Two addresses that become one host -/

/-- A URL parser that knows `https://example.com/` and two IPv6 addresses. -/
def addresses : Libraries where
  getdate _ := -1
  parseUrl text _ :=
    if text = "https://[2001:db8::1]/".toList then
      some ⟨text, "https:".toList, "[2001:db8::1]".toList, "[2001:db8::1]".toList, "/".toList⟩
    else if text = "https://[2002:db8::1]/".toList then
      some ⟨text, "https:".toList, "[2002:db8::1]".toList, "[2002:db8::1]".toList, "/".toList⟩
    else if text = "https://example.com/".toList then
      some ⟨text, "https:".toList, "example.com".toList, "example.com".toList, "/".toList⟩
    else none
  hostname_shape := by
    intro text base url h
    split at h
    · cases h
      exact Or.inr ⟨"2001:db8::1".toList, rfl, by decide⟩
    split at h
    · cases h
      exact Or.inr ⟨"2002:db8::1".toList, rfl, by decide⟩
    split at h
    · cases h
      exact Or.inl (show ∀ c ∈ "example.com".toList, c ≠ ':' ∧ c ≠ '/' by simp)
    · exact nomatch h

/-- A page that sets the cookie `a=1`. -/
def setsCookie (url : String) : CookieResponse :=
  ⟨url.toList, [("Set-Cookie".toList, "a=1".toList)], 0⟩

/-- The cookie `a=1` of a host. -/
def cookieOf (host : String) : Cookie :=
  ⟨"a".toList, "1".toList, host.toList, "/".toList, false, true, none⟩

/-- What the header `a=1` is read as. -/
def parsedCookie : SetCookie :=
  ⟨"a".toList, "1".toList, [], [], false, false, none, none⟩

/-- The cookie of `https://example.com/` goes back to it. -/
theorem cookies_stay_on_host_example :
    let responses := [setsCookie "https://example.com/"]
    (∃ response ∈ responses, ∃ parsed, SetBy addresses response parsed (cookieOf "example.com")) ∧
      ∀ response ∈ responses, ∀ parsed, SetBy addresses response parsed (cookieOf "example.com") →
        ∀ setter ∈ addresses.parseUrl response.url none,
        Stays parsed setter.hostname "example.com".toList :=
  have hplain :
      ∀ response ∈ [setsCookie "https://example.com/"], PlainResponse addresses response := by
    unfold PlainResponse
    decide
  have hsent : cookieOf "example.com" ∈ matchingCookies ⟨[cookieOf "example.com"], []⟩
      ⟨"example.com".toList, "/".toList, true⟩ 0 := by decide
  cookies_stay_on_host (show Jar.keepAll addresses _ _ =
    .ok ⟨[cookieOf "example.com"], []⟩ by decide) hplain
    (show addresses.parseUrl "https://example.com/".toList none =
      some ⟨_, "https:".toList, "example.com".toList, "example.com".toList, "/".toList⟩ from rfl)
    (by decide) rfl hsent

/-- The cookie of `[2001:db8::1]` goes to `[2002:db8::1]`: what is left of both is `8::1]`. -/
theorem address_prefix_is_lost :
    ∃ jar target,
      Jar.keepAll addresses [setsCookie "https://[2001:db8::1]/"] ⟨[], []⟩ = .ok jar ∧
        targetFor addresses "https://[2002:db8::1]/".toList = .ok (some target) ∧
        cookieOf "8::1]" ∈ matchingCookies jar target 0 ∧
        SetBy addresses (setsCookie "https://[2001:db8::1]/") parsedCookie (cookieOf "8::1]") ∧
        ¬Stays parsedCookie "[2001:db8::1]".toList "[2002:db8::1]".toList := by
  refine ⟨⟨[cookieOf "8::1]"], []⟩, ⟨"8::1]".toList, "/".toList, true⟩, by decide, rfl, by decide,
    ?_, ?_⟩
  · exact ⟨⟨"a=1".toList, by decide, rfl⟩, ⟨⟨"8::1]".toList, "/".toList, true⟩, rfl, rfl⟩, rfl, rfl⟩
  · exact fun h => absurd (h.1 rfl) (by decide)

end Idhan.Downloader
