import Idhan.Downloader.Completion

/-!
# Chains of hops

An exchange as the chain of the hops that it submits: the first one by `dispatch`, each later one by
the `complete` of the response before it, which has asked for a redirect or for a retry.  Between
two hops the jar may change in any way, since other exchanges use it too.

* `Chain.sensitive_header`: a sensitive header of a hop comes from the jar, for the URL of that hop,
  or it was the caller's and no hop so far has left the first origin.
* `credentials_stay_on_origin`: the same for every chain, from the first change of the origin on.
-/

namespace Idhan.Downloader

open List

/-- Scheme and host with port of a URL. -/
def originOf (libraries : Libraries) (url : Text) : Option (Text × Text) :=
  (libraries.parseUrl url none).map fun parsed => (parsed.protocol, parsed.host)

/-- A hop, with the jar and the time at which it was submitted. -/
structure SentHop where
  request : TransferRequest
  jar : Jar
  now : ℤ
  deriving DecidableEq, Repr

/-- The URL that the transfer library reports, which follows no redirects itself, is of the same
origin as the hop's. -/
def ReportsOrigin (libraries : Libraries) (hop : SentHop) (response : TransferResponse) : Prop :=
  originOf libraries response.url = originOf libraries hop.request.url

/-- The hops of an exchange, and what has become of it when the last one was submitted. -/
inductive Chain (libraries : Libraries) (start : Exchange) : List SentHop → Exchange → Prop
  | first {surroundings : Surroundings} {jar : Jar} {outcome : Outcome} {request : TransferRequest}
      (hcall : dispatch libraries surroundings jar start = .ok outcome)
      (hsubmit : .submit request ∈ outcome.events) :
      Chain libraries start [⟨request, outcome.jar, surroundings.now⟩] outcome.exchange
  | next {hops : List SentHop} {exchange : Exchange} {last : SentHop} {surroundings : Surroundings}
      {jar : Jar} {response : TransferResponse} {outcome : Outcome} {request : TransferRequest}
      (hchain : Chain libraries start hops exchange) (hlast : hops.getLast? = some last)
      (hreports : ReportsOrigin libraries last response)
      (hcall : complete libraries surroundings jar exchange (.ok response) = .ok outcome)
      (hsubmit : .submit request ∈ outcome.events) :
      Chain libraries start (hops ++ [⟨request, outcome.jar, surroundings.now⟩]) outcome.exchange

/-- The header is the one that the jar gives for the URL of the hop. -/
def FromJar (libraries : Libraries) (hop : SentHop) (header : Text × Text) : Prop :=
  ∃ target, targetFor libraries hop.request.url = .ok (some target) ∧
    header = ("Cookie".toList, cookieText (matchingCookies hop.jar target hop.now))

/-! ## Headers -/

section Headers

variable {headers : HttpHeaders} {header : Text × Text} {name : Text}

theorem mem_erase :
    header ∈ HttpHeaders.erase headers name ↔
    header ∈ headers ∧ lowered header.1 ≠ lowered name := by
  simp [HttpHeaders.erase, headerNamesEqual]

theorem mem_set {value : Text} :
    header ∈ HttpHeaders.set headers name value ↔ header ∈ HttpHeaders.erase headers name ∨
    header = (name, value) := by
  simp [HttpHeaders.set]

theorem mem_foldl_erase {names : List Text} :
    header ∈ names.foldl HttpHeaders.erase headers ↔ header ∈ headers ∧ ∀ name ∈ names,
    lowered header.1 ≠ lowered name := by
  induction names generalizing headers with
  | nil => simp
  | cons name names ih =>
    rw [foldl_cons, ih, mem_erase, forall_mem_cons, and_assoc]

end Headers

/-! ## One hop -/

section Hops

variable {libraries : Libraries} {surroundings : Surroundings} {jar : Jar} {exchange : Exchange}
  {outcome : Outcome} {request : TransferRequest} {response : TransferResponse}
  {header : Text × Text}

theorem not_mem_refuse {code : TransferErrorCode} {message : Text} :
    .submit request ∉ (refuse exchange jar code message).events := by
  unfold refuse abortSink
  split <;> simp

/-- What a dispatch submits. -/
theorem dispatch_submits (hcall : dispatch libraries surroundings jar exchange = .ok outcome)
    (hsubmit : .submit request ∈ outcome.events) :
    outcome.exchange = { exchange with sink := false } ∧ outcome.jar = jar ∧
    request.url = exchange.url ∧
      hopHeaders libraries surroundings.now jar exchange = .ok request.headers := by
  unfold dispatch at hcall
  split at hcall
  · cases hcall
    exact absurd hsubmit not_mem_refuse
  simp only at hcall
  split at hcall
  · cases hcall
    exact absurd hsubmit not_mem_refuse
  split at hcall
  · cases hcall
    exact absurd hsubmit not_mem_refuse
  obtain ⟨host, -, hcall⟩ := bind_eq_ok_iff.1 hcall
  obtain ⟨settings, -, hcall⟩ := bind_eq_ok_iff.1 hcall
  split at hcall
  · cases hcall
    exact absurd hsubmit not_mem_refuse
  obtain ⟨headers, hheaders, hcall⟩ := bind_eq_ok_iff.1 hcall
  cases hcall
  cases mem_singleton.1 hsubmit
  exact ⟨rfl, rfl, rfl, hheaders⟩

/-- A response after which a hop is submitted asks for a retry, or for a redirect. -/
theorem complete_submits
    (hcall : complete libraries surroundings jar exchange (.ok response) = .ok outcome)
    (hsubmit : .submit request ∈ outcome.events) :
    ∃ jar' exchange', dispatch libraries surroundings jar' exchange' = .ok outcome ∧
      (exchange' = { exchange with sink := response.sink } ∨
        ∃ target, exchange' = redirected libraries { exchange with sink := response.sink } response
          target) := by
  simp only [complete] at hcall
  obtain ⟨kept, -, hcall⟩ := bind_eq_ok_iff.1 hcall
  split at hcall
  · exact ⟨kept, _, hcall, Or.inl rfl⟩
  split at hcall
  · cases hcall
    unfold abortSink at hsubmit
    split at hsubmit <;> simp at hsubmit
  · exact ⟨kept, _, hcall, Or.inr ⟨_, rfl⟩⟩

theorem originOf_eq_of_sameOrigin {left right : Text} (h : sameOrigin libraries left right) :
    originOf libraries left = originOf libraries right := by
  unfold sameOrigin at h
  unfold originOf
  split at h
  · rename_i hleft hright
    simpa [hleft, hright] using h
  · cases h

/-- A redirect adds no headers, and keeps the sensitive ones only on the same origin. -/
theorem mem_redirected {target : Text}
    (h : header ∈ (redirected libraries exchange response target).headers) :
    header ∈ exchange.headers ∧
    (isSensitiveHeader header.1 → sameOrigin libraries response.url target) := by
  unfold redirected at h
  simp only at h
  generalize hplain : (if response.status = 301 ∨ response.status = 302 ∨ response.status = 303 then
    ({ exchange with
      hops := exchange.hops ++ [⟨response.url, response.status⟩],
      redirects := exchange.redirects + 1
      method := if exchange.method ≠ .head then .get else exchange.method
      body := []
      headers := (exchange.headers.erase "content-type".toList).erase "content-length".toList } :
      Exchange)
    else { exchange with
      hops := exchange.hops ++ [⟨response.url, response.status⟩],
      redirects := exchange.redirects + 1 }) = plain at h
  have hkept : header ∈ plain.headers → header ∈ exchange.headers := by
    intro h
    subst hplain
    split at h
    · exact (mem_erase.1 (mem_erase.1 h).1).1
    · exact h
  split at h
  · obtain ⟨h, herased⟩ := mem_foldl_erase.1 h
    refine ⟨hkept h, fun hsensitive => absurd rfl (herased header.1 ?_)⟩
    exact mem_map.2 ⟨header, mem_filter.2 ⟨h, hsensitive⟩, rfl⟩
  · rename_i hsame
    exact ⟨hkept h, fun _ => by simpa using hsame⟩

/-- The headers of a hop are those of the exchange, or come from the jar. -/
theorem mem_hopHeaders {now : ℤ} {headers : HttpHeaders}
    (hheaders : hopHeaders libraries now jar exchange = .ok headers) (h : header ∈ headers) :
    header ∈ exchange.headers ∨ ∃ target, targetFor libraries exchange.url = .ok (some target) ∧
      header = ("Cookie".toList, cookieText (matchingCookies jar target now)) := by
  unfold hopHeaders at hheaders
  split at hheaders
  · obtain ⟨target, htarget, hheaders⟩ := bind_eq_ok_iff.1 hheaders
    cases target with
    | none =>
      cases hheaders
      exact Or.inl (mem_erase.1 h).1
    | some target =>
      cases hheaders
      split at h
      · exact Or.inl (mem_erase.1 h).1
      · rcases mem_set.1 h with h | h
        · exact Or.inl (mem_erase.1 (mem_erase.1 h).1).1
        · exact Or.inr ⟨target, htarget, h⟩
  · cases hheaders
    exact Or.inl h

end Hops

/-! ## Every hop of a chain -/

section Chains

variable {libraries : Libraries} {start exchange : Exchange} {hops : List SentHop} {hop : SentHop}
  {before after : List SentHop}

/-- What is known of the exchange once the last hop is submitted: its headers are the caller's, and
if one of them is sensitive then no hop has changed the origin. -/
structure Confined (libraries : Libraries) (start : Exchange) (hops : List SentHop)
    (exchange : Exchange) : Prop where
  url : ∀ last ∈ hops.getLast?, last.request.url = exchange.url
  caller : ∀ header ∈ exchange.headers, header ∈ start.headers
  origin : ∀ header ∈ exchange.headers, isSensitiveHeader header.1 →
    ∀ hop ∈ hops, originOf libraries hop.request.url = originOf libraries exchange.url
  sent : ∀ last ∈ hops.getLast?, ∀ header ∈ last.request.headers, header ∈ exchange.headers ∨
    FromJar libraries last header

/-- A hop that is submitted for an exchange whose headers are confined. -/
theorem Confined.submit {surroundings : Surroundings} {jar : Jar} {outcome : Outcome}
    {request : TransferRequest} (hcall : dispatch libraries surroundings jar exchange = .ok outcome)
    (hsubmit : .submit request ∈ outcome.events)
    (hcaller : ∀ header ∈ exchange.headers, header ∈ start.headers)
    (horigin : ∀ header ∈ exchange.headers, isSensitiveHeader header.1 →
      ∀ hop ∈ hops, originOf libraries hop.request.url = originOf libraries exchange.url) :
    Confined libraries start (hops ++ [⟨request, outcome.jar, surroundings.now⟩])
      outcome.exchange := by
  obtain ⟨hexchange, hjar, hurl, hheaders⟩ := dispatch_submits hcall hsubmit
  rw [hexchange, hjar]
  refine ⟨?_, hcaller, ?_, ?_⟩
  · simp [hurl]
  · intro header hheader hsensitive hop hhop
    rcases mem_append.1 hhop with hhop | hhop
    · exact horigin header hheader hsensitive hop hhop
    · rw [mem_singleton.1 hhop]
      exact congrArg (originOf libraries) hurl
  · simp only [getLast?_append, getLast?_singleton, Option.some_or, Option.mem_some_iff, forall_eq']
    intro header hheader
    refine (mem_hopHeaders hheaders hheader).imp_right ?_
    rintro ⟨target, htarget, rfl⟩
    exact ⟨target, by rw [hurl]; exact htarget, rfl⟩

/-- By induction on the chain: the origin that the response reports is that of the last hop. -/
theorem Chain.confined (hchain : Chain libraries start hops exchange) :
    Confined libraries start hops exchange := by
  induction hchain with
  | first hcall hsubmit =>
    show Confined libraries start ([] ++ [_]) _
    exact Confined.submit hcall hsubmit (fun _ h => h) fun _ _ _ hop hhop => absurd hhop not_mem_nil
  | @next hops exchange last surroundings jar response outcome request hchain hlast hreports hcall
      hsubmit ih =>
    obtain ⟨kept, exchange', hdispatch, rfl | ⟨target, rfl⟩⟩ := complete_submits hcall hsubmit
    · exact Confined.submit hdispatch hsubmit ih.caller ih.origin
    · refine Confined.submit hdispatch hsubmit
        (fun header hheader => ih.caller header (mem_redirected hheader).1) ?_
      intro header hheader hsensitive hop hhop
      obtain ⟨hheader, hsame⟩ := mem_redirected hheader
      calc originOf libraries hop.request.url
          = originOf libraries exchange.url := ih.origin header hheader hsensitive hop hhop
        _ = originOf libraries last.request.url := by rw [ih.url last hlast]
        _ = originOf libraries response.url := hreports.symm
        _ = originOf libraries target := originOf_eq_of_sameOrigin (hsame hsensitive)

theorem Chain.of_append_singleton {last : SentHop}
    (hchain : Chain libraries start (hops ++ [last]) exchange) (hne : hops ≠ []) :
    ∃ exchange', Chain libraries start hops exchange' := by
  generalize hall : hops ++ [last] = all at hchain
  cases hchain with
  | first hcall hsubmit => exact absurd (append_eq_singleton_iff.1 hall) (by simp [hne])
  | next hchain _ _ _ _ =>
    rw [(append_inj_left' hall rfl)]
    exact ⟨_, hchain⟩

/-- The hops up to one of them are a chain. -/
theorem Chain.of_prefix (hchain : Chain libraries start (before ++ hop :: after) exchange) :
    ∃ exchange', Chain libraries start (before ++ [hop]) exchange' := by
  induction after using List.reverseRecOn generalizing exchange with
  | nil => exact ⟨_, hchain⟩
  | append_singleton after last ih =>
    rw [← cons_append, ← append_assoc] at hchain
    obtain ⟨exchange', hchain⟩ := hchain.of_append_singleton (by simp)
    exact ih hchain

/-- A sensitive header of a hop comes from the jar, or it is the caller's and all the hops so far
are of one origin. -/
theorem Chain.sensitive_header {header : Text × Text}
    (hchain : Chain libraries start (before ++ hop :: after) exchange)
    (hheader : header ∈ hop.request.headers) (hsensitive : isSensitiveHeader header.1) :
    FromJar libraries hop header ∨ header ∈ start.headers ∧
      ∀ earlier ∈ before, originOf libraries earlier.request.url =
        originOf libraries hop.request.url := by
  obtain ⟨exchange', hchain⟩ := hchain.of_prefix
  have hconfined := hchain.confined
  have hlast : hop ∈ (before ++ [hop]).getLast? := by simp
  rcases hconfined.sent hop hlast header hheader with hcaller | hjar
  · refine Or.inr ⟨hconfined.caller header hcaller, fun earlier hearlier => ?_⟩
    rw [hconfined.origin header hcaller hsensitive earlier (mem_append_left _ hearlier),
      hconfined.url hop hlast]
  · exact Or.inl hjar

/-- **Credentials do not follow redirects off the origin.**  From the first hop on whose origin is
not that of the hop before, a sensitive header is only what the jar gives for the URL of its hop,
also if the chain returns to the first origin; and a cookie on any hop comes from the jar for that
URL, or it is the caller's header and no hop has left the first origin. -/
theorem credentials_stay_on_origin (hchain : Chain libraries start hops exchange) :
    (∀ before previous changed after, hops = before ++ previous :: changed :: after →
      originOf libraries previous.request.url ≠ originOf libraries changed.request.url →
      ∀ hop ∈ changed :: after, ∀ header ∈ hop.request.headers, isSensitiveHeader header.1 →
      FromJar libraries hop header) ∧
    ∀ before hop after, hops = before ++ hop :: after → ∀ header ∈ hop.request.headers,
    lowered header.1 = "cookie".toList →
      FromJar libraries hop header ∨ header ∈ start.headers ∧
        ∀ earlier ∈ before, originOf libraries earlier.request.url =
          originOf libraries hop.request.url := by
  constructor
  · rintro before previous changed after rfl hchanged hop hhop header hheader hsensitive
    obtain ⟨between, rest, hsplit⟩ := append_of_mem hhop
    have hchain' :
        Chain libraries start ((before ++ previous :: between) ++ hop :: rest) exchange := by
      rw [append_assoc, cons_append, ← hsplit]
      exact hchain
    refine (hchain'.sensitive_header hheader hsensitive).resolve_right ?_
    rintro ⟨-, horigin⟩
    -- the hop where the origin changed is this one or an earlier one
    have hprevious := horigin previous (by simp)
    rcases between with - | ⟨first, between⟩
    · cases hsplit
      exact hchanged hprevious
    · cases hsplit
      exact hchanged (hprevious.trans (horigin changed (by simp)).symm)
  · rintro before hop after rfl header hheader hname
    exact hchain.sensitive_header hheader (by simp [isSensitiveHeader, hname])

end Chains

/-! ## A redirect to another site -/

/-- A URL parser that knows two sites. -/
def twoSites : Libraries where
  getdate _ := -1
  parseUrl text _ :=
    if text = "https://example.com/".toList then
      some ⟨text, "https:".toList, "example.com".toList, "example.com".toList, "/".toList⟩
    else if text = "https://elsewhere.org/".toList then
      some ⟨text, "https:".toList, "elsewhere.org".toList, "elsewhere.org".toList, "/".toList⟩
    else none
  hostname_shape := by
    intro text base url h
    split at h
    · cases h
      exact Or.inl (show ∀ c ∈ "example.com".toList, c ≠ ':' ∧ c ≠ '/' by simp)
    split at h
    · cases h
      exact Or.inl (show ∀ c ∈ "elsewhere.org".toList, c ≠ ':' ∧ c ≠ '/' by simp)
    · exact nomatch h

/-- A request with a key. -/
def authorizedGet : Exchange :=
  ⟨.get, "https://example.com/".toList,
    [("X-Api-Key".toList, "k".toList), ("Accept".toList, "*/*".toList)], [], true, 5, true,
    false, [], 0⟩

/-- A response that redirects it to the other site. -/
def movedElsewhere : TransferResponse :=
  ⟨302, "https://example.com/".toList, [("Location".toList, "https://elsewhere.org/".toList)], [],
    [], false⟩

/-- A hop of the chain. -/
def hopTo (url : String) (headers : HttpHeaders) : SentHop :=
  ⟨⟨.get, url.toList, headers, [], false⟩, ⟨[], []⟩, 0⟩

/-- The second hop of the redirected request has no key. -/
theorem credentials_stay_on_origin_redirected :
    (∃ request, Chain twoSites authorizedGet [hopTo "https://example.com/" authorizedGet.headers,
      hopTo "https://elsewhere.org/" [("Accept".toList, "*/*".toList)]] request) ∧
    ∀ hop ∈ [hopTo "https://elsewhere.org/"
      [("Accept".toList, "*/*".toList)]], ∀ header ∈ hop.request.headers,
      isSensitiveHeader header.1 → FromJar twoSites hop header :=
  let first := hopTo "https://example.com/" authorizedGet.headers
  let second := hopTo "https://elsewhere.org/" [("Accept".toList, "*/*".toList)]
  have hdispatch : dispatch twoSites running ⟨[], []⟩ authorizedGet =
      .ok ⟨authorizedGet, ⟨[], []⟩, [.submit first.request]⟩ := rfl
  have hcomplete : complete twoSites running ⟨[], []⟩ authorizedGet (.ok movedElsewhere) =
      .ok ⟨redirected twoSites authorizedGet movedElsewhere "https://elsewhere.org/".toList,
        ⟨[], []⟩, [.submit second.request]⟩ := rfl
  have hfirst : Chain twoSites authorizedGet [first] authorizedGet :=
    .first hdispatch (mem_singleton_self _)
  have hlast : [first].getLast? = some first := rfl
  have hreports : ReportsOrigin twoSites first movedElsewhere := rfl
  have hchain : Chain twoSites authorizedGet [first, second] _ :=
    .next hfirst hlast hreports hcomplete (mem_singleton_self _)
  ⟨⟨_, hchain⟩, (credentials_stay_on_origin hchain).1 [] first second [] rfl (by decide)⟩

end Idhan.Downloader
