import Idhan.Downloader.Registry

/-!
# The end of a hop

`LanePool::dispatch` and `LanePool::complete` of `IDHANDownloader/src/http/LanePool.cpp`.  An
exchange is a chain of hops: each one is submitted to a lane, and `complete` gets its result on a
thread that has no handler for exceptions.  What a call does is the list of the events it causes:
the sink is aborted, the callback is called, a request is submitted.

A call ends once if it returns, and its events have either one callback or one submitted request.
Only `normalizeHost` throws.  `endsOnce_dispatch_iff` says for which URLs a dispatch returns, and
`complete_endsOnce_iff` for which responses and which next URLs `complete` does.

The policies of the lanes, the observer and the logs are left out, and so are the options that are
passed on unchanged.
-/

namespace Idhan.Downloader

inductive TransferErrorCode where
  | invalidRequest | invalidUrl | transport | tooLarge | sink | cancelled | shutdown
  deriving DecidableEq, Repr

structure TransferError where
  code : TransferErrorCode
  message : Text
  deriving DecidableEq, Repr

structure TransferHop where
  url : Text
  status : ℤ
  deriving DecidableEq, Repr

/-- `TransferResponse`; of the sink only its presence. -/
structure TransferResponse where
  status : ℤ
  url : Text
  headers : HttpHeaders
  body : Text
  hops : List TransferHop
  sink : Bool
  deriving DecidableEq, Repr

abbrev TransferResult := Except TransferError TransferResponse

/-- `LanePool::Exchange`. -/
structure Exchange where
  method : HttpMethod
  url : Text
  headers : HttpHeaders
  body : Text
  followRedirects : Bool
  maxRedirects : ℤ
  /-- whether the request has an overlay and a store -/
  cookies : Bool
  sink : Bool
  hops : List TransferHop
  redirects : ℤ
  deriving DecidableEq, Repr

/-- `TransferRequest`: one hop. -/
structure TransferRequest where
  method : HttpMethod
  url : Text
  headers : HttpHeaders
  body : Text
  sink : Bool
  deriving DecidableEq, Repr

/-- What a call does to the world outside. -/
inductive Event where
  | abort
  | callback (result : TransferResult)
  | submit (request : TransferRequest)

/-- The callback, or a request that is on its way. -/
def Event.isEnding : Event → Bool
  | .abort => false
  | .callback _ => true
  | .submit _ => true

/-- What the pool is like when a call is made. -/
structure Surroundings where
  /-- the exchange has been cancelled -/
  cancelled : Bool
  /-- the pool has been stopped -/
  stopped : Bool
  now : ℤ
  /-- whom the pool asks for the settings of a host -/
  registry : ScriptRegistry
  deriving DecidableEq, Repr

/-- The result of a call: the exchange, the cookies, the events. -/
structure Outcome where
  exchange : Exchange
  jar : Jar
  events : List Event

/-- `exchange->sink->abort()`, if there is a sink. -/
def abortSink (exchange : Exchange) : List Event :=
  if exchange.sink then [.abort] else []

/-- An exchange that cannot go on. -/
def refuse (exchange : Exchange) (jar : Jar) (code : TransferErrorCode) (message : Text) :
    Outcome :=
  ⟨exchange, jar, abortSink exchange ++ [.callback (.error ⟨code, message⟩)]⟩

/-- The headers of a hop.  With a jar, its cookies take the place of those of the exchange. -/
def hopHeaders (libraries : Libraries) (now : ℤ) (jar : Jar) (exchange : Exchange) :
    Except String HttpHeaders :=
  if exchange.cookies then
    applyRequestCookies libraries now exchange.url jar (exchange.headers.erase "cookie".toList)
  else .ok exchange.headers

/-- `LanePool::dispatch`. -/
def dispatch (libraries : Libraries) (surroundings : Surroundings) (jar : Jar)
    (exchange : Exchange) : Except String Outcome :=
  if surroundings.cancelled then .ok (refuse exchange jar .cancelled "Transfer cancelled".toList)
  else
    let invalid := refuse exchange jar .invalidUrl ("Not an HTTP URL: ".toList ++ exchange.url)
    match libraries.parseUrl exchange.url none with
    | none => .ok invalid
    | some parsed =>
      if parsed.protocol ≠ "http:".toList ∧ parsed.protocol ≠ "https:".toList then .ok invalid
      else do
        let host ← normalizeHost parsed.hostname
        -- `keyFor` and `laneFor` ask for the settings of the host; which lane they name is left out
        let _settings ← surroundings.registry.laneSettings host
        if surroundings.stopped then
          return refuse exchange jar .shutdown "The downloader is shutting down".toList
        else
          let headers ← hopHeaders libraries surroundings.now jar exchange
          return ⟨{ exchange with sink := false }, jar,
            [.submit ⟨exchange.method, exchange.url, headers, exchange.body, exchange.sink⟩]⟩

def isRedirect (status : ℤ) : Bool :=
  status = 301 || status = 302 || status = 303 || status = 307 || status = 308

def sameOrigin (libraries : Libraries) (left right : Text) : Bool :=
  match libraries.parseUrl left none, libraries.parseUrl right none with
  | some first, some second => first.protocol = second.protocol && first.host = second.host
  | _, _ => false

def isSensitiveHeader (name : Text) : Bool :=
  lowered name = "authorization".toList || lowered name = "proxy-authorization".toList ||
    lowered name = "cookie".toList || lowered name = "set-cookie".toList || lowered name =
    "x-api-key".toList

/-- The exchange for the hop that a redirect asks for. -/
def redirected (libraries : Libraries) (exchange : Exchange) (response : TransferResponse)
    (target : Text) : Exchange :=
  let hop : Exchange := { exchange with
    hops := exchange.hops ++ [⟨response.url, response.status⟩],
    redirects := exchange.redirects + 1 }
  let plain : Exchange :=
    if response.status = 301 ∨ response.status = 302 ∨ response.status = 303 then
      { hop with
        method := if hop.method ≠ .head then .get else hop.method
        body := []
        headers := (hop.headers.erase "content-type".toList).erase "content-length".toList }
    else hop
  let sensitive := (plain.headers.filter fun header => isSensitiveHeader header.1).map Prod.fst
  { plain with
    url := target
    headers :=
      if !sameOrigin libraries response.url target then
        sensitive.foldl HttpHeaders.erase plain.headers
      else plain.headers }

/-- The place to which a response redirects the exchange, if it does and it is followed. -/
def redirectTarget (libraries : Libraries) (exchange : Exchange) (response : TransferResponse) :
    Option Url :=
  let location := response.headers.get "location".toList
  if exchange.followRedirects ∧ isRedirect response.status ∧ location ≠ [] ∧
      exchange.redirects < exchange.maxRedirects then
    libraries.parseUrl location (libraries.parseUrl response.url none)
  else none

/-- The jar once the cookies of a response are kept, if the exchange has a jar. -/
def keepCookies (libraries : Libraries) (now : ℤ) (jar : Jar) (exchange : Exchange)
    (response : TransferResponse) : Except String Jar :=
  if exchange.cookies then do
    let collected ← collectResponseCookies libraries now response.url response.headers
    return jar.keep collected
  else .ok jar

/-- `LanePool::complete`. -/
def complete (libraries : Libraries) (surroundings : Surroundings) (jar : Jar)
    (exchange : Exchange) : TransferResult → Except String Outcome
  | .error error => .ok ⟨exchange, jar, [.callback (.error error)]⟩
  | .ok response => do
    let exchange := { exchange with sink := response.sink }
    let jar ← keepCookies libraries surroundings.now jar exchange response
    if response.status = 429 then dispatch libraries surroundings jar exchange
    else
      match redirectTarget libraries exchange response with
      | none =>
        return ⟨{ exchange with hops := [] }, jar,
          abortSink exchange ++ [.callback (.ok { response with
            hops := exchange.hops, sink := false })]⟩
      | some next =>
        dispatch libraries surroundings jar (redirected libraries exchange response next.href)

/-! ## Every exchange goes on or is answered -/

/-- The call returns, and it has called the callback or submitted a request: one of the two,
once. -/
def EndsOnce (call : Except String Outcome) : Prop :=
  Succeeds call fun outcome => outcome.events.countP Event.isEnding = 1

theorem countP_abortSink (exchange : Exchange) :
    (abortSink exchange).countP Event.isEnding = 0 := by
  unfold abortSink
  split <;> rfl

theorem endsOnce_of_aborted (exchange held : Exchange) (jar : Jar) (result : TransferResult) :
    EndsOnce (.ok ⟨held, jar, abortSink exchange ++ [.callback result]⟩) := by
  refine Succeeds.ok ?_
  rw [List.countP_append, countP_abortSink]
  rfl

variable {libraries : Libraries} {exchange : Exchange} {response : TransferResponse} {jar : Jar}

theorem exists_hopHeaders {parsed : Url} (now : ℤ) (jar : Jar)
    (h : libraries.parseUrl exchange.url none = some parsed) :
    ∃ headers, hopHeaders libraries now jar exchange = .ok headers := by
  obtain ⟨target, htarget⟩ := targetFor_of_eq_some h
  unfold hopHeaders applyRequestCookies
  rw [htarget]
  split <;> exact ⟨_, rfl⟩

/-- A URL of the web whose host can be normalized a second time. -/
def SafeUrl (libraries : Libraries) (url : Text) : Prop :=
  ∀ parsed, libraries.parseUrl url none = some parsed →
    parsed.protocol = "http:".toList ∨ parsed.protocol = "https:".toList →
    ∀ host, normalizeHost parsed.hostname = .ok host → SafeHost host

/-- A dispatch throws only if the host of its URL cannot be normalized a second time. -/
theorem endsOnce_dispatch_iff {surroundings : Surroundings} :
    EndsOnce (dispatch libraries surroundings jar exchange) ↔
      (surroundings.cancelled = false → SafeUrl libraries exchange.url) := by
  unfold dispatch
  split
  · next hcancelled =>
      exact iff_of_true (endsOnce_of_aborted ..) fun h => absurd hcancelled (by simp [h])
  next hcancelled =>
  rw [imp_iff_right (Bool.not_eq_true _ ▸ hcancelled)]
  cases h : libraries.parseUrl exchange.url none with
  | none =>
    exact iff_of_true (endsOnce_of_aborted ..) fun _ h' => absurd h' (by simp [h])
  | some parsed =>
    obtain ⟨host, hhost⟩ := libraries.normalizeHost_hostname h
    obtain ⟨headers, hheaders⟩ := exists_hopHeaders surroundings.now jar h
    simp only [SafeUrl, h, hhost, hheaders, Option.some.injEq, Except.ok.injEq, forall_eq', bind,
      Except.bind]
    split
    · next hprotocol =>
      exact iff_of_true (endsOnce_of_aborted ..) fun h => absurd h (not_or.2 hprotocol)
    next hprotocol =>
    rw [imp_iff_right (by tauto), ← isOk_laneSettings_iff surroundings.registry]
    cases surroundings.registry.laneSettings host with
    | error e =>
      refine iff_of_false ?_ Bool.false_ne_true
      rintro ⟨_, h, _⟩
      cases h
    | ok settings =>
      refine iff_of_true ?_ rfl
      cases surroundings.stopped
      · exact Succeeds.ok rfl
      · exact endsOnce_of_aborted ..

theorem isOk_keepCookies_iff {now : ℤ} :
    (keepCookies libraries now jar exchange response).isOk ↔
      (exchange.cookies = true → (libraries.parseUrl response.url none).isSome →
        ∀ header ∈ response.headers.all "set-cookie".toList, SafeCookie libraries header) := by
  unfold keepCookies
  split
  · rename_i hcookies
    rw [isOk_bind_iff_of_forall fun _ => rfl, isOk_collectResponseCookies_iff]
    exact (imp_iff_right hcookies).symm
  · rename_i hcookies
    exact iff_of_true rfl fun h => absurd h hcookies

/-- Where the exchange goes after a response, if it goes on: to the same place, or where it is
redirected. -/
def nextUrl (libraries : Libraries) (exchange : Exchange) (response : TransferResponse) :
    Option Text :=
  if response.status = 429 then some exchange.url
  else (redirectTarget libraries exchange response).map Url.href

theorem url_redirected {target : Text} :
    (redirected libraries exchange response target).url = target := rfl

/-- What is left to throw is the normalization of the next host. -/
theorem endsOnce_complete_ok_iff {surroundings : Surroundings} :
    EndsOnce (complete libraries surroundings jar exchange (.ok response)) ↔
      (keepCookies libraries surroundings.now jar exchange response).isOk ∧
        (surroundings.cancelled = false →
          ∀ url, nextUrl libraries exchange response = some url → SafeUrl libraries url) := by
  have hkeep : keepCookies libraries surroundings.now jar { exchange with sink := response.sink }
    response =
      keepCookies libraries surroundings.now jar exchange response := rfl
  have hnext : redirectTarget libraries { exchange with sink := response.sink } response =
      redirectTarget libraries exchange response := rfl
  simp only [complete, hkeep, hnext, nextUrl]
  cases keepCookies libraries surroundings.now jar exchange response with
  | error e => exact iff_of_false (fun ⟨_, h, _⟩ => nomatch h) fun h => nomatch h.1
  | ok jar =>
    rw [and_iff_right (show (Except.ok jar : Except String Jar).isOk from rfl)]
    change EndsOnce (if response.status = 429 then _ else _) ↔ _
    split
    · simp only [endsOnce_dispatch_iff, Option.some.injEq, forall_eq']
    split
    · next htarget => exact iff_of_true (endsOnce_of_aborted ..) fun _ _ h => by simp [htarget] at h
    · next next htarget =>
      simp only [endsOnce_dispatch_iff, url_redirected, htarget, Option.map_some, Option.some.injEq,
        forall_eq']

/-- **When a response is not lost.**  The call returns, and ends in the callback or in a new request
and not in both, unless one of two hosts cannot be normalized: the domain of a `Set-Cookie` header
that ends too soon after its first colon or slash, if the exchange keeps cookies and the URL of the
response can be parsed; or what `normalizeHost` leaves of the host to which the exchange goes
next. -/
theorem complete_endsOnce_iff (libraries : Libraries) (surroundings : Surroundings) (jar : Jar)
    (exchange : Exchange) (result : TransferResult) :
    EndsOnce (complete libraries surroundings jar exchange result) ↔
      ∀ response, result = .ok response →
        (exchange.cookies = true → (libraries.parseUrl response.url none).isSome →
          ∀ header ∈ response.headers.all "set-cookie".toList, SafeCookie libraries header) ∧
        (surroundings.cancelled = false →
          ∀ url, nextUrl libraries exchange response = some url → SafeUrl libraries url) := by
  cases result with
  | error error => exact iff_of_true (Succeeds.ok rfl) fun _ h => nomatch h
  | ok response =>
    rw [endsOnce_complete_ok_iff, isOk_keepCookies_iff]
    simp only [Except.ok.injEq, forall_eq']

/-- Libraries that know one URL. -/
def oneUrl : Libraries where
  getdate _ := -1
  parseUrl text _ :=
    if text = "https://example.com/".toList then
      some ⟨text, "https:".toList, "example.com".toList, "example.com".toList, "/".toList⟩
    else none
  hostname_shape := by
    intro text base url h
    split at h
    · cases h
      exact Or.inl (show ∀ c ∈ "example.com".toList, c ≠ ':' ∧ c ≠ '/' by simp)
    · exact nomatch h

/-- A page of `https://example.com/` that sets a cookie for the domain `x:`. -/
def domainWithColon : TransferResponse where
  status := 200
  url := "https://example.com/".toList
  headers := [("Set-Cookie".toList, "a=b; Domain=x:".toList)]
  body := []
  hops := []
  sink := false

/-- The exchange that asked for the page. -/
def plainGet : Exchange where
  method := .get
  url := "https://example.com/".toList
  headers := []
  body := []
  followRedirects := true
  maxRedirects := 10
  cookies := true
  sink := false
  hops := []
  redirects := 0

/-- A pool that runs, without settings. -/
def running : Surroundings :=
  ⟨false, false, 0, ⟨[], ⟨⟨none, 0, 0⟩, none⟩⟩⟩

/-- The response is lost: the two bytes of the domain are less than what `normalizeHost` skips. -/
theorem domain_with_colon_throws :
    complete oneUrl running ⟨[], []⟩ plainGet (.ok domainWithColon) =
      .error "basic_string::substr: __pos (which is 4) > this->size() (which is 2)" := by
  rfl

end Idhan.Downloader
