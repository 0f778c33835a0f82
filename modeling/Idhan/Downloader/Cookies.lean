import Idhan.Downloader.Http
import Idhan.Lib.Total
import Mathlib.Data.List.Sort

/-!
# The cookie jar

`normalizeHost` of `IDHANDownloader/src/URLUtils.hpp` and `cookies/CookieStore.cpp`: the cookies of
a response are collected and put into the store and the overlay, and the ones that match a request
are put into its header.

The only functions that can throw are `normalizeHost` and those that use it.  Saving a cookie to the
database is left out: the code catches what it throws.
-/

namespace Idhan.Downloader

open List

/-! ## Hosts and paths -/

/-- `std::string::substr( pos )`, which throws if there are less than `pos` bytes. -/
def substr (text : Text) (pos : ℕ) : Except String Text :=
  if text.length < pos then
    .error ("basic_string::substr: __pos (which is " ++ toString pos ++
      ") > this->size() (which is " ++ toString text.length ++ ")")
  else .ok (text.drop pos)

/-- `normalizeHost`.  `find_first_of( "://" )` finds the first byte that is one of the three. -/
def normalizeHost (host : Text) : Except String Text :=
  match host.findIdx? fun c => c ∈ "://".toList with
  | some protocolEnd => do
    let host ← substr host (protocolEnd + 3)
    return lowered host
  | none => .ok (lowered host)

def isSubdomainOf (host domain : Text) : Bool :=
  if host.length ≤ domain.length then false
  else if !domain.isSuffixOf host then false
  else host[host.length - domain.length - 1]? == some '.'

def cookieDomainMatches (host domain : Text) (hostOnly : Bool) : Bool :=
  if host = domain then true
  else if hostOnly then false
  else isSubdomainOf host domain

def cookiePathMatches (requestPath cookiePath : Text) : Bool :=
  if cookiePath = [] ∨ cookiePath = ['/'] then true
  else if !cookiePath.isPrefixOf requestPath then false
  else if requestPath.length = cookiePath.length then true
  else cookiePath.getLast? = some '/' || requestPath[cookiePath.length]? = some '/'

def defaultCookiePath (requestPath : Text) : Text :=
  match requestPath with
  | '/' :: _ =>
    -- up to the last slash, unless that is the first byte
    let directory := (requestPath.rdropWhile (· ≠ '/')).dropLast
    if directory = [] then ['/'] else directory
  | _ => ['/']

/-! ## The store -/

structure Cookie where
  name : Text
  value : Text
  domain : Text
  path : Text
  secure : Bool
  hostOnly : Bool
  expires : Option ℤ
  deriving DecidableEq, Repr

/-- `Cookie::sameIdentity`. -/
def Cookie.sameIdentity (cookie other : Cookie) : Bool :=
  cookie.name = other.name && cookie.domain = other.domain && cookie.path = other.path

def upsert (cookies : List Cookie) (cookie : Cookie) : List Cookie :=
  match cookies.findIdx? (·.sameIdentity cookie) with
  | none => cookies ++ [cookie]
  | some i => cookies.set i cookie

def remove (cookies : List Cookie) (name domain path : Text) : List Cookie :=
  cookies.filter fun held => !(held.name = name && held.domain = domain && held.path = path)

def expired (cookie : Cookie) (now : ℤ) : Bool :=
  match cookie.expires with
  | some expires => expires ≤ now
  | none => false

/-- `matches`. -/
def matchesRequest (cookie : Cookie) (host path : Text) (secure : Bool) (now : ℤ) : Bool :=
  if expired cookie now then false
  else if cookie.secure && !secure then false
  else if !cookieDomainMatches host cookie.domain cookie.hostOnly then false
  else cookiePathMatches path cookie.path

/-- `CookieContext`: the cookies of `CookieOverlay` and those of `CookieStore`. -/
structure Jar where
  overlay : List Cookie
  store : List Cookie
  deriving DecidableEq, Repr

/-- `CookieStore::set`. -/
def Jar.setPersistent (jar : Jar) (cookie : Cookie) : Jar :=
  if cookie.expires = none then jar else { jar with store := upsert jar.store cookie }

/-- `CookieOverlay::set`. -/
def Jar.setSession (jar : Jar) (cookie : Cookie) : Jar :=
  { jar with overlay := upsert jar.overlay cookie }

/-- `CookieStore::erase` and `CookieOverlay::erase`. -/
def Jar.erase (jar : Jar) (cookie : Cookie) : Jar :=
  ⟨remove jar.overlay cookie.name cookie.domain cookie.path,
    remove jar.store cookie.name cookie.domain cookie.path⟩

/-! ## Requests -/

structure RequestTarget where
  host : Text
  path : Text
  secure : Bool
  deriving DecidableEq, Repr

def targetFor (libraries : Libraries) (url : Text) : Except String (Option RequestTarget) :=
  match libraries.parseUrl url none with
  | none => .ok none
  | some parsed => do
    let host ← normalizeHost parsed.hostname
    return some ⟨host, if parsed.pathname = [] then ['/']
      else parsed.pathname, parsed.protocol = "https:".toList⟩

/-- The cookies for a request: those of the overlay, then those of the store whose name the overlay
does not give; longer paths first. -/
def matchingCookies (jar : Jar) (target : RequestTarget) (now : ℤ) : List Cookie :=
  let matching := fun cookies : List Cookie =>
    cookies.filter (matchesRequest · target.host target.path target.secure now)
  let session := matching jar.overlay
  let stored := (matching jar.store).filter fun cookie => !session.any (·.name = cookie.name)
  (session ++ stored).insertionSort fun left right => right.path.length ≤ left.path.length

/-- The text of a `Cookie` header.  A separator is written once the text is not empty. -/
def cookieText (cookies : List Cookie) : Text :=
  cookies.foldl (fun value cookie => (if value = [] then value else value ++ "; ".toList) ++
    cookie.name ++ ['='] ++ cookie.value) []

def applyRequestCookies (libraries : Libraries) (now : ℤ) (url : Text) (jar : Jar)
    (headers : HttpHeaders) : Except String HttpHeaders := do
  let target ← targetFor libraries url
  match target with
  | none => return headers
  | some target =>
    let matched := matchingCookies jar target now
    return if matched = [] then headers else headers.set "Cookie".toList (cookieText matched)

/-! ## Responses -/

structure ResponseCookies where
  persistent : List Cookie
  session : List Cookie
  removed : List Cookie
  deriving DecidableEq, Repr

/-- A leading dot is removed. -/
def withoutDot : Text → Text
  | '.' :: domain => domain
  | domain => domain

/-- The domain of a cookie, and whether it is for that host only; `none` if the cookie is not for
this server. -/
def cookieDomain (target : RequestTarget) (parsed : SetCookie) :
    Except String (Option (Text × Bool)) :=
  if parsed.domain = [] then .ok (some (target.host, true))
  else do
    let domain ← normalizeHost (withoutDot parsed.domain)
    return if cookieDomainMatches target.host domain false then some (domain, false) else none

/-- What is done with a cookie, by the time it expires. -/
def sortCookie (now : ℤ) (parsed : SetCookie) (cookie : Cookie) (collected : ResponseCookies) :
    ResponseCookies :=
  match parsed.maxAge, parsed.expires with
  | some maxAge, _ =>
    if maxAge ≤ 0 then { collected with removed := collected.removed ++ [cookie] }
    else
      { collected with
        persistent := collected.persistent ++
          [{ cookie with expires := some (wrap (now + wrap (maxAge * 1000000000))) }] }
  | none, some expires =>
    if expires ≤ now then { collected with removed := collected.removed ++ [cookie] }
    else { collected with
      persistent := collected.persistent ++ [{ cookie with expires := some expires }] }
  | none, none => { collected with session := collected.session ++ [cookie] }

/-- One round of the loop of `collectResponseCookies`. -/
def collectCookie (libraries : Libraries) (now : ℤ) (target : RequestTarget)
    (collected : ResponseCookies) (header : Text) : Except String ResponseCookies :=
  match parseSetCookie libraries header with
  | none => .ok collected
  | some parsed => do
    let found ← cookieDomain target parsed
    match found with
    | none => return collected
    | some (domain, hostOnly) =>
      let path := if parsed.path = [] then defaultCookiePath target.path else parsed.path
      return sortCookie now parsed ⟨parsed.name, parsed.value, domain, path, parsed.secure,
        hostOnly, none⟩ collected

def collectResponseCookies (libraries : Libraries) (now : ℤ) (url : Text) (headers : HttpHeaders) :
    Except String ResponseCookies := do
  let target ← targetFor libraries url
  match target with
  | none => return ⟨[], [], []⟩
  | some target =>
    (headers.all "set-cookie".toList).foldlM (collectCookie libraries now target) ⟨[], [], []⟩

/-- What `LanePool::complete` does with the cookies it has collected. -/
def Jar.keep (jar : Jar) (collected : ResponseCookies) : Jar :=
  let jar := collected.persistent.foldl Jar.setPersistent jar
  let jar := collected.session.foldl Jar.setSession jar
  collected.removed.foldl Jar.erase jar

/-! ## What throws -/

/-- The first colon or slash of a text, if there is one, has at least two bytes behind it. -/
def SafeHost (host : Text) : Prop :=
  ∀ p ∈ host.findIdx? fun c => c = ':' ∨ c = '/', p + 3 ≤ host.length

variable {libraries : Libraries} {text : Text}

theorem isOk_substr_iff {pos : ℕ} : (substr text pos).isOk ↔ pos ≤ text.length := by
  unfold substr
  split
  · rename_i h
    exact iff_of_false (fun h => nomatch h) (by omega)
  · rename_i h
    exact iff_of_true rfl (by omega)

/-- `normalizeHost` throws unless what follows the first colon or slash is as long as a `//`. -/
theorem isOk_normalizeHost_iff {host : Text} : (normalizeHost host).isOk ↔ SafeHost host := by
  have hsep : (fun c : Char => decide (c ∈ "://".toList)) =
      fun c => decide (c = ':' ∨ c = '/') := by
    funext c
    simp
  unfold normalizeHost SafeHost
  rw [hsep]
  cases host.findIdx? fun c => decide (c = ':' ∨ c = '/') with
  | none => exact iff_of_true rfl (by simp)
  | some p =>
    simp only [Option.mem_some_iff, forall_eq']
    rw [← isOk_substr_iff]
    cases substr host (p + 3) <;> rfl

/-- An address in brackets is long enough: its first colon is followed by another one and by the
bracket. -/
theorem safeHost_append_bracket {address : Text} (h : 2 ≤ address.count ':') :
    SafeHost (address ++ [']']) := by
  induction address with
  | nil => simp at h
  | cons c address ih =>
    intro p hp
    have hlen : address.count ':' ≤ address.length := count_le_length
    rw [cons_append, findIdx?_cons] at hp
    by_cases hc : c = ':' ∨ c = '/'
    · -- the separator is the first byte, and the second colon is still to come
      have hcount : (c :: address).count ':' ≤ address.count ':' + 1 := by
        rw [count_cons]
        split <;> omega
      simp only [hc, decide_true, if_true, Option.mem_some_iff] at hp
      simp only [cons_append, length_cons, length_append, length_nil]
      omega
    · have hne : c ≠ ':' := fun h => hc (Or.inl h)
      rw [count_cons_of_ne hne] at h
      simp only [hc, decide_false, Bool.false_eq_true, if_false, Option.mem_def,
        Option.map_eq_some_iff] at hp
      obtain ⟨q, hq, rfl⟩ := hp
      have := ih h q hq
      simp only [cons_append, length_cons]
      omega

/-- The host name of a URL is safe. -/
theorem Libraries.safeHost_hostname {base : Option Url} {url : Url}
    (h : libraries.parseUrl text base = some url) : SafeHost url.hostname := by
  rcases libraries.hostname_shape text base url h with hplain | ⟨address, haddress, -, hcolons⟩
  · intro p hp
    obtain ⟨hlt, hsep, -⟩ := findIdx?_eq_some_iff_getElem.1 hp
    have := hplain _ (getElem_mem hlt)
    simp_all
  · rw [haddress]
    have hcount : 2 ≤ ('[' :: address).count ':' := by rwa [count_cons_of_ne (by decide)]
    exact safeHost_append_bracket hcount

/-- The host name of a URL can be normalized. -/
theorem Libraries.normalizeHost_hostname {base : Option Url} {url : Url}
    (h : libraries.parseUrl text base = some url) : ∃ host, normalizeHost url.hostname = .ok host :=
  isOk_iff.1 (isOk_normalizeHost_iff.2 (libraries.safeHost_hostname h))

theorem targetFor_of_eq_none {url : Text} (h : libraries.parseUrl url none = none) :
    targetFor libraries url = .ok none := by
  unfold targetFor
  rw [h]

theorem targetFor_of_eq_some {url : Text} {parsed : Url}
    (h : libraries.parseUrl url none = some parsed) :
    ∃ target, targetFor libraries url = .ok (some target) := by
  obtain ⟨host, hhost⟩ := libraries.normalizeHost_hostname h
  unfold targetFor
  rw [h]
  simp only [hhost]
  exact ⟨_, rfl⟩

/-- A header whose domain, if it gives one, is safe. -/
def SafeCookie (libraries : Libraries) (header : Text) : Prop :=
  ∀ parsed ∈ parseSetCookie libraries header, parsed.domain = [] ∨
    SafeHost (withoutDot parsed.domain)

theorem isOk_collectCookie_iff {now : ℤ} {target : RequestTarget} (collected : ResponseCookies)
    (header : Text) : (collectCookie libraries now target collected header).isOk ↔
    SafeCookie libraries header := by
  unfold collectCookie SafeCookie
  cases parseSetCookie libraries header with
  | none => exact iff_of_true rfl (by simp)
  | some parsed =>
    simp only [Option.mem_some_iff, forall_eq']
    rw [isOk_bind_iff_of_forall (by rintro (- | -) <;> rfl), cookieDomain]
    by_cases hdomain : parsed.domain = []
    · simp only [hdomain, if_true, true_or, iff_true]
      rfl
    · simp only [hdomain, if_false, false_or]
      rw [isOk_bind_iff_of_forall fun _ => rfl, isOk_normalizeHost_iff]

/-- **Collecting the cookies of a response returns exactly if every header is safe**, or the URL is
none at all. -/
theorem isOk_collectResponseCookies_iff {now : ℤ} {url : Text} {headers : HttpHeaders} :
    (collectResponseCookies libraries now url headers).isOk ↔
      ((libraries.parseUrl url none).isSome →
        ∀ header ∈ headers.all "set-cookie".toList, SafeCookie libraries header) := by
  unfold collectResponseCookies
  cases h : libraries.parseUrl url none with
  | none =>
    rw [targetFor_of_eq_none h]
    exact iff_of_true rfl (by simp)
  | some parsed =>
    obtain ⟨target, htarget⟩ := targetFor_of_eq_some h
    rw [htarget, Option.isSome_some]
    simp only [true_imp_iff]
    exact isOk_foldlM_iff isOk_collectCookie_iff

end Idhan.Downloader
