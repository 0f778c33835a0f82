import Idhan.Downloader.CookieHosts

/-!
# The last `Set-Cookie` header

What a history of responses says about a cookie, header by header, and what a request is given for
it.  A response is sorted into three lists that are applied to two containers, one list after the
other: the cookies with a time to expire go into the store, the ones without into the overlay, and
then those to be removed are taken from both.  A request gets those of the overlay, and of the store
only the names that the overlay does not give.

## What a header says

A header is read as a `Saying`: a cookie to keep or one to drop.  `collected_eq` says that the three
lists are the sayings of a response sorted by their kind.  The order between the kinds is lost with
that, so the last header about a cookie does not always win.

## Histories

`Follows` says that the two containers hold what the last saying about each cookie was.  A response
keeps this (`Follows.keep`) if it is `Steady`: it does not drop a cookie that it keeps in the end,
and gives none a time to expire that is in the overlay without one.  `last_set_cookie_wins` is about
histories of such responses, and requests for which the overlay hides no cookie of the store;
`overlay_shadows_update` is one that is not: a cookie that gets a time to expire is still sent with
the value it had before.
-/

namespace Idhan.Downloader

open List

/-! ## What a header says -/

/-- Name, domain and path of a cookie. -/
abbrev Identity := Text × Text × Text

/-- What makes two cookies the same one for the store. -/
def Cookie.identity (cookie : Cookie) : Identity :=
  (cookie.name, cookie.domain, cookie.path)

theorem Cookie.sameIdentity_iff {cookie other : Cookie} :
    cookie.sameIdentity other ↔ cookie.identity = other.identity := by
  simp [Cookie.sameIdentity, Cookie.identity, and_assoc]

/-- A header asks to keep a cookie, or to drop it. -/
inductive Saying where
  | keep (cookie : Cookie)
  | drop (cookie : Cookie)
  deriving DecidableEq, Repr

/-- The cookie that is spoken of. -/
def Saying.cookie : Saying → Cookie
  | keep cookie => cookie
  | drop cookie => cookie

/-- The date of an attribute, in seconds, if it is `Expires` and has one. -/
def attributeDate (libraries : Libraries) (part : Text) : Option ℤ :=
  if headerNamesEqual (trimmed (splitAtFirst '=' (trimmed part)).1) "expires".toList then
    let seconds := libraries.getdate
      ((((splitAtFirst '=' (trimmed part)).2.map trimmed).getD []).takeWhile fun c => c.toNat ≠ 0)
    if seconds = -1 then none else some seconds
  else none

/-- The last date of a header. -/
def headerDate (libraries : Libraries) (header : Text) : Option ℤ :=
  ((((splitAtFirst ';' header).2.getD []).splitOn ';').filterMap (attributeDate libraries)).getLast?

/-- What a header says, on a clock without bounds. -/
def said (libraries : Libraries) (now : ℤ) (header : Text) (parsed : SetCookie) (cookie : Cookie) :
    Saying :=
  match parsed.maxAge, headerDate libraries header with
  | some maxAge, _ =>
    if maxAge ≤ 0 then .drop cookie
      else .keep { cookie with expires := some (now + maxAge * 1000000000) }
  | none, some seconds =>
    if seconds * 1000000000 ≤ now then .drop cookie
    else .keep { cookie with expires := some (seconds * 1000000000) }
  | none, none => .keep cookie

/-- What a header says about a cookie of the server it comes from. -/
def saying (libraries : Libraries) (now : ℤ) (target : RequestTarget) (header : Text) :
    Option Saying :=
  match parseSetCookie libraries header with
  | none => none
  | some parsed =>
    match cookieDomain target parsed with
    | .ok (some (domain, hostOnly)) =>
      let path := if parsed.path = [] then defaultCookiePath target.path else parsed.path
      some (said libraries now header parsed ⟨parsed.name, parsed.value, domain, path,
        parsed.secure, hostOnly, none⟩)
    | _ => none

/-- What the headers of a response say, in their order. -/
def CookieResponse.sayings (libraries : Libraries) (response : CookieResponse) : List Saying :=
  match targetFor libraries response.url with
  | .ok (some target) =>
    (response.headers.all "set-cookie".toList).filterMap (saying libraries response.now target)
  | _ => []

/-- The last that was said about a cookie. -/
def lastSaying (sayings : List Saying) (identity : Identity) : Option Saying :=
  (sayings.filter fun saying => saying.cookie.identity = identity).getLast?

/-- The times of a header fit the clock, which counts nanoseconds in 64 bits. -/
def OnClock (libraries : Libraries) (now : ℤ) (header : Text) : Prop :=
  (∀ seconds ∈ headerDate libraries header, -(2 ^ 63) ≤ seconds * 1000000000 ∧
    seconds * 1000000000 < 2 ^ 63) ∧
    ∀ parsed ∈ parseSetCookie libraries header, ∀ maxAge ∈ parsed.maxAge, 0 < maxAge →
      -(2 ^ 63) ≤ now + maxAge * 1000000000 ∧ now + maxAge * 1000000000 < 2 ^ 63

/-! ## Reading the dates -/

section Dates

variable {libraries : Libraries} {n : ℤ}

theorem wrap_eq_self (hlow : -(2 ^ 63) ≤ n) (hhigh : n < 2 ^ 63) : wrap n = n := by
  unfold wrap
  rw [Int.bmod_def]
  split <;> omega

theorem wrap_add_wrap {m : ℤ} : wrap (m + wrap n) = wrap (m + n) :=
  Int.add_bmod_bmod

/-- The attribute `Expires` is read in the last branch of its loop; the names of the others are
different ones. -/
theorem expires_setAttribute (cookie : SetCookie) (part : Text) :
    (setAttribute libraries cookie part).expires =
      ((attributeDate libraries part).map fun seconds => wrap (seconds * 1000000000)).or
        cookie.expires := by
  unfold setAttribute attributeDate
  by_cases hempty : trimmed part = []
  · rw [if_pos hempty, hempty]
    rfl
  rw [if_neg hempty]
  generalize trimmed (splitAtFirst '=' (trimmed part)).1 = name
  by_cases hname : headerNamesEqual name "expires".toList
  · have hne : ∀ other, lowered other ≠ lowered "expires".toList →
        headerNamesEqual name other = false := by
      intro other hother
      have heq : lowered name = lowered "expires".toList := by simpa [headerNamesEqual] using hname
      simp only [headerNamesEqual, heq, decide_eq_false_iff_not]
      exact fun h => hother h.symm
    simp only [hne _ (show lowered "domain".toList ≠ _ by decide),
      hne _ (show lowered "path".toList ≠ _ by decide), hne _ (show lowered "secure".toList ≠
      _ by decide), hne _ (show lowered "httponly".toList ≠ _ by decide),
      hne _ (show lowered "max-age".toList ≠ _ by decide), hname, if_true, Bool.false_eq_true,
      if_false]
    split
    · rfl
    · rename_i hdate
      rw [if_pos (not_not.1 hdate)]
      rfl
  · simp only [Bool.not_eq_true] at hname
    simp only [hname, Bool.false_eq_true, if_false]
    repeat' split
    all_goals rfl

theorem expires_foldl_setAttribute (parts : List Text) (cookie : SetCookie) :
    (parts.foldl (setAttribute libraries) cookie).expires =
      ((parts.filterMap (attributeDate libraries)).getLast?.map fun seconds =>
        wrap (seconds * 1000000000)).or cookie.expires := by
  induction parts generalizing cookie with
  | nil => rfl
  | cons part parts ih =>
    rw [foldl_cons, ih, expires_setAttribute, filterMap_cons]
    cases attributeDate libraries part with
    | none => rfl
    | some seconds =>
      -- the last date is one of the later parts, if they have any
      simp only [getLast?_cons]
      cases (parts.filterMap (attributeDate libraries)).getLast? <;> rfl

/-- The time that `parseSetCookie` returns is the last date of the header, as far as the clock can
hold it. -/
theorem expires_of_parseSetCookie {header : Text} {parsed : SetCookie}
    (h : parseSetCookie libraries header = some parsed) :
    parsed.expires = (headerDate libraries header).map fun seconds =>
      wrap (seconds * 1000000000) := by
  unfold parseSetCookie at h
  simp only at h
  split at h
  · cases h
  split at h
  · cases h
  · cases h
    rw [expires_foldl_setAttribute, headerDate, Option.or_none]

end Dates

/-! ## The three lists -/

/-- The cookie goes into the store. -/
def Saying.persistent? : Saying → Option Cookie
  | keep cookie => if cookie.expires.isSome then some cookie else none
  | drop _ => none

/-- The cookie goes into the overlay. -/
def Saying.session? : Saying → Option Cookie
  | keep cookie => if cookie.expires.isSome then none else some cookie
  | drop _ => none

/-- The cookie is to be removed. -/
def Saying.removed? : Saying → Option Cookie
  | keep _ => none
  | drop cookie => some cookie

/-- What is said, sorted into the three lists. -/
def sorted (sayings : List Saying) : ResponseCookies :=
  ⟨sayings.filterMap Saying.persistent?, sayings.filterMap Saying.session?,
    sayings.filterMap Saying.removed?⟩

section Collected

variable {libraries : Libraries} {now : ℤ} {sayings : List Saying} {cookie : Cookie} {header : Text}

theorem sorted_append_singleton (sayings : List Saying) (s : Saying) :
    sorted (sayings ++ [s]) =
      ⟨(sorted sayings).persistent ++ s.persistent?.toList,
        (sorted sayings).session ++ s.session?.toList,
        (sorted sayings).removed ++ s.removed?.toList⟩ := by
  have hsingle : ∀ f : Saying → Option Cookie, [s].filterMap f = (f s).toList := by
    intro f
    rw [filterMap_cons]
    cases f s <;> rfl
  simp only [sorted, filterMap_append, hsingle]

theorem persistent?_eq_some {s : Saying} :
    s.persistent? = some cookie ↔ s = .keep cookie ∧ cookie.expires.isSome := by
  cases s with
  | keep kept =>
    simp only [Saying.persistent?, Option.ite_none_right_eq_some, Option.some.injEq,
      Saying.keep.injEq]
    rw [and_comm]
    exact and_congr_right fun heq => by rw [heq]
  | drop _ => simp [Saying.persistent?]

theorem session?_eq_some {s : Saying} :
    s.session? = some cookie ↔ s = .keep cookie ∧ cookie.expires = none := by
  cases s with
  | keep kept =>
    simp only [Saying.session?, Option.ite_none_left_eq_some, Option.some.injEq, Saying.keep.injEq]
    rw [and_comm]
    exact and_congr_right fun heq => by simp [heq]
  | drop _ => simp [Saying.session?]

theorem mem_removed : cookie ∈ (sorted sayings).removed ↔ .drop cookie ∈ sayings := by
  have hsome : ∀ s : Saying, s.removed? = some cookie ↔ s = .drop cookie := fun s => by
    cases s <;> simp [Saying.removed?]
  simp [sorted, hsome]

theorem mem_session : cookie ∈ (sorted sayings).session ↔
    .keep cookie ∈ sayings ∧ cookie.expires = none := by
  simp [sorted, session?_eq_some]

theorem mem_persistent : cookie ∈ (sorted sayings).persistent ↔
    .keep cookie ∈ sayings ∧ cookie.expires.isSome := by
  simp [sorted, persistent?_eq_some]

/-- On the clock, a cookie is sorted by what the header says. -/
theorem sortCookie_sorted {parsed : SetCookie} {cookie : Cookie}
    (hparsed : parseSetCookie libraries header = some parsed)
    (hclock : OnClock libraries now header) (hsession : cookie.expires = none)
    (sayings : List Saying) :
    sortCookie now parsed cookie (sorted sayings) =
      sorted (sayings ++ [said libraries now header parsed cookie]) := by
  have hdate := expires_of_parseSetCookie hparsed
  rw [sorted_append_singleton]
  unfold sortCookie said
  cases hage : parsed.maxAge with
  | some maxAge =>
    simp only
    split
    · simp [Saying.persistent?, Saying.session?, Saying.removed?]
    · rename_i hpositive
      obtain ⟨hlow, hhigh⟩ := hclock.2 parsed hparsed maxAge hage (by omega)
      rw [wrap_add_wrap, wrap_eq_self hlow hhigh]
      simp [Saying.persistent?, Saying.session?, Saying.removed?]
  | none =>
    cases hseconds : headerDate libraries header with
    | none =>
      rw [hseconds] at hdate
      simp [hdate, Saying.persistent?, Saying.session?, Saying.removed?, hsession]
    | some seconds =>
      obtain ⟨hlow, hhigh⟩ := hclock.1 seconds hseconds
      rw [hseconds, Option.map_some, wrap_eq_self hlow hhigh] at hdate
      simp only [hdate]
      split <;> simp [Saying.persistent?, Saying.session?, Saying.removed?]

theorem collectCookie_sorted {target : RequestTarget} (hclock : OnClock libraries now header)
    (sayings : List Saying) :
    Returns (collectCookie libraries now target (sorted sayings) header) fun collected =>
      collected = sorted (sayings ++ (saying libraries now target header).toList) := by
  unfold collectCookie saying
  cases hparsed : parseSetCookie libraries header with
  | none => exact .ok (by simp)
  | some parsed =>
    intro collected h
    obtain ⟨found, hfound, h⟩ := bind_eq_ok_iff.1 h
    simp only [hfound]
    cases found with
    | none =>
      cases h
      simp
    | some found =>
      cases h
      exact sortCookie_sorted hparsed hclock rfl sayings

/-- The lists of a response, in terms of what its headers say. -/
theorem collected_eq {response : CookieResponse} {collected : ResponseCookies}
    (hclock :
      ∀ header ∈ response.headers.all "set-cookie".toList, OnClock libraries response.now header)
    (h : collectResponseCookies libraries response.now response.url response.headers =
      .ok collected) :
    collected = sorted (response.sayings libraries) := by
  obtain ⟨target, htarget, h⟩ := bind_eq_ok_iff.1 h
  unfold CookieResponse.sayings
  rw [htarget]
  cases target with
  | none =>
    cases h
    rfl
  | some target =>
    -- by induction on the headers to come, with what was said before them
    suffices hloop : ∀ (headers : List Text) (before : List Saying),
        (∀ header ∈ headers, OnClock libraries response.now header) →
        headers.foldlM (collectCookie libraries response.now target) (sorted before) =
          .ok collected →
        collected = sorted (before ++ headers.filterMap (saying libraries response.now target)) by
      exact hloop _ [] hclock h
    intro headers
    induction headers with
    | nil =>
      intro before _ h
      cases h
      simp
    | cons header headers ih =>
      intro before hclock h
      rw [foldlM_cons] at h
      obtain ⟨next, hnext, h⟩ := bind_eq_ok_iff.1 h
      rw [collectCookie_sorted (hclock header (mem_cons_self ..)) before next hnext] at h
      rw [ih _ (fun other hother => hclock other (mem_cons_of_mem _ hother)) h, filterMap_cons]
      cases saying libraries response.now target header <;> simp

end Collected

/-! ## The containers -/

/-- The cookies of a container with this identity. -/
def held (cookies : List Cookie) (identity : Identity) : List Cookie :=
  cookies.filter fun cookie => cookie.identity = identity

section Containers

variable {cookies : List Cookie} {cookie : Cookie} {identity : Identity}

theorem mem_held : cookie ∈ held cookies identity ↔
    cookie ∈ cookies ∧ cookie.identity = identity := by
  simp [held]

theorem held_eq_nil_iff :
    held cookies identity = [] ↔ ∀ cookie ∈ cookies, cookie.identity ≠ identity := by
  simp [held]

theorem upsert_cons (first : Cookie) : upsert (first :: cookies) cookie =
    if first.sameIdentity cookie then cookie :: cookies else first :: upsert cookies cookie := by
  unfold upsert
  rw [findIdx?_cons]
  cases first.sameIdentity cookie with
  | true => rfl
  | false => cases cookies.findIdx? (·.sameIdentity cookie) <;> rfl

/-- A cookie takes the place of the first one with its identity, or the last place. -/
theorem held_upsert : held (upsert cookies cookie) identity =
    if cookie.identity = identity then cookie :: (held cookies identity).tail
      else held cookies identity := by
  induction cookies with
  | nil => simp [upsert, held, filter_cons]
  | cons first cookies ih =>
    rw [upsert_cons]
    by_cases hsame : first.identity = cookie.identity
    · rw [if_pos (Cookie.sameIdentity_iff.2 hsame)]
      simp only [held, filter_cons, hsame, decide_eq_true_eq]
      split <;> rfl
    · rw [if_neg fun h => hsame (Cookie.sameIdentity_iff.1 h)]
      simp only [held, filter_cons, decide_eq_true_eq] at ih ⊢
      rw [ih]
      by_cases hfirst : first.identity = identity
      · have hcookie : cookie.identity ≠ identity := fun h => hsame (hfirst.trans h.symm)
        simp [hfirst, hcookie]
      · simp [hfirst]

theorem remove_eq {removed : Cookie} : remove cookies removed.name removed.domain removed.path =
    cookies.filter fun cookie => cookie.identity ≠ removed.identity := by
  refine filter_congr fun cookie _ => ?_
  simp [Cookie.identity, Bool.and_assoc]

theorem held_remove {removed : Cookie} :
    held (remove cookies removed.name removed.domain removed.path) identity =
    if removed.identity = identity then [] else held cookies identity := by
  rw [remove_eq, held, filter_filter]
  split
  · rename_i heq
    rw [filter_eq_nil_iff]
    rintro cookie -
    simp [heq]
  · rename_i hne
    refine filter_congr fun cookie _ => ?_
    by_cases hcookie : cookie.identity = identity
    · simp [hcookie, Ne.symm hne]
    · simp [hcookie]

theorem held_foldl_upsert {added : List Cookie} : held (added.foldl upsert cookies) identity =
    match (held added identity).getLast? with
    | none => held cookies identity
    | some cookie => cookie :: (held cookies identity).tail := by
  induction added generalizing cookies with
  | nil => rfl
  | cons first added ih =>
    rw [foldl_cons, ih, held_upsert]
    by_cases hfirst : first.identity = identity
    · have hcons : held (first :: added) identity = first :: held added identity := by
        simp [held, hfirst]
      rw [if_pos hfirst, hcons, getLast?_cons]
      cases (held added identity).getLast? <;> rfl
    · have hcons : held (first :: added) identity = held added identity := by simp [held, hfirst]
      rw [if_neg hfirst, hcons]

/-- Several cookies are removed from one container. -/
theorem held_foldl_remove {removed : List Cookie} :
    held (removed.foldl (fun cookies cookie => remove cookies cookie.name cookie.domain cookie.path)
      cookies) identity = if held removed identity = [] then held cookies identity else [] := by
  induction removed generalizing cookies with
  | nil => rfl
  | cons first removed ih =>
    rw [foldl_cons, ih, held_remove]
    by_cases hfirst : first.identity = identity <;> simp [held, hfirst]

end Containers

/-! ## Keeping the cookies of a response -/

section Keeping

variable {jar : Jar} {sayings : List Saying} {identity : Identity} {added : List Cookie}

theorem foldl_setPersistent (h : ∀ cookie ∈ added, cookie.expires.isSome) :
    added.foldl Jar.setPersistent jar = ⟨jar.overlay, added.foldl upsert jar.store⟩ := by
  induction added generalizing jar with
  | nil => rfl
  | cons cookie added ih =>
    have hset : jar.setPersistent cookie = ⟨jar.overlay, upsert jar.store cookie⟩ :=
      if_neg (Option.isSome_iff_ne_none.1 (h cookie (mem_cons_self ..)))
    rw [foldl_cons, hset, ih fun other hother => h other (mem_cons_of_mem _ hother)]
    rfl

theorem foldl_setSession :
    added.foldl Jar.setSession jar = ⟨added.foldl upsert jar.overlay, jar.store⟩ := by
  induction added generalizing jar with
  | nil => rfl
  | cons cookie added ih => exact ih

theorem foldl_erase {removed : List Cookie} :
    let removeAll := removed.foldl fun cookies cookie => remove cookies cookie.name cookie.domain
        cookie.path
    removed.foldl Jar.erase jar = ⟨removeAll jar.overlay, removeAll jar.store⟩ := by
  induction removed generalizing jar with
  | nil => rfl
  | cons cookie removed ih => exact ih

/-- What the overlay and the store hold of a cookie after a response. -/
theorem held_keep (jar : Jar) (sayings : List Saying) (identity : Identity) :
    held (jar.keep (sorted sayings)).overlay identity =
        (if held (sorted sayings).removed identity = [] then
          held ((sorted sayings).session.foldl upsert jar.overlay) identity else []) ∧
      held (jar.keep (sorted sayings)).store identity =
        if held (sorted sayings).removed identity = [] then
          held ((sorted sayings).persistent.foldl upsert jar.store) identity else [] := by
  simp only [Jar.keep, foldl_setPersistent fun _ h => (mem_persistent.1 h).2, foldl_setSession,
    foldl_erase]
  exact ⟨held_foldl_remove, held_foldl_remove⟩

end Keeping

/-! ## The containers follow the last header -/

/-- A cookie that goes to no request that the other, of the same name, domain and path, does not go
to. -/
def Narrower (cookie wider : Cookie) : Prop :=
  (wider.secure → cookie.secure) ∧ (wider.hostOnly → cookie.hostOnly)

/-- Each container holds a cookie at most once. -/
def HeldOnce (jar : Jar) (identity : Identity) : Prop :=
  (held jar.overlay identity).tail = [] ∧ (held jar.store identity).tail = []

/-- The containers hold of a cookie what was said last about it, if anything was said. -/
def Agrees (jar : Jar) (identity : Identity) : Option Saying → Prop
  | some (.keep cookie) =>
    if cookie.expires.isSome then
      held jar.overlay identity = [] ∧ held jar.store identity = [cookie]
    else
      held jar.overlay identity = [cookie] ∧
        ∀ stored ∈ held jar.store identity, Narrower stored cookie
  | some (.drop _) => held jar.overlay identity = [] ∧ held jar.store identity = []
  | none => HeldOnce jar identity

/-- The containers hold what was said last. -/
def Follows (jar : Jar) (sayings : List Saying) : Prop :=
  ∀ identity, Agrees jar identity (lastSaying sayings identity)

/-- A response after which a cookie is not in two places: a cookie that it keeps in the end is not
dropped by another of its headers; if it has a time to expire there is none without one; and if it
has none, one with a time is not for more requests. -/
structure Steady (jar : Jar) (sayings : List Saying) : Prop where
  not_dropped : ∀ cookie, lastSaying sayings cookie.identity = some (.keep cookie) →
    ∀ dropped, .drop dropped ∈ sayings → dropped.identity ≠ cookie.identity
  persistent : ∀ cookie, lastSaying sayings cookie.identity = some (.keep cookie) →
    cookie.expires.isSome →
    ∀ session, session ∈ jar.overlay ∨ .keep session ∈ sayings ∧ session.expires = none →
      session.identity ≠ cookie.identity
  session : ∀ cookie, lastSaying sayings cookie.identity = some (.keep cookie) →
    cookie.expires = none →
    ∀ stored, stored ∈ jar.store ∨ .keep stored ∈ sayings ∧ stored.expires.isSome →
      stored.identity = cookie.identity → Narrower stored cookie

section Following

variable {jar : Jar} {sayings before : List Saying} {identity : Identity} {cookie : Cookie}
  {last : Option Saying} {s : Saying} {f : Saying → Option Cookie}

theorem identity_of_lastSaying (h : lastSaying sayings identity = some s) :
    s ∈ sayings ∧ s.cookie.identity = identity := by
  have hmem := mem_of_mem_getLast? h
  simpa using hmem

theorem lastSaying_append : lastSaying (before ++ sayings) identity =
    (lastSaying sayings identity).or (lastSaying before identity) := by
  unfold lastSaying
  rw [filter_append, getLast?_append]

/-- A list that is sorted out holds of a cookie what is sorted out of the sayings about it. -/
theorem held_filterMap (hf : ∀ s cookie, f s = some cookie → cookie = s.cookie) :
    held (sayings.filterMap f) identity =
    (sayings.filter fun s => s.cookie.identity = identity).filterMap f := by
  induction sayings with
  | nil => rfl
  | cons s sayings ih =>
    unfold held at ih ⊢
    cases hs : f s with
    | none => by_cases hidentity : s.cookie.identity = identity <;> simp [hs, hidentity, ih]
    | some cookie =>
      have hcookie := hf s cookie hs
      by_cases hidentity : s.cookie.identity = identity <;> simp [hs, hcookie, hidentity, ih]

/-- What the last saying gives is the last that is sorted out. -/
theorem getLast?_filterMap (hf : ∀ s cookie, f s = some cookie → cookie = s.cookie)
    (hlast : lastSaying sayings identity = some s) (hs : f s = some cookie) :
    (held (sayings.filterMap f) identity).getLast? = some cookie := by
  obtain ⟨front, hfront⟩ := getLast?_eq_some_iff.1 hlast
  rw [held_filterMap hf, hfront, filterMap_append, getLast?_append]
  simp [hs]

theorem eq_cookie_of_persistent? (s : Saying) (cookie : Cookie) (h : s.persistent? = some cookie) :
    cookie = s.cookie := by
  rw [(persistent?_eq_some.1 h).1, Saying.cookie]

theorem eq_cookie_of_session? (s : Saying) (cookie : Cookie) (h : s.session? = some cookie) :
    cookie = s.cookie := by
  rw [(session?_eq_some.1 h).1, Saying.cookie]

/-- Containers that hold the same of a cookie agree with the same. -/
theorem Agrees.congr {other : Jar} (h : Agrees jar identity last)
    (hoverlay : held other.overlay identity = held jar.overlay identity)
    (hstore : held other.store identity = held jar.store identity) :
    Agrees other identity last := by
  unfold Agrees HeldOnce
  rw [hoverlay, hstore]
  exact h

/-- The overlay holds a cookie at most once. -/
theorem Agrees.tail_overlay (h : Agrees jar identity last) :
    (held jar.overlay identity).tail = [] := by
  unfold Agrees at h
  split at h
  · split at h <;> rw [h.1] <;> rfl
  · rw [h.1]
    rfl
  · exact h.1

/-- The store holds a cookie at most once, if the overlay does not hold it. -/
theorem Agrees.tail_store (h : Agrees jar identity last)
    (hoverlay : held jar.overlay identity = []) : (held jar.store identity).tail = [] := by
  unfold Agrees at h
  split at h
  · split at h
    · rw [h.2]
      rfl
    · rw [hoverlay] at h
      cases h.1
  · rw [h.2]
    rfl
  · exact h.2

theorem held_sorted_of_lastSaying_eq_none (h : lastSaying sayings identity = none) :
    held (sorted sayings).persistent identity = [] ∧ held (sorted sayings).session identity = [] ∧
      held (sorted sayings).removed identity = [] := by
  have hnone : ∀ s ∈ sayings, s.cookie.identity ≠ identity := by simpa [lastSaying] using h
  simp only [held_eq_nil_iff]
  exact ⟨fun cookie hcookie => hnone _ (mem_persistent.1 hcookie).1,
    fun cookie hcookie => hnone _ (mem_session.1 hcookie).1,
    fun cookie hcookie => hnone _ (mem_removed.1 hcookie)⟩

/-- A cookie that a response does not drop is put in, container by container. -/
theorem held_keep_of_not_dropped (jar : Jar) (h : held (sorted sayings).removed identity = []) :
    held (jar.keep (sorted sayings)).overlay identity =
      held ((sorted sayings).session.foldl upsert jar.overlay) identity ∧
      held (jar.keep (sorted sayings)).store identity =
        held ((sorted sayings).persistent.foldl upsert jar.store) identity := by
  have hkeep := held_keep jar sayings identity
  rwa [if_pos h, if_pos h] at hkeep

theorem Steady.held_removed (hsteady : Steady jar sayings)
    (hlast : lastSaying sayings cookie.identity = some (.keep cookie)) :
    held (sorted sayings).removed cookie.identity = [] :=
  held_eq_nil_iff.2 fun dropped hdropped => hsteady.not_dropped cookie hlast dropped
    (mem_removed.1 hdropped)

section

variable (hbefore : Agrees jar cookie.identity last) (hsteady : Steady jar sayings)
  (hlast : lastSaying sayings cookie.identity = some (.keep cookie))
include hbefore hsteady hlast

theorem Agrees.keep_persistent (hexpires : cookie.expires.isSome) :
    Agrees (jar.keep (sorted sayings)) cookie.identity (some (.keep cookie)) := by
  obtain ⟨hoverlay, hstore⟩ := held_keep_of_not_dropped jar (hsteady.held_removed hlast)
  rw [held_foldl_upsert] at hoverlay hstore
  -- nothing of the cookie is in the overlay, neither before nor after
  have hsession := hsteady.persistent cookie hlast hexpires
  have hnone : held jar.overlay cookie.identity = [] :=
    held_eq_nil_iff.2 fun session h => hsession session (Or.inl h)
  have hadded : held (sorted sayings).session cookie.identity = [] :=
    held_eq_nil_iff.2 fun session h => hsession session (Or.inr (mem_session.1 h))
  have hstored : (held (sorted sayings).persistent cookie.identity).getLast? = some cookie :=
    getLast?_filterMap eq_cookie_of_persistent? hlast (if_pos hexpires)
  rw [hadded] at hoverlay
  rw [hstored, hbefore.tail_store hnone] at hstore
  unfold Agrees
  simp only [hexpires, if_true]
  exact ⟨hoverlay.trans hnone, hstore⟩

theorem Agrees.keep_session (hexpires : cookie.expires = none) :
    Agrees (jar.keep (sorted sayings)) cookie.identity (some (.keep cookie)) := by
  obtain ⟨hoverlay, hstore⟩ := held_keep_of_not_dropped jar (hsteady.held_removed hlast)
  rw [held_foldl_upsert] at hoverlay hstore
  have hadded : (held (sorted sayings).session cookie.identity).getLast? = some cookie :=
    getLast?_filterMap eq_cookie_of_session? hlast (by simp [Saying.session?, hexpires])
  rw [hadded, hbefore.tail_overlay] at hoverlay
  unfold Agrees
  simp only [hexpires, Option.isSome_none, Bool.false_eq_true, if_false]
  refine ⟨hoverlay, fun stored hmem => ?_⟩
  refine hsteady.session cookie hlast hexpires stored ?_ (mem_held.1 hmem).2
  -- what the store holds was there before, or the response has put it there
  rw [hstore] at hmem
  split at hmem
  · exact Or.inl (mem_held.1 hmem).1
  · rename_i added hlastAdded
    rcases mem_cons.1 hmem with rfl | hmem
    · exact Or.inr (mem_persistent.1 (mem_held.1 (mem_of_mem_getLast? hlastAdded)).1)
    · exact Or.inl (mem_held.1 (mem_of_mem_tail hmem)).1

end

/-- **A steady response leaves in the containers what its last headers say**, and what was said
before about all the others. -/
theorem Follows.keep (hfollows : Follows jar before) (hsteady : Steady jar sayings) :
    Follows (jar.keep (sorted sayings)) (before ++ sayings) := by
  intro identity
  have hbefore := hfollows identity
  rw [lastSaying_append]
  cases hlast : lastSaying sayings identity with
  | none =>
    obtain ⟨hpersistent, hsession, hremoved⟩ := held_sorted_of_lastSaying_eq_none hlast
    obtain ⟨hoverlay, hstore⟩ := held_keep_of_not_dropped jar hremoved
    rw [held_foldl_upsert, hsession] at hoverlay
    rw [held_foldl_upsert, hpersistent] at hstore
    exact hbefore.congr hoverlay hstore
  | some s =>
    obtain ⟨hmem, hidentity⟩ := identity_of_lastSaying hlast
    cases s with
    | drop dropped =>
      have hremoved : held (sorted sayings).removed identity ≠ [] :=
        ne_nil_of_mem (mem_held.2 ⟨mem_removed.2 hmem, hidentity⟩)
      have hkeep := held_keep jar sayings identity
      rwa [if_neg hremoved, if_neg hremoved] at hkeep
    | keep cookie =>
      replace hidentity : cookie.identity = identity := hidentity
      subst hidentity
      cases hexpires : cookie.expires.isSome with
      | true => exact hbefore.keep_persistent hsteady hlast hexpires
      | false => exact hbefore.keep_session hsteady hlast (by simpa using hexpires)

/-- A history whose responses are all steady. -/
def SteadyHistory (libraries : Libraries) (start : Jar) (responses : List CookieResponse) : Prop :=
  ∀ before response after jar, responses = before ++ response :: after →
    Jar.keepAll libraries before start = .ok jar → Steady jar (response.sayings libraries)

/-- The containers hold what was said last, after any steady history on the clock. -/
theorem follows_keepAll {libraries : Libraries} {responses : List CookieResponse} {start jar : Jar}
    (honce : ∀ identity, HeldOnce start identity)
    (hclock : ∀ response ∈ responses, ∀ header ∈ response.headers.all "set-cookie".toList,
      OnClock libraries response.now header)
    (hsteady : SteadyHistory libraries start responses)
    (hrun : Jar.keepAll libraries responses start = .ok jar) :
    Follows jar (responses.flatMap (·.sayings libraries)) := by
  -- by induction on the history from its end, since the condition is on the jar before a response
  induction responses using List.reverseRecOn generalizing jar with
  | nil =>
    cases hrun
    exact honce
  | append_singleton before response ih =>
    unfold Jar.keepAll at hrun
    rw [foldlM_append] at hrun
    obtain ⟨reached, hreached, hrun⟩ := bind_eq_ok_iff.1 hrun
    rw [foldlM_cons] at hrun
    obtain ⟨kept, hkept, hrun⟩ := bind_eq_ok_iff.1 hrun
    cases hrun
    obtain ⟨collected, hcollected, hkept⟩ := bind_eq_ok_iff.1 hkept
    cases hkept
    rw [collected_eq (hclock response (by simp)) hcollected, flatMap_append, flatMap_singleton]
    refine (ih (fun other hother => hclock other (by simp [hother])) ?_ hreached).keep
      (hsteady before response [] reached rfl hreached)
    intro front other rest jar heq
    exact hsteady front other (rest ++ [response]) jar (by simp [heq])

end Following

/-! ## What a request gets -/

/-- A cookie of the store that matches has no cookie of the overlay with its name before it, unless
that is the same cookie. -/
def Unshadowed (jar : Jar) (target : RequestTarget) (now : ℤ) : Prop :=
  ∀ stored ∈ jar.store, matchesRequest stored target.host target.path target.secure now →
    ∀ session ∈ jar.overlay, matchesRequest session target.host target.path target.secure now →
      session.name = stored.name → ∃ same ∈ jar.overlay, same.identity = stored.identity

/-- What a request should get of a cookie: the one that was to be kept, if it matches. -/
def requested (target : RequestTarget) (now : ℤ) : Option Saying → List Cookie
  | some (.keep cookie) =>
    if matchesRequest cookie target.host target.path target.secure now then [cookie] else []
  | _ => []

section Requests

variable {jar : Jar} {target : RequestTarget} {now : ℤ} {identity : Identity} {cookie : Cookie}

/-- Where a narrower cookie goes, the other one goes as well. -/
theorem Narrower.matchesRequest {wider : Cookie} {host path : Text} {secure : Bool}
    (h : Narrower cookie wider) (hidentity : cookie.identity = wider.identity)
    (hexpires : wider.expires = none)
    (hmatches : matchesRequest cookie host path secure now) :
    Downloader.matchesRequest wider host path secure now := by
  obtain ⟨hsecure, hhostOnly⟩ := h
  have hdomain : cookie.domain = wider.domain := congrArg (·.2.1) hidentity
  have hpath : cookie.path = wider.path := congrArg (·.2.2) hidentity
  obtain ⟨-, hsent, hwithin, hunder⟩ := matchesRequest_iff.1 hmatches
  rw [hdomain] at hwithin
  rw [hpath] at hunder
  refine matchesRequest_iff.2 ⟨by simp [expired, hexpires], fun hwide => hsent (hsecure hwide), ?_,
    hunder⟩
  refine cookieDomainMatches_iff.2
    ((cookieDomainMatches_iff.1 hwithin).imp_right (And.imp_left fun hany => ?_))
  exact Bool.eq_false_iff.2 fun honly => Bool.eq_false_iff.1 hany (hhostOnly honly)

/-- The names that the overlay gives to a request. -/
def overlaid (jar : Jar) (target : RequestTarget) (now : ℤ) : List Text :=
  (jar.overlay.filter (matchesRequest · target.host target.path target.secure now)).map Cookie.name

theorem mem_overlaid {name : Text} : name ∈ overlaid jar target now ↔
    ∃ session ∈ jar.overlay, matchesRequest session target.host target.path target.secure now ∧
    session.name = name := by
  simp [overlaid, and_assoc]

/-- What a request gets of a cookie, container by container. -/
theorem filter_matchingCookies (jar : Jar) (target : RequestTarget) (now : ℤ)
    (identity : Identity) :
    ((matchingCookies jar target now).filter fun cookie => cookie.identity = identity).Perm
      ((held jar.overlay identity).filter
        (matchesRequest · target.host target.path target.secure now) ++
        (held jar.store identity).filter fun cookie =>
          matchesRequest cookie target.host target.path target.secure now ∧
          cookie.name ∉ overlaid jar target now) := by
  refine ((perm_insertionSort _ _).filter _).trans (.of_eq ?_)
  unfold held
  rw [filter_append, filter_filter, filter_filter, filter_filter, filter_filter, filter_filter]
  congr 1
  · exact filter_congr fun cookie _ => Bool.and_comm ..
  · refine filter_congr fun cookie _ => ?_
    rw [Bool.eq_iff_iff]
    simp only [mem_overlaid]
    simp
    tauto

/-- A cookie that is in the store only is sent if it matches. -/
theorem filter_matchingCookies_of_store (hunshadowed : Unshadowed jar target now)
    (hoverlay : held jar.overlay cookie.identity = [])
    (hstore : held jar.store cookie.identity = [cookie]) :
    ((matchingCookies jar target now).filter fun other => other.identity = cookie.identity) =
      requested target now (some (.keep cookie)) := by
  have hperm := filter_matchingCookies jar target now cookie.identity
  have hmem : cookie ∈ jar.store := (mem_held.1 (hstore ▸ mem_singleton_self cookie)).1
  rw [hoverlay, hstore] at hperm
  unfold requested
  by_cases hmatches : matchesRequest cookie target.host target.path target.secure now
  · have hshadow : cookie.name ∉ overlaid jar target now := by
      intro hname
      obtain ⟨session, hsession, hsent, hname⟩ := mem_overlaid.1 hname
      obtain ⟨same, hsame, hidentity⟩ :=
        hunshadowed cookie hmem hmatches session hsession hsent hname
      exact held_eq_nil_iff.1 hoverlay same hsame hidentity
    simpa [hmatches, hshadow] using hperm
  · simpa [hmatches] using hperm

/-- A cookie that is in the overlay is sent if it matches, and nothing of the store. -/
theorem filter_matchingCookies_of_overlay (hoverlay : held jar.overlay cookie.identity = [cookie])
    (hexpires : cookie.expires = none)
    (hstore : ∀ stored ∈ held jar.store cookie.identity, Narrower stored cookie) :
    ((matchingCookies jar target now).filter fun other => other.identity = cookie.identity) =
      requested target now (some (.keep cookie)) := by
  have hperm := filter_matchingCookies jar target now cookie.identity
  have hmem : cookie ∈ jar.overlay := (mem_held.1 (hoverlay ▸ mem_singleton_self cookie)).1
  -- the name is left out if the cookie is sent; and where it is not sent, no narrower one is
  have hleft : ((held jar.store cookie.identity).filter fun other =>
      matchesRequest other target.host target.path target.secure now ∧
      other.name ∉ overlaid jar target now) = [] := by
    refine filter_eq_nil_iff.2 fun stored hstored hsent => ?_
    obtain ⟨hsent, hname⟩ := of_decide_eq_true hsent
    have hidentity : stored.identity = cookie.identity := (mem_held.1 hstored).2
    have hmatches := (hstore stored hstored).matchesRequest hidentity hexpires hsent
    exact hname (mem_overlaid.2 ⟨cookie, hmem, hmatches, (congrArg (·.1) hidentity).symm⟩)
  rw [hoverlay, hleft, append_nil] at hperm
  unfold requested
  by_cases hmatches : matchesRequest cookie target.host target.path target.secure now <;>
    simpa [hmatches] using hperm

/-- **A request gets for each cookie what the last header about it says**: the one that was to be
kept, if it matches, and nothing if the last header removes it. -/
theorem last_set_cookie_wins {libraries : Libraries} {responses : List CookieResponse} {start : Jar}
    {last : Saying} (honce : ∀ identity, HeldOnce start identity)
    (hclock : ∀ response ∈ responses, ∀ header ∈ response.headers.all "set-cookie".toList,
      OnClock libraries response.now header)
    (hsteady : SteadyHistory libraries start responses)
    (hrun : Jar.keepAll libraries responses start = .ok jar)
    (hunshadowed : Unshadowed jar target now)
    (hlast : lastSaying (responses.flatMap (·.sayings libraries)) identity = some last) :
    ((matchingCookies jar target now).filter fun cookie => cookie.identity = identity) =
      requested target now (some last) := by
  have hagrees := follows_keepAll honce hclock hsteady hrun identity
  obtain ⟨-, hidentity⟩ := identity_of_lastSaying hlast
  rw [hlast] at hagrees
  cases last with
  | drop dropped =>
    obtain ⟨hoverlay, hstore⟩ := hagrees
    have hperm := filter_matchingCookies jar target now identity
    rw [hoverlay, hstore] at hperm
    exact hperm.eq_nil
  | keep cookie =>
    replace hidentity : cookie.identity = identity := hidentity
    subst hidentity
    unfold Agrees at hagrees
    cases hexpires : cookie.expires with
    | some expires =>
      simp only [hexpires, Option.isSome_some, if_true] at hagrees
      exact filter_matchingCookies_of_store hunshadowed hagrees.1 hagrees.2
    | none =>
      simp only [hexpires, Option.isSome_none, Bool.false_eq_true, if_false] at hagrees
      exact filter_matchingCookies_of_overlay hagrees.1 hexpires hagrees.2

end Requests

/-! ## A cookie that changes its container -/

/-- A page of `https://example.com/` with one `Set-Cookie` header. -/
def pageSetting (header : String) : CookieResponse :=
  ⟨"https://example.com/".toList, [("Set-Cookie".toList, header.toList)], 0⟩

/-- The cookie `a` of `https://example.com/`. -/
def cookieA (value : String) (expires : Option ℤ) : Cookie :=
  ⟨"a".toList, value.toList, "example.com".toList, "/".toList, false, true, expires⟩

/-- A response that gives no times is steady as long as the store is empty. -/
theorem steady_of_store_eq_nil {jar : Jar} {sayings : List Saying} (hstore : jar.store = [])
    (h : ∀ s ∈ sayings, s = .keep s.cookie ∧ s.cookie.expires = none) : Steady jar sayings where
  not_dropped _ _ dropped hdropped := nomatch (h _ hdropped).1
  persistent cookie hlast hexpires := by
    have hnone : cookie.expires = none := (h _ (identity_of_lastSaying hlast).1).2
    simp [hnone] at hexpires
  session cookie _ _ stored hstored := by
    rcases hstored with hstored | ⟨hkept, hexpires⟩
    · simp [hstore] at hstored
    · have hnone : stored.expires = none := (h _ hkept).2
      simp [hnone] at hexpires

/-- A session cookie that is set twice is sent with its second value. -/
theorem last_set_cookie_wins_twice :
    ((matchingCookies ⟨[cookieA "2" none], []⟩ ⟨"example.com".toList, "/".toList, true⟩ 0).filter
        fun cookie => cookie.identity = (cookieA "2" none).identity) =
      requested ⟨"example.com".toList, "/".toList, true⟩ 0 (some (.keep (cookieA "2" none))) :=
  have hclock : ∀ response ∈ [pageSetting "a=1", pageSetting "a=2"],
      ∀ header ∈ response.headers.all "set-cookie".toList,
        OnClock addresses response.now header := by
    unfold OnClock
    decide
  have hkeeps : ∀ response ∈ [pageSetting "a=1",
      pageSetting "a=2"], ∀ s ∈ response.sayings addresses,
      s = .keep s.cookie ∧ s.cookie.expires = none := by decide
  have hsteady : SteadyHistory addresses ⟨[], []⟩ [pageSetting "a=1", pageSetting "a=2"] := by
    intro before response after jar heq hrun
    refine steady_of_store_eq_nil ?_ (hkeeps response (by simp [heq]))
    rcases before with - | ⟨first, - | ⟨second, rest⟩⟩
    · cases hrun
      rfl
    · cases heq
      cases hrun
      rfl
    · simp at heq
  last_set_cookie_wins (fun _ => ⟨rfl, rfl⟩) hclock hsteady rfl (by unfold Unshadowed; decide)
    (show lastSaying ([pageSetting "a=1", pageSetting "a=2"].flatMap (·.sayings addresses)) _ =
      _ by decide)

/-- The cookie `a=1` is set without a time to expire, and then `a=2` with one: the request still
gets `a=1`. -/
theorem overlay_shadows_update :
    ∃ jar, Jar.keepAll addresses [pageSetting "a=1", pageSetting "a=2; Max-Age=60"] ⟨[], []⟩ =
      .ok jar ∧ matchingCookies jar ⟨"example.com".toList, "/".toList, true⟩ 1 =
      [cookieA "1" none] ∧
      requested ⟨"example.com".toList, "/".toList, true⟩ 1
        (lastSaying ([pageSetting "a=1", pageSetting "a=2; Max-Age=60"].flatMap
          (·.sayings addresses)) (cookieA "1" none).identity) = [cookieA "2" (some 60000000000)] :=
  ⟨⟨[cookieA "1" none], [cookieA "2" (some 60000000000)]⟩, by decide, by decide, by decide⟩

end Idhan.Downloader
