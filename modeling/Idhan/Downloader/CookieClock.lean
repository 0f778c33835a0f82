import Idhan.Downloader.CookieHistory

/-!
# Cookies on the clock of the system

`collectResponseCookies` counts the time at which a cookie expires in nanoseconds, in 64 bits.  What
a header says is read here on a clock without bounds (`saying`), and compared with the lists that
are collected.

* `collectCookie_future`: a cookie that is to be kept until a time is kept until that time modulo
  2⁶⁴, or removed.
* `collects_future_iff`: when it is kept until a time that is still to come, whatever the other
  headers of the response say.
-/

namespace Idhan.Downloader

open List

variable {libraries : Libraries} {now : ℤ} {target : RequestTarget} {header : Text}
  {cookie : Cookie} {expiry : ℤ}

/-! ## The lists of several headers -/

/-- The lists of some headers, and behind them those of others. -/
def ResponseCookies.add (first last : ResponseCookies) : ResponseCookies :=
  ⟨first.persistent ++ last.persistent, first.session ++ last.session,
    first.removed ++ last.removed⟩

theorem add_empty (collected : ResponseCookies) : collected.add ⟨[], [], []⟩ = collected := by
  simp [ResponseCookies.add]

theorem sortCookie_add (parsed : SetCookie) (cookie : Cookie) (first last : ResponseCookies) :
    sortCookie now parsed cookie (first.add last) =
      first.add (sortCookie now parsed cookie last) := by
  unfold sortCookie
  cases parsed.maxAge with
  | some maxAge =>
    simp only
    split <;> simp [ResponseCookies.add]
  | none =>
    cases parsed.expires with
    | some expires =>
      simp only
      split <;> simp [ResponseCookies.add]
    | none => simp [ResponseCookies.add]

/-- A round of the loop only appends to the lists. -/
theorem collectCookie_add (first last : ResponseCookies) (header : Text) :
    collectCookie libraries now target (first.add last) header =
      (collectCookie libraries now target last header).map first.add := by
  unfold collectCookie
  cases parseSetCookie libraries header with
  | none => rfl
  | some parsed =>
    simp only
    cases hfound : cookieDomain target parsed with
    | error e => rfl
    | ok found =>
      cases found with
      | none => rfl
      | some found => exact congrArg Except.ok (sortCookie_add ..)

theorem foldlM_collectCookie_add (first : ResponseCookies) :
    ∀ (headers : List Text) (last : ResponseCookies),
    headers.foldlM (collectCookie libraries now target) (first.add last) =
      (headers.foldlM (collectCookie libraries now target) last).map first.add
  | [], _ => rfl
  | header :: headers, last => by
    rw [foldlM_cons, foldlM_cons, collectCookie_add]
    cases collectCookie libraries now target last header with
    | error e => rfl
    | ok collected => exact foldlM_collectCookie_add first headers collected

/-! ## A time to come -/

/-- A time is still to come on the clock if what is left until then, modulo 2⁶⁴, ends before the
clock does. -/
theorem lt_wrap_iff (hlow : -(2 ^ 63) ≤ now) (hhigh : now < 2 ^ 63) :
    now < wrap expiry ↔ 0 < (expiry - now) % 2 ^ 64 ∧ now + (expiry - now) % 2 ^ 64 < 2 ^ 63 := by
  unfold wrap
  rw [Int.bmod_def]
  split <;> omega

/-- A cookie that is to be kept until a time is kept until that time as the clock holds it, or, if
the clock holds it as a time that has passed, it may be put to those that are removed. -/
theorem sortCookie_future {parsed : SetCookie} {base : Cookie}
    (hparsed : parseSetCookie libraries header = some parsed) (hnone : base.expires = none)
    (hsaid : said libraries now header parsed base = .keep cookie)
    (hexpires : cookie.expires = some expiry) (collected : ResponseCookies) :
    sortCookie now parsed base collected =
      collected.add ⟨[{ cookie with expires := some (wrap expiry) }], [], []⟩ ∨
      wrap expiry ≤ now ∧ sortCookie now parsed base collected =
      collected.add ⟨[], [], [base]⟩ := by
  have hdate := expires_of_parseSetCookie hparsed
  unfold said at hsaid
  unfold sortCookie
  cases hage : parsed.maxAge with
  | some maxAge =>
    simp only [hage] at hsaid ⊢
    split at hsaid
    · cases hsaid
    next hpositive =>
      cases hsaid
      cases hexpires
      rw [if_neg hpositive, wrap_add_wrap]
      exact .inl (by simp [ResponseCookies.add])
  | none =>
    cases hseconds : headerDate libraries header with
    | none =>
      simp only [hage, hseconds] at hsaid
      cases hsaid
      simp [hnone] at hexpires
    | some seconds =>
      simp only [hage, hseconds] at hsaid
      simp only [hdate, hseconds, Option.map_some]
      split at hsaid
      · cases hsaid
      cases hsaid
      cases hexpires
      split
      next hpassed => exact .inr ⟨hpassed, by simp [ResponseCookies.add]⟩
      · exact .inl (by simp [ResponseCookies.add])

theorem collectCookie_future (hsaying : saying libraries now target header = some (.keep cookie))
    (hexpires : cookie.expires = some expiry) (collected : ResponseCookies) :
    collectCookie libraries now target collected header =
        .ok (collected.add ⟨[{ cookie with expires := some (wrap expiry) }], [], []⟩) ∨
      wrap expiry ≤ now ∧ ∃ gone, collectCookie libraries now target collected header =
        .ok (collected.add ⟨[], [], [gone]⟩) := by
  unfold saying at hsaying
  unfold collectCookie
  cases hparsed : parseSetCookie libraries header with
  | none => simp [hparsed] at hsaying
  | some parsed =>
    simp only [hparsed] at hsaying ⊢
    split at hsaying
    next domain hostOnly hdomain =>
      simp only [hdomain]
      obtain hkept | ⟨hpassed, hgone⟩ :=
        sortCookie_future hparsed rfl (Option.some.inj hsaying) hexpires collected
      · exact .inl (congrArg Except.ok hkept)
      · exact .inr ⟨hpassed, _, congrArg Except.ok hgone⟩
    · cases hsaying

/-- **A cookie that is to be kept until a time to come is collected with a time to come exactly if
the time that is left, modulo 2⁶⁴, ends before the clock does.**  `first` and `last` are the lists
of the other headers of the response. -/
theorem collects_future_iff {url : Text} {headers : HttpHeaders} {before after : List Text}
    {collected : ResponseCookies} (hlow : -(2 ^ 63) ≤ now) (hhigh : now < 2 ^ 63)
    (htarget : targetFor libraries url = .ok (some target))
    (hheaders : headers.all "set-cookie".toList = before ++ header :: after)
    (hsaying : saying libraries now target header = some (.keep cookie))
    (hexpires : cookie.expires = some expiry)
    (h : collectResponseCookies libraries now url headers = .ok collected) :
    ∃ first last, before.foldlM (collectCookie libraries now target) ⟨[], [], []⟩ = .ok first ∧
      after.foldlM (collectCookie libraries now target) ⟨[], [], []⟩ = .ok last ∧
      ((∃ time, now < time ∧ collected =
          ⟨first.persistent ++ { cookie with expires := some time } :: last.persistent,
            first.session ++ last.session, first.removed ++ last.removed⟩) ↔
        0 < (expiry - now) % 2 ^ 64 ∧ now + (expiry - now) % 2 ^ 64 < 2 ^ 63) := by
  unfold collectResponseCookies at h
  rw [htarget] at h
  change (headers.all "set-cookie".toList).foldlM _ _ = _ at h
  rw [hheaders, foldlM_append] at h
  obtain ⟨first, hfirst, h⟩ := bind_eq_ok_iff.1 h
  rw [foldlM_cons] at h
  -- what the header adds, and behind it what the later headers add
  have hlater : ∀ own, collectCookie libraries now target first header = .ok (first.add own) →
      ∃ last, after.foldlM (collectCookie libraries now target) ⟨[], [], []⟩ = .ok last ∧
        collected = (first.add own).add last := by
    intro own hown
    rw [hown, ← add_empty (first.add own)] at h
    change after.foldlM _ _ = _ at h
    rw [foldlM_collectCookie_add] at h
    cases hlast : after.foldlM (collectCookie libraries now target) ⟨[], [], []⟩ with
    | error e => simp [hlast, Except.map] at h
    | ok last =>
      rw [hlast] at h
      exact ⟨last, rfl, (Except.ok.inj h).symm⟩
  obtain hkept | ⟨hpassed, gone, hgone⟩ := collectCookie_future hsaying hexpires first
  · obtain ⟨last, hlast, rfl⟩ := hlater _ hkept
    refine ⟨first, last, hfirst, hlast, ?_⟩
    rw [← lt_wrap_iff hlow hhigh]
    constructor
    · rintro ⟨time, htime, heq⟩
      simp only [ResponseCookies.add, append_assoc, singleton_append, ResponseCookies.mk.injEq,
        append_cancel_left_eq, List.cons.injEq, Cookie.mk.injEq, Option.some.injEq] at heq
      omega
    · exact fun htime => ⟨_, htime, by simp [ResponseCookies.add]⟩
  · obtain ⟨last, hlast, rfl⟩ := hlater _ hgone
    refine ⟨first, last, hfirst, hlast, ?_⟩
    rw [← lt_wrap_iff hlow hhigh]
    constructor
    · rintro ⟨time, -, heq⟩
      have hlength := congrArg (fun lists => lists.persistent.length) heq
      simp [ResponseCookies.add] at hlength
    · intro htime
      omega

/-- A cookie that is to be kept for a minute is collected. -/
theorem collects_minute : ∃ time, 0 < time ∧
    collectResponseCookies addresses 0 "https://example.com/".toList
      (pageSetting "a=1; Max-Age=60").headers =
      .ok ⟨[cookieA "1" (some time)], [], []⟩ := by
  have hcollected : collectResponseCookies addresses 0 "https://example.com/".toList
      (pageSetting "a=1; Max-Age=60").headers =
      .ok ⟨[cookieA "1" (some 60000000000)], [], []⟩ := by decide +kernel
  obtain ⟨first, last, hfirst, hlast, hiff⟩ :=
    @collects_future_iff addresses 0 ⟨"example.com".toList, "/".toList, true⟩
    "a=1; Max-Age=60".toList (cookieA "1" (some 60000000000)) 60000000000 _ _ [] [] _ (by decide)
      (by decide) rfl rfl
    (by decide) rfl hcollected
  cases hfirst
  cases hlast
  obtain ⟨time, htime, heq⟩ := hiff.2 (by decide)
  exact ⟨time, htime, hcollected.trans (congrArg Except.ok heq)⟩

/-- A cookie that is to be kept for the largest number of seconds is collected with a time that has
passed. -/
theorem collects_past :
    (∃ time, 0 < time ∧ saying addresses 0 ⟨"example.com".toList, "/".toList, true⟩
      "a=1; Max-Age=9223372036854775807".toList = some (.keep (cookieA "1" (some time)))) ∧
    collectResponseCookies addresses 0 "https://example.com/".toList
      (pageSetting "a=1; Max-Age=9223372036854775807").headers =
      .ok ⟨[cookieA "1" (some (-1000000000))], [], []⟩ :=
  ⟨⟨9223372036854775807000000000, by decide, by decide +kernel⟩, by decide +kernel⟩

end Idhan.Downloader
