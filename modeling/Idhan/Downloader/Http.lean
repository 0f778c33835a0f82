import Mathlib.Tactic.Ring
import Mathlib.Data.List.DropRight
import Mathlib.Data.Int.Notation

/-!
# HTTP messages

`HttpHeaders` and `parseSetCookie` of `IDHANDownloader/src/http/HttpMessage.cpp`.

A text is a list of bytes, each as the character with its code.  Two libraries are parameters: the
parser for URLs, of which only the shape of its host names is known, and the parser for dates.
Times are in nanoseconds, as 64-bit integers that wrap around.
-/

namespace Idhan.Downloader

/-- `std::string`, as its bytes. -/
abbrev Text := List Char

def lowered (text : Text) : Text :=
  text.map Char.toLower

def trimmed (text : Text) : Text :=
  (text.dropWhile fun c => c = ' ' || c = '\t').rdropWhile fun c => c = ' ' || c = '\t' || c =
    '\r' || c = '\n'

def headerNamesEqual (left right : Text) : Bool :=
  lowered left = lowered right

/-! ## Headers -/

inductive HttpMethod where
  | get | post | head | put | delete | options | patch
  deriving DecidableEq, Repr

/-- `HttpHeaders`: names and values, in order. -/
abbrev HttpHeaders := List (Text × Text)

namespace HttpHeaders

/-- `HttpHeaders::erase`. -/
def erase (headers : HttpHeaders) (name : Text) : HttpHeaders :=
  headers.filter fun entry => !headerNamesEqual entry.1 name

/-- `HttpHeaders::set`. -/
def set (headers : HttpHeaders) (name value : Text) : HttpHeaders :=
  headers.erase name ++ [(name, value)]

/-- `HttpHeaders::get`. -/
def get (headers : HttpHeaders) (name : Text) : Text :=
  ((headers.find? fun entry => headerNamesEqual entry.1 name).map Prod.snd).getD []

/-- `HttpHeaders::all`. -/
def all (headers : HttpHeaders) (name : Text) : List Text :=
  (headers.filter fun entry => headerNamesEqual entry.1 name).map Prod.snd

end HttpHeaders

/-! ## Cookies in a header -/

/-- A number of 64 bits that has wrapped around.  C++ leaves this open for the times of cookies; it
is what the machine's addition and multiplication give. -/
def wrap (n : ℤ) : ℤ :=
  Int.bmod n (2 ^ 64)

/-- `std::from_chars` for `std::int64_t`: a sign, and digits as far as they go. -/
def fromChars (text : Text) : Option ℤ :=
  let (negative, rest) := match text with
    | '-' :: rest => (true, rest)
    | _ => (false, text)
  let digits := rest.takeWhile Char.isDigit
  let magnitude : ℤ := (digits.foldl (fun n c => 10 * n + (c.toNat - 48)) 0 : ℕ)
  let value := if negative then -magnitude else magnitude
  if digits = [] then none
  else if -(2 ^ 63) ≤ value ∧ value < 2 ^ 63 then some value
  else none

structure SetCookie where
  name : Text
  value : Text
  domain : Text
  path : Text
  secure : Bool
  httpOnly : Bool
  expires : Option ℤ
  maxAge : Option ℤ
  deriving DecidableEq, Repr

/-- `ada::url_aggregator`, as far as it is read. -/
structure Url where
  href : Text
  protocol : Text
  /-- the host with the port -/
  host : Text
  hostname : Text
  pathname : Text
  deriving DecidableEq, Repr

/-- What the code takes from other libraries. -/
structure Libraries where
  /-- `curl_getdate`, in seconds; -1 if the text is not a date -/
  getdate : Text → ℤ
  /-- `ada::parse`, relative to a base if there is one -/
  parseUrl : Text → Option Url → Option Url
  /-- a host name has neither colons nor slashes, or it is an IPv6 address in brackets -/
  hostname_shape : ∀ text base url, parseUrl text base = some url →
    (∀ c ∈ url.hostname, c ≠ ':' ∧ c ≠ '/') ∨
      ∃ address, url.hostname = '[' :: address ++ [']'] ∧ '/' ∉ address ∧ 2 ≤ address.count ':'

/-- The part of a text before the first `c`, and the part behind it, if there is one. -/
def splitAtFirst (c : Char) (text : Text) : Text × Option Text :=
  match text.findIdx? (· = c) with
  | none => (text, none)
  | some i => (text.take i, some (text.drop (i + 1)))

/-- One attribute of a cookie. -/
def setAttribute (libraries : Libraries) (cookie : SetCookie) (part : Text) : SetCookie :=
  if trimmed part = [] then cookie
  else
    let name := trimmed (splitAtFirst '=' (trimmed part)).1
    let value := ((splitAtFirst '=' (trimmed part)).2.map trimmed).getD []
    if headerNamesEqual name "domain".toList then { cookie with domain := value }
    else if headerNamesEqual name "path".toList then { cookie with path := value }
    else if headerNamesEqual name "secure".toList then { cookie with secure := true }
    else if headerNamesEqual name "httponly".toList then { cookie with httpOnly := true }
    else if headerNamesEqual name "max-age".toList then
      match fromChars value with
      | some seconds => { cookie with maxAge := some seconds }
      | none => cookie
    else if headerNamesEqual name "expires".toList then
      -- the text is passed as far as its first zero byte
      let seconds := libraries.getdate (value.takeWhile fun c => c.toNat ≠ 0)
      if seconds ≠ -1 then { cookie with expires := some (wrap (seconds * 1000000000)) } else cookie
    else cookie

/-- `parseSetCookie`.  An empty attribute changes nothing, so that the loop is one over all the
parts between semicolons. -/
def parseSetCookie (libraries : Libraries) (header : Text) : Option SetCookie :=
  let (pair, remainder) := splitAtFirst ';' header
  match splitAtFirst '=' (trimmed pair) with
  | (_, none) => none
  | (name, some value) =>
    if trimmed name = [] then none
    else
      some (((remainder.getD []).splitOn ';').foldl (setAttribute libraries)
        ⟨trimmed name, trimmed value, [], [], false, false, none, none⟩)

end Idhan.Downloader
