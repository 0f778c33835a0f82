import Idhan.Downloader.Http
import Mathlib.Data.List.Basic
import Mathlib.Tactic.Ring

/-!
# Responses with a file

`FileResponse::create` decides from the conditional headers and from `Range` which part of a file is
sent, and announces it; `FileBodySource` reads that part, in pieces whose sizes are given by the
reader and by the kernel.

## Ranges

`AsksFor` is the form of a range as it is documented, and `askedRange` what it asks for.
`std::from_chars` stops at the first character that is no digit, and nobody looks at what is behind
it; and it refuses a number that does not fit.  `parseRange_sanctioned_iff` says that these are the
two ways in which a header is not read as documented.

## Bodies

A range that is accepted is inside the file (`parseRange_satisfiable`).  The pieces that are read
are a beginning of it, and all of it once the last piece is marked (`readBody_spec`), so what is
announced is what is sent (`response_announces_body`).
-/

namespace Idhan.Http

open List

open Downloader (Text lowered)

abbrev Data := List UInt8

/-! ## Headers -/

abbrev Headers := List (Text × Text)

/-- `HTTPHeaders::getSingleOrEmpty`. -/
def getSingleOrEmpty (headers : Headers) (name : String) : Text :=
  match headers.filter fun header => lowered header.1 = lowered name.toList with
  | [header] => header.2
  | _ => []

/-- `HTTPHeaders::set`. -/
def setHeader (name : String) (value : Text) (headers : Headers) : Headers :=
  (headers.filter fun header => lowered header.1 ≠ lowered name.toList) ++ [(name.toList, value)]

theorem getSingleOrEmpty_setHeader (name : String) (value : Text) (headers : Headers) :
    getSingleOrEmpty (setHeader name value headers) name = value := by
  have hothers : (headers.filter fun header => lowered header.1 ≠ lowered name.toList).filter
      (fun header => lowered header.1 = lowered name.toList) = [] := by
    rw [filter_filter, filter_eq_nil_iff]
    simp
  rw [getSingleOrEmpty, setHeader, filter_append, hothers]
  simp

theorem getSingleOrEmpty_setHeader_of_ne {name other : String} (value : Text) (headers : Headers)
    (h : lowered name.toList ≠ lowered other.toList) :
    getSingleOrEmpty (setHeader name value headers) other = getSingleOrEmpty headers other := by
  have hothers : (headers.filter fun header => lowered header.1 ≠ lowered name.toList).filter
      (fun header => lowered header.1 = lowered other.toList) =
        headers.filter fun header => lowered header.1 = lowered other.toList := by
    rw [filter_filter]
    refine filter_congr fun header _ => ?_
    by_cases heq : lowered header.1 = lowered other.toList
    · simp [heq, h.symm]
    · simp [heq]
  rw [getSingleOrEmpty, setHeader, filter_append, hothers]
  simp [getSingleOrEmpty, h]

/-- The text of a number. -/
def decimal (n : ℕ) : Text :=
  (toString n).toList

def quoteEtag (etag : Text) : Text :=
  '"' :: etag ++ ['"']

/-- One entry of a list of entity tags, without blanks and without the mark of a weak tag. -/
def entityTag (candidate : Text) : Text :=
  match (candidate.dropWhile (· = ' ')).rdropWhile (· = ' ') with
  | 'W' :: '/' :: tag => tag
  | tag => tag

/-- `etagListMatches`.  An empty entry behind the last comma matches nothing. -/
def etagListMatches (header quotedEtag : Text) : Bool :=
  if header = [] then false
  else if header = ['*'] then true
  else (header.splitOn ',').any fun candidate => entityTag candidate = quotedEtag

/-! ## Ranges -/

/-- The number that a text of digits stands for. -/
def decimalValue (digits : Text) : ℕ :=
  digits.foldl (fun value digit => value * 10 + (digit.toNat - '0'.toNat)) 0

/-- `std::from_chars` for an `std::uint64_t`: the digits at the beginning, if there are any and the
number is small enough. -/
def fromChars (text : Text) : Option ℕ :=
  let digits := text.takeWhile Char.isDigit
  if digits = [] then none
  else if decimalValue digits < 2 ^ 64 then some (decimalValue digits) else none

inductive RangeResult where
  | none
  | satisfiable (first last : ℕ)
  | unsatisfiable
  deriving DecidableEq, Repr

/-- The last byte of a file. -/
def lastByte (size : ℕ) : ℕ :=
  if size = 0 then 0 else size - 1

/-- The end of a range: the last byte of the file if it is left open. -/
def rangeEnd (text : Text) (size : ℕ) : Option ℕ :=
  if text = [] then some (lastByte size) else fromChars text

def parseRange (header : Text) (size : ℕ) : RangeResult :=
  if "bytes=".toList.isPrefixOf header then
    let spec := header.drop 6
    if ',' ∈ spec then .none
    else
      match spec.findIdx? (· = '-') with
      | none => .none
      | some 0 => .none
      | some dash =>
        match fromChars (spec.take dash), rangeEnd (spec.drop (dash + 1)) size with
        | some first, some last =>
          if size = 0 ∨ size ≤ first then .unsatisfiable
          else if last < first then .none
          else .satisfiable first (min last (size - 1))
        | _, _ => .none
  else .none

/-! ### The documented language

A range is `bytes=`, the digits of a first byte, a dash and the digits of a last byte, which may be
missing. -/

/-- `header` asks for the bytes from the number `first` on, to the number `last` if that is not
empty. -/
structure AsksFor (header first last : Text) : Prop where
  header_eq : header = "bytes=".toList ++ first ++ '-' :: last
  first_ne : first ≠ []
  first_digits : ∀ c ∈ first, c.isDigit
  last_digits : ∀ c ∈ last, c.isDigit

/-- The reading of a range from `first` to `last`. -/
def askedRange (first last : Text) (size : ℕ) : RangeResult :=
  let stop := if last = [] then size - 1 else decimalValue last
  if size ≤ decimalValue first then .unsatisfiable
  else if stop < decimalValue first then .none
  else .satisfiable (decimalValue first) (min stop (size - 1))

/-- The reading of a header that is documented: every text that is not a range is ignored. -/
structure Sanctioned (header : Text) (size : ℕ) (result : RangeResult) : Prop where
  asked : ∀ first last, AsksFor header first last → result = askedRange first last size
  absent : (∀ first last, ¬ AsksFor header first last) → result = .none

/-- A range with a number that an `std::uint64_t` cannot hold, and that is not to be ignored. -/
def TooLarge (header : Text) (size : ℕ) : Prop :=
  ∃ first last, AsksFor header first last ∧
    (2 ^ 64 ≤ decimalValue first ∨ 2 ^ 64 ≤ decimalValue last) ∧ askedRange first last size ≠ .none

/-- The texts before and behind the first dash begin with numbers that make a range or lie outside
the file, and one of them goes on behind its digits. -/
def Overread (header : Text) (size : ℕ) : Prop :=
  ∃ before after first last, header = "bytes=".toList ++ before ++ '-' :: after ∧ '-' ∉ before ∧
    ',' ∉ before ++ after ∧
    fromChars before = some first ∧ rangeEnd after size = some last ∧
    (first < size → first ≤ last) ∧
    ¬ ((∀ c ∈ before, c.isDigit) ∧ ∀ c ∈ after, c.isDigit)

theorem fromChars_ne_nil {text : Text} {value : ℕ} (h : fromChars text = some value) :
    text ≠ [] := by
  rintro rfl
  simp [fromChars] at h

/-- Digits are read as the number they stand for, if it is small enough. -/
theorem fromChars_digits {text : Text} (hdigits : ∀ c ∈ text, c.isDigit) {value : ℕ} :
    fromChars text = some value ↔ text ≠ [] ∧ decimalValue text = value ∧ value < 2 ^ 64 := by
  have htake : text.takeWhile Char.isDigit = text := takeWhile_eq_self_iff.2 hdigits
  simp only [fromChars, htake]
  split_ifs with hnil hlt
  · simp [hnil]
  · constructor
    · rintro ⟨⟩
      exact ⟨hnil, rfl, hlt⟩
    · rintro ⟨-, rfl, -⟩
      rfl
  · refine iff_of_false nofun ?_
    rintro ⟨-, rfl, hlt'⟩
    exact hlt hlt'

/-- A header that has a dash and no comma is read from the texts on the two sides of the first
dash. -/
theorem parseRange_dash {before after : Text} (size : ℕ) (hdash : '-' ∉ before)
    (hcomma : ',' ∉ before ++ after) {first last : ℕ} (hfirst : fromChars before = some first)
    (hlast : rangeEnd after size = some last) :
    parseRange ("bytes=".toList ++ before ++ '-' :: after) size =
      if size ≤ first then .unsatisfiable
      else if last < first then .none else .satisfiable first (min last (size - 1)) := by
  have hspec : ("bytes=".toList ++ before ++ '-' :: after).drop 6 = before ++ '-' :: after := by
    simp
  have hidx : (before ++ '-' :: after).findIdx? (· = '-') = some before.length := by
    have hnone : before.findIdx? (· = '-') = none :=
      findIdx?_eq_none_iff.2 fun c hc => decide_eq_false fun heq => hdash (heq ▸ hc)
    simp [findIdx?_append, hnone, findIdx?_cons]
  obtain ⟨n, hn⟩ : ∃ n, before.length = n + 1 :=
    Nat.exists_eq_succ_of_ne_zero fun h => fromChars_ne_nil hfirst (length_eq_zero_iff.1 h)
  have hafter : (before ++ '-' :: after).drop (n + 1 + 1) = after := by
    rw [← hn, drop_append]
    simp
  have htake : (before ++ '-' :: after).take (n + 1) = before := by rw [← hn, take_left]
  have hzero : (size = 0 ∨ size ≤ first) ↔ size ≤ first := by omega
  rw [parseRange, if_pos (by simp)]
  simp only [hspec, hidx, hn]
  rw [if_neg (by simpa using hcomma)]
  simp only [hafter, htake, hfirst, hlast, hzero]

/-- A header that is not ignored has a first dash, with numbers at the beginning of the texts on
both sides. -/
theorem parseRange_cases (header : Text) (size : ℕ) : parseRange header size = .none ∨
    ∃ before after first last, header = "bytes=".toList ++ before ++ '-' :: after ∧ '-' ∉ before ∧
    ',' ∉ before ++ after ∧
      fromChars before = some first ∧ rangeEnd after size = some last := by
  by_cases hpre : "bytes=".toList.isPrefixOf header
  · obtain ⟨spec, rfl⟩ := isPrefixOf_iff_prefix.1 hpre
    have hspec : ("bytes=".toList ++ spec).drop 6 = spec := by simp
    rw [parseRange, if_pos hpre]
    simp only [hspec]
    split
    · exact .inl rfl
    next hcomma =>
    split
    · exact .inl rfl
    · exact .inl rfl
    next dash _ hdash =>
    split
    next first last hfirst hlast =>
      obtain ⟨hlt, heq, hbefore⟩ := findIdx?_eq_some_iff_getElem.1 hdash
      have hsplit : spec = spec.take dash ++ '-' :: spec.drop (dash + 1) := by
        rw [← of_decide_eq_true heq, getElem_cons_drop, take_append_drop]
      refine .inr ⟨_, _, first, last, by rw [append_assoc, ← hsplit], ?_, ?_, hfirst, hlast⟩
      · intro hmem
        obtain ⟨i, hi, heq'⟩ := getElem_of_mem hmem
        rw [length_take] at hi
        rw [getElem_take] at heq'
        exact hbefore i (by omega) (decide_eq_true heq')
      · intro hmem
        refine hcomma ?_
        rw [hsplit, mem_append, mem_cons]
        exact (mem_append.1 hmem).imp_right .inr
    · exact .inl rfl
  · exact .inl (by rw [parseRange, if_neg hpre])

/-- A range that is accepted is inside the file. -/
theorem parseRange_satisfiable {header : Text} {size first last : ℕ}
    (h : parseRange header size = .satisfiable first last) : first ≤ last ∧ last < size := by
  obtain hnone | ⟨before, after, start, stop, rfl, hdash, hcomma, hstart, hstop⟩ :=
    parseRange_cases header size
  · rw [hnone] at h
    cases h
  rw [parseRange_dash size hdash hcomma hstart hstop] at h
  split_ifs at h
  cases h
  omega

/-- The texts on the two sides of the first dash are determined by the header. -/
theorem dash_unique {before after first last : Text} (hdash : '-' ∉ before)
    (hfirst : ∀ c ∈ first, c.isDigit)
    (h : "bytes=".toList ++ before ++ '-' :: after = "bytes=".toList ++ first ++ '-' :: last) :
    before = first ∧ after = last := by
  have hno : '-' ∉ first := fun hmem => absurd (hfirst _ hmem) (by decide)
  rw [append_assoc, append_assoc, append_cancel_left_eq] at h
  have htake := congrArg (List.takeWhile (· ≠ '-')) h
  rw [takeWhile_append_of_pos (by grind), takeWhile_append_of_pos (by grind)] at htake
  have hbefore : before = first := by simpa using htake
  subst hbefore
  exact ⟨rfl, (List.cons.inj (append_cancel_left h)).2⟩

/-- A range is read as documented, unless one of its numbers is too large. -/
theorem parseRange_asked {header first last : Text} (h : AsksFor header first last) (size : ℕ) :
    parseRange header size =
      if decimalValue first < 2 ^ 64 ∧ decimalValue last < 2 ^ 64 then askedRange first last size
      else .none := by
  have hdash : '-' ∉ first := fun hmem => absurd (h.first_digits _ hmem) (by decide)
  split
  · next hsmall =>
    have hcomma : ',' ∉ first ++ last := by
      intro hmem
      obtain hmem | hmem := mem_append.1 hmem
      · exact absurd (h.first_digits _ hmem) (by decide)
      · exact absurd (h.last_digits _ hmem) (by decide)
    have hfirst := (fromChars_digits h.first_digits).2 ⟨h.first_ne, rfl, hsmall.1⟩
    have hlast : rangeEnd last size = some (if last = [] then size - 1 else decimalValue last) := by
      unfold rangeEnd
      split
      · unfold lastByte
        split <;> simp_all
      · next hne => exact (fromChars_digits h.last_digits).2 ⟨hne, rfl, hsmall.2⟩
    rw [h.header_eq, parseRange_dash size hdash hcomma hfirst hlast]
    rfl
  · next hlarge =>
    obtain hnone | ⟨before, after, start, stop, hheader, hno, -, hstart, hstop⟩ :=
      parseRange_cases header size
    · exact hnone
    obtain ⟨rfl, rfl⟩ := dash_unique hno h.first_digits (hheader.symm.trans h.header_eq)
    obtain ⟨-, hvalue, hlt⟩ := (fromChars_digits h.first_digits).1 hstart
    refine absurd ⟨hvalue ▸ hlt, ?_⟩ hlarge
    by_cases hnil : after = []
    · simp [hnil, decimalValue]
    · rw [rangeEnd, if_neg hnil] at hstop
      obtain ⟨-, hvalue, hlt⟩ := (fromChars_digits h.last_digits).1 hstop
      exact hvalue ▸ hlt

/-- What is not a range is ignored, unless something is read over in it. -/
theorem parseRange_absent {header : Text} (h : ∀ first last, ¬ AsksFor header first last)
    (size : ℕ) : parseRange header size = .none ↔ ¬ Overread header size := by
  constructor
  · rintro hnone ⟨before, after, first, last, rfl, hdash, hcomma, hfirst, hlast, hrange, -⟩
    rw [parseRange_dash size hdash hcomma hfirst hlast] at hnone
    split_ifs at hnone
    omega
  · intro hfine
    obtain hnone | ⟨before, after, first, last, rfl, hdash, hcomma, hfirst, hlast⟩ :=
      parseRange_cases header size
    · exact hnone
    have hbad : ¬ ((∀ c ∈ before, c.isDigit) ∧ ∀ c ∈ after, c.isDigit) := fun hdigits =>
      h before after ⟨rfl, fromChars_ne_nil hfirst, hdigits.1, hdigits.2⟩
    have hrange : ¬ (first < size → first ≤ last) := fun hrange =>
      hfine ⟨before, after, first, last, rfl, hdash, hcomma, hfirst, hlast, hrange, hbad⟩
    rw [parseRange_dash size hdash hcomma hfirst hlast, if_neg (by omega), if_pos (by omega)]

/-- **A header is read as documented exactly if** nothing is read over behind its numbers, and these
are not too large. -/
theorem parseRange_sanctioned_iff (header : Text) (size : ℕ) :
    Sanctioned header size (parseRange header size) ↔
    ¬ Overread header size ∧ ¬ TooLarge header size := by
  by_cases hasked : ∃ first last, AsksFor header first last
  · obtain ⟨first, last, hasked⟩ := hasked
    have hunique {first' last' : Text} (h : AsksFor header first' last') :
        first = first' ∧ last = last' :=
      dash_unique (fun hmem => absurd (hasked.first_digits _ hmem) (by decide)) h.first_digits
        (hasked.header_eq.symm.trans h.header_eq)
    have hover : ¬ Overread header size := by
      rintro ⟨before, after, _, _, hheader, hdash, -, -, -, -, hbad⟩
      obtain ⟨rfl, rfl⟩ := dash_unique hdash hasked.first_digits
        (hheader.symm.trans hasked.header_eq)
      exact hbad ⟨hasked.first_digits, hasked.last_digits⟩
    have hread := parseRange_asked hasked size
    constructor
    · refine fun hsanctioned => ⟨hover, ?_⟩
      rintro ⟨first', last', hasked', hlarge, hrange⟩
      obtain ⟨rfl, rfl⟩ := hunique hasked'
      rw [if_neg (by omega)] at hread
      exact hrange ((hsanctioned.asked _ _ hasked).symm.trans hread)
    · rintro ⟨-, hsmall⟩
      refine ⟨fun first' last' hasked' => ?_, fun hnone => absurd hasked (hnone _ _)⟩
      obtain ⟨rfl, rfl⟩ := hunique hasked'
      by_cases hrange : askedRange first last size = .none
      · rw [hread, hrange, ite_self]
      · rwa [if_pos] at hread
        by_contra hlarge
        exact hsmall ⟨first, last, hasked, by omega, hrange⟩
  · have hnone (first last : Text) : ¬ AsksFor header first last := fun h => hasked ⟨first, last, h⟩
    have hsmall : ¬ TooLarge header size := by
      rintro ⟨first, last, h, -⟩
      exact hnone first last h
    rw [← parseRange_absent hnone size]
    exact ⟨fun h => ⟨h.absent hnone, hsmall⟩,
      fun h => ⟨fun _ _ h' => absurd h' (hnone _ _), fun _ => h.1⟩⟩

/-- A letter behind the first number is read over. -/
theorem overread_letter :
    ¬ Sanctioned "bytes=1x-5".toList 10 (parseRange "bytes=1x-5".toList 10) := by
  intro h
  have hread : parseRange "bytes=1x-5".toList 10 = .satisfiable 1 5 := by decide
  have hnone : parseRange "bytes=1x-5".toList 10 = .none := by
    refine h.absent fun first last hasks => ?_
    obtain ⟨rfl, -⟩ := @dash_unique "1x".toList "5".toList _ _ (by decide) hasks.first_digits
      hasks.header_eq
    exact absurd (hasks.first_digits 'x' (by decide)) (by decide)
  rw [hread] at hnone
  cases hnone

/-! ## The body -/

def readChunkSize : ℕ := 256 * 1024

/-- The content of a file.  Its size fits into an `off_t`. -/
structure FileContent where
  data : Data
  length_lt : data.length < 2 ^ 63

/-- `pread`: at most as many bytes as wanted, and not more than the kernel gives. -/
def pread (file : FileContent) (want offset give : ℕ) : Except Text Data :=
  if offset < 2 ^ 63 then .ok ((file.data.drop offset).take (min want give))
    else .error "Invalid argument".toList

structure FileBodySource where
  offset : ℕ
  remaining : ℕ
  stopped : Bool
  deriving DecidableEq, Repr

/-- `HTTPBodyEvent`. -/
structure BodyEvent where
  bytes : Data
  /-- the last event -/
  eom : Bool
  deriving DecidableEq, Repr

namespace FileBodySource

/-- `readBodyEvent`.  The kernel gives at most `give` bytes. -/
def readBodyEvent (file : FileContent) (max give : ℕ) (source : FileBodySource) :
    Except Text (BodyEvent × FileBodySource) :=
  if source.stopped || source.remaining = 0 then .ok (⟨[], true⟩, source)
  else do
    let bytes ← pread file (min max (min readChunkSize source.remaining)) source.offset give
    (if bytes = [] then .error "File shrank while its bytes were being served".toList
    else .ok (⟨bytes, source.remaining - bytes.length = 0⟩,
      { source with
        offset := source.offset + bytes.length, remaining := source.remaining - bytes.length }))

/-- The events of a sequence of reads. -/
def readBody (file : FileContent) :
    List (ℕ × ℕ) → FileBodySource → Except Text (List BodyEvent × FileBodySource)
  | [], source => .ok ([], source)
  | (max, give) :: reads, source => do
    let (event, source) ← source.readBodyEvent file max give
    let (events, source) ← readBody file reads source
    return (event :: events, source)

/-- The part of the file that is still to be sent. -/
def rest (file : FileContent) (source : FileBodySource) : Data :=
  (file.data.drop source.offset).take source.remaining

end FileBodySource

/-- The bytes of a sequence of events. -/
def bodyOf (events : List BodyEvent) : Data :=
  events.flatMap BodyEvent.bytes

namespace FileBodySource

variable {file : FileContent} {source : FileBodySource} {max give : ℕ}

/-- **One read** gives the next bytes of the part, at least one, and marks the last ones. -/
theorem readBodyEvent_spec (hmax : 0 < max) (hgive : 0 < give) (hrunning : source.stopped = false)
    (hinside : source.offset + source.remaining ≤ file.data.length) :
    ∃ event source', source.readBodyEvent file max give = .ok (event, source') ∧
    source'.stopped = false ∧
      source'.offset + source'.remaining ≤ file.data.length ∧ event.bytes ++ source'.rest file =
        source.rest file ∧
      source'.remaining ≤ source.remaining - 1 ∧ (event.eom ↔ source'.remaining = 0) := by
  by_cases hdone : source.remaining = 0
  · refine ⟨⟨[], true⟩, source, ?_, hrunning, hinside, rfl, by omega, by simp [hdone]⟩
    rw [readBodyEvent, if_pos (by simp [hdone])]
  have hoffset : source.offset < 2 ^ 63 := by
    have := file.length_lt
    omega
  let bytes := (file.data.drop source.offset).take
    (min (min max (min readChunkSize source.remaining)) give)
  have hlength : bytes.length = min (min max (min readChunkSize source.remaining)) give := by
    rw [length_take, length_drop]
    omega
  have hpositive : 0 < bytes.length ∧ bytes.length ≤ source.remaining := by
    rw [hlength, readChunkSize]
    omega
  refine ⟨⟨bytes, source.remaining - bytes.length = 0⟩,
    { source with
      offset := source.offset + bytes.length, remaining := source.remaining - bytes.length }, ?_,
        hrunning, ?_, ?_, ?_, ?_⟩
  · have hread : pread file (min max (min readChunkSize source.remaining)) source.offset give =
        .ok bytes := if_pos hoffset
    have hnonempty : bytes ≠ [] := ne_nil_of_length_pos hpositive.1
    rw [readBodyEvent, if_neg (by simp [hrunning, hdone]), hread]
    exact if_neg hnonempty
  · simp only
    omega
  · have hbytes : bytes = (source.rest file).take bytes.length := by
      rw [rest, take_take, Nat.min_eq_left hpositive.2, hlength]
    have hsuffix :
        (file.data.drop (source.offset + bytes.length)).take (source.remaining - bytes.length) =
        (source.rest file).drop bytes.length := by
      rw [rest, drop_take, drop_drop]
    rw [rest, hsuffix]
    simp only
    nth_rewrite 1 [hbytes]
    exact take_append_drop _ _
  · simp only
    omega
  · simp

/-- **A sequence of reads** gives a beginning of the part; it ends the part if its last event is
marked, and after as many reads as there are bytes. -/
theorem readBody_spec (reads : List (ℕ × ℕ)) (hreads : ∀ read ∈ reads, 0 < read.1 ∧ 0 < read.2)
    (source : FileBodySource) (hrunning : source.stopped = false)
    (hinside : source.offset + source.remaining ≤ file.data.length) :
    ∃ events source', source.readBody file reads = .ok (events, source') ∧
    bodyOf events ++ source'.rest file = source.rest file ∧
      source'.remaining ≤ source.remaining - reads.length ∧
      ((∃ event ∈ events, event.eom) → source'.remaining = 0) := by
  induction reads generalizing source with
  | nil =>
    refine ⟨[], source, rfl, rfl, le_rfl, ?_⟩
    rintro ⟨event, hevent, -⟩
    exact absurd hevent not_mem_nil
  | cons read reads ih =>
    obtain ⟨max, give⟩ := read
    obtain ⟨hmax, hgive⟩ := hreads _ (mem_cons_self ..)
    obtain ⟨event, source₁, hread, hrunning₁, hinside₁, hbytes, hfewer, heom⟩ :=
      readBodyEvent_spec hmax hgive hrunning hinside
    obtain ⟨events, source₂, hreads, hrest, hfewer₂, heom₂⟩ :=
      ih (fun read hread => hreads read (mem_cons_of_mem _ hread)) source₁ hrunning₁ hinside₁
    refine ⟨event :: events, source₂, ?_, ?_, ?_, ?_⟩
    · simp only [readBody, hread, hreads, bind, Except.bind, pure, Except.pure]
    · rw [← hbytes, ← hrest, bodyOf, flatMap_cons, append_assoc]
      rfl
    · rw [length_cons]
      omega
    · rintro ⟨marked, hmarked, hend⟩
      obtain rfl | hmarked := mem_cons.1 hmarked
      · have := heom.1 hend
        omega
      · exact heom₂ ⟨marked, hmarked, hend⟩

end FileBodySource

/-! ## The response -/

/-- How the times of the headers are written and read. -/
structure HttpDates where
  /-- `formatHttpDate` -/
  format : ℤ → Text
  /-- `proxygen::parseHTTPDateTime`, in seconds -/
  parse : Text → Option ℤ

/-- `FileMetadata`.  The time of the last change is in seconds. -/
structure FileMetadata where
  size : ℕ
  modified : ℤ
  etag : Text
  contentType : Text
  filename : Text
  immutable : Bool
  attachment : Bool
  deriving DecidableEq, Repr

/-- A request for a file. -/
structure Request where
  head : Bool
  headers : Headers
  deriving DecidableEq, Repr

/-- `Response`, with the source of its body. -/
structure Response where
  status : ℕ
  headers : Headers
  body : Option FileBodySource
  deriving DecidableEq, Repr

/-- The headers that every response with a file has. -/
def commonHeaders (dates : HttpDates) (metadata : FileMetadata) : Headers :=
  let maxAge := if metadata.immutable then 24 * 365 * 3600 else 3600
  let headers := setHeader "Server" "IDHAN".toList []
    |> setHeader "ETag" (quoteEtag metadata.etag)
    |> setHeader "Last-Modified" (dates.format metadata.modified)
    |> setHeader "Accept-Ranges" "bytes".toList
    |> setHeader "Cache-Control"
        ("private, ".toList ++ (if metadata.immutable then "immutable, ".toList else []) ++
        "max-age=".toList ++ decimal maxAge)
  if metadata.filename = [] then headers
  else setHeader "Content-Disposition"
    ((if metadata.attachment then "attachment" else "inline").toList ++
    "; filename=\"".toList ++ metadata.filename ++ ['"']) headers

/-- `not_modified`: `If-Modified-Since` counts only without `If-None-Match`. -/
def notModified (dates : HttpDates) (headers : Headers) (metadata : FileMetadata) : Bool :=
  let ifNoneMatch := getSingleOrEmpty headers "If-None-Match"
  let ifModifiedSince := getSingleOrEmpty headers "If-Modified-Since"
  if ifNoneMatch ≠ [] then etagListMatches ifNoneMatch (quoteEtag metadata.etag)
  else ifModifiedSince ≠ [] ∧ (dates.parse ifModifiedSince).any (metadata.modified ≤ ·)

/-- The status that the conditional headers lead to, if the file is not sent. -/
def conditionalStatus (dates : HttpDates) (headers : Headers) (metadata : FileMetadata) :
    Option ℕ :=
  let ifMatch := getSingleOrEmpty headers "If-Match"
  let ifUnmodifiedSince := getSingleOrEmpty headers "If-Unmodified-Since"
  if ifMatch ≠ [] ∧ !etagListMatches ifMatch (quoteEtag metadata.etag) then some 412
  else if notModified dates headers metadata then some 304
  else if ifMatch = [] ∧ ifUnmodifiedSince ≠ [] ∧ (dates.parse ifUnmodifiedSince).any (· <
    metadata.modified) then some 412
  else none

/-- The range that is asked for. -/
def requestedRange (headers : Headers) (metadata : FileMetadata) : RangeResult :=
  let ifRange := getSingleOrEmpty headers "If-Range"
  if getSingleOrEmpty headers "Range" ≠ [] ∧ (ifRange = [] ∨ ifRange = quoteEtag metadata.etag) then
    parseRange (getSingleOrEmpty headers "Range") metadata.size
  else .none

/-- `Content-Range` of a part of a file. -/
def contentRange (first last size : ℕ) : Text :=
  "bytes ".toList ++ decimal first ++ '-' :: decimal last ++ '/' :: decimal size

/-- The response that has the bytes from `first` to `last`. -/
def sendFile (dates : HttpDates) (head ranged : Bool) (metadata : FileMetadata) (first last : ℕ) :
    Response :=
  let length := if metadata.size = 0 then 0 else last - first + 1
  let headers := commonHeaders dates metadata
    |> setHeader "Content-Type" metadata.contentType
    |> setHeader "Content-Length" (decimal length)
  { status := if ranged then 206 else 200
    headers := if ranged then setHeader "Content-Range" (contentRange first last
      metadata.size) headers else headers
    body := if head then none else some ⟨first, length, false⟩ }

/-- `FileResponse::create`. -/
def create (dates : HttpDates) (request : Request) (metadata : FileMetadata) : Response :=
  match conditionalStatus dates request.headers metadata with
  | some status => ⟨status, commonHeaders dates metadata, none⟩
  | none =>
    match requestedRange request.headers metadata with
    | .unsatisfiable =>
      ⟨416, setHeader "Content-Range" ("bytes */".toList ++ decimal metadata.size)
        (commonHeaders dates metadata), none⟩
    | .satisfiable first last => sendFile dates request.head true metadata first last
    | .none => sendFile dates request.head false metadata 0 (lastByte metadata.size)

/-! ## What is announced -/

section

variable {dates : HttpDates} {request : Request} {metadata : FileMetadata} {file : FileContent}

theorem conditionalStatus_eq_some {headers : Headers} {status : ℕ}
    (h : conditionalStatus dates headers metadata = some status) : status = 412 ∨ status = 304 := by
  unfold conditionalStatus at h
  simp only at h
  split at h
  · cases h
    exact .inl rfl
  split at h
  · cases h
    exact .inr rfl
  split at h
  · cases h
    exact .inl rfl
  · cases h

/-- The ways in which a file is sent: a range, or the whole file. -/
theorem create_cases (h : (create dates request metadata).status = 200 ∨
      (create dates request metadata).status = 206) :
    (∃ first last, first ≤ last ∧ last < metadata.size ∧
      create dates request metadata = sendFile dates request.head true metadata first last) ∨
    create dates request metadata =
      sendFile dates request.head false metadata 0 (lastByte metadata.size) := by
  unfold create at h ⊢
  cases hconditional : conditionalStatus dates request.headers metadata with
  | some status =>
    rw [hconditional] at h
    obtain rfl | rfl := conditionalStatus_eq_some hconditional
    · simp at h
    · simp at h
  | none =>
    rw [hconditional] at h
    simp only at h ⊢
    cases hrange : requestedRange request.headers metadata with
    | none => exact .inr rfl
    | unsatisfiable =>
      rw [hrange] at h
      simp at h
    | satisfiable first last =>
      unfold requestedRange at hrange
      simp only at hrange
      split at hrange
      · obtain ⟨hle, hlt⟩ := parseRange_satisfiable hrange
        exact .inl ⟨first, last, hle, hlt, rfl⟩
      · cases hrange

theorem contentLength_sendFile (head ranged : Bool) (first last : ℕ) :
    getSingleOrEmpty (sendFile dates head ranged metadata first last).headers "Content-Length" =
      decimal (if metadata.size = 0 then 0 else last - first + 1) := by
  have hrange : lowered "Content-Range".toList ≠ lowered "Content-Length".toList := by decide
  unfold sendFile
  simp only
  split
  · rw [getSingleOrEmpty_setHeader_of_ne _ _ hrange, getSingleOrEmpty_setHeader]
  · rw [getSingleOrEmpty_setHeader]

/-- The source of a body gives this part of the file, however it is read. -/
def Gives (file : FileContent) (source : FileBodySource) (part : Data) : Prop :=
  ∀ reads : List (ℕ × ℕ), (∀ read ∈ reads, 0 < read.1 ∧ 0 < read.2) →
    ∃ events source', source.readBody file reads = .ok (events, source') ∧ bodyOf events <+: part ∧
      (source.remaining = 0 ∨ (∃ event ∈ events, event.eom) → bodyOf events = part) ∧
      (part.length ≤ reads.length → bodyOf events = part)

theorem gives_part {first length : ℕ} (hinside : first + length ≤ file.data.length) :
    Gives file ⟨first, length, false⟩ ((file.data.drop first).take length) := by
  intro reads hreads
  obtain ⟨events, source', hread, hrest, hfewer, heom⟩ :=
    FileBodySource.readBody_spec reads hreads ⟨first, length, false⟩ rfl hinside
  have hpart : (FileBodySource.mk first length false).rest file =
      (file.data.drop first).take length := rfl
  rw [hpart] at hrest
  have hwhole (hdone : source'.remaining = 0) :
      bodyOf events = (file.data.drop first).take length := by
    rw [← hrest, FileBodySource.rest, hdone, List.take_zero, List.append_nil]
  refine ⟨events, source', hread, ⟨_, hrest⟩, ?_, fun hmany => hwhole ?_⟩
  · rintro (hempty | hmarked)
    · exact hwhole (by simp only at hempty hfewer; omega)
    · exact hwhole (heom hmarked)
  · rw [List.length_take, List.length_drop] at hmany
    simp only at hfewer
    omega

/-- **A response announces the bytes that it carries.**  A response with status 200 carries the
whole file and one with status 206 the range of its `Content-Range`, `Content-Length` is their
number, and `HEAD` has the same headers and no body. -/
theorem response_announces_body (hsize : metadata.size = file.data.length) :
    ((create dates request metadata).status = 200 ∨ (create dates request metadata).status = 206 →
      ∃ first length, ((file.data.drop first).take length).length = length ∧
        getSingleOrEmpty (create dates request metadata).headers "Content-Length" = decimal length ∧
        ((create dates request metadata).status = 200 →
        (file.data.drop first).take length = file.data) ∧
        ((create dates request metadata).status = 206 →
        ∃ last, first ≤ last ∧ last < metadata.size ∧ length = last - first + 1 ∧
          getSingleOrEmpty (create dates request metadata).headers "Content-Range" =
            contentRange first last metadata.size) ∧
        (request.head = false → ∃ source, (create dates request metadata).body = some source ∧
          Gives file source ((file.data.drop first).take length))) ∧
    (request.head = true → (create dates request metadata).body = none ∧
      (create dates request metadata).status =
      (create dates { request with head := false } metadata).status ∧
      (create dates request metadata).headers =
      (create dates { request with head := false } metadata).headers) := by
  constructor
  · intro hstatus
    obtain ⟨first, last, hle, hlt, hcreate⟩ | hcreate := create_cases hstatus
    · have hlength : (if metadata.size = 0 then 0 else last - first + 1) = last - first + 1 :=
        if_neg (by omega)
      refine ⟨first, last - first + 1, ?_, ?_, ?_, fun _ => ⟨last, hle, hlt, rfl, ?_⟩,
        fun hget => ?_⟩
      · rw [List.length_take, List.length_drop]
        omega
      · rw [hcreate, contentLength_sendFile, hlength]
      · rw [hcreate]
        intro h
        cases h
      · rw [hcreate]
        exact getSingleOrEmpty_setHeader _ _ _
      · refine ⟨⟨first, last - first + 1, false⟩, ?_, gives_part (by omega)⟩
        rw [hcreate, hget, sendFile, hlength]
        rfl
    · have hlength : (if metadata.size = 0 then 0 else lastByte metadata.size - 0 + 1) =
          file.data.length := by
        rw [← hsize, lastByte]
        split <;> omega
      refine ⟨0, file.data.length, ?_, ?_, ?_, ?_, fun hget => ?_⟩
      · rw [List.drop_zero, List.take_length]
      · rw [hcreate, contentLength_sendFile, hlength]
      · intro _
        rw [List.drop_zero, List.take_length]
      · rw [hcreate]
        intro h
        cases h
      · refine ⟨⟨0, file.data.length, false⟩, ?_, gives_part (by omega)⟩
        rw [hcreate, hget, sendFile, hlength]
        rfl
  · intro hhead
    unfold create
    simp only
    split
    · exact ⟨rfl, rfl, rfl⟩
    split
    · exact ⟨rfl, rfl, rfl⟩
    · rw [hhead]
      exact ⟨rfl, rfl, rfl⟩
    · rw [hhead]
      exact ⟨rfl, rfl, rfl⟩

end

/-- A file of three bytes. -/
def threeBytes : FileContent := ⟨[1, 2, 3], by decide⟩

/-- What is known of it. -/
def threeBytesMetadata : FileMetadata := ⟨3, 0, "tag".toList, "image/png".toList, [], true, false⟩

/-- The last two of three bytes are asked for. -/
theorem response_announces_body_range :
    (create ⟨fun _ => [], fun _ => none⟩ ⟨false, [("Range".toList, "bytes=1-".toList)]⟩
      threeBytesMetadata).status = 206 ∧ ∃ source,
      (create ⟨fun _ => [], fun _ => none⟩ ⟨false, [("Range".toList, "bytes=1-".toList)]⟩
        threeBytesMetadata).body =
        some source ∧ ∃ part, Gives threeBytes source part := by
  refine (and_iff_left_of_imp fun hstatus => ?_).2 (by decide +kernel)
  have hsize : threeBytesMetadata.size = threeBytes.data.length := rfl
  obtain ⟨first, length, -, -, -, -, hbody⟩ := (response_announces_body hsize).1 (.inr hstatus)
  obtain ⟨source, hsource, hgives⟩ := hbody rfl
  exact ⟨source, hsource, _, hgives⟩

end Idhan.Http
