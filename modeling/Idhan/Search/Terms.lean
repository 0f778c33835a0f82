import Idhan.Lib.Total
import Mathlib.Computability.Language
import Mathlib.Data.List.DropRight

/-!
# Texts of a search

Two readers of `SearchQuery.cpp`: the number of a range predicate, and the pattern of a tag with
wildcards.  A text is a list of characters; those that the code compares with are single bytes of
UTF-8, apart from `≠` and `≈`, which it looks for as a whole.

* `parseRangeTerm_reads_iff`: which range predicates are read as the number that stands in them.
* `like_wildcardToLikePattern`: a `*` stands for any text and everything else for itself.
-/

namespace Idhan.Search

open List

abbrev Text := List Char

/-! ## Range predicates -/

/-- `std::invalid_argument`. -/
structure InvalidArgument where
  what : String
  deriving DecidableEq, Repr

/-- `SearchOperation`, the flags of `SearchOperationFlags`. -/
abbrev SearchOperation := UInt8

/-- `RangeTerm`. -/
structure RangeTerm where
  operation : SearchOperation := 0
  value : UInt64 := 0
  deriving DecidableEq, Repr

/-- A flag, if one of the texts for it occurs in the tag. -/
def flagOf (tag : Text) (signs : List Char) (flag : SearchOperation) : SearchOperation :=
  if signs.any (· ∈ tag) then flag else 0

/-- The text from the first digit of a tag to the last. -/
def numberText (tag : Text) : Text :=
  (tag.dropWhile fun c => !c.isDigit).rdropWhile fun c => !c.isDigit

/-- The digits that a text begins with, as a number. -/
def leadingNumber (text : Text) : ℕ :=
  Nat.ofDigitChars 10 (text.takeWhile Char.isDigit) 0

/-- `std::stoull` for a text that begins with a digit: it reads the digits as far as they go. -/
def stoull (text : Text) : Option UInt64 :=
  if leadingNumber text < 2 ^ 64 then some (.ofNat (leadingNumber text)) else none

def parseRangeTerm (tag : Text) : Except InvalidArgument RangeTerm :=
  let op := flagOf tag ['>'] 1 ||| flagOf tag ['<'] 2 ||| flagOf tag ['='] 4 ||| flagOf tag
    ['!', '≠'] 8 |||
    flagOf tag ['~', '≈'] 16
  if tag.any Char.isDigit then
    match stoull (numberText tag) with
    | some value => .ok ⟨op, value⟩
    | none => .error ⟨"Failed to parse number using stoull: " ++ String.ofList tag ++ ": stoull"⟩
  else .error ⟨"No number found in range search tag: " ++ String.ofList tag⟩

/-- The letters of a unit, in lower case, and without an `s` at the end. -/
def normalizedUnit (unit : Text) : Text :=
  let letters := (unit.filter Char.isAlpha).map Char.toLower
  if letters.getLast? = some 's' then letters.dropLast else letters

def byteUnitMultiplier (unit : Text) : Except InvalidArgument UInt64 :=
  let normalized := String.ofList (normalizedUnit unit)
  if normalized ∈ ["", "b", "byte"] then .ok 1
  else if normalized ∈ ["k", "kb", "kib", "kilobyte"] then .ok 1024
  else if normalized ∈ ["m", "mb", "mib", "megabyte"] then .ok (1024 * 1024)
  else if normalized ∈ ["g", "gb", "gib", "gigabyte"] then .ok (1024 * 1024 * 1024)
  else if normalized ∈ ["t", "tb", "tib", "terabyte"] then .ok (1024 * 1024 * 1024 * 1024)
  else .error ⟨"Unknown filesize unit: '" ++ String.ofList unit ++ "'"⟩

/-- The text behind the last digit. -/
def unitText (tag : Text) : Text :=
  tag.rtakeWhile fun c => !c.isDigit

/-- The term that `parseFilesizeSearch` narrows the range with. -/
def parseFilesizeSearch (tag : Text) : Except InvalidArgument RangeTerm := do
  let term ← parseRangeTerm tag
  let multiplier ← byteUnitMultiplier (unitText tag)
  if 9223372036854775807 / multiplier < term.value then
    throw ⟨"Filesize out of range: " ++ String.ofList tag⟩
  return { term with value := term.value * multiplier }

/-- A reader of tags takes from a tag its number, times a factor, and refuses a tag whose number is
broken. -/
structure Reads (parse : Text → Except InvalidArgument RangeTerm) (factor : Text → ℕ) (tag : Text) :
    Prop where
  value : ∀ term, parse tag = .ok term → (∀ c ∈ numberText tag, c.isDigit) ∧
    term.value.toNat = Nat.ofDigitChars 10 (numberText tag) 0 * factor tag
  refuses : (∃ c ∈ numberText tag, c.isDigit = false) → ∃ e, parse tag = .error e

/-- The factor that the unit of a tag stands for. -/
def unitFactor (tag : Text) : ℕ :=
  match byteUnitMultiplier (unitText tag) with
  | .ok multiplier => multiplier.toNat
  | .error _ => 0

/-- The number of a tag has only digits, or what is read of it is too large for 64 bits. -/
def Unbroken (tag : Text) : Prop :=
  (∀ c ∈ numberText tag, c.isDigit) ∨ 2 ^ 64 ≤ leadingNumber (numberText tag)

variable {tag : Text} {term : RangeTerm}

theorem parseRangeTerm_ok (h : parseRangeTerm tag = .ok term) :
    leadingNumber (numberText tag) < 2 ^ 64 ∧
    term.value.toNat = leadingNumber (numberText tag) := by
  unfold parseRangeTerm stoull at h
  simp only at h
  split at h
  · split at h
    next value hvalue =>
      cases h
      split at hvalue
      next hlt =>
        cases hvalue
        exact ⟨hlt, UInt64.toNat_ofNat_of_lt' hlt⟩
      · cases hvalue
    · cases h
  · cases h

/-- A tag is refused only if it has no digit or a number that is too large. -/
theorem parseRangeTerm_error {e : InvalidArgument} (h : parseRangeTerm tag = .error e) :
    tag.any Char.isDigit = false ∨ 2 ^ 64 ≤ leadingNumber (numberText tag) := by
  unfold parseRangeTerm stoull at h
  simp only at h
  split at h
  · split at h
    · cases h
    next hvalue =>
      split at hvalue
      · cases hvalue
      next hlarge => exact .inr (by omega)
  next hdigit => exact .inl (by simpa using hdigit)

theorem leadingNumber_of_digits {text : Text} (h : ∀ c ∈ text, c.isDigit) :
    leadingNumber text = Nat.ofDigitChars 10 text 0 := by
  rw [leadingNumber, takeWhile_eq_self_iff.2 h]

/-- The product with the unit does not wrap around. -/
theorem parseFilesizeSearch_ok (h : parseFilesizeSearch tag = .ok term) :
    ∃ read, parseRangeTerm tag = .ok read ∧
    term.value.toNat = read.value.toNat * unitFactor tag := by
  unfold parseFilesizeSearch at h
  obtain ⟨read, hread, h⟩ := bind_eq_ok_iff.1 h
  obtain ⟨multiplier, hunit, h⟩ := bind_eq_ok_iff.1 h
  split at h
  · cases h
  next hrange =>
    cases h
    have hle : read.value.toNat ≤ 9223372036854775807 / multiplier.toNat := by
      simpa [UInt64.lt_iff_toNat_lt, UInt64.toNat_div] using hrange
    have hmul : read.value.toNat * multiplier.toNat < 2 ^ 64 :=
      lt_of_le_of_lt ((Nat.mul_le_mul_right _ hle).trans (Nat.div_mul_le_self _ _)) (by decide)
    refine ⟨read, hread, ?_⟩
    rw [unitFactor, hunit]
    change (read.value * multiplier).toNat = _
    rw [UInt64.toNat_mul, Nat.mod_eq_of_lt hmul]

/-- A reader that takes only numbers of digits refuses the others. -/
theorem Reads.of_value {parse : Text → Except InvalidArgument RangeTerm} {factor : Text → ℕ}
    (h : ∀ term, parse tag = .ok term → (∀ c ∈ numberText tag, c.isDigit) ∧
      term.value.toNat = Nat.ofDigitChars 10 (numberText tag) 0 * factor tag) : Reads parse factor
        tag where
  value := h
  refuses := by
    rintro ⟨c, hc, hdigit⟩
    cases hparse : parse tag with
    | ok term =>
      rw [(h term hparse).1 c hc] at hdigit
      cases hdigit
    | error e => exact ⟨e, rfl⟩

theorem Unbroken.number (h : Unbroken tag) (hterm : parseRangeTerm tag = .ok term) :
    (∀ c ∈ numberText tag, c.isDigit) ∧
    term.value.toNat = Nat.ofDigitChars 10 (numberText tag) 0 := by
  obtain ⟨hlt, hvalue⟩ := parseRangeTerm_ok hterm
  have hdigits : ∀ c ∈ numberText tag, c.isDigit := h.resolve_right (by omega)
  exact ⟨hdigits, by rw [hvalue, leadingNumber_of_digits hdigits]⟩

/-- **A range predicate is read as the number that stands in it exactly if that number is not broken
by other characters**, or is refused for its size. -/
theorem parseRangeTerm_reads_iff (tag : Text) :
    Reads parseRangeTerm (fun _ => 1) tag ∧ Reads parseFilesizeSearch unitFactor tag ↔
    Unbroken tag := by
  constructor
  · rintro ⟨hreads, -⟩
    rw [Unbroken, or_iff_not_imp_left]
    intro hbroken
    push Not at hbroken
    obtain ⟨c, hc, hdigit⟩ := hbroken
    obtain ⟨e, he⟩ := hreads.refuses ⟨c, hc, by simpa using hdigit⟩
    refine (parseRangeTerm_error he).resolve_left fun hnone => ?_
    -- without a digit there is no number
    have hempty : numberText tag = [] := by
      rw [numberText, dropWhile_eq_nil_iff.2 fun c hc => by simpa using any_eq_false.1 hnone c hc]
      rfl
    rw [hempty] at hc
    cases hc
  · refine fun h => ⟨.of_value fun term hterm => ?_, .of_value fun term hterm => ?_⟩
    · rw [Nat.mul_one]
      exact h.number hterm
    · obtain ⟨read, hread, hvalue⟩ := parseFilesizeSearch_ok hterm
      obtain ⟨hdigits, hnumber⟩ := h.number hread
      exact ⟨hdigits, by rw [hvalue, hnumber]⟩

/-- Of `1.5` the digit before the point is taken. -/
theorem reads_decimal_point :
    parseRangeTerm "width > 1.5".toList = .ok ⟨1, 1⟩ ∧ '.' ∈ numberText "width > 1.5".toList := by
  decide +kernel

/-! ## Wildcards -/

def wildcardToLikePattern : Text → Text
  | [] => []
  | c :: wildcard =>
    if c = '*' then '%' :: wildcardToLikePattern wildcard
    else if c = '%' ∨ c = '_' ∨ c = '\\' then '\\' :: c :: wildcardToLikePattern wildcard
    else c :: wildcardToLikePattern wildcard

/-- The operator `LIKE` of PostgreSQL. -/
def like : Text → Text → Bool
  | [], text => text.isEmpty
  | '%' :: pattern, text => text.tails.any (like pattern)
  | '_' :: pattern, text => !text.isEmpty && like pattern text.tail
  | '\\' :: c :: pattern, text => text.head? == some c && like pattern text.tail
  | c :: pattern, text => text.head? == some c && like pattern text.tail

/-- Every escape of a pattern has a character behind it; PostgreSQL refuses other patterns. -/
def Paired : Text → Bool
  | [] => true
  | ['\\'] => false
  | '\\' :: _ :: pattern => Paired pattern
  | _ :: pattern => Paired pattern

/-- The texts that a wildcard stands for, symbol by symbol. -/
def wildcardLanguage (wildcard : Text) : Language Char :=
  (wildcard.map fun c => if c = '*' then ⊤ else {[c]}).prod

theorem mem_wildcardLanguage_star (wildcard text : Text) :
    text ∈ wildcardLanguage ('*' :: wildcard) ↔ ∃ rest ∈ text.tails,
    rest ∈ wildcardLanguage wildcard := by
  rw [wildcardLanguage, map_cons, prod_cons, if_pos rfl, Language.mem_mul]
  constructor
  · rintro ⟨first, -, rest, hrest, rfl⟩
    exact ⟨rest, (mem_tails _ _).2 (suffix_append ..), hrest⟩
  · rintro ⟨rest, hsuffix, hrest⟩
    obtain ⟨first, rfl⟩ := (mem_tails _ _).1 hsuffix
    exact ⟨first, trivial, rest, hrest, rfl⟩

theorem mem_wildcardLanguage_of_ne {c : Char} (hc : c ≠ '*') (wildcard text : Text) :
    text ∈ wildcardLanguage (c :: wildcard) ↔
    text.head? = some c ∧ text.tail ∈ wildcardLanguage wildcard := by
  rw [wildcardLanguage, map_cons, prod_cons, if_neg hc, Language.mem_mul]
  constructor
  · rintro ⟨first, rfl, rest, hrest, rfl⟩
    exact ⟨rfl, hrest⟩
  · rintro ⟨hhead, htail⟩
    exact ⟨[c], rfl, text.tail, htail, cons_head?_tail hhead⟩

/-- **A tag matches the pattern exactly if the wildcard stands for it, and the pattern is one that
PostgreSQL takes.** -/
theorem like_wildcardToLikePattern (wildcard text : Text) :
    (like (wildcardToLikePattern wildcard) text ↔ text ∈ wildcardLanguage wildcard) ∧
      Paired (wildcardToLikePattern wildcard) := by
  induction wildcard generalizing text with
  | nil => simp [wildcardToLikePattern, like, Paired, wildcardLanguage, Language.mem_one]
  | cons c wildcard ih =>
    by_cases hstar : c = '*'
    · subst hstar
      rw [mem_wildcardLanguage_star]
      simp [wildcardToLikePattern, like, Paired, (ih text).2, fun rest => (ih rest).1]
    rw [mem_wildcardLanguage_of_ne hstar, ← (ih text.tail).1]
    by_cases hspecial : c = '%' ∨ c = '_' ∨ c = '\\'
    · simp [wildcardToLikePattern, hstar, hspecial, like, Paired, (ih text).2]
    · push Not at hspecial
      obtain ⟨hpercent, hone, hescape⟩ := hspecial
      simp [wildcardToLikePattern, hstar, hpercent, hone, hescape, like, Paired, (ih text).2]

end Idhan.Search
