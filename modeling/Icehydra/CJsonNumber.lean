import Icehydra.ConfFile
import Icehydra.Lib.Cursor
import Mathlib.Data.Int.Log
import Mathlib.Data.List.TakeWhile
import Mathlib.Algebra.Order.Floor.Ring
import Mathlib.Data.Rat.Floor
import Mathlib.Tactic.Linarith

/-!
# CJsonNumber — parse_number

The number of `src/cJSON.c`: `strtod` over at most 63 characters, rounded to a
`double` and from there to an `int`. Of the `double` only its value is kept;
those behind the largest one and the infinities saturate alike.
-/

namespace Icehydra

open Cursor (Stops)

/-- `parse_buffer`; `length` is the length of `content`. -/
abbrev ParseBuffer := Cursor UInt8

/-! ## strtod -/

def isDigit (c : UInt8) : Bool := 48 ≤ c ∧ c ≤ 57

/-- What the loop of `parse_number` copies. -/
def isNumberChar (c : UInt8) : Bool := isDigit c ∨ c = 43 ∨ c = 45 ∨ c = 101 ∨ c = 69 ∨ c = 46

def digitsValue (ds : Bytes) : Nat := ds.foldl (fun n d => 10 * n + (d.toNat - 48)) 0

/-- `some true` is a minus. -/
def signText : Option Bool → Bytes
  | none => []
  | some false => [43]
  | some true => [45]

def signed (sign : Option Bool) (n : Nat) : Int := if sign = some true then -n else n

structure Exponent where
  marker : UInt8
  sign : Option Bool
  digits : Bytes
  isMarker : marker = 101 ∨ marker = 69
  isDigits : ∀ c ∈ digits, isDigit c = true
  nonempty : digits ≠ []

/-- A number as `strtod` takes it off the front of a string. -/
structure Decimal where
  sign : Option Bool
  whole : Bytes
  fraction : Option Bytes
  exponent : Option Exponent
  isWhole : ∀ c ∈ whole, isDigit c = true
  isFraction : ∀ f ∈ fraction, ∀ c ∈ f, isDigit c = true
  nonempty : whole ++ fraction.getD [] ≠ []

def Exponent.text (e : Exponent) : Bytes := e.marker :: (signText e.sign ++ e.digits)

def fractionText : Option Bytes → Bytes
  | none => []
  | some f => 46 :: f

def exponentText : Option Exponent → Bytes
  | none => []
  | some e => e.text

def Decimal.text (d : Decimal) : Bytes :=
  signText d.sign ++ (d.whole ++ (fractionText d.fraction ++ exponentText d.exponent))

def Decimal.value (d : Decimal) : ℚ :=
  let mantissa := signed d.sign (digitsValue (d.whole ++ d.fraction.getD []))
  let exponent := d.exponent.elim 0 fun e => signed e.sign (digitsValue e.digits)
  mantissa * 10 ^ (exponent - (d.fraction.getD []).length)

def scanSign : Bytes → Option Bool × Bytes
  | [] => (none, [])
  | c :: s => if c = 43 then (some false, s) else if c = 45 then (some true, s) else (none, c :: s)

def scanFraction : Bytes → Option Bytes × Bytes
  | [] => (none, [])
  | c :: s => if c = 46 then (some (s.takeWhile isDigit), s.dropWhile isDigit) else (none, c :: s)

theorem isDigit_of_takeWhile {s : Bytes} : ∀ c ∈ s.takeWhile isDigit, isDigit c = true :=
  fun _ hc => List.mem_takeWhile_imp hc

/-- An `e` without a digit behind it is not taken. -/
def scanExponent : Bytes → Option Exponent × Bytes
  | [] => (none, [])
  | c :: s =>
      if hc : c = 101 ∨ c = 69 then
        if h : (scanSign s).2.takeWhile isDigit ≠ [] then
          (some ⟨c, (scanSign s).1, (scanSign s).2.takeWhile isDigit, hc, isDigit_of_takeWhile, h⟩,
            (scanSign s).2.dropWhile isDigit)
        else (none, c :: s)
      else (none, c :: s)

theorem isDigit_of_scanFraction {s : Bytes} :
    ∀ f ∈ (scanFraction s).1, ∀ c ∈ f, isDigit c = true := by
  intro f hf
  cases s with
  | nil => cases hf
  | cons c s =>
      rw [scanFraction] at hf
      split at hf
      · cases hf
        exact isDigit_of_takeWhile
      · cases hf

/-- The longest number at the front, and what follows it. -/
def scanDecimal (s : Bytes) : Option (Decimal × Bytes) :=
  let sign := scanSign s
  let whole := sign.2.takeWhile isDigit
  let fraction := scanFraction (sign.2.dropWhile isDigit)
  if h : whole ++ fraction.1.getD [] ≠ [] then
    let exponent := scanExponent fraction.2
    some (⟨sign.1, whole, fraction.1, exponent.1, isDigit_of_takeWhile, isDigit_of_scanFraction, h⟩,
      exponent.2)
  else none

/-- To the nearest integer, in the middle to the even one. -/
def roundHalfEven (q : ℚ) : Int :=
  let f := ⌊q⌋
  if q - f < 1 / 2 then f
  else if 1 / 2 < q - f then f + 1
  else if f % 2 = 0 then f else f + 1

/-- 53 significant bits, down to the denormals. -/
def toDouble (q : ℚ) : ℚ :=
  let e := max (-1074) (Int.log 2 |q| - 52)
  roundHalfEven (q / 2 ^ e) * 2 ^ e

/-- The number and `after_end - number_c_string`. -/
def strtod (s : Bytes) : ℚ × Nat :=
  match scanDecimal s with
  | none => (0, 0)
  | some (d, _) => (toDouble d.value, d.text.length)

/-! ## parse_number -/

/-- The saturation; the conversion to `int` cuts off. -/
def doubleToInt (number : ℚ) : Int :=
  if 2147483647 ≤ number then 2147483647
  else if number ≤ -2147483648 then -2147483648
  else number.num.tdiv number.den

def parseNumber (item : CJson) : Scanner UInt8 CJson := fun b =>
  let numberCString := (b.rest.takeWhile isNumberChar).take 63
  let number := strtod numberCString
  if number.2 = 0 then .fail
  else .ok ({ item with valueint := doubleToInt number.1 }, b.advance number.2)

/-! ## Scanning -/

theorem isNumberChar_of_isDigit {c : UInt8} (h : isDigit c = true) : isNumberChar c = true := by
  simp [isNumberChar, h]

theorem signText_scanSign (s : Bytes) : signText (scanSign s).1 ++ (scanSign s).2 = s := by
  cases s with
  | nil => rfl
  | cons c s =>
      by_cases hplus : c = 43
      · rw [hplus]
        rfl
      · by_cases hminus : c = 45
        · rw [hminus]
          rfl
        · rw [scanSign, if_neg hplus, if_neg hminus]
          rfl

/-- No sign is looked for behind a sign. -/
theorem scanSign_signText {sign : Option Bool} {s : Bytes}
    (h : sign = none → ∀ c ∈ s.head?, c ≠ 43 ∧ c ≠ 45) : scanSign (signText sign ++ s) = (sign, s) := by
  match sign with
  | some false => rfl
  | some true => rfl
  | none =>
      cases s with
      | nil => rfl
      | cons c s =>
          obtain ⟨hplus, hminus⟩ := h rfl c rfl
          rw [signText, List.nil_append, scanSign, if_neg hplus, if_neg hminus]

theorem fractionText_scanFraction (s : Bytes) :
    fractionText (scanFraction s).1 ++ (scanFraction s).2 = s := by
  cases s with
  | nil => rfl
  | cons c s =>
      by_cases hpoint : c = 46
      · rw [scanFraction, if_pos hpoint, fractionText, List.cons_append,
          List.takeWhile_append_dropWhile, hpoint]
      · rw [scanFraction, if_neg hpoint]
        rfl

theorem scanFraction_fractionText {f : Option Bytes} {s : Bytes}
    (hf : ∀ g ∈ f, ∀ c ∈ g, isDigit c = true) (hs : Stops isDigit s)
    (hpoint : ∀ c ∈ s.head?, c ≠ 46) : scanFraction (fractionText f ++ s) = (f, s) := by
  cases f with
  | some g =>
      rw [fractionText, List.cons_append, scanFraction, if_pos rfl, Cursor.takeWhile_run (hf g rfl) hs,
        Cursor.dropWhile_run (hf g rfl) hs]
  | none =>
      cases s with
      | nil => rfl
      | cons c s => rw [fractionText, List.nil_append, scanFraction, if_neg (hpoint c rfl)]

theorem exponentText_scanExponent (s : Bytes) :
    exponentText (scanExponent s).1 ++ (scanExponent s).2 = s := by
  cases s with
  | nil => rfl
  | cons c s =>
      rw [scanExponent]
      split
      · split
        · rw [exponentText, Exponent.text, List.cons_append, List.append_assoc,
            List.takeWhile_append_dropWhile, signText_scanSign]
        · rfl
      · rfl

theorem Exponent.head_digits (e : Exponent) (s : Bytes) :
    ∀ c ∈ (e.digits ++ s).head?, isDigit c = true := by
  intro c hc
  cases hdigits : e.digits with
  | nil => exact absurd hdigits e.nonempty
  | cons d ds =>
      rw [hdigits] at hc
      cases hc
      exact e.isDigits _ (by rw [hdigits]; exact List.mem_cons_self)

theorem not_sign_of_isDigit {c : UInt8} (h : isDigit c = true) : c ≠ 43 ∧ c ≠ 45 := by
  constructor <;> rintro rfl <;> exact absurd h (by decide)

theorem scanExponent_exponentText {e : Option Exponent} {s : Bytes} (hs : Stops isNumberChar s) :
    scanExponent (exponentText e ++ s) = (e, s) := by
  cases e with
  | none =>
      cases s with
      | nil => rfl
      | cons c s =>
          have hmarker : ¬ (c = 101 ∨ c = 69) := by
            rintro (rfl | rfl) <;> exact absurd (hs _ rfl) (by decide)
          rw [exponentText, List.nil_append, scanExponent, dif_neg hmarker]
  | some e =>
      have hdigits : Stops isDigit s := hs.mono fun _ => isNumberChar_of_isDigit
      have hsign : scanSign (signText e.sign ++ (e.digits ++ s)) = (e.sign, e.digits ++ s) :=
        scanSign_signText fun _ c hc => not_sign_of_isDigit (e.head_digits s c hc)
      have htake : (e.digits ++ s).takeWhile isDigit = e.digits := Cursor.takeWhile_run e.isDigits hdigits
      have hdrop : (e.digits ++ s).dropWhile isDigit = s := Cursor.dropWhile_run e.isDigits hdigits
      rw [exponentText, Exponent.text, List.cons_append, List.append_assoc, scanExponent,
        dif_pos e.isMarker]
      simp only [hsign, htake, hdrop, ne_eq, e.nonempty, not_false_eq_true, dif_pos]

/-- What is taken off is the text of the number. -/
theorem scanDecimal_sound {s rest : Bytes} {d : Decimal} (h : scanDecimal s = some (d, rest)) :
    s = d.text ++ rest := by
  simp only [scanDecimal] at h
  split at h
  · cases h
    rw [Decimal.text, List.append_assoc, List.append_assoc, List.append_assoc,
      exponentText_scanExponent, fractionText_scanFraction, List.takeWhile_append_dropWhile,
      signText_scanSign]
  · cases h

theorem stops_exponentText {s : Bytes} (e : Option Exponent) (hs : Stops isNumberChar s) :
    Stops isDigit (exponentText e ++ s) ∧ ∀ c ∈ (exponentText e ++ s).head?, c ≠ 46 := by
  cases e with
  | none =>
      refine ⟨hs.mono fun _ => isNumberChar_of_isDigit, fun c hc => ?_⟩
      rintro rfl
      exact absurd (hs _ hc) (by decide)
  | some e =>
      constructor
      · rintro c ⟨⟩
        rcases e.isMarker with h | h <;> rw [h] <;> decide
      · rintro c ⟨⟩
        rcases e.isMarker with h | h <;> rw [h] <;> decide

/-- A number is taken off whole when no character of a number follows it. -/
theorem scanDecimal_text (d : Decimal) {s : Bytes} (hs : Stops isNumberChar s) :
    scanDecimal (d.text ++ s) = some (d, s) := by
  obtain ⟨hdigit, hpoint⟩ := stops_exponentText d.exponent hs
  have hfraction := scanFraction_fractionText d.isFraction hdigit hpoint
  have hstop : Stops isDigit (fractionText d.fraction ++ (exponentText d.exponent ++ s)) := by
    cases d.fraction with
    | none => exact hdigit
    | some f =>
        rintro c ⟨⟩
        decide
  have htake := Cursor.takeWhile_run d.isWhole hstop
  have hdrop := Cursor.dropWhile_run d.isWhole hstop
  have hsign : scanSign (d.text ++ s) =
      (d.sign, d.whole ++ (fractionText d.fraction ++ (exponentText d.exponent ++ s))) := by
    rw [Decimal.text, List.append_assoc, List.append_assoc, List.append_assoc]
    refine scanSign_signText fun _ c hc => ?_
    cases hwhole : d.whole with
    | cons w ws =>
        rw [hwhole] at hc
        cases hc
        exact not_sign_of_isDigit (d.isWhole _ (by rw [hwhole]; exact List.mem_cons_self))
    | nil =>
        cases hf : d.fraction with
        | none => exact absurd (by rw [hwhole, hf]; rfl) d.nonempty
        | some f =>
            rw [hwhole, hf] at hc
            cases hc
            decide
  simp only [scanDecimal, hsign, htake, hdrop, hfraction, ne_eq, d.nonempty, not_false_eq_true,
    dif_pos, scanExponent_exponentText hs]

theorem isNumberChar_of_mem_signText {sign : Option Bool} {c : UInt8} (h : c ∈ signText sign) :
    isNumberChar c = true := by
  match sign with
  | some false | some true =>
      rw [signText, List.mem_singleton] at h
      rw [h]
      decide

theorem Decimal.isNumberChar_text (d : Decimal) : ∀ c ∈ d.text, isNumberChar c = true := by
  intro c hc
  rw [Decimal.text, List.mem_append, List.mem_append, List.mem_append] at hc
  rcases hc with hc | hc | hc | hc
  · exact isNumberChar_of_mem_signText hc
  · exact isNumberChar_of_isDigit (d.isWhole c hc)
  · cases hf : d.fraction with
    | none =>
        rw [hf] at hc
        cases hc
    | some f =>
        rw [hf, fractionText, List.mem_cons] at hc
        rcases hc with rfl | hc
        · decide
        · exact isNumberChar_of_isDigit (d.isFraction f hf c hc)
  · cases he : d.exponent with
    | none =>
        rw [he] at hc
        cases hc
    | some e =>
        rw [he, exponentText, Exponent.text, List.mem_cons, List.mem_append] at hc
        rcases hc with rfl | hc | hc
        · rcases e.isMarker with h | h <;> rw [h] <;> decide
        · exact isNumberChar_of_mem_signText hc
        · exact isNumberChar_of_isDigit (e.isDigits c hc)

theorem Decimal.text_ne_nil (d : Decimal) : d.text ≠ [] := by
  intro h
  rw [Decimal.text, List.append_eq_nil_iff, List.append_eq_nil_iff, List.append_eq_nil_iff] at h
  obtain ⟨-, hwhole, hfraction, -⟩ := h
  cases hf : d.fraction with
  | none => exact d.nonempty (by rw [hwhole, hf]; rfl)
  | some f =>
      rw [hf] at hfraction
      cases hfraction

/-! ## parse_number -/

/-- What an `int` keeps of a number. -/
def Decimal.valueint (d : Decimal) : Int := doubleToInt (toDouble d.value)

theorem strtod_text (d : Decimal) {s : Bytes} (hs : Stops isNumberChar s) :
    strtod (d.text ++ s) = (toDouble d.value, d.text.length) := by
  rw [strtod, scanDecimal_text d hs]

section Number

variable {item : CJson} {pre rest : Bytes}

theorem parseNumber_cases (item : CJson) (pre rest : Bytes) :
    parseNumber item (.between pre rest) = .fail ∨
      ∃ (d : Decimal) (rest' : Bytes), rest = d.text ++ rest' ∧ d.text.length ≤ 63 ∧
        parseNumber item (.between pre rest) =
          .ok ({ item with valueint := d.valueint }, .between (pre ++ d.text) rest') := by
  unfold parseNumber
  simp only [Cursor.rest_between]
  cases hscan : scanDecimal ((rest.takeWhile isNumberChar).take 63) with
  | none => exact .inl (if_pos (by rw [strtod, hscan]))
  | some r =>
      obtain ⟨d, behind⟩ := r
      have htext := scanDecimal_sound hscan
      have hnumber : strtod ((rest.takeWhile isNumberChar).take 63)
          = (toDouble d.value, d.text.length) := by rw [strtod, hscan]
      have hlen : d.text.length ≤ 63 := by
        have hle := congrArg List.length htext
        rw [List.length_take, List.length_append] at hle
        omega
      obtain ⟨tail, htail⟩ : d.text <+: rest := by
        refine List.IsPrefix.trans ⟨behind, htext.symm⟩ ?_
        exact (List.take_prefix _ _).trans (List.takeWhile_prefix _)
      refine .inr ⟨d, tail, htail.symm, hlen, ?_⟩
      have hpos : d.text.length ≠ 0 := by simpa using d.text_ne_nil
      rw [hnumber, if_neg hpos, ← htail, Cursor.advance_between rfl]
      rfl

/-- A number of at most 63 characters is read whole. -/
theorem parseNumber_text (d : Decimal) (hlen : d.text.length ≤ 63)
    (hs : Stops isNumberChar rest) :
    parseNumber item (.between pre (d.text ++ rest)) =
      .ok ({ item with valueint := d.valueint }, .between (pre ++ d.text) rest) := by
  have hrun : (((d.text ++ rest).takeWhile isNumberChar).take 63) = d.text := by
    rw [Cursor.takeWhile_run d.isNumberChar_text hs, List.take_of_length_le hlen]
  have hnumber : strtod d.text = (toDouble d.value, d.text.length) := by
    have hend := strtod_text d (s := []) (fun c hc => by cases hc)
    rwa [List.append_nil] at hend
  have hpos : d.text.length ≠ 0 := by simpa using d.text_ne_nil
  simp only [parseNumber, Cursor.rest_between, hrun, hnumber, if_neg hpos]
  rw [Cursor.advance_between rfl]
  rfl

end Number

/-! ## Integers in a double -/

theorem le_roundHalfEven {m : Int} {q : ℚ} (h : (m : ℚ) ≤ q) : m ≤ roundHalfEven q := by
  have hfloor : m ≤ ⌊q⌋ := Int.le_floor.mpr h
  unfold roundHalfEven
  simp only
  split_ifs <;> omega

theorem roundHalfEven_le {m : Int} {q : ℚ} (h : q ≤ m) : roundHalfEven q ≤ m := by
  rcases h.lt_or_eq with hlt | rfl
  · have hfloor : ⌊q⌋ + 1 ≤ m := Int.floor_lt.mpr hlt
    unfold roundHalfEven
    simp only
    split_ifs <;> omega
  · simp [roundHalfEven]

theorem roundHalfEven_intCast (m : Int) : roundHalfEven (m : ℚ) = m :=
  le_antisymm (roundHalfEven_le le_rfl) (le_roundHalfEven le_rfl)

/-- Up to 53 bits an integer is kept. -/
theorem toDouble_intCast {n : Int} (h : |n| < 2 ^ 53) : toDouble (n : ℚ) = n := by
  have hlog : Int.log 2 |(n : ℚ)| ≤ 52 := by
    by_cases hzero : n = 0
    · simp [hzero]
    · have hpos : (0 : ℚ) < |(n : ℚ)| := abs_pos.mpr (Int.cast_ne_zero.mpr hzero)
      have hlt : |(n : ℚ)| < (2 : ℕ) ^ (53 : ℤ) := by
        rw [← Int.cast_abs]
        exact_mod_cast h
      exact Int.lt_add_one_iff.mp ((Int.lt_zpow_iff_log_lt one_lt_two hpos).mp hlt)
  obtain ⟨k, hk⟩ : ∃ k : ℕ, max (-1074) (Int.log 2 |(n : ℚ)| - 52) = -(k : ℤ) :=
    ⟨(-(max (-1074) (Int.log 2 |(n : ℚ)| - 52))).toNat, by omega⟩
  have hexact : (n : ℚ) / 2 ^ (-(k : ℤ)) = ((n * 2 ^ k : Int) : ℚ) := by
    rw [zpow_neg, div_inv_eq_mul]
    push_cast
    rw [zpow_natCast]
  simp only [toDouble]
  rw [hk, hexact, roundHalfEven_intCast, ← hexact]
  exact div_mul_cancel₀ _ (zpow_ne_zero _ two_ne_zero)

/-- Behind them it does not get smaller than that. -/
theorem toDouble_large {q : ℚ} (h : 2 ^ 53 ≤ |q|) :
    (0 < q → 2 ^ 52 ≤ toDouble q) ∧ (q < 0 → toDouble q ≤ -2 ^ 52) := by
  have hpos : 0 < |q| := lt_of_lt_of_le (by norm_num) h
  have hlog : (53 : ℤ) ≤ Int.log 2 |q| := by
    have hself := (Int.zpow_le_iff_le_log (one_lt_two : 1 < 2) hpos (x := 53)).mp
    refine hself ?_
    exact_mod_cast h
  have he : max (-1074) (Int.log 2 |q| - 52) = Int.log 2 |q| - 52 := by omega
  have hone : (1 : ℚ) ≤ 2 ^ (Int.log 2 |q| - 52) := one_le_zpow₀ (by norm_num) (by omega)
  have hscale : (0 : ℚ) < 2 ^ (Int.log 2 |q| - 52) := by positivity
  have hself : (2 : ℚ) ^ 52 * 2 ^ (Int.log 2 |q| - 52) ≤ |q| := by
    have hle := Int.zpow_log_le_self (one_lt_two : 1 < 2) hpos
    rw [← zpow_natCast, ← zpow_add₀ two_ne_zero]
    have hsum : ((52 : ℕ) : ℤ) + (Int.log 2 |q| - 52) = Int.log 2 |q| := by omega
    rw [hsum]
    exact_mod_cast hle
  constructor
  · intro hq
    rw [abs_of_pos hq] at hself he hone hscale
    have hround : (2 ^ 52 : Int) ≤ roundHalfEven (q / 2 ^ (Int.log 2 q - 52)) := by
      apply le_roundHalfEven
      rw [le_div_iff₀ hscale]
      exact_mod_cast hself
    simp only [toDouble, abs_of_pos hq, he]
    have hcast : (2 ^ 52 : ℚ) ≤ roundHalfEven (q / 2 ^ (Int.log 2 q - 52)) := by exact_mod_cast hround
    exact le_trans hcast (le_mul_of_one_le_right (le_trans (by norm_num) hcast) hone)
  · intro hq
    rw [abs_of_neg hq] at hself he hone hscale
    have hround : roundHalfEven (q / 2 ^ (Int.log 2 (-q) - 52)) ≤ (-2 ^ 52 : Int) := by
      apply roundHalfEven_le
      rw [div_le_iff₀ hscale]
      push_cast
      linarith
    simp only [toDouble, abs_of_neg hq, he]
    have hcast : (roundHalfEven (q / 2 ^ (Int.log 2 (-q) - 52)) : ℚ) ≤ -2 ^ 52 := by
      exact_mod_cast hround
    nlinarith

/-- **Saturation**: an integer of any size becomes the nearest `int`. -/
theorem doubleToInt_intCast (n : Int) :
    doubleToInt (toDouble (n : ℚ)) = max (-2147483648) (min n 2147483647) := by
  by_cases h : |n| < 2 ^ 53
  · rw [toDouble_intCast h, doubleToInt]
    have hhigh : (2147483647 : ℚ) ≤ n ↔ 2147483647 ≤ n := by exact_mod_cast Iff.rfl
    have hlow : (n : ℚ) ≤ -2147483648 ↔ n ≤ -2147483648 := by exact_mod_cast Iff.rfl
    simp only [hhigh, hlow, Rat.num_intCast, Rat.den_intCast, Nat.cast_one, Int.tdiv_one]
    split_ifs <;> omega
  · rw [not_lt] at h
    have hlarge : (2 : ℚ) ^ 53 ≤ |(n : ℚ)| := by
      rw [← Int.cast_abs]
      exact_mod_cast h
    obtain ⟨hpos, hneg⟩ := toDouble_large hlarge
    rcases lt_trichotomy n 0 with hn | rfl | hn
    · have hdouble := hneg (by exact_mod_cast hn)
      have habs : 2 ^ 53 ≤ -n := abs_of_neg hn ▸ h
      rw [doubleToInt, if_neg (by linarith), if_pos (by linarith)]
      omega
    · norm_num at h
    · have hdouble := hpos (by exact_mod_cast hn)
      have habs : 2 ^ 53 ≤ n := abs_of_pos hn ▸ h
      rw [doubleToInt, if_pos (by linarith)]
      omega

end Icehydra
