import Icehydra.CJsonNumber
import Icehydra.ConfText

/-!
# CJsonString — parse_string

The string of `src/cJSON.c`: one pass finds the closing quote and how much the
output can take at most, a second one writes it. The two do not always agree on
where an escape begins, `\u` takes four bytes whatever they are; that the output
fits all the same is part of what is shown.
-/

namespace Icehydra

/-! ## Code points -/

def hexDigit (c : UInt8) : Option Nat :=
  if 48 ≤ c ∧ c ≤ 57 then some (c.toNat - 48)
  else if 65 ≤ c ∧ c ≤ 70 then some (10 + c.toNat - 65)
  else if 97 ≤ c ∧ c ≤ 102 then some (10 + c.toNat - 97)
  else none

/-- The rounds of `parse_hex4`, of which `n` are left. -/
def parseHex4Loop : Nat → Nat → Bytes → Checked Nat
  | 0, h, _ => .ok h
  | _ + 1, _, [] => .outside
  | n + 1, h, c :: input =>
      match hexDigit c with
      | none => .ok 0
      | some d => parseHex4Loop n (if 0 < n then (h + d) <<< 4 else h + d) input

def parseHex4 (input : Bytes) : Checked Nat := parseHex4Loop 4 0 input

/-- `utf8_length` and `first_byte_mark`. -/
def utf8Length (codepoint : Nat) : Option (Nat × Nat) :=
  if codepoint < 0x80 then some (1, 0)
  else if codepoint < 0x800 then some (2, 0xC0)
  else if codepoint < 0x10000 then some (3, 0xE0)
  else if codepoint ≤ 0x10FFFF then some (4, 0xF0)
  else none

/-- From the last byte to the second, then what is left for the first. -/
def utf8Tail : Nat → Nat → Bytes → Nat × Bytes
  | 0, codepoint, output => (codepoint, output)
  | position + 1, codepoint, output =>
      utf8Tail position (codepoint >>> 6) (.ofNat ((codepoint ||| 0x80) &&& 0xBF) :: output)

def encodeUtf8 (codepoint : Nat) : Checked Bytes :=
  match utf8Length codepoint with
  | none => .fail
  | some (length, firstByteMark) =>
      let tail := utf8Tail (length - 1) codepoint []
      let first := if 1 < length then (tail.1 ||| firstByteMark) &&& 0xFF else tail.1 &&& 0x7F
      .ok (.ofNat first :: tail.2)

/-- `input` is what stands at `input_pointer`, `left` the bytes up to
`input_end`. The result is `sequence_length` and what is written; `fail` is 0. -/
def utf16LiteralToUtf8 (input : Bytes) (left : Nat) : Checked (Nat × Bytes) :=
  if left < 6 then .fail
  else parseHex4 (input.drop 2) >>= fun firstCode =>
    if 0xDC00 ≤ firstCode ∧ firstCode ≤ 0xDFFF then .fail
    else if 0xD800 ≤ firstCode ∧ firstCode ≤ 0xDBFF then
      if left - 6 < 6 then .fail
      else
        match input[6]?, input[7]? with
        | some c, some u =>
            if c ≠ 92 ∨ u ≠ 117 then .fail
            else parseHex4 (input.drop 8) >>= fun secondCode =>
              if secondCode < 0xDC00 ∨ 0xDFFF < secondCode then .fail
              else
                encodeUtf8 (0x10000 + (((firstCode &&& 0x3FF) <<< 10) ||| (secondCode &&& 0x3FF)))
                  >>= fun bytes => .ok (12, bytes)
        | _, _ => .outside
    else encodeUtf8 firstCode >>= fun bytes => .ok (6, bytes)

/-! ## parse_string -/

/-- What a backslash with this byte behind it stands for, `\u` apart. -/
def simpleEscape (e : UInt8) : Option UInt8 :=
  if e = 98 then some 8
  else if e = 102 then some 12
  else if e = 110 then some 10
  else if e = 114 then some 13
  else if e = 116 then some 9
  else if e = 34 ∨ e = 92 ∨ e = 47 then some e
  else none

/-- The first pass: the number of bytes in front of the closing quote, and
`skipped_bytes`. -/
def stringEnd : Bytes → Option (Nat × Nat)
  | [] => none
  | c :: s =>
      if c = 34 then some (0, 0)
      else if c = 92 then
        match s with
        | [] => none
        | _ :: s => (stringEnd s).map fun r => (r.1 + 2, r.2 + 1)
      else (stringEnd s).map fun r => (r.1 + 1, r.2)

/-- Into an output of which `room` bytes are allocated. -/
def writeOutput (room : Nat) (output bytes : Bytes) : Checked Bytes :=
  if output.length + bytes.length ≤ room then .ok (output ++ bytes) else .outside

/-- The second pass, with `left` bytes up to `input_end`; the last write is the
zero, which is not part of the result. -/
def unescape (room : Nat) : Nat → Bytes → Nat → Bytes → Checked Bytes
  | _, _, 0, output => writeOutput room output [0] >>= fun _ => .ok output
  | 0, _, _ + 1, _ => .unfinished
  | _ + 1, [], _ + 1, _ => .outside
  | fuel + 1, c :: input, left + 1, output =>
      if c ≠ 92 then
        writeOutput room output [c] >>= fun output => unescape room fuel input left output
      else
        match input with
        | [] => .outside
        | e :: rest =>
            if e = 117 then
              utf16LiteralToUtf8 (c :: e :: rest) (left + 1) >>= fun r =>
                writeOutput room output r.2 >>= fun output =>
                  unescape room fuel ((c :: e :: rest).drop r.1) (left + 1 - r.1) output
            else
              match simpleEscape e with
              | none => .fail
              | some c =>
                  writeOutput room output [c] >>= fun output =>
                    unescape room fuel rest (left - 1) output

/-- A C string is kept of the output. -/
def parseString (item : CJson) : Scanner UInt8 CJson := fun b =>
  match b.peek 0 with
  | none => .outside
  | some c =>
      if c ≠ 34 then .fail
      else
        match stringEnd (b.advance 1).rest with
        | none => .fail
        | some (length, skippedBytes) =>
            let allocationLength := length + 1 - skippedBytes
            unescape (allocationLength + 1) length (b.advance 1).rest length [] >>= fun output =>
              .ok ({ item with valuestring := some (cString output) }, b.advance (length + 2))

/-! ## UTF-16 literals -/

/-- Four digits, or 0 where one of them is none. -/
def hexCode (h1 h2 h3 h4 : UInt8) : Nat :=
  match hexDigit h1, hexDigit h2, hexDigit h3, hexDigit h4 with
  | some d1, some d2, some d3, some d4 => ((d1 * 16 + d2) * 16 + d3) * 16 + d4
  | _, _, _, _ => 0

/-- `\uXXXX` or two of them, and the character meant. -/
inductive Utf16Literal : Bytes → Char → Prop where
  | single {h1 h2 h3 h4 : UInt8} {c : Char} : hexCode h1 h2 h3 h4 = c.toNat →
      Utf16Literal [92, 117, h1, h2, h3, h4] c
  | pair {h1 h2 h3 h4 l1 l2 l3 l4 : UInt8} {c : Char} :
      0xD800 ≤ hexCode h1 h2 h3 h4 → hexCode h1 h2 h3 h4 ≤ 0xDBFF →
      0xDC00 ≤ hexCode l1 l2 l3 l4 → hexCode l1 l2 l3 l4 ≤ 0xDFFF →
      c.toNat = 0x10000 + (hexCode h1 h2 h3 h4 - 0xD800) * 0x400 + (hexCode l1 l2 l3 l4 - 0xDC00) →
      Utf16Literal [92, 117, h1, h2, h3, h4, 92, 117, l1, l2, l3, l4] c

theorem hexDigit_lt {c : UInt8} {d : Nat} (h : hexDigit c = some d) : d < 16 := by
  simp only [hexDigit, UInt8.le_iff_toNat_le] at h
  split_ifs at h with h1 h2 h3 <;> cases h
  · have h9 : c.toNat ≤ 57 := h1.2
    omega
  · have hF : c.toNat ≤ 70 := h2.2
    omega
  · have hf : c.toNat ≤ 102 := h3.2
    omega

theorem hexCode_lt (h1 h2 h3 h4 : UInt8) : hexCode h1 h2 h3 h4 < 0x10000 := by
  unfold hexCode
  split
  · rename_i d1 d2 d3 d4 hd1 hd2 hd3 hd4
    have := hexDigit_lt hd1
    have := hexDigit_lt hd2
    have := hexDigit_lt hd3
    have := hexDigit_lt hd4
    omega
  · omega

theorem parseHex4_eq (h1 h2 h3 h4 : UInt8) (rest : Bytes) :
    parseHex4 (h1 :: h2 :: h3 :: h4 :: rest) = .ok (hexCode h1 h2 h3 h4) := by
  simp only [parseHex4, parseHex4Loop, hexCode, Nat.shiftLeft_eq]
  cases hexDigit h1 with
  | none => rfl
  | some d1 =>
      cases hexDigit h2 with
      | none => rfl
      | some d2 =>
          cases hexDigit h3 with
          | none => rfl
          | some d3 =>
              cases hexDigit h4 with
              | none => rfl
              | some d4 => simp

/-! ### The bytes of a character -/

/-- `10xxxxxx` -/
theorem continuationByte (v : Nat) :
    UInt8.ofNat ((v ||| 0x80) &&& 0xBF) = .ofNat (v % 64 + 128) := by
  have hbyte : ∀ r < 256, (r ||| 0x80) &&& 0xBF = r % 64 + 128 := by decide +kernel
  have hlow : (v ||| 0x80) &&& 0xBF = ((v % 256) ||| 0x80) &&& 0xBF := by
    have hmod : ((v ||| 0x80) &&& 0xBF) % 2 ^ 8 = ((v % 256) ||| 0x80) &&& 0xBF := by
      rw [Nat.and_mod_two_pow, Nat.or_mod_two_pow]
    rw [← hmod, Nat.mod_eq_of_lt (Nat.and_lt_two_pow _ (by decide))]
  rw [hlow, hbyte _ (Nat.mod_lt _ (by decide)), Nat.mod_mod_of_dvd _ (by decide)]

theorem encodeUtf8_char (c : Char) : encodeUtf8 c.toNat = .ok (String.utf8EncodeChar c) := by
  have hval : c.val.toNat = c.toNat := rfl
  have hmax : c.toNat < 0x110000 := by
    have hvalid := c.valid
    rw [UInt32.isValidChar, Nat.isValidChar, hval] at hvalid
    omega
  have htwo : ∀ r < 32, (r ||| 0xC0) &&& 0xFF = r % 32 + 0xC0 := by decide
  have hthree : ∀ r < 16, (r ||| 0xE0) &&& 0xFF = r % 16 + 0xE0 := by decide
  have hfour : ∀ r < 8, (r ||| 0xF0) &&& 0xFF = r % 8 + 0xF0 := by decide
  simp only [String.utf8EncodeChar, hval]
  generalize c.toNat = n at hmax
  by_cases h1 : n < 0x80
  · have hlen : utf8Length n = some (1, 0) := if_pos h1
    have hand : n &&& 0x7F = n := by
      rw [show (0x7F : Nat) = 2 ^ 7 - 1 from rfl, Nat.and_two_pow_sub_one_eq_mod]
      exact Nat.mod_eq_of_lt h1
    rw [encodeUtf8, hlen, if_pos (by omega)]
    simp [utf8Tail, hand]
  by_cases h2 : n < 0x800
  · have hlen : utf8Length n = some (2, 0xC0) := by rw [utf8Length, if_neg h1, if_pos h2]
    rw [encodeUtf8, hlen, if_neg (by omega), if_pos (by omega)]
    simp only [utf8Tail, Nat.reduceSub, Nat.shiftRight_eq_div_pow, Nat.reducePow, Nat.reduceLT,
      if_true, continuationByte, htwo (n / 64) (by omega)]
  by_cases h3 : n < 0x10000
  · have hlen : utf8Length n = some (3, 0xE0) := by
      rw [utf8Length, if_neg h1, if_neg h2, if_pos h3]
    rw [encodeUtf8, hlen, if_neg (by omega), if_neg (by omega), if_pos (by omega)]
    simp only [utf8Tail, Nat.reduceSub, Nat.shiftRight_eq_div_pow, Nat.reducePow, Nat.reduceLT,
      if_true, continuationByte, Nat.div_div_eq_div_mul, Nat.reduceMul, hthree (n / 4096) (by omega)]
  · have hlen : utf8Length n = some (4, 0xF0) := by
      rw [utf8Length, if_neg h1, if_neg h2, if_neg h3, if_pos (by omega)]
    rw [encodeUtf8, hlen, if_neg (by omega), if_neg (by omega), if_neg (by omega)]
    simp only [utf8Tail, Nat.reduceSub, Nat.shiftRight_eq_div_pow, Nat.reducePow, Nat.reduceLT,
      if_true, continuationByte, Nat.div_div_eq_div_mul, Nat.reduceMul, hfour (n / 262144) (by omega)]

theorem exists_char {n : Nat} (h : n.isValidChar) : ∃ c : Char, c.toNat = n :=
  ⟨Char.ofNatAux n h, rfl⟩

/-- A code of a single literal, that is no surrogate, is a character. -/
theorem exists_char_of_single {n : Nat} (hlt : n < 0x10000) (hlow : ¬ (0xDC00 ≤ n ∧ n ≤ 0xDFFF))
    (hhigh : ¬ (0xD800 ≤ n ∧ n ≤ 0xDBFF)) : ∃ c : Char, n = c.toNat := by
  have hvalid : n.isValidChar := by
    rw [Nat.isValidChar]
    omega
  obtain ⟨c, hc⟩ := exists_char hvalid
  exact ⟨c, hc.symm⟩

theorem exists_char_of_pair {hi lo : Nat} (hhi : hi ≤ 0xDBFF) (hlo : lo ≤ 0xDFFF) :
    ∃ c : Char, c.toNat = 0x10000 + (hi - 0xD800) * 0x400 + (lo - 0xDC00) := by
  apply exists_char
  rw [Nat.isValidChar]
  omega

/-- The code point of a surrogate pair. -/
theorem surrogatePair {hi lo : Nat} (h1 : 0xD800 ≤ hi) (h2 : hi ≤ 0xDBFF) (h3 : 0xDC00 ≤ lo)
    (h4 : lo ≤ 0xDFFF) : ((hi &&& 0x3FF) <<< 10) ||| (lo &&& 0x3FF) =
      (hi - 0xD800) * 0x400 + (lo - 0xDC00) := by
  have hmask : (0x3FF : Nat) = 2 ^ 10 - 1 := rfl
  rw [hmask, Nat.and_two_pow_sub_one_eq_mod, Nat.and_two_pow_sub_one_eq_mod,
    ← Nat.shiftLeft_add_eq_or_of_lt (Nat.mod_lt _ (by decide)), Nat.shiftLeft_eq]
  omega

section Literal

variable {lit rest : Bytes} {c : Char} {left : Nat}

theorem utf16LiteralToUtf8_complete (h : Utf16Literal lit c) (hleft : lit.length ≤ left) :
    utf16LiteralToUtf8 (lit ++ rest) left = .ok (lit.length, String.utf8EncodeChar c) := by
  cases h with
  | @single h1 h2 h3 h4 _ hcode =>
      have hvalid := c.valid
      rw [UInt32.isValidChar, Nat.isValidChar, show c.val.toNat = c.toNat from rfl, ← hcode] at hvalid
      have hsix : ¬ left < 6 := Nat.not_lt.mpr hleft
      simp only [utf16LiteralToUtf8, if_neg hsix, List.cons_append, List.drop_succ_cons,
        List.drop_zero, parseHex4_eq, Checked.ok_bind]
      rw [if_neg (by omega), if_neg (by omega), hcode, encodeUtf8_char]
      rfl
  | @pair h1 h2 h3 h4 l1 l2 l3 l4 _ hhi hhi' hlo hlo' hcode =>
      have hsix : ¬ left < 6 := fun hlt => absurd hleft (by simp; omega)
      have htwelve : ¬ left - 6 < 6 := fun hlt => absurd hleft (by simp; omega)
      simp only [utf16LiteralToUtf8, if_neg hsix, List.cons_append, List.drop_succ_cons,
        List.drop_zero, parseHex4_eq, Checked.ok_bind]
      rw [if_neg (by omega), if_pos ⟨hhi, hhi'⟩, if_neg htwelve]
      simp only [List.getElem?_cons_succ, List.getElem?_cons_zero, ne_eq, not_true_eq_false, or_self,
        if_false]
      rw [if_neg (by omega), surrogatePair hhi hhi' hlo hlo', ← Nat.add_assoc, ← hcode,
        encodeUtf8_char]
      rfl

/-- **The literals that are taken**: with a byte behind `input_end`, nothing else
is read, and what fails is no literal. -/
theorem utf16LiteralToUtf8_sound {input : Bytes} (hleft : left ≤ input.length + 2) :
    utf16LiteralToUtf8 (92 :: 117 :: input) left = .fail ∨
      ∃ lit rest c, 92 :: 117 :: input = lit ++ rest ∧ lit.length ≤ left ∧ Utf16Literal lit c ∧
        utf16LiteralToUtf8 (92 :: 117 :: input) left
          = .ok (lit.length, String.utf8EncodeChar c) := by
  by_cases hsix : left < 6
  · exact .inl (by rw [utf16LiteralToUtf8, if_pos hsix])
  obtain ⟨h1, h2, h3, h4, input, rfl⟩ : ∃ h1 h2 h3 h4 input', input = h1 :: h2 :: h3 :: h4 :: input' := by
    match input, hleft with
    | h1 :: h2 :: h3 :: h4 :: input', _ => exact ⟨h1, h2, h3, h4, input', rfl⟩
    | [], hleft | [_], hleft | [_, _], hleft | [_, _, _], hleft => simp at hleft; omega
  by_cases hlow : 0xDC00 ≤ hexCode h1 h2 h3 h4 ∧ hexCode h1 h2 h3 h4 ≤ 0xDFFF
  · left
    simp only [utf16LiteralToUtf8, if_neg hsix, List.drop_succ_cons, List.drop_zero, parseHex4_eq,
      Checked.ok_bind, if_pos hlow]
  by_cases hhigh : 0xD800 ≤ hexCode h1 h2 h3 h4 ∧ hexCode h1 h2 h3 h4 ≤ 0xDBFF
  · by_cases htwelve : left - 6 < 6
    · left
      simp only [utf16LiteralToUtf8, if_neg hsix, List.drop_succ_cons, List.drop_zero, parseHex4_eq,
        Checked.ok_bind, if_neg hlow, if_pos hhigh, if_pos htwelve]
    obtain ⟨b, u, l1, l2, l3, l4, input, rfl⟩ :
        ∃ b u l1 l2 l3 l4 input', input = b :: u :: l1 :: l2 :: l3 :: l4 :: input' := by
      match input, hleft with
      | b :: u :: l1 :: l2 :: l3 :: l4 :: input', _ => exact ⟨b, u, l1, l2, l3, l4, input', rfl⟩
      | [], hleft | [_], hleft | [_, _], hleft | [_, _, _], hleft | [_, _, _, _], hleft
      | [_, _, _, _, _], hleft => simp at hleft; omega
    by_cases hescape : b ≠ 92 ∨ u ≠ 117
    · left
      simp only [utf16LiteralToUtf8, if_neg hsix, List.drop_succ_cons, List.drop_zero, parseHex4_eq,
        Checked.ok_bind, if_neg hlow, if_pos hhigh, if_neg htwelve, List.getElem?_cons_succ,
        List.getElem?_cons_zero, if_pos hescape]
    by_cases hsecond : hexCode l1 l2 l3 l4 < 0xDC00 ∨ 0xDFFF < hexCode l1 l2 l3 l4
    · left
      simp only [utf16LiteralToUtf8, if_neg hsix, List.drop_succ_cons, List.drop_zero, parseHex4_eq,
        Checked.ok_bind, if_neg hlow, if_pos hhigh, if_neg htwelve, List.getElem?_cons_succ,
        List.getElem?_cons_zero, if_neg hescape, if_pos hsecond]
    obtain ⟨rfl, rfl⟩ : b = 92 ∧ u = 117 := by
      rw [not_or, not_not, not_not] at hescape
      exact hescape
    rw [not_or, Nat.not_lt, Nat.not_lt] at hsecond
    obtain ⟨c, hc⟩ := exists_char_of_pair hhigh.2 hsecond.2
    have hlit : Utf16Literal [92, 117, h1, h2, h3, h4, 92, 117, l1, l2, l3, l4] c :=
      .pair hhigh.1 hhigh.2 hsecond.1 hsecond.2 hc
    have hlen : [92, 117, h1, h2, h3, h4, 92, 117, l1, l2, l3, l4].length ≤ left := by
      simp only [List.length_cons, List.length_nil]
      omega
    exact .inr ⟨_, input, c, rfl, hlen, hlit, utf16LiteralToUtf8_complete hlit hlen⟩
  · obtain ⟨c, hc⟩ := exists_char_of_single (hexCode_lt h1 h2 h3 h4) hlow hhigh
    have hlit : Utf16Literal [92, 117, h1, h2, h3, h4] c := .single hc
    have hlen : [92, 117, h1, h2, h3, h4].length ≤ left := Nat.not_lt.mp hsix
    exact .inr ⟨_, input, c, rfl, hlen, hlit, utf16LiteralToUtf8_complete hlit hlen⟩

end Literal

/-! ## The first pass -/

/-- A backslash takes the byte behind it along; a quote stands nowhere else. -/
inductive Quoted : Bytes → Prop where
  | nil : Quoted []
  | plain {c s} : c ≠ 34 → c ≠ 92 → Quoted s → Quoted (c :: s)
  | escaped {e s} : Quoted s → Quoted (92 :: e :: s)

/-- `skipped_bytes`; the flag is set where a backslash stands in front. -/
def skippedBytes : Bool → Bytes → Nat
  | _, [] => 0
  | true, _ :: s => skippedBytes false s
  | false, c :: s => if c = 92 then skippedBytes true s + 1 else skippedBytes false s

theorem stringEnd_sound {s : Bytes} {r : Nat × Nat} (h : stringEnd s = some r) :
    ∃ body rest, s = body ++ 34 :: rest ∧ Quoted body ∧
      r = (body.length, skippedBytes false body) := by
  fun_induction stringEnd s generalizing r with
  | case1 => cases h
  | case2 s =>
      cases h
      exact ⟨[], s, rfl, .nil, rfl⟩
  | case3 => cases h
  | case4 e s _ ih =>
      obtain ⟨r', hr', rfl⟩ := Option.map_eq_some_iff.mp h
      obtain ⟨body, rest, rfl, hbody, rfl⟩ := ih hr'
      exact ⟨92 :: e :: body, rest, rfl, .escaped hbody, rfl⟩
  | case5 c s hquote hslash ih =>
      obtain ⟨r', hr', rfl⟩ := Option.map_eq_some_iff.mp h
      obtain ⟨body, rest, rfl, hbody, rfl⟩ := ih hr'
      refine ⟨c :: body, rest, rfl, .plain hquote hslash hbody, ?_⟩
      rw [skippedBytes, if_neg hslash]
      rfl

theorem stringEnd_quoted {body : Bytes} (h : Quoted body) (rest : Bytes) :
    stringEnd (body ++ 34 :: rest) = some (body.length, skippedBytes false body) := by
  induction h with
  | nil =>
      rw [List.nil_append, stringEnd.eq_def]
      simp only [if_pos]
      rfl
  | plain hquote hslash _ ih =>
      rw [List.cons_append, stringEnd.eq_def]
      simp only [if_neg hquote, if_neg hslash, ih, skippedBytes]
      rfl
  | escaped _ ih =>
      rw [List.cons_append, List.cons_append, stringEnd.eq_def]
      simp only [ih, skippedBytes]
      rfl

theorem skippedBytes_le (escaped : Bool) (s : Bytes) : skippedBytes escaped s ≤ s.length := by
  fun_induction skippedBytes escaped s with
  | case1 => exact Nat.le_refl _
  | case2 c s ih | case4 c s _ ih => exact Nat.le_succ_of_le ih
  | case3 s ih => exact Nat.succ_le_succ ih

/-- Of two bytes one at most begins an escape, whatever stands in front. -/
theorem skippedBytes_append (escaped : Bool) (a s : Bytes) :
    ∃ escaped', 2 * skippedBytes escaped (a ++ s) + escaped.toNat ≤
      2 * skippedBytes escaped' s + escaped'.toNat + a.length := by
  induction a generalizing escaped with
  | nil => exact ⟨escaped, Nat.le_refl _⟩
  | cons c a ih =>
      rw [List.length_cons, List.cons_append]
      cases escaped with
      | true =>
          obtain ⟨escaped', h⟩ := ih false
          refine ⟨escaped', ?_⟩
          rw [skippedBytes]
          rw [Bool.toNat_false] at h
          rw [Bool.toNat_true]
          omega
      | false =>
          rw [skippedBytes]
          by_cases hc : c = 92
          · obtain ⟨escaped', h⟩ := ih true
            refine ⟨escaped', ?_⟩
            rw [Bool.toNat_true] at h
            rw [if_pos hc, Bool.toNat_false]
            omega
          · obtain ⟨escaped', h⟩ := ih false
            refine ⟨escaped', ?_⟩
            rw [Bool.toNat_false] at h
            rw [if_neg hc, Bool.toNat_false]
            omega

/-! ## The second pass -/

/-- What the bytes between the quotes stand for. A backslash at the end is one
that the first pass took for escaped; the closing quote is what it escapes. -/
inductive Unescapes : Bytes → Bytes → Prop where
  | nil : Unescapes [] []
  | plain {c s out} : c ≠ 92 → Unescapes s out → Unescapes (c :: s) (c :: out)
  | simple {e c s out} : simpleEscape e = some c → Unescapes s out →
      Unescapes (92 :: e :: s) (c :: out)
  | utf16 {lit s out c} : Utf16Literal lit c → Unescapes s out →
      Unescapes (lit ++ s) (String.utf8EncodeChar c ++ out)
  | quote : Unescapes [92] [34]

section Unescape

variable {room fuel left : Nat} {output rest : Bytes} {c e : UInt8}

theorem unescape_end (h : output.length + 1 ≤ room) :
    unescape room fuel rest 0 output = .ok output := by
  rw [unescape.eq_def]
  simp only [writeOutput, List.length_singleton, if_pos h]
  rfl

theorem unescape_plain (hc : c ≠ 92) (h : output.length + 1 ≤ room) :
    unescape room (fuel + 1) (c :: rest) (left + 1) output =
      unescape room fuel rest left (output ++ [c]) := by
  rw [unescape.eq_def]
  simp only [if_pos hc, writeOutput, List.length_singleton, if_pos h]
  rfl

theorem not_u_of_simpleEscape (h : simpleEscape e = some c) : e ≠ 117 := by
  rintro rfl
  cases h

theorem unescape_simple (he : simpleEscape e = some c) (h : output.length + 1 ≤ room) :
    unescape room (fuel + 1) (92 :: e :: rest) (left + 1) output =
      unescape room fuel rest (left - 1) (output ++ [c]) := by
  rw [unescape, if_neg (not_not.mpr rfl), if_neg (not_u_of_simpleEscape he)]
  simp only [he, writeOutput, List.length_singleton, if_pos h]
  rfl

theorem unescape_none (he : simpleEscape e = none) (hu : e ≠ 117) :
    unescape room (fuel + 1) (92 :: e :: rest) (left + 1) output = .fail := by
  rw [unescape, if_neg (not_not.mpr rfl), if_neg hu]
  simp only [he]

theorem unescape_noLiteral (h : utf16LiteralToUtf8 (92 :: 117 :: rest) (left + 1) = .fail) :
    unescape room (fuel + 1) (92 :: 117 :: rest) (left + 1) output = .fail := by
  rw [unescape, if_neg (not_not.mpr rfl), if_pos rfl, h]
  rfl

theorem Utf16Literal.cons {lit : Bytes} {c : Char} (h : Utf16Literal lit c) :
    ∃ lit', lit = 92 :: 117 :: lit' := by
  cases h with
  | single => exact ⟨_, rfl⟩
  | pair => exact ⟨_, rfl⟩

theorem unescape_literal {lit : Bytes} {c : Char} (hlit : Utf16Literal lit c)
    (hleft : lit.length ≤ left + 1)
    (h : output.length + (String.utf8EncodeChar c).length ≤ room) :
    unescape room (fuel + 1) (lit ++ rest) (left + 1) output =
      unescape room fuel rest (left + 1 - lit.length) (output ++ String.utf8EncodeChar c) := by
  have hread := @utf16LiteralToUtf8_complete lit rest c (left + 1) hlit hleft
  have hdrop : (lit ++ rest).drop lit.length = rest := List.drop_left
  obtain ⟨lit', rfl⟩ := hlit.cons
  rw [List.cons_append, List.cons_append] at hread hdrop ⊢
  rw [unescape, if_neg (not_not.mpr rfl), if_pos rfl, hread]
  simp only [Checked.ok_bind, writeOutput, if_pos h, hdrop]

/-! ### The room -/

/-- What is written is half as long at most as what it is written for. -/
theorem Utf16Literal.length_le {lit : Bytes} {c : Char} (h : Utf16Literal lit c) :
    2 * (String.utf8EncodeChar c).length ≤ lit.length := by
  rw [String.length_utf8EncodeChar]
  cases h with
  | @single h1 h2 h3 h4 _ hcode =>
      have hlt := hexCode_lt h1 h2 h3 h4
      have hval : c.val.toNat = c.toNat := rfl
      have hsize : c.utf8Size ≤ 3 := by
        rw [Char.utf8Size]
        simp only [UInt32.le_iff_toNat_le, hval]
        split_ifs <;> simp
        rename_i hlarge
        exact absurd (Nat.lt_succ_iff.mp (hcode ▸ hlt)) hlarge
      simp only [List.length_cons, List.length_nil]
      omega
  | pair =>
      have hsize := c.utf8Size_le_four
      simp only [List.length_cons, List.length_nil]
      omega

variable {max : Nat} {escaped : Bool} {s : Bytes}

/-- What the output holds and what is still to be read fit, less the escapes
that the first pass sees in it. -/
def Fits (max : Nat) (escaped : Bool) (output s : Bytes) : Prop :=
  output.length + s.length ≤ max + skippedBytes escaped s

theorem Fits.output_le (h : Fits max escaped output s) : output.length ≤ max := by
  have hle := skippedBytes_le escaped s
  unfold Fits at h
  omega

theorem Fits.plain (h : Fits max escaped output (c :: s)) (hc : c ≠ 92) :
    Fits max false (output ++ [c]) s := by
  have hskip : skippedBytes escaped (c :: s) = skippedBytes false s := by
    cases escaped with
    | true => rfl
    | false => rw [skippedBytes, if_neg hc]
  rw [Fits, hskip, List.length_cons] at h
  rw [Fits, List.length_append, List.length_singleton]
  omega

/-- An escape that is written in half of its bytes leaves it so. -/
theorem Fits.step {a bytes : Bytes} (h : Fits max escaped output (a ++ s))
    (hlen : 2 * bytes.length ≤ a.length) : ∃ escaped', Fits max escaped' (output ++ bytes) s := by
  obtain ⟨escaped', hskip⟩ := skippedBytes_append escaped a s
  refine ⟨escaped', ?_⟩
  have hbit := escaped'.toNat_le
  rw [Fits, List.length_append] at h
  rw [Fits, List.length_append]
  omega

/-! ### Both directions -/

/-- Half of an escape leaves room for one byte and the zero. -/
theorem unescape_quote (h : Fits max escaped output [92]) :
    unescape (max + 2) (fuel + 1) (92 :: 34 :: rest) 1 output = .ok (output ++ [34]) := by
  have hle : output.length ≤ max := by
    have hone : skippedBytes escaped [92] ≤ 1 := skippedBytes_le escaped [92]
    rw [Fits, List.length_singleton] at h
    omega
  have hescape : simpleEscape 34 = some 34 := rfl
  rw [unescape_simple hescape (by omega)]
  apply unescape_end
  rw [List.length_append, List.length_singleton]
  omega

/-- **The second pass stays inside** what the first one counted, and gives what
the bytes stand for, or fails. -/
theorem unescape_cases (hfits : Fits max escaped output s) (hfuel : s.length ≤ fuel) :
    unescape (max + 2) fuel (s ++ 34 :: rest) s.length output = .fail ∨
      ∃ out, Unescapes s out ∧
        unescape (max + 2) fuel (s ++ 34 :: rest) s.length output = .ok (output ++ out) := by
  induction fuel generalizing s escaped output with
  | zero =>
      obtain rfl : s = [] := List.eq_nil_of_length_eq_zero (Nat.le_zero.mp hfuel)
      have hle := hfits.output_le
      refine .inr ⟨[], .nil, ?_⟩
      rw [List.append_nil]
      exact unescape_end (by omega)
  | succ fuel ih =>
      cases s with
      | nil =>
          have hle := hfits.output_le
          refine .inr ⟨[], .nil, ?_⟩
          rw [List.append_nil]
          exact unescape_end (by omega)
      | cons c s =>
          have hs : s.length ≤ fuel := Nat.succ_le_succ_iff.mp hfuel
          rw [List.length_cons, List.cons_append]
          by_cases hc : c = 92
          · subst hc
            cases s with
            | nil => exact .inr ⟨[34], .quote, unescape_quote hfits⟩
            | cons e s =>
                rw [List.cons_append]
                by_cases hu : e = 117
                · subst hu
                  have hinside : s.length + 1 + 1 ≤ (s ++ 34 :: rest).length + 2 := by
                    rw [List.length_append]
                    omega
                  rcases utf16LiteralToUtf8_sound hinside with
                    hfail | ⟨lit, t, c, htext, hleft, hlit, -⟩
                  · exact .inl (unescape_noLiteral hfail)
                  · obtain ⟨s', hs', rfl⟩ : ∃ s', 92 :: 117 :: s = lit ++ s' ∧ t = s' ++ 34 :: rest := by
                      rw [← List.cons_append, ← List.cons_append, List.append_eq_append_iff] at htext
                      rcases htext with ⟨a, ha, ha'⟩ | ⟨a, ha, ha'⟩
                      · obtain rfl : a = [] := by
                          rw [ha, List.length_append, List.length_cons, List.length_cons] at hleft
                          exact List.eq_nil_of_length_eq_zero (by omega)
                        exact ⟨[], by simpa using ha.symm, by simpa using ha'.symm⟩
                      · exact ⟨a, ha, ha'⟩
                    have hlen : (92 :: 117 :: s).length = lit.length + s'.length := by
                      rw [hs', List.length_append]
                    rw [List.length_cons, List.length_cons] at hlen
                    rw [hs'] at hfits
                    obtain ⟨escaped', hnext⟩ := hfits.step hlit.length_le
                    have hroom := hnext.output_le
                    rw [List.length_append] at hroom
                    have hpos : 0 < lit.length := by
                      obtain ⟨lit', rfl⟩ := hlit.cons
                      exact Nat.succ_pos _
                    rw [htext, List.length_cons, unescape_literal hlit hleft (by omega),
                      show s.length + 1 + 1 - lit.length = s'.length by omega, hs']
                    rcases ih hnext (by rw [List.length_cons] at hs; omega) with
                      hfail | ⟨out, hout, hok⟩
                    · exact .inl hfail
                    · exact .inr ⟨_, .utf16 hlit hout, by rw [hok, List.append_assoc]⟩
                · cases he : simpleEscape e with
                  | none => exact .inl (unescape_none he hu)
                  | some c =>
                      obtain ⟨escaped', hnext⟩ :=
                        @Fits.step _ _ _ _ [92, e] [c] hfits (Nat.le_refl _)
                      have hroom := hnext.output_le
                      rw [List.length_append, List.length_singleton] at hroom
                      rw [unescape_simple he (by omega), List.length_cons, Nat.add_sub_cancel]
                      rcases ih hnext (Nat.le_of_succ_le hs) with hfail | ⟨out, hout, hok⟩
                      · exact .inl hfail
                      · refine .inr ⟨c :: out, .simple he hout, ?_⟩
                        rw [hok, List.append_assoc]
                        rfl
          · have hnext := hfits.plain hc
            have hroom := hnext.output_le
            rw [List.length_append, List.length_singleton] at hroom
            rw [unescape_plain hc (by omega)]
            rcases ih hnext hs with hfail | ⟨out, hout, hok⟩
            · exact .inl hfail
            · refine .inr ⟨c :: out, .plain hc hout, ?_⟩
              rw [hok, List.append_assoc]
              rfl

theorem unescape_complete {out : Bytes} (h : Unescapes s out)
    (hfits : Fits max escaped output s) (hfuel : s.length ≤ fuel) :
    unescape (max + 2) fuel (s ++ 34 :: rest) s.length output = .ok (output ++ out) := by
  induction h generalizing escaped output fuel with
  | nil =>
      have hle := hfits.output_le
      rw [List.append_nil]
      exact unescape_end (by omega)
  | @plain c s out hc _ ih =>
      obtain ⟨fuel, rfl⟩ := Nat.exists_eq_add_of_le' (Nat.le_trans (Nat.succ_pos _) hfuel)
      have hnext := hfits.plain hc
      have hroom := hnext.output_le
      rw [List.length_append, List.length_singleton] at hroom
      rw [List.length_cons, List.cons_append, unescape_plain hc (by omega),
        ih hnext (Nat.succ_le_succ_iff.mp hfuel), List.append_assoc]
      rfl
  | @simple e c s out he _ ih =>
      obtain ⟨fuel, rfl⟩ := Nat.exists_eq_add_of_le' (Nat.le_trans (Nat.succ_pos _) hfuel)
      obtain ⟨escaped', hnext⟩ := @Fits.step _ _ _ _ [92, e] [c] hfits (Nat.le_refl _)
      have hroom := hnext.output_le
      rw [List.length_append, List.length_singleton] at hroom
      have hs : s.length ≤ fuel := Nat.le_of_succ_le (Nat.succ_le_succ_iff.mp hfuel)
      rw [List.length_cons, List.cons_append, List.cons_append, unescape_simple he (by omega),
        List.length_cons, Nat.add_sub_cancel, ih hnext hs, List.append_assoc]
      rfl
  | @utf16 lit s out c hlit _ ih =>
      obtain ⟨escaped', hnext⟩ := hfits.step hlit.length_le
      have hroom := hnext.output_le
      rw [List.length_append] at hroom
      have hpos : 0 < lit.length := by
        obtain ⟨lit', rfl⟩ := hlit.cons
        exact Nat.succ_pos _
      rw [List.length_append] at hfuel
      obtain ⟨fuel, rfl⟩ : ∃ n, fuel = n + 1 := ⟨fuel - 1, by omega⟩
      obtain ⟨left, hleft⟩ : ∃ n, lit.length + s.length = n + 1 := ⟨lit.length + s.length - 1, by omega⟩
      rw [List.length_append, List.append_assoc, hleft,
        unescape_literal hlit (by omega) (by omega),
        show left + 1 - lit.length = s.length by omega, ih hnext (by omega), List.append_assoc]
  | quote =>
      obtain ⟨fuel, rfl⟩ := Nat.exists_eq_add_of_le' hfuel
      exact unescape_quote hfits

end Unescape

/-! ## parse_string -/

/-- The text of a string, and what is kept of it. -/
inductive StringText : Bytes → Bytes → Prop where
  | mk {body out} : Quoted body → Unescapes body out →
      StringText (34 :: (body ++ [34])) (cString out)

section String

variable {item : CJson} {pre rest : Bytes}

theorem parseString_quote {body : Bytes} (hbody : Quoted body) :
    parseString item (.between pre (34 :: (body ++ 34 :: rest))) =
      (unescape (body.length - skippedBytes false body + 2) body.length (body ++ 34 :: rest)
        body.length [] >>= fun output =>
          .ok ({ item with valuestring := some (cString output) },
            .between (pre ++ 34 :: (body ++ [34])) rest)) := by
  have hle := skippedBytes_le false body
  have hroom : body.length + 1 - skippedBytes false body + 1
      = body.length - skippedBytes false body + 2 := by omega
  have hmove : (Cursor.between pre (34 :: (body ++ 34 :: rest))).advance (body.length + 2)
      = .between (pre ++ 34 :: (body ++ [34])) rest := by
    rw [← @Cursor.advance_between _ pre (34 :: (body ++ [34])) rest (body.length + 2) (by simp)]
    simp
  simp only [parseString, Cursor.peek_between, List.getElem?_cons_zero, ne_eq, not_true_eq_false,
    if_false, Cursor.advance_one_between, Cursor.rest_between, stringEnd_quoted hbody, hroom, hmove]

theorem fits_quoted (body : Bytes) :
    Fits (body.length - skippedBytes false body) false [] body := by
  have hle := skippedBytes_le false body
  rw [Fits, List.length_nil]
  omega

/-- **parse_string**: with a byte to look at it does not leave its buffers, and
takes the text of a string off the front or fails. -/
theorem parseString_cases (item : CJson) (pre : Bytes) (h : rest ≠ []) :
    parseString item (.between pre rest) = .fail ∨
      ∃ s rest' out, rest = s ++ rest' ∧ StringText s out ∧
        parseString item (.between pre rest) =
          .ok ({ item with valuestring := some out }, .between (pre ++ s) rest') := by
  cases rest with
  | nil => exact absurd rfl h
  | cons c rest =>
      by_cases hc : c = 34
      · subst hc
        cases hend : stringEnd rest with
        | none =>
            left
            simp [parseString, hend]
        | some r =>
            obtain ⟨body, rest, rfl, hbody, -⟩ := stringEnd_sound hend
            rw [parseString_quote hbody]
            rcases unescape_cases (fits_quoted body) (Nat.le_refl _) with hfail | ⟨out, hout, hok⟩
            · exact .inl (by rw [hfail]; rfl)
            · refine .inr ⟨34 :: (body ++ [34]), rest, _, ?_, .mk hbody hout, ?_⟩
              · simp
              · rw [hok]
                rfl
      · left
        simp [parseString, hc]

theorem parseString_text {s out : Bytes} (h : StringText s out) :
    parseString item (.between pre (s ++ rest)) =
      .ok ({ item with valuestring := some out }, .between (pre ++ s) rest) := by
  obtain ⟨hbody, hout⟩ := h
  rw [List.cons_append, List.append_assoc, List.singleton_append, parseString_quote hbody,
    unescape_complete hout (fits_quoted _) (Nat.le_refl _)]
  rfl

end String

/-! ## Escaped strings

A string that is written with escapes only, one or two for each character.
-/

def hexByte (d : Nat) : UInt8 := if d < 10 then .ofNat (48 + d) else .ofNat (87 + d)

/-- `\uXXXX` -/
def escapeUnit (n : Nat) : Bytes :=
  [92, 117, hexByte (n / 4096 % 16), hexByte (n / 256 % 16), hexByte (n / 16 % 16), hexByte (n % 16)]

def escapeChar (c : Char) : Bytes :=
  if c.toNat < 0x10000 then escapeUnit c.toNat
  else
    escapeUnit (0xD800 + (c.toNat - 0x10000) / 0x400)
      ++ escapeUnit (0xDC00 + (c.toNat - 0x10000) % 0x400)

def escaped (cs : List Char) : Bytes := 34 :: (cs.flatMap escapeChar ++ [34])

section Escaped

theorem hexDigit_hexByte : ∀ d < 16, hexDigit (hexByte d) = some d := by decide

theorem hexCode_escapeUnit {n : Nat} (h : n < 0x10000) :
    hexCode (hexByte (n / 4096 % 16)) (hexByte (n / 256 % 16)) (hexByte (n / 16 % 16))
      (hexByte (n % 16)) = n := by
  have hdigit : ∀ k, hexDigit (hexByte (k % 16)) = some (k % 16) := fun k =>
    hexDigit_hexByte _ (Nat.mod_lt _ (by decide))
  simp only [hexCode, hdigit]
  omega

theorem utf16Literal_escapeChar (c : Char) : Utf16Literal (escapeChar c) c := by
  have hvalid := c.valid
  rw [UInt32.isValidChar, Nat.isValidChar, show c.val.toNat = c.toNat from rfl] at hvalid
  unfold escapeChar
  by_cases hlt : c.toNat < 0x10000
  · rw [if_pos hlt]
    exact .single (hexCode_escapeUnit hlt)
  · rw [if_neg hlt]
    have hhigh := @hexCode_escapeUnit (0xD800 + (c.toNat - 0x10000) / 0x400) (by omega)
    have hlow := @hexCode_escapeUnit (0xDC00 + (c.toNat - 0x10000) % 0x400) (by omega)
    refine .pair ?_ ?_ ?_ ?_ ?_
    · rw [hhigh]
      omega
    · rw [hhigh]
      omega
    · rw [hlow]
      omega
    · rw [hlow]
      omega
    · rw [hhigh, hlow]
      omega

theorem quoted_append {a b : Bytes} (ha : Quoted a) (hb : Quoted b) : Quoted (a ++ b) := by
  induction ha with
  | nil => exact hb
  | plain hquote hslash _ ih => exact .plain hquote hslash ih
  | escaped _ ih => exact .escaped ih

theorem hexByte_plain : ∀ d < 16, hexByte d ≠ 34 ∧ hexByte d ≠ 92 := by decide

theorem quoted_escapeUnit (n : Nat) : Quoted (escapeUnit n) := by
  have hplain : ∀ k, hexByte (k % 16) ≠ 34 ∧ hexByte (k % 16) ≠ 92 := fun k =>
    hexByte_plain _ (Nat.mod_lt _ (by decide))
  refine .escaped ?_
  exact .plain (hplain _).1 (hplain _).2 (.plain (hplain _).1 (hplain _).2
    (.plain (hplain _).1 (hplain _).2 (.plain (hplain _).1 (hplain _).2 .nil)))

theorem quoted_escapeChar (c : Char) : Quoted (escapeChar c) := by
  unfold escapeChar
  split
  · exact quoted_escapeUnit _
  · exact quoted_append (quoted_escapeUnit _) (quoted_escapeUnit _)

theorem unescapes_escapeChar (cs : List Char) :
    Quoted (cs.flatMap escapeChar) ∧
      Unescapes (cs.flatMap escapeChar) (cs.flatMap String.utf8EncodeChar) := by
  induction cs with
  | nil => exact ⟨.nil, .nil⟩
  | cons c cs ih =>
      rw [List.flatMap_cons, List.flatMap_cons]
      exact ⟨quoted_append (quoted_escapeChar c) ih.1, .utf16 (utf16Literal_escapeChar c) ih.2⟩

/-- Only one character has a zero among its bytes. -/
theorem zero_notMem_utf8EncodeChar {c : Char} (h : c.toNat ≠ 0) : 0 ∉ String.utf8EncodeChar c := by
  have hne : ∀ n : Nat, 0 < n → n < 256 → (0 : UInt8) ≠ UInt8.ofNat n := by
    intro n hpos hlt heq
    have hnat : 0 = n := (congrArg UInt8.toNat heq).trans (UInt8.toNat_ofNat_of_lt' hlt)
    omega
  have hval : c.val.toNat = c.toNat := rfl
  simp only [String.utf8EncodeChar, hval]
  split_ifs with h1 h2 h3
  · rw [List.mem_singleton]
    exact hne _ (Nat.pos_of_ne_zero h) (by omega)
  · simp only [List.mem_cons, List.not_mem_nil, or_false, not_or]
    exact ⟨hne _ (by omega) (by omega), hne _ (by omega) (by omega)⟩
  · simp only [List.mem_cons, List.not_mem_nil, or_false, not_or]
    exact ⟨hne _ (by omega) (by omega), hne _ (by omega) (by omega), hne _ (by omega) (by omega)⟩
  · simp only [List.mem_cons, List.not_mem_nil, or_false, not_or]
    exact ⟨hne _ (by omega) (by omega), hne _ (by omega) (by omega), hne _ (by omega) (by omega),
      hne _ (by omega) (by omega)⟩

/-- UTF-8 as a C string has it. -/
def cUtf8 (cs : List Char) : Bytes :=
  (cs.takeWhile fun c => c.toNat ≠ 0).flatMap String.utf8EncodeChar

theorem cString_utf8 (cs : List Char) : cString (cs.flatMap String.utf8EncodeChar) = cUtf8 cs := by
  induction cs with
  | nil => rfl
  | cons c cs ih =>
      rw [List.flatMap_cons, cUtf8]
      by_cases hc : c.toNat = 0
      · obtain rfl : c = Char.ofNat 0 := Char.ext (UInt32.toNat_inj.mp hc)
        rfl
      · have hall : ∀ b ∈ String.utf8EncodeChar c, decide (b ≠ 0) = true := fun b hb =>
          decide_eq_true fun hzero => zero_notMem_utf8EncodeChar hc (hzero ▸ hb)
        rw [cString, List.takeWhile_append_of_pos hall, List.takeWhile_cons_of_pos (by simpa using hc),
          List.flatMap_cons, ← cUtf8, ← ih]
        rfl

/-- **Every string can be written so that it is read**: one that is escaped comes
out as its UTF-8, up to a character 0. -/
theorem parseString_escaped (item : CJson) (pre rest : Bytes) (cs : List Char) :
    parseString item (.between pre (escaped cs ++ rest)) =
      .ok ({ item with valuestring := some (cUtf8 cs) }, .between (pre ++ escaped cs) rest) := by
  obtain ⟨hquoted, hunescapes⟩ := unescapes_escapeChar cs
  rw [← cString_utf8]
  exact parseString_text (.mk hquoted hunescapes)

end Escaped

end Icehydra
