import Icehydra.CJsonString

/-!
# CJsonParse — cJSON_ParseWithOpts

The parser of `src/cJSON.c` and the texts it accepts. Where the buffer ends with
the zero of a C string nothing is read behind it; without one, which only
`cJSON_ParseWithLengthOpts` allows, a comma at the end is followed too far.
-/

namespace Icehydra

open Cursor (Stops Terminated Sound Complete)

/-! ## The parser -/

/-- `cJSON_New_Item`. -/
def CJson.empty : CJson := ⟨none, none, 0, []⟩

def nestingLimit : Nat := 1000

/-- At the end it steps back onto the last byte. -/
def bufferSkipWhitespace (b : ParseBuffer) : ParseBuffer :=
  if b.CanAccess 0 then
    let offset := b.offset + (b.rest.takeWhile (· ≤ 32)).length
    { b with offset := if offset = b.content.length then offset - 1 else offset }
  else b

/-- `can_read` and `strncmp` with a text that holds no zero. -/
def startsWith (b : ParseBuffer) (text : Bytes) : Bool := text.isPrefixOf b.rest

def utf8Bom : Bytes := [0xEF, 0xBB, 0xBF]

def skipUtf8Bom (b : ParseBuffer) : ParseBuffer :=
  if b.CanAccess 4 ∧ startsWith b utf8Bom = true then b.advance 3 else b

section Container

-- `parse_value`, one level deeper.
variable (value : CJson → Scanner UInt8 CJson)

def parseElement : Scanner UInt8 CJson := fun b =>
  value .empty (bufferSkipWhitespace b) >>= fun r => .ok (r.1, bufferSkipWhitespace r.2)

/-- The name is parsed as the item's value, and moved. -/
def parseMember : Scanner UInt8 CJson := fun b =>
  parseString .empty (bufferSkipWhitespace b) >>= fun r =>
    let item := { r.1 with string := r.1.valuestring, valuestring := none }
    let b := bufferSkipWhitespace r.2
    if b.peek 0 ≠ some 58 then .fail
    else
      value item (bufferSkipWhitespace (b.advance 1)) >>= fun r =>
        .ok (r.1, bufferSkipWhitespace r.2)

end Container

/-- `parse_array` and `parse_object` behind the opening bracket; a comma goes on
with the loop. -/
def parseContainer (closing : UInt8) (element : Scanner UInt8 CJson) (item : CJson) :
    Scanner UInt8 CJson := fun b =>
  let b := bufferSkipWhitespace (b.advance 1)
  if b.peek 0 = some closing then .ok ({ item with child := [] }, b.advance 1)
  else if ¬ b.CanAccess 0 then .fail
  else
    Cursor.sepBy 44 element (b.content.length + 1) (b.back 1) >>= fun r =>
      if r.2.peek 0 = some closing then .ok ({ item with child := r.1 }, r.2.advance 1)
      else .fail

/-- `none` is a depth of `CJSON_NESTING_LIMIT`. -/
def parseArray (value : Option (CJson → Scanner UInt8 CJson)) (item : CJson) :
    Scanner UInt8 CJson := fun b =>
  match value with
  | none => .fail
  | some value =>
      match b.peek 0 with
      | none => .outside
      | some c => if c ≠ 91 then .fail else parseContainer 93 (parseElement value) item b

def parseObject (value : Option (CJson → Scanner UInt8 CJson)) (item : CJson) :
    Scanner UInt8 CJson := fun b =>
  match value with
  | none => .fail
  | some value =>
      if b.peek 0 ≠ some 123 then .fail else parseContainer 125 (parseMember value) item b

def textNull : Bytes := [110, 117, 108, 108]
def textFalse : Bytes := [102, 97, 108, 115, 101]
def textTrue : Bytes := [116, 114, 117, 101]

def parseValueWith (deeper : Option (CJson → Scanner UInt8 CJson)) (item : CJson) :
    Scanner UInt8 CJson := fun b =>
  if startsWith b textNull = true then .ok (item, b.advance 4)
  else if startsWith b textFalse = true then .ok (item, b.advance 5)
  else if startsWith b textTrue = true then .ok ({ item with valueint := 1 }, b.advance 4)
  else if b.peek 0 = some 34 then parseString item b
  else if b.peek 0 = some 45 ∨ (b.peek 0).any isDigit = true then parseNumber item b
  else if b.peek 0 = some 91 then parseArray deeper item b
  else if b.peek 0 = some 123 then parseObject deeper item b
  else .fail

/-- With `CJSON_NESTING_LIMIT - depth` levels left. -/
def parseValue : Nat → CJson → Scanner UInt8 CJson
  | 0 => parseValueWith none
  | levels + 1 => parseValueWith (some (parseValue levels))

/-- The item and what `return_parse_end` is set to. -/
def cJSONParseWithLengthOpts (value : Bytes) (requireNullTerminated : Bool) :
    Checked (CJson × Nat) :=
  if value = [] then .fail
  else
    parseValue nestingLimit .empty (bufferSkipWhitespace (skipUtf8Bom ⟨value, 0⟩)) >>= fun r =>
      if requireNullTerminated then
        let b := bufferSkipWhitespace r.2
        if ¬ b.CanAccess 0 ∨ b.peek 0 ≠ some 0 then .fail else .ok (r.1, b.offset)
      else .ok (r.1, r.2.offset)

/-- Over a C string, with its zero. -/
def cJSONParseWithOpts (value : Bytes) (requireNullTerminated : Bool) : Checked (CJson × Nat) :=
  cJSONParseWithLengthOpts (cString value ++ [0]) requireNullTerminated

/-! ## The texts -/

def Blank (s : Bytes) : Prop := ∀ c ∈ s, c ≤ 32

/-- The same value under a name. -/
def CJson.named (v : CJson) (key : Option Bytes) : CJson := { v with string := key }

/-- What may begin a number for `parse_value`. -/
def StartsNumber (s : Bytes) : Prop := ∃ c r, s = c :: r ∧ (c = 45 ∨ isDigit c = true)

inductive Scalar : Bytes → CJson → Prop where
  | null : Scalar textNull .empty
  | false : Scalar textFalse .empty
  | true : Scalar textTrue { CJson.empty with valueint := 1 }
  | string {s out} : StringText s out → Scalar s { CJson.empty with valuestring := some out }
  | number (d : Decimal) : d.text.length ≤ 63 → StartsNumber d.text →
      Scalar d.text { CJson.empty with valueint := d.valueint }

inductive Padded (L : Bytes → CJson → Prop) : Bytes → CJson → Prop where
  | mk {w s w' v} : Blank w → L s v → Blank w' → Padded L (w ++ (s ++ w')) v

inductive Member (L : Bytes → CJson → Prop) : Bytes → CJson → Prop where
  | mk {w k key w' s v} : Blank w → StringText k key → Blank w' → Padded L s v →
      Member L (w ++ (k ++ (w' ++ 58 :: s))) (v.named (some key))

inductive Container (opening closing : UInt8) (E : Bytes → CJson → Prop) : Bytes → CJson → Prop where
  | empty {w} : Blank w → Container opening closing E (opening :: (w ++ [closing])) .empty
  | filled {s items} : Cursor.SepBy 44 E s items →
      Container opening closing E (opening :: (s ++ [closing])) { CJson.empty with child := items }

/-- The texts of values, with arrays and objects nested at most so deep. -/
def ValueText : Nat → Bytes → CJson → Prop
  | 0 => Scalar
  | levels + 1 => fun s v =>
      Scalar s v ∨ Container 91 93 (Padded (ValueText levels)) s v ∨
        Container 123 125 (Member (ValueText levels)) s v

/-! ## Whitespace -/

/-- A byte that is neither whitespace nor the zero. -/
def StartsBlack (s : Bytes) : Prop := ∃ c r, s = c :: r ∧ 32 < c

section Skip

variable {pre rest w : Bytes}

theorem not_le_of_black {c : UInt8} (h : 32 < c) : ¬ c ≤ 32 := by
  rw [UInt8.lt_iff_toNat_lt] at h
  rw [UInt8.le_iff_toNat_le]
  omega

/-- Whitespace with something behind it. -/
theorem bufferSkipWhitespace_blank (hw : Blank w) (hrest : StartsBlack rest) :
    bufferSkipWhitespace (.between pre (w ++ rest)) = .between (pre ++ w) rest := by
  obtain ⟨c, r, rfl, hc⟩ := hrest
  have hrun : (w ++ c :: r).takeWhile (· ≤ 32) = w := by
    refine Cursor.takeWhile_run (fun b hb => decide_eq_true (hw b hb)) ?_
    rintro b ⟨⟩
    exact decide_eq_false (not_le_of_black hc)
  have haccess : (Cursor.between pre (w ++ c :: r)).CanAccess 0 := by
    rw [Cursor.canAccess_between, List.length_append, List.length_cons]
    omega
  rw [bufferSkipWhitespace, if_pos haccess]
  simp only [Cursor.rest_between, hrun, Cursor.offset_between, Cursor.content_between,
    List.length_append, List.length_cons]
  rw [if_neg (by omega), Cursor.between, List.append_assoc, List.length_append]

/-- Nothing but whitespace: it stops in front of the zero. -/
theorem bufferSkipWhitespace_end (hw : Blank w) :
    bufferSkipWhitespace (.between pre (w ++ [0])) = .between (pre ++ w) [0] := by
  have hrun : (w ++ [0]).takeWhile (· ≤ 32) = w ++ [0] := by
    refine List.takeWhile_eq_self_iff.mpr fun b hb => ?_
    rcases List.mem_append.mp hb with hb | hb
    · exact decide_eq_true (hw b hb)
    · rw [List.mem_singleton.mp hb]
      decide
  have haccess : (Cursor.between pre (w ++ [(0 : UInt8)])).CanAccess 0 := by
    rw [Cursor.canAccess_between, List.length_append, List.length_singleton]
    omega
  rw [bufferSkipWhitespace, if_pos haccess]
  simp only [Cursor.rest_between, hrun, Cursor.offset_between, Cursor.content_between,
    List.length_append, List.length_singleton, if_true]
  rw [Cursor.between, List.append_assoc, List.length_append, Nat.add_sub_assoc (by omega)]
  congr 1

/-- **Whitespace in a C string**: what is left begins with a further byte or is
the zero. -/
theorem bufferSkipWhitespace_cases (pre : Bytes) (h : Terminated 0 rest) :
    ∃ w rest', rest = w ++ rest' ∧ Blank w ∧ Terminated 0 rest' ∧
      (StartsBlack rest' ∨ rest' = [0]) ∧
      bufferSkipWhitespace (.between pre rest) = .between (pre ++ w) rest' := by
  have hblank : Blank (rest.takeWhile (· ≤ 32)) := fun b hb => by
    simpa using List.mem_takeWhile_imp hb
  cases hdrop : rest.dropWhile (· ≤ 32) with
  | nil =>
      have hall : rest.takeWhile (· ≤ 32) = rest := by
        have hsplit := @List.takeWhile_append_dropWhile _ (fun b : UInt8 => decide (b ≤ 32)) rest
        rwa [hdrop, List.append_nil] at hsplit
      rw [hall] at hblank
      obtain ⟨body, rfl, -⟩ := h
      have hbody : Blank body := fun b hb => hblank b (List.mem_append_left _ hb)
      exact ⟨body, [0], rfl, hbody, ⟨[], rfl, List.not_mem_nil⟩, .inr rfl,
        bufferSkipWhitespace_end hbody⟩
  | cons c r =>
      have hsplit := @List.takeWhile_append_dropWhile _ (fun b : UInt8 => decide (b ≤ 32)) rest
      rw [hdrop] at hsplit
      have hc : 32 < c := by
        have hstop := Cursor.stops_dropWhile (fun b : UInt8 => decide (b ≤ 32)) rest c (by rw [hdrop]; rfl)
        rw [decide_eq_false_iff_not, UInt8.le_iff_toNat_le] at hstop
        rw [UInt8.lt_iff_toNat_lt]
        omega
      rw [← hsplit] at h
      have hrest := h.drop (h.notMem (List.cons_ne_nil _ _))
      refine ⟨_, _, hsplit.symm, hblank, hrest, .inl ⟨c, r, rfl, hc⟩, ?_⟩
      conv_lhs => rw [← hsplit]
      exact bufferSkipWhitespace_blank hblank ⟨c, r, rfl, hc⟩

end Skip

/-! ## What a parser reads -/

/-- How the text of a value begins: no whitespace, and neither like the end of
what it is in nor like the byte order mark. -/
def StartsValue (s : Bytes) : Prop := ∃ c r, s = c :: r ∧ 32 < c ∧ c ≠ 93 ∧ c ≠ 125 ∧ c ≠ 0xEF

theorem StartsValue.black {s : Bytes} (h : StartsValue s) : StartsBlack s := by
  obtain ⟨c, r, rfl, hc, -⟩ := h
  exact ⟨c, r, rfl, hc⟩

theorem StartsBlack.append {s : Bytes} (h : StartsBlack s) (t : Bytes) : StartsBlack (s ++ t) := by
  obtain ⟨c, r, rfl, hc⟩ := h
  exact ⟨c, r ++ t, rfl, hc⟩

/-- The values of `L`, under a name. -/
def Named (key : Option Bytes) (L : Bytes → CJson → Prop) : Bytes → CJson → Prop :=
  fun s item => ∃ v, L s v ∧ item = v.named key

/-- `parse_value` for a new item, which may have its name already. -/
structure Reads (L : Bytes → CJson → Prop) (value : CJson → Scanner UInt8 CJson) : Prop where
  unnamed : ∀ {s v}, L s v → v.named none = v
  starts : ∀ {s v}, L s v → StartsValue s
  sound : ∀ key, Sound (Terminated 0) (Named key L) (value (CJson.empty.named key))
  complete : ∀ key,
    Complete (Stops isNumberChar) (Named key L) (value (CJson.empty.named key))

/-- What stands behind an element. -/
def Delimited (rest : Bytes) : Prop := ∃ c r, rest = c :: r ∧ (c = 44 ∨ c = 93 ∨ c = 125)

/-- One round of a loop over elements, whitespace on both sides included. -/
structure ReadsElement (E : Bytes → CJson → Prop) (element : Scanner UInt8 CJson) : Prop where
  blank : ∀ {w s v}, Blank w → E s v → E (w ++ s) v
  trim : ∀ {s v}, E s v → ∃ w s', s = w ++ s' ∧ Blank w ∧ E s' v ∧ StartsValue s'
  sound : Sound (Terminated 0) E element
  complete : Complete Delimited E element

theorem Blank.append {w w' : Bytes} (h : Blank w) (h' : Blank w') : Blank (w ++ w') := by
  intro c hc
  rcases List.mem_append.mp hc with hc | hc
  · exact h c hc
  · exact h' c hc

theorem blank_nil : Blank [] := fun _ hc => absurd hc List.not_mem_nil

theorem Delimited.black {rest : Bytes} (h : Delimited rest) : StartsBlack rest := by
  obtain ⟨c, r, rfl, rfl | rfl | rfl⟩ := h <;> exact ⟨_, r, rfl, by decide⟩

theorem isNumberChar_of_blank {c : UInt8} (h : c ≤ 32) : isNumberChar c = false := by
  have hall : ∀ n < 33, isNumberChar (.ofNat n) = false := by decide
  have hc := hall c.toNat (Nat.lt_succ_of_le (UInt8.le_iff_toNat_le.mp h))
  rwa [UInt8.ofNat_toNat] at hc

/-- A number does not run on into whitespace or a delimiter. -/
theorem Delimited.stops {w rest : Bytes} (h : Delimited rest) (hw : Blank w) :
    Stops isNumberChar (w ++ rest) := by
  cases w with
  | nil =>
      obtain ⟨c, r, rfl, rfl | rfl | rfl⟩ := h <;> rintro _ ⟨⟩ <;> decide
  | cons b w =>
      rintro _ ⟨⟩
      exact isNumberChar_of_blank (hw _ List.mem_cons_self)

/-! ### Strings -/

theorem StringText.starts {s out : Bytes} (h : StringText s out) : StartsValue s := by
  obtain ⟨-, -⟩ := h
  exact ⟨34, _, rfl, by decide, by decide, by decide, by decide⟩

/-- In a C string the parser of strings is sound. -/
theorem parseString_sound (item : CJson) :
    Sound (Terminated 0)
      (fun s r => ∃ out, StringText s out ∧ r = { item with valuestring := some out })
      (parseString item) := by
  intro pre rest hrest
  rcases parseString_cases item pre hrest.ne_nil with hfail | ⟨s, rest', out, rfl, hs, hok⟩
  · exact .inl hfail
  · refine .inr ⟨s, rest', _, rfl, ?_, ⟨out, hs, rfl⟩, hok⟩
    obtain ⟨hbody, -⟩ := hs
    rw [← List.cons_append, List.append_assoc, List.singleton_append] at hrest
    exact hrest.behind (by decide)

section Element

variable {L : Bytes → CJson → Prop} {value : CJson → Scanner UInt8 CJson}

theorem parseElement_reads (h : Reads L value) : ReadsElement (Padded L) (parseElement value) where
  blank := by
    rintro w _ v hw ⟨hw1, hs, hw2⟩
    rw [← List.append_assoc]
    exact ⟨hw.append hw1, hs, hw2⟩
  trim := by
    rintro _ v ⟨hw1, hs, hw2⟩
    refine ⟨_, _, rfl, hw1, ⟨blank_nil, hs, hw2⟩, ?_⟩
    obtain ⟨c, r, rfl, hc⟩ := h.starts hs
    exact ⟨c, _, rfl, hc⟩
  sound := by
    intro pre rest hrest
    obtain ⟨w, rest, rfl, hw, hrest, -, hskip⟩ := bufferSkipWhitespace_cases pre hrest
    rcases h.sound none (pre ++ w) rest hrest with hfail | ⟨s, rest, _, rfl, hrest, ⟨v, hs, rfl⟩, hok⟩
    · exact .inl (by rw [parseElement, hskip]; exact congrArg (· >>= _) hfail)
    · obtain ⟨w', rest, rfl, hw', hrest, -, hskip'⟩ :=
        bufferSkipWhitespace_cases (pre ++ w ++ s) hrest
      refine .inr ⟨w ++ (s ++ w'), rest, v, by simp, hrest, ⟨hw, hs, hw'⟩, ?_⟩
      rw [parseElement, hskip]
      refine Eq.trans (congrArg (· >>= _) hok) ?_
      rw [Checked.ok_bind, hskip', h.unnamed hs]
      simp
  complete := by
    rintro pre _ rest v ⟨hw, hs, hw'⟩ hrest
    rename_i w s w'
    have hblack : StartsBlack (s ++ (w' ++ rest)) := (h.starts hs).black.append _
    have hok := h.complete none (pre ++ w) s (w' ++ rest) _ ⟨v, hs, rfl⟩ (hrest.stops hw')
    rw [List.append_assoc, List.append_assoc, parseElement, bufferSkipWhitespace_blank hw hblack]
    refine Eq.trans (congrArg (· >>= _) hok) ?_
    rw [Checked.ok_bind, bufferSkipWhitespace_blank hw' hrest.black, h.unnamed hs]
    simp

theorem parseMember_reads (h : Reads L value) : ReadsElement (Member L) (parseMember value) where
  blank := by
    rintro w _ _ hw ⟨hw1, hk, hw2, hs⟩
    rw [← List.append_assoc]
    exact ⟨hw.append hw1, hk, hw2, hs⟩
  trim := by
    rintro _ _ ⟨hw1, hk, hw2, hs⟩
    refine ⟨_, _, rfl, hw1, ⟨blank_nil, hk, hw2, hs⟩, ?_⟩
    obtain ⟨c, r, rfl, hc⟩ := hk.starts
    exact ⟨c, _, rfl, hc⟩
  sound := by
    intro pre rest hrest
    obtain ⟨w, rest, rfl, hw, hrest, -, hskip⟩ := bufferSkipWhitespace_cases pre hrest
    rw [parseMember, hskip]
    rcases parseString_sound .empty (pre ++ w) rest hrest with
      hfail | ⟨k, rest, _, rfl, hrest, ⟨key, hk, rfl⟩, hok⟩
    · exact .inl (by rw [hfail]; rfl)
    obtain ⟨w', rest, rfl, hw', hrest, -, hskip'⟩ := bufferSkipWhitespace_cases (pre ++ w ++ k) hrest
    rw [hok, Checked.ok_bind]
    simp only [hskip', Cursor.peek_between]
    by_cases hcolon : rest[0]? = some 58
    · obtain ⟨rest, rfl⟩ : ∃ rest', rest = 58 :: rest' := by
        cases rest with
        | nil => cases hcolon
        | cons c rest => exact ⟨rest, by rw [Option.some.inj hcolon]⟩
      rw [if_neg (not_not.mpr hcolon), Cursor.advance_one_between]
      obtain ⟨w1, rest, rfl, hw1, hrest, -, hskip1⟩ :=
        bufferSkipWhitespace_cases (pre ++ w ++ k ++ w' ++ [58]) (hrest.tail (by decide))
      rw [hskip1]
      rcases h.sound (some key) (pre ++ w ++ k ++ w' ++ [58] ++ w1) rest hrest with
        hfail | ⟨s, rest, _, rfl, hrest, ⟨v, hs, rfl⟩, hok⟩
      · exact .inl (congrArg (· >>= _) hfail)
      obtain ⟨w2, rest, rfl, hw2, hrest, -, hskip2⟩ :=
        bufferSkipWhitespace_cases (pre ++ w ++ k ++ w' ++ [58] ++ w1 ++ s) hrest
      refine .inr ⟨w ++ (k ++ (w' ++ 58 :: (w1 ++ (s ++ w2)))), rest, v.named (some key), by simp,
        hrest, ⟨hw, hk, hw', ⟨hw1, hs, hw2⟩⟩, ?_⟩
      refine Eq.trans (congrArg (· >>= _) hok) ?_
      rw [Checked.ok_bind, hskip2]
      simp
    · exact .inl (if_pos hcolon)
  complete := by
    rintro pre _ rest _ ⟨hw, hk, hw', ⟨hw1, hs, hw2⟩⟩ hrest
    rename_i w k key w' v w1 s w2
    have hblack : StartsBlack (k ++ (w' ++ 58 :: (w1 ++ (s ++ (w2 ++ rest))))) :=
      hk.starts.black.append _
    have hcolon : StartsBlack (58 :: (w1 ++ (s ++ (w2 ++ rest)))) := ⟨58, _, rfl, by decide⟩
    have hvalue : StartsBlack (s ++ (w2 ++ rest)) := (h.starts hs).black.append _
    have htext : w ++ (k ++ (w' ++ 58 :: (w1 ++ (s ++ w2)))) ++ rest
        = w ++ (k ++ (w' ++ 58 :: (w1 ++ (s ++ (w2 ++ rest))))) := by simp
    rw [htext, parseMember, bufferSkipWhitespace_blank hw hblack, parseString_text hk,
      Checked.ok_bind]
    simp only [bufferSkipWhitespace_blank hw' hcolon, Cursor.peek_between,
      List.getElem?_cons_zero, ne_eq, not_true_eq_false, if_false, Cursor.advance_one_between,
      bufferSkipWhitespace_blank hw1 hvalue]
    have hok := h.complete (some key) (pre ++ w ++ k ++ w' ++ [58] ++ w1) s (w2 ++ rest) _ ⟨v, hs, rfl⟩
      (hrest.stops hw2)
    refine Eq.trans (congrArg (· >>= _) hok) ?_
    rw [Checked.ok_bind, bufferSkipWhitespace_blank hw2 hrest.black]
    simp

end Element

/-! ### Arrays and objects -/

section Container

variable {E : Bytes → CJson → Prop} {element : Scanner UInt8 CJson} {opening closing : UInt8}
  {pre rest : Bytes} {key : Option Bytes}

theorem sepBy_blank (h : ReadsElement E element) {w s : Bytes} {items : List CJson} (hw : Blank w)
    (hs : Cursor.SepBy 44 E s items) : Cursor.SepBy 44 E (w ++ s) items := by
  cases hs with
  | last hs => exact .last (h.blank hw hs)
  | more hs hrest =>
      rw [← List.append_assoc]
      exact .more (h.blank hw hs) hrest

theorem sepBy_trim (h : ReadsElement E element) {s : Bytes} {items : List CJson}
    (hs : Cursor.SepBy 44 E s items) :
    ∃ w s', s = w ++ s' ∧ Blank w ∧ Cursor.SepBy 44 E s' items ∧ StartsValue s' := by
  cases hs with
  | last hs =>
      obtain ⟨w, s', rfl, hw, hs', hstart⟩ := h.trim hs
      exact ⟨w, s', rfl, hw, .last hs', hstart⟩
  | more hs hrest =>
      obtain ⟨w, s', rfl, hw, hs', c, r, rfl, hc⟩ := h.trim hs
      rw [List.append_assoc]
      exact ⟨w, _, rfl, hw, .more hs' hrest, c, _, rfl, hc⟩

/-- The byte that the step back goes to. -/
theorem exists_last (pre : Bytes) (opening : UInt8) (w : Bytes) :
    ∃ front x, pre ++ [opening] ++ w = front ++ [x] := by
  rcases List.eq_nil_or_concat' (pre ++ [opening] ++ w) with hnil | hlast
  · simp at hnil
  · exact hlast

theorem parseContainer_sound (h : ReadsElement E element) (hclosing : closing ≠ 0)
    (hrest : Terminated 0 rest) :
    parseContainer closing element (CJson.empty.named key) (.between pre (opening :: rest)) = .fail ∨
      ∃ s rest' v, opening :: rest = s ++ rest' ∧ Terminated 0 rest' ∧
        Container opening closing E s v ∧
        parseContainer closing element (CJson.empty.named key) (.between pre (opening :: rest))
          = .ok (v.named key, .between (pre ++ s) rest') := by
  obtain ⟨w, rest, rfl, hw, hrest, -, hskip⟩ := bufferSkipWhitespace_cases (pre ++ [opening]) hrest
  simp only [parseContainer, Cursor.advance_one_between, hskip, Cursor.peek_between]
  by_cases hempty : rest[0]? = some closing
  · obtain ⟨rest, rfl⟩ : ∃ rest', rest = closing :: rest' := by
      cases rest with
      | nil => cases hempty
      | cons c rest => exact ⟨rest, by rw [Option.some.inj hempty]⟩
    refine .inr ⟨opening :: (w ++ [closing]), rest, .empty, by simp, hrest.tail hclosing,
      .empty hw, ?_⟩
    rw [if_pos hempty, Cursor.advance_one_between]
    simp [CJson.named, CJson.empty]
  · have haccess : (Cursor.between (pre ++ [opening] ++ w) rest).CanAccess 0 := by
      rw [Cursor.canAccess_between]
      exact List.length_pos_iff.mpr hrest.ne_nil
    rw [if_neg hempty, if_neg (not_not.mpr haccess)]
    obtain ⟨front, x, hfront⟩ := exists_last pre opening w
    rw [hfront, Cursor.back_one_between]
    have hfuel : rest.length < (Cursor.between (front ++ [x]) rest).content.length + 1 := by
      rw [Cursor.content_between, List.length_append]
      omega
    have hcomma : ∀ t, Terminated (0 : UInt8) (44 :: t) → Terminated 0 t :=
      fun t ht => ht.tail (by decide)
    rcases h.sound.sepBy hcomma hfuel hrest with
      hfail | ⟨s, rest, items, rfl, hrest, hs, -, hok⟩
    · exact .inl (by rw [hfail]; rfl)
    · rw [hok, Checked.ok_bind]
      simp only [Cursor.peek_between]
      by_cases hend : rest[0]? = some closing
      · obtain ⟨rest, rfl⟩ : ∃ rest', rest = closing :: rest' := by
          cases rest with
          | nil => cases hend
          | cons c rest => exact ⟨rest, by rw [Option.some.inj hend]⟩
        refine .inr ⟨opening :: (w ++ s ++ [closing]), rest, _, by simp, hrest.tail hclosing,
          .filled (sepBy_blank h hw hs), ?_⟩
        rw [if_pos hend, Cursor.advance_one_between]
        have htext : front ++ x :: s ++ [closing] = pre ++ opening :: (w ++ s ++ [closing]) := by
          have hsplit : front ++ x :: s = front ++ [x] ++ s := by simp
          rw [hsplit, ← hfront]
          simp
        rw [htext]
        rfl
      · exact .inl (if_neg hend)

theorem parseContainer_complete (h : ReadsElement E element) (hclosing : closing = 93 ∨ closing = 125)
    {s : Bytes} {v : CJson} (hs : Container opening closing E s v) :
    parseContainer closing element (CJson.empty.named key) (.between pre (s ++ rest)) =
      .ok (v.named key, .between (pre ++ s) rest) := by
  have hblack : StartsBlack (closing :: rest) := by
    rcases hclosing with rfl | rfl <;> exact ⟨_, rest, rfl, by decide⟩
  cases hs with
  | @empty w hw =>
      rw [List.cons_append, List.append_assoc, List.singleton_append]
      simp only [parseContainer, Cursor.advance_one_between, bufferSkipWhitespace_blank hw hblack,
        Cursor.peek_between, List.getElem?_cons_zero, if_pos]
      simp [CJson.named, CJson.empty]
  | @filled s items hs =>
      obtain ⟨w, s, rfl, hw, hs, hstart⟩ := sepBy_trim h hs
      have htext : opening :: (w ++ s ++ [closing]) ++ rest
          = opening :: (w ++ (s ++ closing :: rest)) := by simp
      have hhead : (s ++ closing :: rest)[0]? ≠ some closing := by
        obtain ⟨c, r, rfl, -, h93, h125, -⟩ := hstart
        intro heq
        rcases hclosing with rfl | rfl
        · exact h93 (Option.some.inj heq)
        · exact h125 (Option.some.inj heq)
      rw [htext]
      simp only [parseContainer, Cursor.advance_one_between,
        bufferSkipWhitespace_blank hw (hstart.black.append _), Cursor.peek_between]
      have haccess : (Cursor.between (pre ++ [opening] ++ w) (s ++ closing :: rest)).CanAccess 0 := by
        rw [Cursor.canAccess_between, List.length_append, List.length_cons]
        omega
      rw [if_neg hhead, if_neg (not_not.mpr haccess)]
      obtain ⟨front, x, hfront⟩ := exists_last pre opening w
      rw [hfront, Cursor.back_one_between]
      have hfuel : s.length < (Cursor.between (front ++ [x]) (s ++ closing :: rest)).content.length + 1 := by
        rw [Cursor.content_between, List.length_append, List.length_append, List.length_append]
        omega
      have hdelim : Delimited (closing :: rest) := ⟨closing, rest, rfl, .inr hclosing⟩
      have hcomma : (closing :: rest).head? ≠ some 44 := by
        rcases hclosing with rfl | rfl <;> rintro ⟨⟩
      rw [h.complete.sepBy (fun t => ⟨44, t, rfl, .inl rfl⟩) hs hdelim hcomma hfuel, Checked.ok_bind]
      simp only [Cursor.peek_between, List.getElem?_cons_zero, if_pos, Cursor.advance_one_between]
      have hsplit : front ++ x :: s ++ [closing] = pre ++ opening :: (w ++ s ++ [closing]) := by
        have hone : front ++ x :: s = front ++ [x] ++ s := by simp
        rw [hone, ← hfront]
        simp
      rw [hsplit]
      rfl

end Container

/-- A branch of `parse_value` that is taken on the byte `c`. -/
structure ReadsFrom (c : UInt8) (L : Bytes → CJson → Prop) (branch : CJson → Scanner UInt8 CJson) :
    Prop where
  unnamed : ∀ {s v}, L s v → v.named none = v
  starts : ∀ {s v}, L s v → ∃ r, s = c :: r
  sound : ∀ key pre rest, Terminated 0 rest →
    branch (CJson.empty.named key) (.between pre (c :: rest)) = .fail ∨
      ∃ s rest' v, c :: rest = s ++ rest' ∧ Terminated 0 rest' ∧ L s v ∧
        branch (CJson.empty.named key) (.between pre (c :: rest))
          = .ok (v.named key, .between (pre ++ s) rest')
  complete : ∀ key pre rest {s v}, L s v →
    branch (CJson.empty.named key) (.between pre (s ++ rest)) =
      .ok (v.named key, .between (pre ++ s) rest)

section Branch

variable {L E : Bytes → CJson → Prop} {value : CJson → Scanner UInt8 CJson} {opening closing : UInt8}

theorem Container.unnamed {s : Bytes} {v : CJson} (h : Container opening closing E s v) :
    v.named none = v := by
  cases h with
  | empty => rfl
  | filled => rfl

theorem Container.starts {s : Bytes} {v : CJson} (h : Container opening closing E s v) :
    ∃ r, s = opening :: r := by
  cases h with
  | empty => exact ⟨_, rfl⟩
  | filled => exact ⟨_, rfl⟩

theorem parseArray_none : ReadsFrom 91 (fun _ _ => False) (parseArray none) where
  unnamed h := h.elim
  starts h := h.elim
  sound _ _ _ _ := .inl rfl
  complete _ _ _ _ _ h := h.elim

theorem parseObject_none : ReadsFrom 123 (fun _ _ => False) (parseObject none) where
  unnamed h := h.elim
  starts h := h.elim
  sound _ _ _ _ := .inl rfl
  complete _ _ _ _ _ h := h.elim

theorem parseArray_at (item : CJson) (pre rest : Bytes) :
    parseArray (some value) item (.between pre (91 :: rest)) =
      parseContainer 93 (parseElement value) item (.between pre (91 :: rest)) := by
  simp only [parseArray, Cursor.peek_between, List.getElem?_cons_zero, ne_eq, not_true_eq_false,
    if_false]

theorem parseObject_at (item : CJson) (pre rest : Bytes) :
    parseObject (some value) item (.between pre (123 :: rest)) =
      parseContainer 125 (parseMember value) item (.between pre (123 :: rest)) := by
  simp only [parseObject, Cursor.peek_between, List.getElem?_cons_zero, ne_eq, not_true_eq_false,
    if_false]

theorem parseArray_some (h : Reads L value) :
    ReadsFrom 91 (Container 91 93 (Padded L)) (parseArray (some value)) where
  unnamed := Container.unnamed
  starts := Container.starts
  sound key pre rest hrest := by
    rw [parseArray_at]
    exact parseContainer_sound (parseElement_reads h) (by decide) hrest
  complete key pre rest s v hs := by
    obtain ⟨r, rfl⟩ := hs.starts
    rw [List.cons_append, parseArray_at]
    exact parseContainer_complete (parseElement_reads h) (.inl rfl) hs

theorem parseObject_some (h : Reads L value) :
    ReadsFrom 123 (Container 123 125 (Member L)) (parseObject (some value)) where
  unnamed := Container.unnamed
  starts := Container.starts
  sound key pre rest hrest := by
    rw [parseObject_at]
    exact parseContainer_sound (parseMember_reads h) (by decide) hrest
  complete key pre rest s v hs := by
    obtain ⟨r, rfl⟩ := hs.starts
    rw [List.cons_append, parseObject_at]
    exact parseContainer_complete (parseMember_reads h) (.inr rfl) hs

end Branch

/-! ### Values -/

theorem startsWith_between {pre rest text : Bytes} :
    startsWith (.between pre rest) text = true ↔ ∃ t, rest = text ++ t := by
  rw [startsWith, Cursor.rest_between, List.isPrefixOf_iff_prefix]
  constructor
  · rintro ⟨t, rfl⟩
    exact ⟨t, rfl⟩
  · rintro ⟨t, rfl⟩
    exact ⟨t, rfl⟩

theorem startsWith_other {pre rest text : Bytes} {c d : UInt8} (h : d ≠ c) :
    startsWith (.between pre (c :: rest)) (d :: text) = false := by
  rw [startsWith, Cursor.rest_between, List.isPrefixOf_cons_cons, beq_false_of_ne h, Bool.false_and]

section Value

variable {deeper : Option (CJson → Scanner UInt8 CJson)} {A O : Bytes → CJson → Prop}
  {item : CJson} {pre rest : Bytes} {c : UInt8}

/-- None of the three words begins with this byte. -/
theorem parseValueWith_at (hn : c ≠ 110) (hf : c ≠ 102) (ht : c ≠ 116) :
    parseValueWith deeper item (.between pre (c :: rest)) =
      if c = 34 then parseString item (.between pre (c :: rest))
      else if c = 45 ∨ isDigit c = true then parseNumber item (.between pre (c :: rest))
      else if c = 91 then parseArray deeper item (.between pre (c :: rest))
      else if c = 123 then parseObject deeper item (.between pre (c :: rest))
      else .fail := by
  simp only [parseValueWith, textNull, textFalse, textTrue, startsWith_other hn.symm,
    startsWith_other hf.symm, startsWith_other ht.symm, Cursor.peek_between,
    List.getElem?_cons_zero, Option.some.injEq, Option.any_some, Bool.false_eq_true, if_false]

theorem parseValueWith_null :
    parseValueWith deeper item (.between pre (textNull ++ rest)) =
      .ok (item, .between (pre ++ textNull) rest) := by
  have hlen : textNull.length = 4 := rfl
  rw [parseValueWith, if_pos (startsWith_between.mpr ⟨rest, rfl⟩), Cursor.advance_between hlen]

theorem parseValueWith_false :
    parseValueWith deeper item (.between pre (textFalse ++ rest)) =
      .ok (item, .between (pre ++ textFalse) rest) := by
  have hnull : startsWith (.between pre (textFalse ++ rest)) textNull = false :=
    startsWith_other (by decide)
  have hlen : textFalse.length = 5 := rfl
  rw [parseValueWith, hnull, if_neg (by decide), if_pos (startsWith_between.mpr ⟨rest, rfl⟩),
    Cursor.advance_between hlen]

theorem parseValueWith_true :
    parseValueWith deeper item (.between pre (textTrue ++ rest)) =
      .ok ({ item with valueint := 1 }, .between (pre ++ textTrue) rest) := by
  have hnull : startsWith (.between pre (textTrue ++ rest)) textNull = false :=
    startsWith_other (by decide)
  have hfalse : startsWith (.between pre (textTrue ++ rest)) textFalse = false :=
    startsWith_other (by decide)
  have hlen : textTrue.length = 4 := rfl
  rw [parseValueWith, hnull, hfalse, if_neg (by decide), if_neg (by decide),
    if_pos (startsWith_between.mpr ⟨rest, rfl⟩), Cursor.advance_between hlen]

theorem startsValue_of_number (h : c = 45 ∨ isDigit c = true) :
    32 < c ∧ c ≠ 93 ∧ c ≠ 125 ∧ c ≠ 0xEF ∧ c ≠ 110 ∧ c ≠ 102 ∧ c ≠ 116 ∧ c ≠ 34 := by
  rcases h with rfl | h
  · decide
  · have hlow : 48 ≤ c := (of_decide_eq_true h).1
    have hblack : (32 : UInt8) < c := by
      rw [UInt8.le_iff_toNat_le] at hlow
      rw [UInt8.lt_iff_toNat_lt]
      exact Nat.lt_of_lt_of_le (by decide) hlow
    refine ⟨hblack, ?_, ?_, ?_, ?_, ?_, ?_, ?_⟩ <;> rintro rfl <;> exact absurd h (by decide)

theorem Scalar.starts {s : Bytes} {v : CJson} (h : Scalar s v) : StartsValue s := by
  cases h with
  | null | false | true => exact ⟨_, _, rfl, by decide, by decide, by decide, by decide⟩
  | string hs => exact hs.starts
  | number d _ hstart =>
      obtain ⟨c, r, htext, hc⟩ := hstart
      obtain ⟨hblack, h93, h125, hmark, -⟩ := startsValue_of_number hc
      exact ⟨c, r, htext, hblack, h93, h125, hmark⟩

theorem Scalar.unnamed {s : Bytes} {v : CJson} (h : Scalar s v) : v.named none = v := by
  cases h <;> rfl

/-- **parse_value** reads the scalars and what its two branches read. -/
theorem parseValueWith_reads (hA : ReadsFrom 91 A (parseArray deeper))
    (hO : ReadsFrom 123 O (parseObject deeper)) :
    Reads (fun s v => Scalar s v ∨ A s v ∨ O s v) (parseValueWith deeper) where
  unnamed := by
    rintro s v (h | h | h)
    · exact h.unnamed
    · exact hA.unnamed h
    · exact hO.unnamed h
  starts := by
    rintro s v (h | h | h)
    · exact h.starts
    · obtain ⟨r, rfl⟩ := hA.starts h
      exact ⟨91, r, rfl, by decide, by decide, by decide, by decide⟩
    · obtain ⟨r, rfl⟩ := hO.starts h
      exact ⟨123, r, rfl, by decide, by decide, by decide, by decide⟩
  sound := by
    intro key pre rest hrest
    by_cases hnull : startsWith (.between pre rest) textNull = true
    · obtain ⟨rest, rfl⟩ := startsWith_between.mp hnull
      exact .inr ⟨textNull, rest, _, rfl, hrest.drop (by decide), ⟨_, .inl .null, rfl⟩,
        parseValueWith_null⟩
    by_cases hfalse : startsWith (.between pre rest) textFalse = true
    · obtain ⟨rest, rfl⟩ := startsWith_between.mp hfalse
      exact .inr ⟨textFalse, rest, _, rfl, hrest.drop (by decide), ⟨_, .inl .false, rfl⟩,
        parseValueWith_false⟩
    by_cases htrue : startsWith (.between pre rest) textTrue = true
    · obtain ⟨rest, rfl⟩ := startsWith_between.mp htrue
      exact .inr ⟨textTrue, rest, _, rfl, hrest.drop (by decide), ⟨_, .inl .true, rfl⟩,
        parseValueWith_true⟩
    cases rest with
    | nil => exact absurd rfl hrest.ne_nil
    | cons c rest =>
        simp only [parseValueWith, hnull, hfalse, htrue, if_false, Bool.false_eq_true,
          Cursor.peek_between, List.getElem?_cons_zero, Option.some.injEq, Option.any_some]
        by_cases hquote : c = 34
        · rw [if_pos hquote]
          rcases parseString_sound (CJson.empty.named key) pre (c :: rest) hrest with
            hfail | ⟨s, rest', _, htext, hrest', ⟨out, hs, rfl⟩, hok⟩
          · exact .inl hfail
          · exact .inr ⟨s, rest', _, htext, hrest', ⟨_, .inl (.string hs), rfl⟩, hok⟩
        rw [if_neg hquote]
        by_cases hnumber : c = 45 ∨ isDigit c = true
        · rw [if_pos hnumber]
          rcases parseNumber_cases (CJson.empty.named key) pre (c :: rest) with
            hfail | ⟨d, rest', htext, hlen, hok⟩
          · exact .inl hfail
          · have hstart : StartsNumber d.text := by
              cases htake : d.text with
              | nil => exact absurd htake d.text_ne_nil
              | cons b r =>
                  rw [htake, List.cons_append] at htext
                  exact ⟨b, r, rfl, List.head_eq_of_cons_eq htext ▸ hnumber⟩
            have hzero : (0 : UInt8) ∉ d.text := fun hmem =>
              absurd (d.isNumberChar_text 0 hmem) (by decide)
            rw [htext] at hrest
            exact .inr ⟨d.text, rest', _, htext, hrest.drop hzero,
              ⟨_, .inl (.number d hlen hstart), rfl⟩, hok⟩
        rw [if_neg hnumber]
        by_cases harray : c = 91
        · subst harray
          rw [if_pos rfl]
          rcases hA.sound key pre rest (hrest.tail (by decide)) with
            hfail | ⟨s, rest', v, htext, hrest', hs, hok⟩
          · exact .inl hfail
          · exact .inr ⟨s, rest', _, htext, hrest', ⟨v, .inr (.inl hs), rfl⟩, hok⟩
        rw [if_neg harray]
        by_cases hobject : c = 123
        · subst hobject
          rw [if_pos rfl]
          rcases hO.sound key pre rest (hrest.tail (by decide)) with
            hfail | ⟨s, rest', v, htext, hrest', hs, hok⟩
          · exact .inl hfail
          · exact .inr ⟨s, rest', _, htext, hrest', ⟨v, .inr (.inr hs), rfl⟩, hok⟩
        · exact .inl (if_neg hobject)
  complete := by
    rintro key pre s rest _ ⟨v, h | h | h, rfl⟩ hrest
    · cases h with
      | null => exact parseValueWith_null
      | false => exact parseValueWith_false
      | true => exact parseValueWith_true
      | string hs =>
          obtain ⟨hbody, hout⟩ := hs
          rw [List.cons_append, parseValueWith_at (by decide) (by decide) (by decide), if_pos rfl,
            ← List.cons_append]
          exact parseString_text ⟨hbody, hout⟩
      | number d hlen hstart =>
          obtain ⟨c, r, htext, hc⟩ := hstart
          obtain ⟨-, -, -, -, hn, hf, ht, hq⟩ := startsValue_of_number hc
          have hok := @parseNumber_text (CJson.empty.named key) pre rest d hlen hrest
          rw [htext, List.cons_append] at hok ⊢
          rw [parseValueWith_at hn hf ht, if_neg hq, if_pos hc, hok]
          rfl
    · obtain ⟨r, rfl⟩ := hA.starts h
      rw [List.cons_append, parseValueWith_at (by decide) (by decide) (by decide),
        if_neg (by decide), if_neg (by decide), if_pos rfl, ← List.cons_append]
      exact hA.complete key pre rest h
    · obtain ⟨r, rfl⟩ := hO.starts h
      rw [List.cons_append, parseValueWith_at (by decide) (by decide) (by decide),
        if_neg (by decide), if_neg (by decide), if_neg (by decide), if_pos rfl, ← List.cons_append]
      exact hO.complete key pre rest h

end Value

/-- **The texts of values**, level by level. -/
theorem parseValue_reads (levels : Nat) : Reads (ValueText levels) (parseValue levels) := by
  induction levels with
  | zero =>
      have h := parseValueWith_reads parseArray_none parseObject_none
      have hlang : (fun s v => Scalar s v ∨ False ∨ False) = ValueText 0 := by
        funext s v
        simp [ValueText]
      rwa [hlang] at h
  | succ levels ih => exact parseValueWith_reads (parseArray_some ih) (parseObject_some ih)

end Icehydra
