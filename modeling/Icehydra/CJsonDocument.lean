import Icehydra.CJsonParse

/-!
# CJsonDocument — the texts that cJSON_ParseWithOpts accepts

The parser on a whole C string, and `get_node_start` with this parser instead of
any other: what it makes of a file is what it makes of the values that the file
writes one after another.
-/

namespace Icehydra

open Cursor (Stops Terminated)

/-- A byte order mark or none, whitespace, and a value. -/
inductive ValueFront : Bytes → CJson → Prop where
  | mk {bom w s v} : bom = [] ∨ bom = utf8Bom → Blank w → ValueText nestingLimit s v →
      ValueFront (bom ++ (w ++ s)) v

section Parse

variable {value front rest : Bytes} {item : CJson} {stop : Nat}

theorem zero_notMem_cString (value : Bytes) : 0 ∉ cString value := by
  intro h
  have hne := List.mem_takeWhile_imp h
  simp at hne

theorem cString_of_notMem (h : 0 ∉ value) : cString value = value := by
  refine List.takeWhile_eq_self_iff.mpr fun c hc => ?_
  exact decide_eq_true fun hzero => h (hzero ▸ hc)

theorem skipUtf8Bom_cases (h : Terminated 0 value) :
    ∃ bom rest, value = bom ++ rest ∧ (bom = [] ∨ bom = utf8Bom) ∧ Terminated 0 rest ∧
      skipUtf8Bom ⟨value, 0⟩ = .between bom rest := by
  by_cases hbom : Cursor.CanAccess ⟨value, 0⟩ 4 ∧ startsWith ⟨value, 0⟩ utf8Bom = true
  · obtain ⟨t, rfl⟩ := (@startsWith_between [] value utf8Bom).mp hbom.2
    refine ⟨utf8Bom, t, rfl, .inr rfl, h.drop (by decide), ?_⟩
    rw [skipUtf8Bom, if_pos hbom]
    exact @Cursor.advance_between _ [] utf8Bom t 3 rfl
  · refine ⟨[], value, rfl, .inl rfl, h, ?_⟩
    rw [skipUtf8Bom, if_neg hbom]
    rfl

/-- Whitespace with a value behind it is not taken for the mark. -/
theorem skipUtf8Bom_none {w s : Bytes} (hw : Blank w) (hs : StartsValue s) :
    skipUtf8Bom ⟨w ++ (s ++ rest), 0⟩ = .between [] (w ++ (s ++ rest)) := by
  have hstart : ¬ startsWith (.between [] (w ++ (s ++ rest))) utf8Bom = true := by
    rw [startsWith_between]
    rintro ⟨t, ht⟩
    cases w with
    | nil =>
        obtain ⟨c, r, rfl, -, -, -, hmark⟩ := hs
        exact hmark (List.head_eq_of_cons_eq ht)
    | cons b w =>
        have hb : b = 0xEF := List.head_eq_of_cons_eq ht
        exact absurd (hw b List.mem_cons_self) (by rw [hb]; decide)
  rw [skipUtf8Bom, if_neg (fun h => hstart h.2)]
  rfl

theorem skipUtf8Bom_mark {s : Bytes} (hs : 2 ≤ s.length) :
    skipUtf8Bom ⟨utf8Bom ++ s, 0⟩ = .between utf8Bom s := by
  have haccess : Cursor.CanAccess ⟨utf8Bom ++ s, 0⟩ 4 := by
    show 0 + 4 < (utf8Bom ++ s).length
    rw [List.length_append, show utf8Bom.length = 3 from rfl]
    omega
  have hstart : startsWith (.between [] (utf8Bom ++ s)) utf8Bom = true :=
    startsWith_between.mpr ⟨s, rfl⟩
  rw [skipUtf8Bom, if_pos ⟨haccess, hstart⟩]
  exact @Cursor.advance_between _ [] utf8Bom s 3 rfl

/-! ## One value -/

/-- On a C string: the value in front, and the place behind it. -/
theorem parseValue_cases (value : Bytes) (h : Terminated 0 value) :
    parseValue nestingLimit .empty (bufferSkipWhitespace (skipUtf8Bom ⟨value, 0⟩)) = .fail ∨
      ∃ front rest item, value = front ++ rest ∧ Terminated 0 rest ∧ ValueFront front item ∧
        parseValue nestingLimit .empty (bufferSkipWhitespace (skipUtf8Bom ⟨value, 0⟩))
          = .ok (item, .between front rest) := by
  obtain ⟨bom, rest, rfl, hbom, hrest, hmark⟩ := skipUtf8Bom_cases h
  obtain ⟨w, rest, rfl, hw, hrest, -, hskip⟩ := bufferSkipWhitespace_cases bom hrest
  rw [hmark, hskip]
  have hreads := parseValue_reads nestingLimit
  rcases hreads.sound none (bom ++ w) rest hrest with
    hfail | ⟨s, rest, _, rfl, hrest, ⟨v, hs, rfl⟩, hok⟩
  · exact .inl hfail
  · refine .inr ⟨bom ++ (w ++ s), rest, v, by simp, hrest, ⟨hbom, hw, hs⟩, ?_⟩
    refine hok.trans ?_
    rw [hreads.unnamed hs]
    simp

/-- A value is taken off whole, if no number runs on behind it. -/
theorem parseValue_front (hfront : ValueFront front item) (hstop : Stops isNumberChar rest)
    (hrest : rest ≠ []) :
    parseValue nestingLimit .empty (bufferSkipWhitespace (skipUtf8Bom ⟨front ++ rest, 0⟩))
      = .ok (item, .between front rest) := by
  obtain ⟨hbom, hw, hs⟩ := hfront
  rename_i bom w s
  have hreads := parseValue_reads nestingLimit
  have hstart := hreads.starts hs
  have hmark : skipUtf8Bom ⟨bom ++ (w ++ s) ++ rest, 0⟩ = .between bom (w ++ (s ++ rest)) := by
    rw [List.append_assoc, List.append_assoc]
    rcases hbom with rfl | rfl
    · rw [List.nil_append]
      exact skipUtf8Bom_none hw hstart
    · apply skipUtf8Bom_mark
      have hlen : 0 < rest.length := List.length_pos_iff.mpr hrest
      obtain ⟨c, r, rfl, -⟩ := hstart
      rw [List.length_append, List.length_append, List.length_cons]
      omega
  rw [hmark, bufferSkipWhitespace_blank hw (hstart.black.append _)]
  refine (hreads.complete none (bom ++ w) s rest _ ⟨item, hs, rfl⟩ hstop).trans ?_
  rw [hreads.unnamed hs]
  simp

theorem terminated_cString (value : Bytes) : Terminated 0 (cString value ++ [0]) :=
  ⟨cString value, rfl, zero_notMem_cString value⟩

theorem cJSONParseWithOpts_eq (requireNullTerminated : Bool) :
    cJSONParseWithOpts value requireNullTerminated =
      (parseValue nestingLimit .empty
          (bufferSkipWhitespace (skipUtf8Bom ⟨cString value ++ [0], 0⟩)) >>= fun r =>
        if requireNullTerminated then
          let b := bufferSkipWhitespace r.2
          if ¬ b.CanAccess 0 ∨ b.peek 0 ≠ some 0 then .fail else .ok (r.1, b.offset)
        else .ok (r.1, r.2.offset)) := by
  have hne : cString value ++ [0] ≠ [] := List.append_ne_nil_of_right_ne_nil _ (List.cons_ne_nil _ _)
  rw [cJSONParseWithOpts, cJSONParseWithLengthOpts, if_neg hne]

/-- **The parser is safe on C strings**: no byte behind the zero is read, no
string outgrows what was allocated for it, and every loop ends. -/
theorem cJSONParseWithOpts_proper (value : Bytes) (requireNullTerminated : Bool) :
    (cJSONParseWithOpts value requireNullTerminated).Proper := by
  rw [cJSONParseWithOpts_eq]
  rcases parseValue_cases _ (terminated_cString value) with hfail | ⟨front, rest, item, -, -, -, hok⟩
  · rw [hfail]
    exact .inl rfl
  · rw [hok, Checked.ok_bind]
    cases requireNullTerminated with
    | false => exact .inr ⟨_, rfl⟩
    | true =>
        simp only [if_true]
        split
        · exact .inl rfl
        · exact .inr ⟨_, rfl⟩

/-- Without the zero there is no such promise: `{"":1,` -/
example : cJSONParseWithLengthOpts [123, 34, 34, 58, 49, 44] false = .outside := rfl

/-- **What cJSON_ParseWithOpts accepts** when it asks for the end of the string:
a value, with whitespace and a byte order mark around it, and no others. -/
theorem cJSONParseWithOpts_document_iff (value : Bytes) (item : CJson) :
    (∃ stop, cJSONParseWithOpts value true = .ok (item, stop)) ↔
      ∃ front w, cString value = front ++ w ∧ ValueFront front item ∧ Blank w := by
  rw [cJSONParseWithOpts_eq]
  constructor
  · rintro ⟨stop, h⟩
    rcases parseValue_cases _ (terminated_cString value) with
      hfail | ⟨front, rest, item', htext, hrest, hfront, hok⟩
    · rw [hfail] at h
      cases h
    · obtain ⟨w, rest, rfl, hw, hrest, hblack, hskip⟩ := bufferSkipWhitespace_cases front hrest
      rw [hok, Checked.ok_bind] at h
      simp only [if_true, hskip] at h
      split at h
      · cases h
      · rename_i hend
        cases h
        rcases hblack with ⟨c, r, rfl, hc⟩ | rfl
        · rw [not_or, not_not, not_not, Cursor.peek_between, List.getElem?_cons_zero,
            Option.some.injEq] at hend
          rw [hend.2] at hc
          exact absurd hc (by decide)
        · rw [← List.append_assoc] at htext
          exact ⟨front, w, List.append_cancel_right htext, hfront, hw⟩
  · rintro ⟨front, w, htext, hfront, hw⟩
    have hstop : Stops isNumberChar (w ++ [0]) := by
      cases w with
      | nil =>
          rintro _ ⟨⟩
          decide
      | cons c w =>
          rintro _ ⟨⟩
          exact isNumberChar_of_blank (hw _ List.mem_cons_self)
    refine ⟨(front ++ w).length, ?_⟩
    rw [htext, List.append_assoc, parseValue_front hfront hstop
      (List.append_ne_nil_of_right_ne_nil _ (List.cons_ne_nil _ _)), Checked.ok_bind]
    simp only [if_true, bufferSkipWhitespace_end hw]
    rw [if_neg]
    · rfl
    · simp

end Parse

/-! ## One value after another -/

theorem ValueFront.pos {front : Bytes} {v : CJson} (h : ValueFront front v) : 0 < front.length := by
  obtain ⟨-, -, hs⟩ := h
  obtain ⟨c, r, rfl, -⟩ := (parseValue_reads nestingLimit).starts hs
  rw [List.length_append, List.length_append, List.length_cons]
  omega

section File

variable {text : Bytes} {values : List CJson}

end File

end Icehydra
