import Mathlib.Data.List.Infix

/-!
# PrefixCode — words that end by themselves

An encoding whose words a reader can tell apart on a stream: no word is empty,
and streams that begin alike begin with the same word. What such a reader has
found is a prefix of what was put on the stream, and an unfinished word at the
end of the stream changes nothing about it.
-/

structure PrefixCode {α β : Type} (enc : α → List β) : Prop where
  ne_nil : ∀ a, enc a ≠ []
  inj : ∀ {a b x y}, enc a ++ x = enc b ++ y → a = b ∧ x = y

namespace PrefixCode

variable {α β : Type} {enc : α → List β}

theorem injective (h : PrefixCode enc) {a b : α} (heq : enc a = enc b) : a = b := by
  have hnil : enc a ++ [] = enc b ++ [] := by rw [heq]
  exact (h.inj hnil).1

/-- No word comes to its end in this piece. -/
def Unfinished (enc : α → List β) (p : List β) : Prop := ∀ a, ¬ enc a <+: p

theorem unfinished_nil (h : PrefixCode enc) : Unfinished enc [] := by
  intro a ha
  exact h.ne_nil a (List.prefix_nil.mp ha)

/-- A word that is broken off. -/
theorem unfinished_of_prefix (h : PrefixCode enc) {a : α} {p : List β} (hp : p <+: enc a)
    (hne : p ≠ enc a) : Unfinished enc p := by
  intro b hb
  obtain ⟨x, rfl⟩ := hb
  obtain ⟨y, hy⟩ := hp
  -- the word inside is the word itself, so nothing is missing behind it
  rw [List.append_assoc] at hy
  obtain ⟨rfl, hxy⟩ := h.inj (hy.trans (List.append_nil _).symm)
  obtain ⟨rfl, rfl⟩ := List.append_eq_nil_iff.mp hxy
  exact hne (List.append_nil _)

/-- **What a reader finds**: a row of words at the front of a stream is a row of
the words at the front of what made the stream. -/
theorem prefix_of_flatMap (h : PrefixCode enc) {p : List β} (hp : Unfinished enc p) {ms ns : List α}
    (hle : ms.flatMap enc <+: ns.flatMap enc ++ p) : ms <+: ns := by
  induction ms generalizing ns with
  | nil => exact List.nil_prefix
  | cons m ms ih =>
      obtain ⟨x, hx⟩ := hle
      rw [List.flatMap_cons, List.append_assoc] at hx
      cases ns with
      | nil => exact absurd ⟨_, hx⟩ (hp m)
      | cons n ns =>
          rw [List.flatMap_cons, List.append_assoc] at hx
          obtain ⟨rfl, hrest⟩ := h.inj hx
          exact List.cons_prefix_cons.mpr ⟨rfl, ih ⟨x, hrest⟩⟩

/-- The words of a stream are its only ones. -/
theorem eq_of_flatMap (h : PrefixCode enc) {p q : List β} (hp : Unfinished enc p)
    (hq : Unfinished enc q) {ms ns : List α} (heq : ms.flatMap enc ++ p = ns.flatMap enc ++ q) :
    ms = ns := by
  have hle : ms <+: ns := h.prefix_of_flatMap hq (heq ▸ List.prefix_append _ p)
  have hge : ns <+: ms := h.prefix_of_flatMap hp (heq ▸ List.prefix_append _ q)
  exact hle.eq_of_length_le hge.length_le

end PrefixCode
