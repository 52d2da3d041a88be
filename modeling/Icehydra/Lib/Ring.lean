import Mathlib.Data.List.Basic
import Mathlib.Data.List.Nodup
import Mathlib.Logic.Function.Basic

/-!
# Ring — intrusive doubly linked rings

Every cell of a memory has two links, which may be null. A `Ring` is a head
and the cells that hang on it, forwards and backwards, each of them once.
-/

/-- The links of all cells. -/
structure Links (A : Type) where
  next : A → Option A
  prev : A → Option A

namespace Links

variable {A : Type}

section Store

variable [DecidableEq A]

def setNext (m : Links A) (a : A) (b : Option A) : Links A :=
  { m with next := Function.update m.next a b }

def setPrev (m : Links A) (a : A) (b : Option A) : Links A :=
  { m with prev := Function.update m.prev a b }

/-- Alone in a ring. -/
def single (m : Links A) (h : A) : Links A := (m.setNext h (some h)).setPrev h (some h)

/-- Between `p` and `q`, in four stores. -/
def insert (m : Links A) (x p q : A) : Links A :=
  (((m.setPrev q (some x)).setNext x (some q)).setPrev x (some p)).setNext p (some x)

variable (m : Links A) (x p q a : A)

@[simp] theorem single_next : (m.single x).next a = if a = x then some x else m.next a :=
  Function.update_apply ..

@[simp] theorem single_prev : (m.single x).prev a = if a = x then some x else m.prev a :=
  Function.update_apply ..

@[simp] theorem insert_next :
    (m.insert x p q).next a = if a = p then some x else if a = x then some q else m.next a := by
  simp [insert, setNext, setPrev, Function.update_apply]

@[simp] theorem insert_prev :
    (m.insert x p q).prev a = if a = x then some p else if a = q then some x else m.prev a := by
  simp [insert, setNext, setPrev, Function.update_apply]

end Store

/-! ## Paths -/

/-- From `a` through the cells of the list to `b`, and back. -/
def Path (m : Links A) : A → List A → A → Prop
  | a, [], b => m.next a = some b ∧ m.prev b = some a
  | a, c :: l, b => m.next a = some c ∧ m.prev c = some a ∧ Path m c l b

variable {m m' : Links A} {a b c h x : A} {l l' : List A}

theorem path_append : Path m a (l ++ c :: l') b ↔ Path m a l c ∧ Path m c l' b := by
  induction l generalizing a with
  | nil => simp [Path, and_assoc]
  | cons d l ih => simp [Path, ih, and_assoc]

/-- A path depends on the links along it only. -/
theorem Path.congr (hp : Path m a l b) (hnext : ∀ d ∈ a :: l, m'.next d = m.next d)
    (hprev : ∀ d ∈ l ++ [b], m'.prev d = m.prev d) : Path m' a l b := by
  induction l generalizing a with
  | nil => exact ⟨(hnext a List.mem_cons_self).trans hp.1, (hprev b List.mem_cons_self).trans hp.2⟩
  | cons c l ih =>
      obtain ⟨h1, h2, hp⟩ := hp
      refine ⟨(hnext a List.mem_cons_self).trans h1, (hprev c List.mem_cons_self).trans h2, ?_⟩
      exact ih hp (fun d hd => hnext d (List.mem_cons_of_mem _ hd))
        fun d hd => hprev d (List.mem_cons_of_mem _ hd)

/-! ## Rings -/

/-- The cells that hang on `h`, in this order. -/
structure Ring (m : Links A) (h : A) (l : List A) : Prop where
  path : Path m h l h
  nodup : (h :: l).Nodup

/-- The cell in front of the head is the last one. -/
theorem Ring.exists_last (hr : Ring m h l) :
    ∃ front p, h :: l = front ++ [p] ∧ m.prev h = some p := by
  rcases List.eq_nil_or_concat' l with rfl | ⟨front, p, rfl⟩
  · exact ⟨[], h, rfl, hr.path.2⟩
  · exact ⟨h :: front, p, rfl, (path_append.mp hr.path).2.2⟩

/-- A ring depends on the links of its own cells only. -/
theorem Ring.congr (hr : Ring m h l) (hnext : ∀ d ∈ h :: l, m'.next d = m.next d)
    (hprev : ∀ d ∈ h :: l, m'.prev d = m.prev d) : Ring m' h l := by
  refine ⟨hr.path.congr hnext fun d hd => hprev d ?_, hr.nodup⟩
  rcases List.mem_append.mp hd with hd | hd
  · exact List.mem_cons_of_mem _ hd
  · rw [List.mem_singleton.mp hd]
    exact List.mem_cons_self

variable [DecidableEq A]

theorem Ring.single (m : Links A) (h : A) : Ring (m.single h) h [] where
  path := by simp [Path]
  nodup := List.nodup_singleton h

/-- **A cell at the end**, which was in no ring before. -/
theorem Ring.insert_tail {p : A} (hr : Ring m h l) (hx : x ∉ h :: l) (hp : m.prev h = some p) :
    Ring (m.insert x p h) h (l ++ [x]) := by
  have hxh : h ≠ x := fun heq => hx (heq ▸ List.mem_cons_self)
  have hxp : x ≠ p := by
    obtain ⟨front, p', hfront, hp'⟩ := hr.exists_last
    obtain rfl : p = p' := Option.some.inj (hp.symm.trans hp')
    rintro rfl
    exact hx (hfront ▸ List.mem_append_right _ (List.mem_singleton_self _))
  have hnodup : (h :: (l ++ [x])).Nodup := by
    rw [← List.cons_append, List.nodup_append]
    refine ⟨hr.nodup, List.nodup_singleton x, fun d hd e he => ?_⟩
    rw [List.mem_singleton.mp he]
    rintro rfl
    exact hx hd
  refine ⟨path_append.mpr ⟨?_, by simp [hxp], by simp [hxh]⟩, hnodup⟩
  rcases List.eq_nil_or_concat' l with rfl | ⟨front, c, rfl⟩
  · obtain rfl : h = p := Option.some.inj (hr.path.2.symm.trans hp)
    simp [Path]
  · obtain ⟨hfront, hlast⟩ := path_append.mp hr.path
    obtain rfl : c = p := Option.some.inj (hlast.2.symm.trans hp)
    refine path_append.mpr ⟨hfront.congr (fun d hd => ?_) fun d hd => ?_, by simp [Path]⟩
    · have hne : d ≠ c := by
        rintro rfl
        have hsplit := hr.nodup
        rw [← List.cons_append, List.nodup_append] at hsplit
        exact hsplit.2.2 d hd d (List.mem_singleton_self d) rfl
      have hdx : d ≠ x := by
        rintro rfl
        rw [← List.cons_append] at hx
        exact hx (List.mem_append_left _ hd)
      rw [insert_next, if_neg hne, if_neg hdx]
    · have hdx : d ≠ x := by
        rintro rfl
        exact hx (List.mem_cons_of_mem _ hd)
      have hdh : d ≠ h := by
        rintro rfl
        exact (List.nodup_cons.mp hr.nodup).1 hd
      rw [insert_prev, if_neg hdx, if_neg hdh]

/-- What happens beside a ring. -/
theorem Ring.insert_other {p q : A} (hr : Ring m h l) (hx : x ∉ h :: l) (hp : p ∉ h :: l)
    (hq : q ∉ h :: l) : Ring (m.insert x p q) h l := by
  refine hr.congr (fun d hd => ?_) fun d hd => ?_
  · rw [insert_next, if_neg fun heq : d = p => hp (heq ▸ hd),
      if_neg fun heq : d = x => hx (heq ▸ hd)]
  · rw [insert_prev, if_neg fun heq : d = x => hx (heq ▸ hd),
      if_neg fun heq : d = q => hq (heq ▸ hd)]

/-- A cell that is in no ring gets other links. -/
theorem Ring.set_other {b c : Option A} (hr : Ring m h l) (hx : x ∉ h :: l) :
    Ring ((m.setNext x b).setPrev x c) h l := by
  refine hr.congr (fun d hd => ?_) fun d hd => ?_
  · exact Function.update_of_ne (fun heq : d = x => hx (heq ▸ hd)) _ _
  · exact Function.update_of_ne (fun heq : d = x => hx (heq ▸ hd)) _ _

/-! ## Walking -/

section Walk

variable {σ ρ : Type}

/-- The body on the cells from a place on until the head comes around; it may
leave the loop with a result. `none` is a null link, or too little fuel. -/
def forEach (m : Links A) (h : A) (body : σ → A → Except ρ σ) :
    Nat → Option A → σ → Option (Except ρ σ)
  | 0, _, _ => none
  | _ + 1, none, _ => none
  | n + 1, some pos, s =>
      if pos = h then some (.ok s)
      else
        match body s pos with
        | .error r => some (.error r)
        | .ok s => forEach m h body n (m.next pos) s

variable {body : σ → A → Except ρ σ} {fuel : Nat} {s : σ}

theorem forEach_path (hp : Path m a l h) (hnot : h ∉ l) (hfuel : l.length < fuel) :
    forEach m h body fuel (m.next a) s = some (l.foldlM body s) := by
  induction l generalizing a fuel s with
  | nil =>
      obtain ⟨fuel, rfl⟩ := Nat.exists_eq_add_of_le' (Nat.succ_le_of_lt hfuel)
      rw [hp.1, forEach.eq_def]
      simp only [if_pos]
      rfl
  | cons c l ih =>
      obtain ⟨fuel, rfl⟩ := Nat.exists_eq_add_of_le' (Nat.succ_le_of_lt (Nat.zero_lt_of_lt hfuel))
      obtain ⟨hc, -, hp⟩ := hp
      rw [List.mem_cons, not_or] at hnot
      rw [hc, forEach, if_neg (Ne.symm hnot.1), List.foldlM_cons]
      cases body s c with
      | error r => rfl
      | ok s => exact ih hp hnot.2 (Nat.lt_of_succ_lt_succ hfuel)

/-- **A walk around the ring** meets its cells in order, each once, and comes to
an end. -/
theorem Ring.forEach (hr : Ring m h l) (hfuel : l.length < fuel) :
    forEach m h body fuel (m.next h) s = some (l.foldlM body s) :=
  forEach_path hr.path (List.nodup_cons.mp hr.nodup).1 hfuel

end Walk

end Links
