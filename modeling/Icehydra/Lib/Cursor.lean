import Mathlib.Data.List.Basic
import Mathlib.Data.List.Infix

/-!
# Cursor — parsers by position and texts as lists

A parser walks over a text by an offset and may reach past its end; a grammar
says which lists stand for which values. `Sound` and `Complete` tie the two
together, `sepBy` and `SepBy` are the repetition with a separator on either
side. A sentinel at the end of the text (`Terminated`) is what keeps a parser
that looks one cell ahead inside.
-/

/-- How a computation with checked accesses comes out. `outside`: it would touch
a cell that is not there; `unfinished`: its rounds are used up. -/
inductive Checked (β : Type) where
  | ok (result : β)
  | fail
  | outside
  | unfinished
  deriving DecidableEq

namespace Checked

variable {β γ : Type}

def bind (x : Checked β) (f : β → Checked γ) : Checked γ :=
  match x with
  | .ok b => f b
  | .fail => .fail
  | .outside => .outside
  | .unfinished => .unfinished

instance : Monad Checked where
  pure := .ok
  bind := Checked.bind

@[simp] theorem pure_eq (b : β) : (pure b : Checked β) = .ok b := rfl

@[simp] theorem ok_bind (b : β) (f : β → Checked γ) : (Checked.ok b >>= f) = f b := rfl

@[simp] theorem fail_bind (f : β → Checked γ) : (Checked.fail >>= f) = .fail := rfl

/-- Neither past an end nor out of rounds. -/
def Proper (x : Checked β) : Prop := x = .fail ∨ ∃ b, x = .ok b

end Checked

/-- A place in a text. -/
structure Cursor (α : Type) where
  content : List α
  offset : Nat
  deriving DecidableEq

/-- A parser gives a value and the place behind it. -/
abbrev Scanner (α β : Type) : Type := Cursor α → Checked (β × Cursor α)

namespace Cursor

variable {α β : Type}

def rest (c : Cursor α) : List α := c.content.drop c.offset

def CanAccess (c : Cursor α) (i : Nat) : Prop := c.offset + i < c.content.length

instance (c : Cursor α) (i : Nat) : Decidable (c.CanAccess i) :=
  inferInstanceAs (Decidable (_ < _))

/-- The cell `i` places on, if it is there. -/
def peek (c : Cursor α) (i : Nat) : Option α := c.content[c.offset + i]?

def advance (c : Cursor α) (n : Nat) : Cursor α := { c with offset := c.offset + n }

def back (c : Cursor α) (n : Nat) : Cursor α := { c with offset := c.offset - n }

/-- The place between two parts of a text. -/
def between (pre rest : List α) : Cursor α := ⟨pre ++ rest, pre.length⟩

variable {pre s t rest : List α} {x : α}

@[simp] theorem rest_between : (between pre rest).rest = rest := List.drop_left

@[simp] theorem content_between : (between pre rest).content = pre ++ rest := rfl

@[simp] theorem offset_between : (between pre rest).offset = pre.length := rfl

@[simp] theorem peek_between (i : Nat) : (between pre rest).peek i = rest[i]? := by
  rw [peek, between, List.getElem?_append_right (Nat.le_add_right _ _), Nat.add_sub_cancel_left]

@[simp] theorem canAccess_between (i : Nat) : (between pre rest).CanAccess i ↔ i < rest.length := by
  simp [CanAccess, between]

/-- What has been passed goes over to the other side. -/
theorem advance_between {n : Nat} (h : s.length = n) :
    (between pre (s ++ rest)).advance n = between (pre ++ s) rest := by
  rw [between, advance, between, List.append_assoc, List.length_append, h]

@[simp] theorem advance_one_between :
    (between pre (x :: rest)).advance 1 = between (pre ++ [x]) rest :=
  @advance_between _ pre [x] rest 1 rfl

@[simp] theorem back_one_between :
    (between (pre ++ [x]) rest).back 1 = between pre (x :: rest) := by
  simp [between, back]

/-! ## Sentinels -/

/-- The sentinel stands at the end and nowhere else. -/
def Terminated (stop : α) (rest : List α) : Prop :=
  ∃ body, rest = body ++ [stop] ∧ stop ∉ body

variable {stop : α}

theorem Terminated.ne_nil (h : Terminated stop rest) : rest ≠ [] := by
  obtain ⟨body, rfl, -⟩ := h
  exact List.append_ne_nil_of_right_ne_nil _ (List.cons_ne_nil _ _)

/-- A sentinel is the last cell. -/
theorem Terminated.tail_nil (h : Terminated stop (stop :: rest)) : rest = [] := by
  obtain ⟨body, hbody, hnot⟩ := h
  cases body with
  | nil => exact List.tail_eq_of_cons_eq hbody
  | cons c body =>
      rw [List.cons_append] at hbody
      exact absurd (List.head_eq_of_cons_eq hbody ▸ List.mem_cons_self) hnot

/-- Behind a cell that is no sentinel there is one. -/
theorem Terminated.tail (h : Terminated stop (x :: rest)) (hx : x ≠ stop) :
    Terminated stop rest := by
  obtain ⟨body, hbody, hnot⟩ := h
  cases body with
  | nil => exact absurd (List.head_eq_of_cons_eq hbody) hx
  | cons c body =>
      rw [List.cons_append] at hbody
      exact ⟨body, List.tail_eq_of_cons_eq hbody, fun hmem => hnot (List.mem_cons_of_mem _ hmem)⟩

theorem Terminated.drop (h : Terminated stop (s ++ rest)) (hs : stop ∉ s) :
    Terminated stop rest := by
  induction s with
  | nil => exact h
  | cons c s ih =>
      rw [List.mem_cons, not_or] at hs
      exact ih (h.tail (Ne.symm hs.1)) hs.2

/-- What is in front of a further cell holds no sentinel. -/
theorem Terminated.notMem (h : Terminated stop (s ++ rest)) (hrest : rest ≠ []) : stop ∉ s := by
  induction s with
  | nil => exact List.not_mem_nil
  | cons c s ih =>
      have hc : c ≠ stop := by
        rintro rfl
        exact hrest (List.append_eq_nil_iff.mp h.tail_nil).2
      rw [List.mem_cons, not_or]
      exact ⟨Ne.symm hc, ih (h.tail hc)⟩

/-- Behind a text whose last cell is no sentinel there is one. -/
theorem Terminated.behind (h : Terminated stop (s ++ x :: rest)) (hx : x ≠ stop) :
    Terminated stop rest :=
  (h.drop (h.notMem (List.cons_ne_nil _ _))).tail hx

/-! ## Runs of cells -/

/-- No cell of the kind stands in front. -/
def Stops (p : α → Bool) (rest : List α) : Prop := ∀ c ∈ rest.head?, p c = false

variable {p : α → Bool}

theorem Stops.mono {q : α → Bool} (h : Stops p rest) (hq : ∀ c, q c = true → p c = true) :
    Stops q rest := by
  intro c hc
  cases hqc : q c with
  | false => rfl
  | true => rw [← h c hc, hq c hqc]

theorem stops_dropWhile (p : α → Bool) (rest : List α) : Stops p (rest.dropWhile p) := by
  intro c hc
  have hnot := List.head?_dropWhile_not p rest
  rwa [Option.mem_def.mp hc] at hnot

/-- A run is taken off whole, and nothing more. -/
theorem takeWhile_run (hs : ∀ c ∈ s, p c = true) (ht : Stops p t) : (s ++ t).takeWhile p = s := by
  rw [List.takeWhile_append_of_pos hs]
  cases t with
  | nil => simp
  | cons c t => simp [ht c rfl]

theorem dropWhile_run (hs : ∀ c ∈ s, p c = true) (ht : Stops p t) : (s ++ t).dropWhile p = t := by
  rw [List.dropWhile_append_of_pos hs]
  cases t with
  | nil => simp
  | cons c t => simp [ht c rfl]

/-! ## Languages -/

/-- From every rest in `R` the parser fails or takes a text of the language off
the front, and what it leaves is in `R` again. -/
def Sound (R : List α → Prop) (L : List α → β → Prop) (f : Scanner α β) : Prop :=
  ∀ pre rest, R rest → f (between pre rest) = .fail ∨
    ∃ s rest' b, rest = s ++ rest' ∧ R rest' ∧ L s b ∧
      f (between pre rest) = .ok (b, between (pre ++ s) rest')

/-- Every text of the language is taken off whole when what follows is in `F`. -/
def Complete (F : List α → Prop) (L : List α → β → Prop) (f : Scanner α β) : Prop :=
  ∀ pre s rest b, L s b → F rest →
    f (between pre (s ++ rest)) = .ok (b, between (pre ++ s) rest)

/-- Texts of `L` with `sep` in between, at least one. -/
inductive SepBy (sep : α) (L : List α → β → Prop) : List α → List β → Prop where
  | last {s b} : L s b → SepBy sep L s [b]
  | more {s b t bs} : L s b → SepBy sep L t bs → SepBy sep L (s ++ sep :: t) (b :: bs)

/-- `do { advance; element } while (sep)`, from the cell in front of the first
element. -/
def sepBy [DecidableEq α] (sep : α) (element : Scanner α β) : Nat → Scanner α (List β)
  | 0, _ => .unfinished
  | fuel + 1, c => do
      let (b, c) ← element (c.advance 1)
      if c.peek 0 = some sep then do
        let (bs, c) ← sepBy sep element fuel c
        pure (b :: bs, c)
      else pure ([b], c)

variable {R F : List α → Prop} {L : List α → β → Prop} {f : Scanner α β}

section SepBy

variable [DecidableEq α] {sep : α} {fuel : Nat} {bs : List β}

theorem sepBy_more {b : β} {t : List α}
    (h : f (between (pre ++ [x]) rest) = .ok (b, between (pre ++ x :: s) (sep :: t))) :
    sepBy sep f (fuel + 1) (between pre (x :: rest)) =
      (sepBy sep f fuel (between (pre ++ x :: s) (sep :: t)) >>= fun r => .ok (b :: r.1, r.2)) := by
  rw [sepBy, advance_one_between, h, Checked.ok_bind]
  simp only [peek_between, List.getElem?_cons_zero, if_pos]
  rfl

theorem sepBy_last {b : β} (h : f (between (pre ++ [x]) rest) = .ok (b, between (pre ++ x :: s) t))
    (ht : t.head? ≠ some sep) :
    sepBy sep f (fuel + 1) (between pre (x :: rest)) = .ok ([b], between (pre ++ x :: s) t) := by
  rw [sepBy, advance_one_between, h, Checked.ok_bind]
  simp only [peek_between]
  rw [if_neg (by rwa [← List.head?_eq_getElem?])]
  rfl

/-- A round takes the separator at least, so there are rounds enough. -/
theorem Sound.sepBy (h : Sound R L f) (hR : ∀ t, R (sep :: t) → R t)
    (hfuel : rest.length < fuel) (hrest : R rest) :
    sepBy sep f fuel (between pre (x :: rest)) = .fail ∨
      ∃ s rest' bs, rest = s ++ rest' ∧ R rest' ∧ SepBy sep L s bs ∧ rest'.head? ≠ some sep ∧
        sepBy sep f fuel (between pre (x :: rest)) = .ok (bs, between (pre ++ x :: s) rest') := by
  induction fuel generalizing pre x rest with
  | zero => exact absurd hfuel (Nat.not_lt_zero _)
  | succ fuel ih =>
      rcases h (pre ++ [x]) rest hrest with hfail | ⟨s, t, b, rfl, ht, hs, hok⟩
      · left
        rw [Cursor.sepBy, advance_one_between, hfail]
        rfl
      · rw [List.append_assoc, List.singleton_append] at hok
        by_cases hsep : t.head? = some sep
        · obtain ⟨t, rfl⟩ : ∃ t', t = sep :: t' := by
            cases t with
            | nil => cases hsep
            | cons c t => exact ⟨t, by rw [Option.some.inj hsep]⟩
          have hlen : t.length < fuel := by
            rw [List.length_append, List.length_cons] at hfuel
            omega
          rw [sepBy_more hok]
          rcases @ih (pre ++ x :: s) t sep hlen (hR t ht) with
            hfail | ⟨s', rest', bs, rfl, hrest', hbs, hend, hrun⟩
          · exact .inl (by rw [hfail]; rfl)
          · refine .inr ⟨s ++ sep :: s', rest', b :: bs, ?_, hrest', .more hs hbs, hend, ?_⟩
            · rw [List.append_assoc, List.cons_append]
            · rw [hrun, List.append_assoc, List.cons_append]
              rfl
        · exact .inr ⟨s, t, [b], rfl, ht, .last hs, hsep, sepBy_last hok hsep⟩

theorem Complete.sepBy (h : Complete F L f) (hF : ∀ t, F (sep :: t)) (hs : SepBy sep L s bs)
    (hrest : F rest) (hend : rest.head? ≠ some sep) (hfuel : s.length < fuel) :
    sepBy sep f fuel (between pre (x :: (s ++ rest))) =
      .ok (bs, between (pre ++ x :: s) rest) := by
  induction hs generalizing fuel pre x with
  | @last s b hs =>
      obtain ⟨fuel, rfl⟩ := Nat.exists_eq_succ_of_ne_zero (Nat.ne_zero_of_lt hfuel)
      have hok := h (pre ++ [x]) s rest b hs hrest
      rw [List.append_assoc, List.singleton_append] at hok
      exact sepBy_last hok hend
  | @more s b t bs hs hbs ih =>
      obtain ⟨fuel, rfl⟩ := Nat.exists_eq_succ_of_ne_zero (Nat.ne_zero_of_lt hfuel)
      have hlen : t.length < fuel := by
        rw [List.length_append, List.length_cons] at hfuel
        omega
      have hok := h (pre ++ [x]) s (sep :: (t ++ rest)) b hs (hF _)
      rw [List.append_assoc, List.singleton_append] at hok
      rw [List.append_assoc, List.cons_append, sepBy_more hok, ih hlen, List.append_assoc]
      rfl

end SepBy

end Cursor
