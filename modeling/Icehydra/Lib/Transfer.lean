import Mathlib.Data.Stream.Init
import Mathlib.Algebra.BigOperators.Group.List.Basic
import Mathlib.Algebra.GroupWithZero.Nat

/-!
# Transfer — resumable non-blocking transfers

A loop that moves `n` units over a channel whose calls may take any part of
what they are offered, may ask to be called again, or may stop it for good.
The channel is a stream of outcomes, one for each call; a budget bounds how
often the loop accepts `again`.

`transfer` is one such loop and `transferSeq` a sequence of them on one
budget. Nothing here says what the units are: a program's loop over bytes is
shown to move exactly `transfer`'s count of them.
-/

namespace NonBlock

/-- What one call comes back with. `moved k` is a transfer of `k + 1` units,
cut to what the call asked for: every count from 1 to the request occurs this
way, and no other does. -/
inductive Outcome (ε : Type) where
  | moved (k : Nat)
  | again
  | stop (e : ε)
  deriving DecidableEq

/-- How a transfer ended: the units it moved, the outcomes and the budget it
left, and the stop it met, if it met one. -/
@[ext] structure Transfer (ε : Type) where
  moved : Nat
  rest : Stream' (Outcome ε)
  times : Nat
  why : Option ε

variable {ε : Type}

/-- Move `n` units, accepting `again` at most `times` times. -/
def transfer (os : Stream' (Outcome ε)) (n times : Nat) : Transfer ε :=
  if n = 0 then ⟨0, os, times, none⟩
  else
    match os.head with
    | .moved k =>
        let t := transfer os.tail (n - min (k + 1) n) times
        { t with moved := min (k + 1) n + t.moved }
    | .again =>
        match times with
        | 0 => ⟨0, os.tail, 0, none⟩
        | times + 1 => transfer os.tail n times
    | .stop e => ⟨0, os.tail, times, some e⟩
termination_by n + times
decreasing_by all_goals omega

/-- Transfers in a row on one budget; the first that falls short is the last. -/
def transferSeq (os : Stream' (Outcome ε)) (times : Nat) : List Nat → Transfer ε
  | [] => ⟨0, os, times, none⟩
  | n :: ns =>
      let t := transfer os n times
      if t.moved = n then
        let r := transferSeq t.rest t.times ns
        { r with moved := n + r.moved }
      else t

/-! ## One transfer -/

@[simp] theorem transfer_zero (os : Stream' (Outcome ε)) (times : Nat) :
    transfer os 0 times = ⟨0, os, times, none⟩ := by
  unfold transfer
  simp

theorem transfer_moved {os : Stream' (Outcome ε)} {n k : Nat} (times : Nat) (hn : n ≠ 0)
    (hk : os.head = .moved k) :
    transfer os n times =
      { transfer os.tail (n - min (k + 1) n) times with
        moved := min (k + 1) n + (transfer os.tail (n - min (k + 1) n) times).moved } := by
  rw [transfer.eq_def, if_neg hn, hk]

theorem transfer_again {os : Stream' (Outcome ε)} {n : Nat} (times : Nat) (hn : n ≠ 0)
    (hk : os.head = .again) : transfer os n (times + 1) = transfer os.tail n times := by
  rw [transfer.eq_def, if_neg hn, hk]

theorem transfer_spent {os : Stream' (Outcome ε)} {n : Nat} (hn : n ≠ 0)
    (hk : os.head = .again) : transfer os n 0 = ⟨0, os.tail, 0, none⟩ := by
  rw [transfer.eq_def, if_neg hn, hk]

theorem transfer_stop {os : Stream' (Outcome ε)} {n : Nat} {e : ε} (times : Nat) (hn : n ≠ 0)
    (hk : os.head = .stop e) : transfer os n times = ⟨0, os.tail, times, some e⟩ := by
  rw [transfer.eq_def, if_neg hn, hk]

theorem transfer_moved_le (os : Stream' (Outcome ε)) (n times : Nat) :
    (transfer os n times).moved ≤ n := by
  induction os, n, times using transfer.induct with
  | case1 os times => simp
  | case2 os n times hn k hk ih =>
      rw [transfer_moved times hn hk]
      simp only
      omega
  | case3 os n hn hk =>
      rw [transfer_spent hn hk]
      exact Nat.zero_le n
  | case4 os n hn hk times ih =>
      rw [transfer_again times hn hk]
      exact ih
  | case5 os n times hn e hk =>
      rw [transfer_stop times hn hk]
      exact Nat.zero_le n

/-- A transfer that met a stop fell short. -/
theorem transfer_moved_lt_of_why {os : Stream' (Outcome ε)} {n times : Nat} {e : ε}
    (h : (transfer os n times).why = some e) : (transfer os n times).moved < n := by
  induction os, n, times using transfer.induct with
  | case1 os times => simp at h
  | case2 os n times hn k hk ih =>
      rw [transfer_moved times hn hk] at h ⊢
      have := ih h
      simp only
      omega
  | case3 os n hn hk =>
      rw [transfer_spent hn hk]
      exact Nat.pos_of_ne_zero hn
  | case4 os n hn hk times ih =>
      rw [transfer_again times hn hk] at h ⊢
      exact ih h
  | case5 os n times hn e' hk =>
      rw [transfer_stop times hn hk]
      exact Nat.pos_of_ne_zero hn

/-- **A shorter request** over the same outcomes moves as much of itself as the
longer one does. -/
theorem transfer_moved_min (os : Stream' (Outcome ε)) {m n : Nat} (times : Nat) (h : m ≤ n) :
    (transfer os m times).moved = min m (transfer os n times).moved := by
  induction os, n, times using transfer.induct generalizing m with
  | case1 os times =>
      obtain rfl : m = 0 := by omega
      simp
  | case2 os n times hn k hk ih =>
      rcases Nat.eq_zero_or_pos m with rfl | hm
      · simp
      · have hrec := ih (m := m - min (k + 1) m) (by omega)
        rw [transfer_moved times hn hk, transfer_moved times (by omega) hk]
        simp only [hrec]
        omega
  | case3 os n hn hk =>
      rcases Nat.eq_zero_or_pos m with rfl | hm
      · simp
      · rw [transfer_spent hn hk, transfer_spent (by omega) hk]
        exact (Nat.min_zero m).symm
  | case4 os n hn hk times ih =>
      rcases Nat.eq_zero_or_pos m with rfl | hm
      · simp
      · rw [transfer_again times hn hk, transfer_again times (by omega) hk]
        exact ih h
  | case5 os n times hn e hk =>
      rcases Nat.eq_zero_or_pos m with rfl | hm
      · simp
      · rw [transfer_stop times hn hk, transfer_stop times (by omega) hk]
        exact (Nat.min_zero m).symm

/-- What is left are later outcomes, and a request for anything uses one up. -/
theorem transfer_rest (os : Stream' (Outcome ε)) (n times : Nat) :
    ∃ m, (transfer os n times).rest = os.drop m ∧ (n ≠ 0 → 0 < m) := by
  induction os, n, times using transfer.induct with
  | case1 os times => exact ⟨0, by simp, fun hn => absurd rfl hn⟩
  | case2 os n times hn k hk ih =>
      obtain ⟨m, hm, -⟩ := ih
      rw [transfer_moved times hn hk]
      exact ⟨m + 1, hm, fun _ => Nat.succ_pos m⟩
  | case3 os n hn hk =>
      rw [transfer_spent hn hk]
      exact ⟨1, rfl, fun _ => Nat.one_pos⟩
  | case4 os n hn hk times ih =>
      obtain ⟨m, hm, -⟩ := ih
      rw [transfer_again times hn hk]
      exact ⟨m + 1, hm, fun _ => Nat.succ_pos m⟩
  | case5 os n times hn e hk =>
      rw [transfer_stop times hn hk]
      exact ⟨1, rfl, fun _ => Nat.one_pos⟩

/-- A stop that was met is one of the outcomes. -/
theorem exists_get_of_why {os : Stream' (Outcome ε)} {n times : Nat} {e : ε}
    (h : (transfer os n times).why = some e) : ∃ i, os.get i = .stop e := by
  induction os, n, times using transfer.induct with
  | case1 os times => simp at h
  | case2 os n times hn k hk ih =>
      rw [transfer_moved times hn hk] at h
      obtain ⟨i, hi⟩ := ih h
      exact ⟨i + 1, hi⟩
  | case3 os n hn hk =>
      rw [transfer_spent hn hk] at h
      cases h
  | case4 os n hn hk times ih =>
      rw [transfer_again times hn hk] at h
      obtain ⟨i, hi⟩ := ih h
      exact ⟨i + 1, hi⟩
  | case5 os n times hn e' hk =>
      rw [transfer_stop times hn hk] at h
      obtain rfl := Option.some.inj h
      exact ⟨0, hk⟩

/-- **The outcomes a transfer rests on**: what it gives back does not depend on
those behind them. It uses one for each unit it moves and each retry it spends
at most, and one more where it gives up. -/
theorem transfer_uses (os : Stream' (Outcome ε)) (n times : Nat) :
    ∃ m, (∀ more, transfer (os.take m ++ₛ more) n times = { transfer os n times with rest := more }) ∧
      m + (transfer os n times).times ≤ (transfer os n times).moved + times +
        if (transfer os n times).moved = n then 0 else 1 := by
  induction os, n, times using transfer.induct with
  | case1 os times => exact ⟨0, fun more => by simp, by simp⟩
  | case2 os n times hn k hk ih =>
      obtain ⟨m, huse, hm⟩ := ih
      refine ⟨m + 1, fun more => ?_, ?_⟩
      · rw [Stream'.take_succ, Stream'.cons_append_stream, hk,
          transfer_moved times hn (Stream'.head_cons _ _), Stream'.tail_cons, huse,
          transfer_moved times hn hk]
      · rw [transfer_moved times hn hk]
        simp only
        split at hm <;> split <;> omega
  | case3 os n hn hk =>
      refine ⟨1, fun more => ?_, ?_⟩
      · rw [Stream'.take_succ, Stream'.take_zero, Stream'.cons_append_stream, hk,
          transfer_spent hn (Stream'.head_cons _ _), transfer_spent hn hk]
        rfl
      · rw [transfer_spent hn hk, if_neg (Ne.symm hn)]
        exact Nat.le_refl 1
  | case4 os n hn hk times ih =>
      obtain ⟨m, huse, hm⟩ := ih
      refine ⟨m + 1, fun more => ?_, ?_⟩
      · rw [Stream'.take_succ, Stream'.cons_append_stream, hk,
          transfer_again times hn (Stream'.head_cons _ _), Stream'.tail_cons, huse,
          transfer_again times hn hk]
      · rw [transfer_again times hn hk]
        omega
  | case5 os n times hn e hk =>
      refine ⟨1, fun more => ?_, ?_⟩
      · rw [Stream'.take_succ, Stream'.take_zero, Stream'.cons_append_stream, hk,
          transfer_stop times hn (Stream'.head_cons _ _), transfer_stop times hn hk]
        rfl
      · rw [transfer_stop times hn hk, if_neg (Ne.symm hn), Nat.zero_add, Nat.add_comm]

/-! ## Outcomes that carry a transfer through

`Carries l n` lists the outcomes of one complete transfer of `n` units: what
each call takes adds up to `n`, with `again` anywhere before the end. -/

/-- The outcomes `l` move exactly `n` units, the last of them with the last
outcome. -/
def Carries : List (Outcome ε) → Nat → Prop
  | [], n => n = 0
  | .moved k :: l, n => n ≠ 0 ∧ Carries l (n - min (k + 1) n)
  | .again :: l, n => n ≠ 0 ∧ Carries l n
  | .stop _ :: _, _ => False

instance decidableCarries : ∀ (l : List (Outcome ε)) (n : Nat), Decidable (Carries l n)
  | [], n => inferInstanceAs (Decidable (n = 0))
  | .moved k :: l, n =>
      have := decidableCarries l (n - min (k + 1) n)
      inferInstanceAs (Decidable (n ≠ 0 ∧ Carries l (n - min (k + 1) n)))
  | .again :: l, n =>
      have := decidableCarries l n
      inferInstanceAs (Decidable (n ≠ 0 ∧ Carries l n))
  | .stop _ :: _, _ => inferInstanceAs (Decidable False)

/-- How often `again` occurs. -/
def retries : List (Outcome ε) → Nat
  | [] => 0
  | .again :: l => retries l + 1
  | _ :: l => retries l

/-- **A carried transfer completes** when the budget covers its retries, and
leaves exactly the outcomes that follow. -/
theorem transfer_carries {l : List (Outcome ε)} {n times : Nat}
    (h : Carries l n) (ht : retries l ≤ times) (os : Stream' (Outcome ε)) :
    transfer (l ++ₛ os) n times = ⟨n, os, times - retries l, none⟩ := by
  induction l generalizing n times with
  | nil =>
      obtain rfl : n = 0 := h
      simp [retries]
  | cons o l ih =>
      cases o with
      | moved k =>
          obtain ⟨hn, hl⟩ := h
          simp only [retries] at ht ⊢
          rw [Stream'.cons_append_stream, transfer_moved times hn (Stream'.head_cons _ _),
            Stream'.tail_cons, ih hl ht]
          simp only [Transfer.mk.injEq, and_true]
          omega
      | again =>
          obtain ⟨hn, hl⟩ := h
          simp only [retries] at ht ⊢
          obtain ⟨t, rfl⟩ : ∃ t, times = t + 1 := ⟨times - 1, by omega⟩
          rw [Stream'.cons_append_stream, transfer_again t hn (Stream'.head_cons _ _),
            Stream'.tail_cons, ih hl (by omega), Nat.add_sub_add_right]
      | stop e => exact h.elim

/-- A complete transfer is a carried one. -/
theorem exists_carries {os : Stream' (Outcome ε)} {n times : Nat}
    (h : (transfer os n times).moved = n) :
    ∃ l, os = l ++ₛ (transfer os n times).rest ∧ Carries l n ∧
      retries l + (transfer os n times).times = times := by
  induction os, n, times using transfer.induct with
  | case1 os times => exact ⟨[], by simp, rfl, by simp [retries]⟩
  | case2 os n times hn k hk ih =>
      rw [transfer_moved times hn hk] at h ⊢
      simp only at h ⊢
      have hle := transfer_moved_le os.tail (n - min (k + 1) n) times
      obtain ⟨l, hos, hl, ht⟩ := ih (by omega)
      refine ⟨.moved k :: l, ?_, ⟨hn, hl⟩, ht⟩
      rw [Stream'.cons_append_stream, ← hos, ← hk, Stream'.eta]
  | case3 os n hn hk =>
      rw [transfer_spent hn hk] at h
      exact absurd h.symm hn
  | case4 os n hn hk times ih =>
      rw [transfer_again times hn hk] at h ⊢
      obtain ⟨l, hos, hl, ht⟩ := ih h
      refine ⟨.again :: l, ?_, ⟨hn, hl⟩, ?_⟩
      · rw [Stream'.cons_append_stream, ← hos, ← hk, Stream'.eta]
      · rw [retries]
        omega
  | case5 os n times hn e hk =>
      rw [transfer_stop times hn hk] at h
      exact absurd h.symm hn

/-! ## Transfers in a row -/

theorem transferSeq_singleton (os : Stream' (Outcome ε)) (times n : Nat) :
    transferSeq os times [n] = transfer os n times := by
  simp only [transferSeq]
  split
  · rename_i hfull
    ext1
    · exact hfull.symm
    · rfl
    · rfl
    · cases hw : (transfer os n times).why with
      | none => rfl
      | some e => exact absurd hfull (Nat.ne_of_lt (transfer_moved_lt_of_why hw))
  · rfl

/-- Two transfers on one budget: the second starts where a complete first one
ended. -/
theorem transferSeq_pair (os : Stream' (Outcome ε)) (times m n : Nat) :
    transferSeq os times [m, n] =
      let t := transfer os m times
      if t.moved = m then
        { transfer t.rest n t.times with moved := m + (transfer t.rest n t.times).moved }
      else t := by
  rw [transferSeq]
  simp only [transferSeq_singleton]

/-- A channel that stops at the first call takes nothing. -/
theorem transferSeq_stop {os : Stream' (Outcome ε)} {n : Nat} {e : ε} (times : Nat)
    (ns : List Nat) (hn : n ≠ 0) (hk : os.head = .stop e) :
    (transferSeq os times (n :: ns)).moved = 0 := by
  simp only [transferSeq, transfer_stop times hn hk, if_neg (Ne.symm hn)]

theorem transferSeq_moved_le (os : Stream' (Outcome ε)) (times : Nat) (ns : List Nat) :
    (transferSeq os times ns).moved ≤ ns.sum := by
  induction ns generalizing os times with
  | nil => simp [transferSeq]
  | cons n ns ih =>
      have hle := transfer_moved_le os n times
      simp only [transferSeq, List.sum_cons]
      split
      · have := ih (transfer os n times).rest (transfer os n times).times
        simp only
        omega
      · omega

theorem transferSeq_moved_lt_of_why {os : Stream' (Outcome ε)} {times : Nat} {ns : List Nat}
    {e : ε} (h : (transferSeq os times ns).why = some e) :
    (transferSeq os times ns).moved < ns.sum := by
  induction ns generalizing os times with
  | nil => simp [transferSeq] at h
  | cons n ns ih =>
      simp only [transferSeq, List.sum_cons] at h ⊢
      split at h
      · rename_i hfull
        rw [if_pos hfull]
        have := ih h
        simp only
        omega
      · rename_i hshort
        rw [if_neg hshort]
        have := transfer_moved_lt_of_why h
        omega

theorem transferSeq_rest (os : Stream' (Outcome ε)) (times : Nat) (ns : List Nat) :
    ∃ m, (transferSeq os times ns).rest = os.drop m ∧ (∀ n ∈ ns.head?, n ≠ 0 → 0 < m) := by
  induction ns generalizing os times with
  | nil => exact ⟨0, rfl, fun n hn => by cases hn⟩
  | cons n ns ih =>
      obtain ⟨m, hm, hpos⟩ := transfer_rest os n times
      have hhead : ∀ n' ∈ (n :: ns).head?, n' ≠ 0 → 0 < m := by
        intro n' hn'
        obtain rfl := Option.some.inj hn'
        exact hpos
      rw [transferSeq]
      simp only
      split
      · obtain ⟨m', hm', -⟩ := ih (transfer os n times).rest (transfer os n times).times
        refine ⟨m + m', ?_, fun n' hn' hne => Nat.add_pos_left (hhead n' hn' hne) m'⟩
        show (transferSeq _ _ ns).rest = _
        rw [hm', hm, Stream'.drop_drop]
      · exact ⟨m, hm, hhead⟩

theorem exists_get_of_seq_why {os : Stream' (Outcome ε)} {times : Nat} {ns : List Nat} {e : ε}
    (h : (transferSeq os times ns).why = some e) : ∃ i, os.get i = .stop e := by
  induction ns generalizing os times with
  | nil => cases h
  | cons n ns ih =>
      simp only [transferSeq] at h
      split at h
      · obtain ⟨m, hm, -⟩ := transfer_rest os n times
        obtain ⟨i, hi⟩ := ih h
        rw [hm, Stream'.get_drop] at hi
        exact ⟨_, hi⟩
      · exact exists_get_of_why h

theorem transferSeq_uses (os : Stream' (Outcome ε)) (times : Nat) (ns : List Nat) :
    ∃ m, (∀ more, transferSeq (os.take m ++ₛ more) times ns
        = { transferSeq os times ns with rest := more }) ∧
      m + (transferSeq os times ns).times ≤ (transferSeq os times ns).moved + times +
        if (transferSeq os times ns).moved = ns.sum then 0 else 1 := by
  induction ns generalizing os times with
  | nil => exact ⟨0, fun more => by simp [transferSeq], by simp [transferSeq]⟩
  | cons n ns ih =>
      obtain ⟨m, huse, hm⟩ := transfer_uses os n times
      by_cases hfull : (transfer os n times).moved = n
      · obtain ⟨m', huse', hm'⟩ := ih (transfer os n times).rest (transfer os n times).times
        have hrest : (transfer os n times).rest = os.drop m := by
          have hself := huse (os.drop m)
          rw [Stream'.append_take_drop] at hself
          exact congrArg Transfer.rest hself
        rw [hrest] at huse' hm'
        refine ⟨m + m', fun more => ?_, ?_⟩
        · rw [Stream'.take_add, Stream'.append_append_stream, transferSeq, huse, transferSeq]
          simp only [hfull, if_true, huse', hrest]
        · rw [transferSeq]
          simp only [hfull, if_true, hrest, List.sum_cons, Nat.add_left_cancel_iff] at hm hm' ⊢
          omega
      · have hle := transfer_moved_le os n times
        refine ⟨m, fun more => ?_, ?_⟩
        · rw [transferSeq, huse, transferSeq]
          simp only [hfull, if_false]
        · rw [transferSeq]
          simp only [hfull, if_false, List.sum_cons] at hm ⊢
          rw [if_neg (by omega)]
          exact hm

/-- Every transfer of the row completes. -/
def Through (os : Stream' (Outcome ε)) (times : Nat) (ns : List Nat) : Prop :=
  (transferSeq os times ns).moved = ns.sum

instance (os : Stream' (Outcome ε)) (times : Nat) (ns : List Nat) :
    Decidable (Through os times ns) :=
  inferInstanceAs (Decidable (_ = _))

theorem Through.why {os : Stream' (Outcome ε)} {times : Nat} {ns : List Nat}
    (h : Through os times ns) : (transferSeq os times ns).why = none := by
  cases hw : (transferSeq os times ns).why with
  | none => rfl
  | some e => exact absurd h (Nat.ne_of_lt (transferSeq_moved_lt_of_why hw))

/-- A row of two gets past `m` units of the second exactly when the row that
asks for `m` of them completes. -/
theorem through_pair_iff {os : Stream' (Outcome ε)} {times a m n : Nat} (h : m ≤ n) :
    Through os times [a, m] ↔ a + m ≤ (transferSeq os times [a, n]).moved := by
  have hmin := transfer_moved_min (transfer os a times).rest (transfer os a times).times h
  have hle := transfer_moved_le os a times
  simp only [Through, transferSeq_pair, List.sum_cons, List.sum_nil, Nat.add_zero]
  split
  · simp only [hmin]
    omega
  · rename_i hshort
    omega

/-- The outcomes of a row of complete transfers, one list for each. -/
def CarriesSeq : List (List (Outcome ε)) → List Nat → Prop
  | [], [] => True
  | l :: ls, n :: ns => Carries l n ∧ CarriesSeq ls ns
  | _, _ => False

theorem retries_append (l l' : List (Outcome ε)) :
    retries (l ++ l') = retries l + retries l' := by
  induction l with
  | nil => simp [retries]
  | cons o l ih => cases o <;> simp [retries, ih, Nat.add_right_comm]

/-- A row of carried transfers completes when one budget covers all their
retries. -/
theorem transferSeq_carries {ls : List (List (Outcome ε))} {ns : List Nat} {times : Nat}
    (h : CarriesSeq ls ns) (ht : retries ls.flatten ≤ times) (os : Stream' (Outcome ε)) :
    transferSeq (ls.flatten ++ₛ os) times ns
      = ⟨ns.sum, os, times - retries ls.flatten, none⟩ := by
  induction ls generalizing ns times with
  | nil =>
      cases ns with
      | nil => simp [transferSeq, retries]
      | cons n ns => exact h.elim
  | cons l ls ih =>
      cases ns with
      | nil => exact h.elim
      | cons n ns =>
          obtain ⟨hl, hls⟩ := h
          rw [List.flatten_cons, retries_append] at ht
          rw [List.flatten_cons, retries_append, Stream'.append_append_stream, transferSeq,
            transfer_carries hl (by omega)]
          simp only [if_true]
          rw [ih hls (by omega)]
          simp only [List.sum_cons, Transfer.mk.injEq, true_and, and_true]
          omega

/-- A row of complete transfers comes first, with at most `times` retries in it. -/
def InTime (os : Stream' (Outcome ε)) (times : Nat) (ns : List Nat) : Prop :=
  ∃ ls more, os = ls.flatten ++ₛ more ∧ CarriesSeq ls ns ∧ retries ls.flatten ≤ times

/-- **A row completes** exactly when the outcomes say so. -/
theorem through_iff_inTime {os : Stream' (Outcome ε)} {times : Nat} {ns : List Nat} :
    Through os times ns ↔ InTime os times ns := by
  constructor
  · intro h
    induction ns generalizing os times with
    | nil => exact ⟨[], os, by simp, trivial, by simp [retries]⟩
    | cons n ns ih =>
        have hle := transfer_moved_le os n times
        simp only [Through, transferSeq, List.sum_cons] at h
        split at h
        · rename_i hfull
          obtain ⟨l, hos, hl, ht⟩ := exists_carries hfull
          obtain ⟨ls, more, hrest, hls, hts⟩ := ih (Nat.add_left_cancel h)
          refine ⟨l :: ls, more, ?_, ⟨hl, hls⟩, ?_⟩
          · rw [List.flatten_cons, Stream'.append_append_stream, ← hrest, ← hos]
          · rw [List.flatten_cons, retries_append]
            omega
        · rename_i hshort
          omega
  · rintro ⟨ls, more, rfl, hls, ht⟩
    rw [Through, transferSeq_carries hls ht]
end NonBlock
