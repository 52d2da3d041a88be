import Mathlib.Data.List.Basic
import Mathlib.Data.List.TakeDrop

/-!
# Block — memory behind a pointer, as a list

`peek` reads and `store` writes at an offset. A read past the end of the list
gives `default`, so its length is always the length asked for; a write past
the end makes the list longer, so the list's length shows how far the writes
into it have reached.
-/

namespace Block

variable {α : Type} [Inhabited α]

/-- The `n` cells from `off` on. -/
def peek (b : List α) (off n : Nat) : List α :=
  (List.range n).map fun i => b.getD (off + i) default

/-- Write `bs` at `off`. -/
def store (b : List α) (off : Nat) (bs : List α) : List α :=
  b.take off ++ bs ++ b.drop (off + bs.length)

/-! ## Reading -/

@[simp] theorem peek_length (b : List α) (off n : Nat) : (peek b off n).length = n := by
  simp [peek]

@[simp] theorem peek_zero (b : List α) (off : Nat) : peek b off 0 = [] := rfl

theorem peek_getElem (b : List α) (off n i : Nat) (h : i < (peek b off n).length) :
    (peek b off n)[i] = b.getD (off + i) default := by
  simp [peek]

theorem getD_peek {b : List α} {off n i : Nat} (h : i < n) :
    (peek b off n).getD i default = b.getD (off + i) default := by
  rw [List.getD_eq_getElem?_getD, List.getElem?_eq_getElem (by rwa [peek_length]), Option.getD_some,
    peek_getElem]

/-- The cells of what has been read. -/
theorem getD_of_peek {b bs : List α} {off n i : Nat} (h : peek b off n = bs) (hlo : off ≤ i)
    (hhi : i < off + n) : b.getD i default = bs.getD (i - off) default := by
  rw [← h, getD_peek (by omega), Nat.add_sub_cancel' hlo]

theorem peek_eq_replicate {b : List α} {off n : Nat}
    (h : ∀ i, off ≤ i → i < off + n → b.getD i default = default) :
    peek b off n = List.replicate n default := by
  refine List.eq_replicate_iff.mpr ⟨peek_length b off n, fun x hx => ?_⟩
  obtain ⟨i, hi, rfl⟩ := List.mem_map.mp hx
  exact h _ (Nat.le_add_right _ _) (Nat.add_lt_add_left (List.mem_range.mp hi) off)

theorem peek_add (b : List α) (off m n : Nat) :
    peek b off (m + n) = peek b off m ++ peek b (off + m) n := by
  simp [peek, List.range_add, Function.comp_def, Nat.add_assoc]

theorem peek_take (b : List α) (off n m : Nat) (h : m ≤ n) :
    (peek b off n).take m = peek b off m := by
  obtain ⟨k, rfl⟩ := Nat.exists_eq_add_of_le h
  rw [peek_add, List.take_left' (peek_length b off m)]

theorem drop_peek (b : List α) (off n k : Nat) :
    (peek b off n).drop k = peek b (off + k) (n - k) := by
  rcases Nat.le_total k n with h | h
  · obtain ⟨m, rfl⟩ := Nat.exists_eq_add_of_le h
    rw [peek_add, List.drop_left' (peek_length b off k), Nat.add_sub_cancel_left]
  · rw [List.drop_eq_nil_of_le (by rwa [peek_length]), Nat.sub_eq_zero_of_le h, peek_zero]

/-- A read inside the block. -/
theorem peek_eq (b : List α) (off n : Nat) (h : off + n ≤ b.length) :
    peek b off n = (b.drop off).take n := by
  apply List.ext_getElem
  · simp; omega
  · intro i h1 h2
    have hi : off + i < b.length := by simp at h1; omega
    simp [peek_getElem, List.getElem?_eq_getElem hi]

theorem peek_drop (b : List α) (off off' n : Nat) :
    peek (b.drop off) off' n = peek b (off + off') n := by
  simp [peek, Nat.add_assoc]

/-- A read across the joint of two blocks. -/
theorem peek_append (a b : List α) (n : Nat) :
    peek (a ++ b) 0 (a.length + n) = a ++ peek b 0 n := by
  have hb := peek_drop (a ++ b) a.length 0 n
  rw [List.drop_left, Nat.add_zero] at hb
  rw [peek_add, peek_eq _ _ _ (by simp), List.drop_zero, List.take_left, Nat.zero_add, ← hb]

/-- Blocks that agree from `off` to `off + n` read the same there. -/
theorem peek_congr {b b' : List α} {off n : Nat}
    (h : ∀ i, off ≤ i → i < off + n → b.getD i default = b'.getD i default) :
    peek b off n = peek b' off n := by
  apply List.map_congr_left
  intro i hi
  exact h (off + i) (by omega) (by simpa using hi)

/-! ## Writing -/

omit [Inhabited α] in
theorem store_length (b : List α) (off : Nat) (bs : List α) (h : off ≤ b.length) :
    (store b off bs).length = max b.length (off + bs.length) := by
  simp [store]
  omega

omit [Inhabited α] in
theorem store_append (a b bs : List α) : store (a ++ b) a.length bs = a ++ store b 0 bs := by
  simp [store, List.drop_append]

/-- What a write leaves behind, cell by cell. -/
theorem getD_store (b : List α) (off : Nat) (bs : List α) (i : Nat) (h : off ≤ b.length) :
    (store b off bs).getD i default =
      if off ≤ i ∧ i < off + bs.length then bs.getD (i - off) default
      else b.getD i default := by
  have hlen : (b.take off).length = off := by simp [h]
  simp only [store, List.append_assoc, List.getD_eq_getElem?_getD]
  by_cases h1 : i < off
  · rw [List.getElem?_append_left (by omega), if_neg (by omega),
      List.getElem?_take_of_lt h1]
  · rw [List.getElem?_append_right (by omega), hlen]
    by_cases h2 : i < off + bs.length
    · rw [List.getElem?_append_left (by omega), if_pos (by omega)]
    · rw [List.getElem?_append_right (by omega), if_neg (by omega), List.getElem?_drop]
      congr 2
      omega

/-- What has been written is read back. -/
theorem peek_store (b : List α) (off : Nat) (bs : List α) (h : off ≤ b.length) :
    peek (store b off bs) off bs.length = bs := by
  apply List.ext_getElem
  · simp
  · intro i _ hi
    rw [peek_getElem, getD_store b off bs _ h, if_pos ⟨Nat.le_add_right _ _, by omega⟩,
      Nat.add_sub_cancel_left]
    simp [hi]

/-- What lies beside it stays. -/
theorem peek_store_of_disjoint {b : List α} {off off' n : Nat} {bs : List α} (h : off ≤ b.length)
    (hd : off' + n ≤ off ∨ off + bs.length ≤ off') :
    peek (store b off bs) off' n = peek b off' n := by
  apply peek_congr
  intro i hlo hhi
  rw [getD_store b off bs i h, if_neg (by omega)]

end Block
