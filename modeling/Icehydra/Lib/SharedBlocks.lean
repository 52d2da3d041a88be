import Icehydra.Lib.Block
import Mathlib.Logic.Function.Basic

/-!
# SharedBlocks — shared memory that outlives its users

Memory blocks under ids, some of which are found by a key. A key leads to one
block for good and a block has one size for good; only what is in it changes.
-/

structure SharedBlocks (K I α : Type) where
  idOf : K → Option I
  memOf : I → Option (List α)
  backed : ∀ key id, idOf key = some id → ∃ mem, memOf id = some mem
  apart : ∀ key key' id, idOf key = some id → idOf key' = some id → key = key'

namespace SharedBlocks

variable {K I α : Type}

def empty : SharedBlocks K I α where
  idOf _ := none
  memOf _ := none
  backed _ _ h := nomatch h
  apart _ _ _ h := nomatch h

/-! ## Operations -/

section Operations

variable [DecidableEq I]

/-- A new block under an id that no block has; without a key it is private. -/
def create [DecidableEq K] (s : SharedBlocks K I α) (key : Option K) (id : I) (mem : List α)
    (hid : s.memOf id = none) : SharedBlocks K I α where
  idOf k := if key = some k then some id else s.idOf k
  memOf := Function.update s.memOf id (some mem)
  backed k i hk := by
    split at hk
    · obtain rfl := Option.some.inj hk
      exact ⟨mem, Function.update_self ..⟩
    · obtain ⟨m, hm⟩ := s.backed k i hk
      have hne : i ≠ id := by
        rintro rfl
        rw [hid] at hm
        cases hm
      exact ⟨m, (Function.update_of_ne hne ..).trans hm⟩
  apart k k' i hk hk' := by
    have hold : ∀ {k}, s.idOf k = some id → False := by
      intro k hk
      obtain ⟨m, hm⟩ := s.backed k id hk
      rw [hid] at hm
      cases hm
    split at hk <;> split at hk'
    · rename_i hkey hkey'
      exact Option.some.inj (hkey.symm.trans hkey')
    · obtain rfl := Option.some.inj hk
      exact (hold hk').elim
    · obtain rfl := Option.some.inj hk'
      exact (hold hk).elim
    · exact s.apart k k' i hk hk'

/-- A write through a pointer to the block; `none` where there is no such block
or the write goes beyond it. -/
def store (s : SharedBlocks K I α) (id : I) (off : Nat) (bs : List α) : Option (SharedBlocks K I α) :=
  match h : s.memOf id with
  | none => none
  | some mem =>
      if off + bs.length ≤ mem.length then
        some
          { s with
            memOf := Function.update s.memOf id (some (Block.store mem off bs))
            backed := fun k i hk => by
              by_cases hi : i = id
              · rw [hi]
                exact ⟨_, Function.update_self ..⟩
              · obtain ⟨m, hm⟩ := s.backed k i hk
                exact ⟨m, (Function.update_of_ne hi ..).trans hm⟩ }
      else none

variable {s s' : SharedBlocks K I α} {id : I} {off : Nat} {bs mem : List α}

/-- **What a write does**: one block, of which the size stays. -/
theorem store_eq_some (h : s.store id off bs = some s') :
    ∃ mem, s.memOf id = some mem ∧ off + bs.length ≤ mem.length ∧ s'.idOf = s.idOf ∧
      s'.memOf = Function.update s.memOf id (some (Block.store mem off bs)) := by
  unfold store at h
  split at h
  · cases h
  · rename_i mem hmem
    split at h
    · rename_i hle
      obtain rfl := Option.some.inj h
      exact ⟨mem, hmem, hle, rfl, rfl⟩
    · cases h

theorem exists_store (hmem : s.memOf id = some mem) (hle : off + bs.length ≤ mem.length) :
    ∃ s', s.store id off bs = some s' := by
  unfold store
  split
  · rename_i hnone
    rw [hmem] at hnone
    cases hnone
  · rename_i mem' hmem'
    obtain rfl := Option.some.inj (hmem.symm.trans hmem')
    exact ⟨_, if_pos hle⟩

end Operations

/-! ## What lasts -/

/-- Keys keep their blocks, and blocks their sizes. -/
structure Persists (s s' : SharedBlocks K I α) : Prop where
  idOf : ∀ key id, s.idOf key = some id → s'.idOf key = some id
  memOf : ∀ id mem, s.memOf id = some mem →
    ∃ mem', s'.memOf id = some mem' ∧ mem'.length = mem.length

namespace Persists

variable {s s' s'' : SharedBlocks K I α} {id : I}

theorem refl (s : SharedBlocks K I α) : Persists s s := ⟨fun _ _ h => h, fun _ mem h => ⟨mem, h, rfl⟩⟩

theorem trans (h : Persists s s') (h' : Persists s' s'') : Persists s s'' where
  idOf key id hk := h'.idOf key id (h.idOf key id hk)
  memOf id mem hm := by
    obtain ⟨m, hm', hlen⟩ := h.memOf id mem hm
    obtain ⟨m', hm'', hlen'⟩ := h'.memOf id m hm'
    exact ⟨m', hm'', hlen'.trans hlen⟩

variable [DecidableEq I]

theorem store {off : Nat} {bs : List α} (h : s.store id off bs = some s') : Persists s s' := by
  obtain ⟨mem, hmem, hle, hidOf, hmemOf⟩ := store_eq_some h
  refine ⟨fun key i hk => hidOf ▸ hk, fun i m hm => ?_⟩
  rw [hmemOf]
  by_cases hi : i = id
  · subst hi
    obtain rfl := Option.some.inj (hmem.symm.trans hm)
    refine ⟨_, Function.update_self .., ?_⟩
    rw [Block.store_length _ _ _ (Nat.le_of_add_right_le hle), Nat.max_eq_left hle]
  · exact ⟨m, (Function.update_of_ne hi ..).trans hm, rfl⟩

/-- A block is made only for a key that has none. -/
theorem create [DecidableEq K] {key : Option K} {mem : List α} (hid : s.memOf id = none)
    (hkey : ∀ k, key = some k → s.idOf k = none) : Persists s (s.create key id mem hid) where
  idOf k i hk := by
    refine (if_neg fun heq => ?_).trans hk
    rw [hkey k heq] at hk
    cases hk
  memOf i m hm := by
    refine ⟨m, (Function.update_of_ne ?_ ..).trans hm, rfl⟩
    rintro rfl
    rw [hid] at hm
    cases hm

end Persists

end SharedBlocks
