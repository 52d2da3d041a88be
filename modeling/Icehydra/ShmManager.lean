import Icehydra.Discovery
import Icehydra.ShmTable
import Icehydra.Lib.SharedBlocks
import Mathlib.Data.List.GetD

/-!
# ShmManager — shm_manager.c over System V

`shm_create` and `shm_mmap` in the variant with `shmget` and `ftok`, over the
segments that the machine has. Segments are not removed by anything here: they
outlive the broker that made them.
-/

namespace Icehydra

open Block

/-! ## System V -/

/-- 2^31. -/
def shmIdEnd : Nat := 2147483648

instance : NeZero shmIdEnd := ⟨by decide⟩

/-- What `shmget` gives; an `int`. -/
abbrev ShmId := Fin shmIdEnd

abbrev Shms := SharedBlocks Int ShmId UInt8

/-- Which id a new segment of a size gets; `none` if the machine has no room. -/
structure ShmAlloc where
  pick : Shms → Nat → Option ShmId
  fresh : ∀ s size id, pick s size = some id → s.memOf id = none

def ipcPrivate : Int := 0

/-- The segment of a key. -/
def shmLookup (s : Shms) (key : Int) : Option ShmId := if key = ipcPrivate then none else s.idOf key

def shmSegsz (s : Shms) (id : ShmId) : Nat := ((s.memOf id).getD []).length

/-- `shmget` with `IPC_CREAT`; a segment that is there must be large enough. -/
def shmget (a : ShmAlloc) (key : Int) (size : Nat) (s : Shms) : Option (ShmId × Shms) :=
  match shmLookup s key with
  | some id => if size ≤ shmSegsz s id then some (id, s) else none
  | none =>
      if size = 0 then none
      else
        match h : a.pick s size with
        | none => none
        | some id =>
            let key := if key = ipcPrivate then none else some key
            some (id, s.create key id (List.replicate size 0) (a.fresh s size id h))

/-- The pointer is the id of what it leads to; `none` is `(void*)-1`. -/
def shmat (s : Shms) (shmid : Int) : Option ShmId :=
  if h : 0 ≤ shmid ∧ shmid.toNat < shmIdEnd then
    let id : ShmId := ⟨shmid.toNat, h.2⟩
    if (s.memOf id).isSome then some id else none
  else none

/-- `stat` gives the device and the inode of a file that is there. A key is made
of 8, of 16 and of 8 bits; -1 says that there is no file. -/
def ftok (stat : Bytes → Option (Nat × Nat)) (pathname : Option Bytes) (projId : Int) : Int :=
  match pathname.bind stat with
  | none => -1
  | some (dev, ino) =>
      toInt32 ((ino % 65536 : Nat) + 65536 * (dev % 256 : Nat) + 16777216 * (projId % 256))

/-! ## shm_manager.c -/

/-- `icehydra_shm_t`; a null `filename` and a null `mem_ptr` are `none`. -/
structure IcehydraShm where
  size : Int := 0
  projId : Int := 0
  id : Int := 0
  filename : Option Bytes := none
  memPtr : Option ShmId := none

namespace ShmManager

/-- `stat` is asked behind `make_dir`. -/
def keyOf (stat : Bytes → Option (Nat × Nat)) (shm : IcehydraShm) : Int :=
  ftok stat shm.filename (if 0 < shm.projId then shm.projId else 1)

/-- `memset(shm->mem_ptr,0,shm->size)`. -/
def memset (id : ShmId) (size : Nat) (s : Shms) : Shms :=
  (s.store id 0 (List.replicate size 0)).getD s

def shmCreate (a : ShmAlloc) (stat : Bytes → Option (Nat × Nat)) (shm : IcehydraShm) (s : Shms) :
    IcehydraShm × Shms :=
  match shmget a (keyOf stat shm) (toSizeT shm.size) s with
  | none => ({ shm with memPtr := none }, s)
  | some (id, s) =>
      ({ shm with memPtr := some id, id := id.val }, memset id (toSizeT shm.size) s)

def shmMmap (stat : Bytes → Option (Nat × Nat)) (shm : IcehydraShm) (s : Shms) : IcehydraShm :=
  let id := if shm.id < 0 then (shmLookup s (keyOf stat shm)).elim (-1 : Int) fun id => id.val
    else shm.id
  match shmat s id with
  | none => { shm with id := id, memPtr := none }
  | some ptr => { shm with id := id, memPtr := some ptr, size := toInt32 (shmSegsz s ptr) }

end ShmManager

/-! ## Keys -/

section Keys

variable {stat : Bytes → Option (Nat × Nat)} {path : Bytes} {p q : UInt8}

theorem toInt32_inj {x y : Int} (h : toInt32 x = toInt32 y) : x % 4294967296 = y % 4294967296 := by
  have hmod : toInt32 x % ((2 ^ 32 : Nat) : Int) = toInt32 y % ((2 ^ 32 : Nat) : Int) := by rw [h]
  rw [toInt32, toInt32, Int.bmod_emod, Int.bmod_emod] at hmod
  exact hmod

/-- A key that has been made is not `IPC_PRIVATE`. -/
theorem ftok_ne_private (hp : 0 < p) (path : Option Bytes) :
    ftok stat path (p.toNat : Int) ≠ ipcPrivate := by
  have hpos : 0 < p.toNat := UInt8.lt_iff_toNat_lt.mp hp
  have hlt : p.toNat < 256 := p.toNat_lt
  unfold ftok
  cases path.bind stat with
  | none =>
      show (-1 : Int) ≠ ipcPrivate
      decide
  | some file =>
      obtain ⟨dev, ino⟩ := file
      intro hzero
      have hmod := toInt32_inj (y := 0) (hzero.trans rfl)
      omega

/-- **The project ids of a file that is there** have keys of their own; without
the file all of them have the same key. -/
theorem ftok_eq_iff : ftok stat (some path) (p.toNat : Int) = ftok stat (some path) (q.toNat : Int) ↔
    stat path = none ∨ p = q := by
  have hp : p.toNat < 256 := p.toNat_lt
  have hq : q.toNat < 256 := q.toNat_lt
  unfold ftok
  rw [Option.bind_some]
  cases hstat : stat path with
  | none => simp
  | some file =>
      obtain ⟨dev, ino⟩ := file
      constructor
      · intro h
        have hmod := toInt32_inj h
        exact .inr (UInt8.toNat_inj.mp (by omega))
      · rintro (hnone | rfl)
        · cases hnone
        · rfl

end Keys

/-! ## What creating a segment does -/

/-- Some memory has been set to zero from its start on, and segments may have come. -/
structure Clears (s s' : Shms) : Prop where
  idOf : ∀ key id, s.idOf key = some id → s'.idOf key = some id
  memOf : ∀ id mem, s.memOf id = some mem → ∃ k ≤ mem.length,
    s'.memOf id = some (store mem 0 (List.replicate k 0))

/-- The segment is there, and its first `size` bytes are zero. -/
def ZeroTo (s : Shms) (id : ShmId) (size : Nat) : Prop :=
  ∃ mem, s.memOf id = some mem ∧ size ≤ mem.length ∧ peek mem 0 size = List.replicate size 0

section Clears

variable {s s' s'' : Shms} {id : ShmId}

theorem store_zero_zero (mem : Bytes) (k k' : Nat) :
    store (store mem 0 (List.replicate k 0)) 0 (List.replicate k' 0)
      = store mem 0 (List.replicate (max k k') 0) := by
  simp only [store, List.take_zero, List.nil_append, Nat.zero_add, List.length_replicate,
    List.drop_append, List.drop_drop, List.drop_replicate, ← List.append_assoc,
    List.replicate_append_replicate]
  congr 2
  · omega
  · omega

theorem Clears.refl (s : Shms) : Clears s s :=
  ⟨fun _ _ h => h, fun _ mem h => ⟨0, Nat.zero_le _, by simpa [store] using h⟩⟩

theorem Clears.trans (h : Clears s s') (h' : Clears s' s'') : Clears s s'' where
  idOf key id hk := h'.idOf key id (h.idOf key id hk)
  memOf id mem hm := by
    obtain ⟨k, hk, hm'⟩ := h.memOf id mem hm
    obtain ⟨k', hk', hm''⟩ := h'.memOf id _ hm'
    rw [store_length _ _ _ (Nat.zero_le _), List.length_replicate, Nat.zero_add,
      Nat.max_eq_left hk] at hk'
    exact ⟨max k k', Nat.max_le.mpr ⟨hk, hk'⟩, by rw [hm'', store_zero_zero]⟩

theorem Clears.persists (h : Clears s s') : s.Persists s' where
  idOf := h.idOf
  memOf id mem hm := by
    obtain ⟨k, hk, hm'⟩ := h.memOf id mem hm
    refine ⟨_, hm', ?_⟩
    rw [store_length _ _ _ (Nat.zero_le _), List.length_replicate, Nat.zero_add, Nat.max_eq_left hk]

/-- What is zero stays zero. -/
theorem Clears.zeroTo {size : Nat} (h : Clears s s') (hz : ZeroTo s id size) : ZeroTo s' id size := by
  obtain ⟨mem, hm, hle, hzero⟩ := hz
  obtain ⟨k, hk, hm'⟩ := h.memOf id mem hm
  have hlen : (store mem 0 (List.replicate k 0)).length = mem.length := by
    rw [store_length _ _ _ (Nat.zero_le _), List.length_replicate, Nat.zero_add, Nat.max_eq_left hk]
  refine ⟨_, hm', hlen ▸ hle, peek_eq_replicate fun i _ hi => ?_⟩
  rw [getD_store _ _ _ _ (Nat.zero_le _)]
  split
  · rw [List.length_replicate] at *
    exact List.getD_replicate _ (by omega)
  · rw [getD_of_peek hzero (Nat.zero_le i) hi]
    exact List.getD_replicate _ (by omega)

end Clears

/-! ## The answers of a machine

For the loader, `shm_create` is a question with an id for an answer. What the
segments of a machine answer is read off them.
-/

def shmgetOf (s : Shms) (key size : Int) : Option Int :=
  (shmLookup s key).bind fun id =>
    if toSizeT size ≤ shmSegsz s id then some (id.val : Int) else none

def shmCreateOf (stat : Bytes → Option (Nat × Nat)) (s : Shms) : Bytes → UInt8 → Int → Option Int :=
  shmCreate (fun filename projId => ftok stat (some filename) projId.toNat) (shmgetOf s)

/-- The key that a project id ends up with. -/
def projKey (stat : Bytes → Option (Nat × Nat)) (filename : Bytes) (p : UInt8) : Int :=
  ftok stat (some filename) ((if 0 < p then p else 1 : UInt8).toNat : Int)

/-- `shm_create` has made or found a segment, and zeroed it. -/
structure Created (key : Int) (size : Nat) (id : ShmId) (s s' : Shms) : Prop where
  clears : Clears s s'
  found : s'.idOf key = some id
  zero : ZeroTo s' id size
  others : ∀ i mem, s.memOf i = some mem → i ≠ id → s'.memOf i = some mem
  again : ∀ i, s.idOf key = some i → size ≤ shmSegsz s i → s'.Persists s

section Create

variable {a : ShmAlloc} {stat : Bytes → Option (Nat × Nat)} {s s' : Shms} {id : ShmId} {key : Int}
  {size : Nat} {filename : Bytes} {p : UInt8}

theorem projKey_ne_private : projKey stat filename p ≠ ipcPrivate := by
  refine ftok_ne_private ?_ _
  split
  · assumption
  · decide

theorem shmSegsz_of {mem : Bytes} (h : s.memOf id = some mem) : shmSegsz s id = mem.length := by
  rw [shmSegsz, h, Option.getD_some]

/-- **`memset`** on the segment from its start on. -/
theorem memset_spec {mem : Bytes} (hmem : s.memOf id = some mem) (hle : size ≤ mem.length) :
    Clears s (ShmManager.memset id size s) ∧ ZeroTo (ShmManager.memset id size s) id size ∧
      (ShmManager.memset id size s).idOf = s.idOf ∧
      (∀ i, i ≠ id → (ShmManager.memset id size s).memOf i = s.memOf i) ∧
      (ShmManager.memset id size s).Persists s := by
  have hle' : 0 + (List.replicate size (0 : UInt8)).length ≤ mem.length := by
    rwa [List.length_replicate, Nat.zero_add]
  obtain ⟨s', hs'⟩ := SharedBlocks.exists_store hmem hle'
  obtain ⟨mem', hmem', -, hidOf, hmemOf⟩ := SharedBlocks.store_eq_some hs'
  obtain rfl := Option.some.inj (hmem.symm.trans hmem')
  have hset : ShmManager.memset id size s = s' := by rw [ShmManager.memset, hs', Option.getD_some]
  have hlen : (store mem 0 (List.replicate size 0)).length = mem.length := by
    rw [store_length _ _ _ (Nat.zero_le _), List.length_replicate, Nat.zero_add,
      Nat.max_eq_left hle]
  have hself : s'.memOf id = some (store mem 0 (List.replicate size 0)) := by
    rw [hmemOf, Function.update_self]
  have hother : ∀ i, i ≠ id → s'.memOf i = s.memOf i := fun i hi => by
    rw [hmemOf, Function.update_of_ne hi]
  rw [hset]
  refine ⟨⟨fun k i hk => hidOf ▸ hk, fun i m hm => ?_⟩, ⟨_, hself, hlen ▸ hle, ?_⟩, hidOf, hother,
    ⟨fun k i hk => hidOf ▸ hk, fun i m hm => ?_⟩⟩
  · by_cases hi : i = id
    · subst hi
      obtain rfl := Option.some.inj (hmem.symm.trans hm)
      exact ⟨size, hle, hself⟩
    · exact (Clears.refl s).memOf i m hm |>.imp fun k hk => ⟨hk.1, (hother i hi).trans hk.2⟩
  · have hread := peek_store mem 0 (List.replicate size (0 : UInt8)) (Nat.zero_le _)
    rwa [List.length_replicate] at hread
  · by_cases hi : i = id
    · subst hi
      obtain rfl := Option.some.inj (hself.symm.trans hm)
      exact ⟨mem, hmem, hlen.symm⟩
    · exact ⟨m, (hother i hi).symm.trans hm, rfl⟩

/-- **What `shmget` gives**: the segment of the key, or a new one for it. -/
theorem shmget_cases (hkey : key ≠ ipcPrivate) :
    (shmget a key size s = none ∧ ∀ i, s.idOf key = some i → ¬ size ≤ shmSegsz s i) ∨
      ∃ id s₁ mem, shmget a key size s = some (id, s₁) ∧ s₁.idOf key = some id ∧
        s₁.memOf id = some mem ∧ size ≤ mem.length ∧ s.Persists s₁ ∧
        (∀ i m, s.memOf i = some m → s₁.memOf i = some m) ∧
        (∀ i, s.idOf key = some i → s₁ = s) := by
  have hlookup : shmLookup s key = s.idOf key := if_neg hkey
  unfold shmget
  rw [hlookup]
  cases hid : s.idOf key with
  | some id =>
      obtain ⟨mem, hmem⟩ := s.backed key id hid
      by_cases hle : size ≤ shmSegsz s id
      · refine .inr ⟨id, s, mem, if_pos hle, hid, hmem, ?_, .refl s, fun _ _ h => h, fun _ _ => rfl⟩
        rwa [shmSegsz_of hmem] at hle
      · refine .inl ⟨if_neg hle, fun i hi => ?_⟩
        rwa [← Option.some.inj hi]
  | none =>
      dsimp only
      by_cases hsize : size = 0
      · rw [if_pos hsize]
        exact .inl ⟨rfl, fun i hi => nomatch hi⟩
      rw [if_neg hsize]
      split
      · exact .inl ⟨rfl, fun i hi => nomatch hi⟩
      · rename_i id hpick
        have hfresh := a.fresh s size id hpick
        refine .inr ⟨id, _, List.replicate size 0, rfl, ?_, Function.update_self .., ?_, ?_, ?_, ?_⟩
        · rw [if_neg hkey]
          exact if_pos rfl
        · rw [List.length_replicate]
        · refine .create hfresh fun k hk => ?_
          rw [if_neg hkey] at hk
          rwa [← Option.some.inj hk]
        · intro i m hm
          refine (Function.update_of_ne ?_ ..).trans hm
          rintro rfl
          rw [hfresh] at hm
          cases hm
        · intro i hi
          cases hi

/-- **`shm_create`** for a project id: nothing has changed, or the segment of its
key is there and starts with zeros. -/
theorem shmCreate_cases (a : ShmAlloc) (stat : Bytes → Option (Nat × Nat)) (filename : Bytes)
    (p : UInt8) (n : Int) (s : Shms) :
    let shm : IcehydraShm := { filename := some filename, projId := p.toNat, size := n }
    (ShmManager.shmCreate a stat shm s = ({ shm with memPtr := none }, s) ∧
        ∀ i, s.idOf (projKey stat filename p) = some i → ¬ toSizeT n ≤ shmSegsz s i) ∨
      ∃ id s', ShmManager.shmCreate a stat shm s
          = ({ shm with memPtr := some id, id := id.val }, s') ∧
        Created (projKey stat filename p) (toSizeT n) id s s' := by
  intro shm
  have hkey : ShmManager.keyOf stat shm = projKey stat filename p := by
    unfold ShmManager.keyOf projKey
    by_cases hp : 0 < p
    · have hpos : (0 : Int) < p.toNat := by exact_mod_cast UInt8.lt_iff_toNat_lt.mp hp
      simp only [shm, if_pos hp, if_pos hpos]
    · have hzero : p = 0 := UInt8.not_lt.mp hp |> fun h => UInt8.le_antisymm h (UInt8.zero_le)
      subst hzero
      rfl
  rw [ShmManager.shmCreate, hkey]
  have hne : projKey stat filename p ≠ ipcPrivate := projKey_ne_private
  rcases @shmget_cases a s _ (toSizeT n) hne with
    ⟨hnone, hsmall⟩ | ⟨id, s₁, mem, hget, hid, hmem, hle, hpers, hsame, hold⟩
  · rw [hnone]
    exact .inl ⟨rfl, hsmall⟩
  · rw [hget]
    obtain ⟨hclears, hzero, hidOf, hothers, hback⟩ := memset_spec hmem hle
    refine .inr ⟨id, _, rfl, ⟨?_, fun i m hm => ?_⟩, ?_, hzero, fun i m hm hi => ?_, fun i hi _ => ?_⟩
    · exact fun k i hk => hclears.idOf k i (hpers.idOf k i hk)
    · exact hclears.memOf i m (hsame i m hm)
    · rw [hidOf]
      exact hid
    · rw [hothers i hi]
      exact hsame i m hm
    · rw [hold i hi] at hback ⊢
      exact hback

end Create

end Icehydra
