import Icehydra.Lib.Runs
import Icehydra.NodeFields
import Icehydra.ShmByName
import Icehydra.ShmMade

/-!
# ShmRuns — brokers and clients over one set of segments

Brokers start, clients look segments up and write to them, processes exit; the
segments stay. What holds of them over all such runs, and which segment a client
gets for a name.
-/

namespace Icehydra

open Block Runs

/-! ## ih_get_shm_by_id -/

/-- What the lookups of a client find on a machine; a pointer is the id of what
it leads to. -/
def sysVOf (stat : Bytes → Option (Nat × Nat)) (s : Shms) : SysV where
  shmat id := (shmat s id).map Fin.val
  segsz id := (shmat s id).elim 0 fun id => toInt32 (shmSegsz s id)
  noFile := (shmLookup s (ShmManager.keyOf stat {})).elim (-1 : Int) fun id => id.val

/-- `ih_get_shm_by_id` is `shm_mmap` on a zeroed `icehydra_shm_t`. -/
theorem ihGetShmById_sysVOf (stat : Bytes → Option (Nat × Nat)) (s : Shms) (shmId : Int) :
    let shm := ShmManager.shmMmap stat { id := shmId } s
    ihGetShmById (sysVOf stat s) shmId = .returned shm.size (some (shm.memPtr.map Fin.val)) := by
  have hkey : ShmManager.keyOf stat { id := shmId } = ShmManager.keyOf stat {} := by
    simp only [ShmManager.keyOf]
  intro shm
  unfold ihGetShmById
  dsimp only [shm]
  unfold ShmManager.shmMmap
  rw [hkey]
  unfold sysVOf
  dsimp only
  cases hfound : shmat s (if shmId < 0 then
      (shmLookup s (ShmManager.keyOf stat {})).elim (-1 : Int) fun id => id.val else shmId) with
  | none => rw [Option.map_none]
  | some ptr => rw [Option.map_some, Option.elim_some]

theorem shmat_val {s : Shms} {id : ShmId} {mem : Bytes} (h : s.memOf id = some mem) :
    shmat s (id.val : Int) = some id := by
  have hin : 0 ≤ (id.val : Int) ∧ (id.val : Int).toNat < shmIdEnd := by
    rw [Int.toNat_natCast]
    exact ⟨Int.natCast_nonneg _, id.isLt⟩
  have hid : (⟨(id.val : Int).toNat, hin.2⟩ : ShmId) = id := Fin.ext (Int.toNat_natCast _)
  have hat : shmat s (id.val : Int) = if (s.memOf ⟨(id.val : Int).toNat, hin.2⟩).isSome
      then some ⟨(id.val : Int).toNat, hin.2⟩ else none := by
    unfold shmat
    rw [dif_pos hin]
  rw [hat, hid, h]
  rfl

/-- **An id that is in use** is attached with the size of its segment. -/
theorem ihGetShmById_val {stat : Bytes → Option (Nat × Nat)} {s : Shms} {id : ShmId} {mem : Bytes}
    (h : s.memOf id = some mem) :
    ihGetShmById (sysVOf stat s) (id.val : Int)
      = .returned (toInt32 mem.length) (some (some id.val)) := by
  have hneg : ¬ (id.val : Int) < 0 := Int.not_lt.mpr (Int.natCast_nonneg _)
  have hat : (sysVOf stat s).shmat id.val = some id.val := by
    show (shmat s (id.val : Int)).map Fin.val = _
    rw [shmat_val h, Option.map_some]
  have hsize : (sysVOf stat s).segsz id.val = toInt32 mem.length := by
    show (shmat s (id.val : Int)).elim 0 _ = _
    rw [shmat_val h, Option.elim_some, shmSegsz_of h]
  unfold ihGetShmById
  rw [if_neg hneg]
  dsimp only
  rw [hat, hsize]

/-! ## Runs -/

/-- The segments, and the pointers that each process has been given. -/
structure ShmWorld where
  shms : Shms
  ptrs : Nat → List ShmId

inductive ShmEvent where
  /-- A broker, built with assertions or without, loads its file. -/
  | start (asserts : Bool) (a : ShmAlloc) (values : List CJson)
  /-- `ih_get_shm_by_id` -/
  | attach (pid : Nat) (shmId : Int)
  /-- `ih_get_shm_by_name` -/
  | lookup (pid : Nat) (infobuf name : Bytes)
  /-- A write through the `k`-th pointer. -/
  | store (pid k off : Nat) (bs : Bytes)
  | exit (pid : Nat)

namespace ShmWorld

def attached (w : ShmWorld) (pid : Nat) (out : ByName) : Option ShmWorld :=
  match out with
  | .outside => none
  | .returned _ (some (some ptr)) =>
      some { w with ptrs := Function.update w.ptrs pid (w.ptrs pid ++ [Fin.ofNat _ ptr]) }
  | .returned _ _ => some w

variable (stat : Bytes → Option (Nat × Nat))

/-- `none` where the process does what C promises nothing about. -/
def step (w : ShmWorld) : ShmEvent → Option ShmWorld
  | .start asserts a values =>
      some { w with shms := (Loading.getNodeStart asserts a stat values w.shms).2 }
  | .attach pid shmId => w.attached pid (ihGetShmById (sysVOf stat w.shms) shmId)
  | .lookup pid infobuf name =>
      w.attached pid (ihGetShmByName (sysVOf stat w.shms) infobuf name)
  | .store pid k off bs =>
      (w.ptrs pid)[k]?.bind fun id =>
        (w.shms.store id off bs).map fun shms => { w with shms := shms }
  | .exit pid => some { w with ptrs := Function.update w.ptrs pid [] }

/-- A read through the `k`-th pointer. -/
def read (w : ShmWorld) (pid k off n : Nat) : Option Bytes :=
  (w.ptrs pid)[k]?.bind fun id => (w.shms.memOf id).bind fun mem =>
    if off + n ≤ mem.length then some (peek mem off n) else none

variable {stat} {w w' : ShmWorld}

theorem attached_shms {pid : Nat} {out : ByName} (h : w.attached pid out = some w') :
    w'.shms = w.shms := by
  unfold attached at h
  split at h
  · cases h
  · rw [← Option.some.inj h]
  · rw [← Option.some.inj h]

/-- What a step does to the segments. -/
theorem step_shms {e : ShmEvent} (h : step stat w e = some w') :
    (∃ asserts a values, e = .start asserts a values ∧
        w'.shms = (Loading.getNodeStart asserts a stat values w.shms).2) ∨
      (∃ pid k off bs id, e = .store pid k off bs ∧ (w.ptrs pid)[k]? = some id ∧
        w.shms.store id off bs = some w'.shms) ∨
      w'.shms = w.shms := by
  cases e with
  | start asserts a values => exact .inl ⟨asserts, a, values, rfl, by rw [← Option.some.inj h]⟩
  | attach pid shmId => exact .inr (.inr (attached_shms h))
  | lookup pid infobuf name => exact .inr (.inr (attached_shms h))
  | store pid k off bs =>
      obtain ⟨id, hid, h⟩ := Option.bind_eq_some_iff.mp h
      obtain ⟨shms, hshms, rfl⟩ := Option.map_eq_some_iff.mp h
      exact .inr (.inl ⟨pid, k, off, bs, id, rfl, hid, hshms⟩)
  | exit pid => exact .inr (.inr (by rw [← Option.some.inj h]))

theorem step_persists {e : ShmEvent} (h : step stat w e = some w') : w.shms.Persists w'.shms := by
  rcases step_shms h with ⟨asserts, a, values, -, hshms⟩ | ⟨pid, k, off, bs, id, -, -, hstore⟩ | hsame
  · rw [hshms]
    exact (Gives.getNodeStart.clears w.shms).persists
  · exact .store hstore
  · rw [hsame]
    exact .refl _

/-- **Nothing is lost**: over any run, every key keeps its segment and every
segment its size. -/
theorem persists (h : Reaches (step stat) anyStep w w') : w.shms.Persists w'.shms :=
  h.invariant (I := fun t => w.shms.Persists t.shms) (.refl _)
    fun _ _ _ ht _ hs => ht.trans (step_persists hs)

/-! A machine with room for two segments, and a file with two elements. -/

def twoSegments : ShmAlloc where
  pick s _ := if s.memOf 0 = none then some 0 else if s.memOf 1 = none then some 1 else none
  fresh s _ id h := by
    split at h
    · rename_i h0
      rwa [← Option.some.inj h]
    · split at h
      · rename_i h1
        rwa [← Option.some.inj h]
      · cases h

def noRoom : ShmAlloc := ⟨fun _ _ => none, fun _ _ _ h => nomatch h⟩

def oneInode : Bytes → Option (Nat × Nat) := fun _ => some (1, 2)

def twoElements : CJson :=
  CJson.object
    [.stringItem keyName [104], shmArray [shmElement [109] 4, shmElement [110] 8]]

def empty : ShmWorld := ⟨.empty, fun _ => []⟩

/-- The broker has started, and every process has the second segment. -/
def shared : ShmWorld :=
  ⟨(Loading.getNodeStart false twoSegments oneInode [twoElements] SharedBlocks.empty).2, fun _ => [1]⟩

/-- What has been loaded while every `shm_create` gave a segment is answered by
the segments of any later time. -/
theorem getNodeStart_asked {asserts : Bool} {a : ShmAlloc} {values : List CJson} {r : NodeStart}
    {w₁ : ShmWorld} (hok : (Loading.getNodeStart asserts a stat values w.shms).1 = .ok r)
    (hmade : Loading.Succeeds a stat values w.shms)
    (hstart : step stat w (.start asserts a values) = some w₁)
    (hrun : Reaches (step stat) anyStep w₁ w') :
    getNodeStart (shmCreateOf stat w'.shms) values = .ok r := by
  have hw₁ : w₁.shms = (Loading.getNodeStart asserts a stat values w.shms).2 := by
    rw [← Option.some.inj hstart]
  obtain ⟨r', hr'⟩ := hmade
  have hserved := @Served.getNodeStart stat a values
  have hsame := hserved.relaxed asserts w.shms r' hr'
  rw [hsame] at hok hw₁
  exact hserved.lasts w.shms r w'.shms hok (hw₁ ▸ persists hrun)

/-- **A broker that has started with all its segments starts again**, whoever has
done what in between, wherever the machine would put new segments, and whether or
not either of them is built with assertions. It has the same lists and the same
segments, none of them lost or new, and everything in its tables is zero. -/
theorem start_again {asserts asserts' : Bool} {a a' : ShmAlloc} {values : List CJson}
    {r : NodeStart} {w₁ : ShmWorld}
    (hok : (Loading.getNodeStart asserts a stat values w.shms).1 = .ok r)
    (hmade : Loading.Succeeds a stat values w.shms)
    (hstart : step stat w (.start asserts a values) = some w₁)
    (hrun : Reaches (step stat) anyStep w₁ w') :
    let after := Loading.getNodeStart asserts' a' stat values w'.shms
    after.1 = .ok r ∧ w'.shms.Persists after.2 ∧ after.2.Persists w'.shms ∧
      ∀ h ∈ r.heap, h.node.Laid true stat after.2 := by
  intro after
  have hask := getNodeStart_asked hok hmade hstart hrun
  have hserved := @Served.getNodeStart stat a' values
  obtain ⟨hagain, hback⟩ := hserved.again w'.shms r hask
  have hsame : after = Loading.getNodeStart true a' stat values w'.shms :=
    hserved.relaxed asserts' w'.shms r hagain
  rw [hsame]
  exact ⟨hagain, (hserved.clears w'.shms).persists, hback, fun h hh =>
    Gives.getNodeStart.holds w'.shms r hagain _ (.refl _) h hh⟩

/-- On a machine that has no room left, behind a client that has written. -/
theorem start_again_one : ∃ r w₁ w',
    step oneInode empty (.start false twoSegments [twoElements]) = some w₁ ∧
    Reaches (step oneInode) anyStep w₁ w' ∧
    let after := Loading.getNodeStart false noRoom oneInode [twoElements] w'.shms
    after.1 = .ok r ∧ w'.shms.Persists after.2 ∧ after.2.Persists w'.shms ∧
      ∀ h ∈ r.heap, h.node.Laid true oneInode after.2 := by
  obtain ⟨w', hrun⟩ : ∃ w', Reaches (step oneInode) anyStep
      ⟨(Loading.getNodeStart false twoSegments oneInode [twoElements] empty.shms).2, empty.ptrs⟩ w' :=
    ⟨_, .tail (.tail .refl ⟨.attach 7 1, trivial, rfl⟩) ⟨.store 7 0 2 [5, 6], trivial, rfl⟩⟩
  exact ⟨_, _, w', rfl, hrun,
    start_again (a := twoSegments) (w := empty) rfl ⟨_, rfl⟩ rfl hrun⟩

/-! ## One process writes, another reads -/

/-- The step leaves these bytes of the segment of this key alone: no broker starts
that has the key for an entry of its file, and no one writes over them. -/
def Quiet (stat : Bytes → Option (Nat × Nat)) (key : Int) (id : ShmId) (off n : Nat)
    (w : ShmWorld) : ShmEvent → Prop
  | .start _ _ values => ¬ Served.confKeys stat values key
  | .store pid k off' bs =>
      (w.ptrs pid)[k]? = some id → off + n ≤ off' ∨ off' + bs.length ≤ off
  | _ => True

/-- These bytes are in the segment of this key. -/
structure Contains (w : ShmWorld) (key : Int) (id : ShmId) (off : Nat) (bs : Bytes) : Prop where
  idOf : w.shms.idOf key = some id
  memOf : ∃ mem, w.shms.memOf id = some mem ∧ off + bs.length ≤ mem.length ∧
    peek mem off bs.length = bs

variable {key : Int} {id : ShmId} {off : Nat} {bs : Bytes}

/-- **A quiet step** keeps the bytes. -/
theorem Contains.kept {e : ShmEvent} (h : w.Contains key id off bs)
    (hquiet : Quiet stat key id off bs.length w e) (hstep : step stat w e = some w') :
    w'.Contains key id off bs := by
  obtain ⟨hkey, mem, hmem, hle, hpeek⟩ := h
  rcases step_shms hstep with
    ⟨asserts, a, values, rfl, hshms⟩ | ⟨pid, k, off', bs', id', rfl, hptr, hstore⟩ | hsame
  · have hgives := @Gives.getNodeStart a stat asserts values
    have hkey' := (hgives.clears w.shms).idOf key id hkey
    refine ⟨hshms ▸ hkey', mem, hshms ▸ hgives.others w.shms id mem hmem fun k hk hid => ?_, hle, hpeek⟩
    rw [SharedBlocks.apart _ k key id hid hkey'] at hk
    exact hquiet hk
  · obtain ⟨mem', hmem', hle', hidOf, hmemOf⟩ := SharedBlocks.store_eq_some hstore
    refine ⟨hidOf ▸ hkey, ?_⟩
    rw [hmemOf]
    by_cases hid : id = id'
    · subst hid
      obtain rfl := Option.some.inj (hmem.symm.trans hmem')
      have hoff : off' ≤ mem.length := Nat.le_of_add_right_le hle'
      refine ⟨_, Function.update_self .., ?_, ?_⟩
      · rwa [store_length _ _ _ hoff, Nat.max_eq_left hle']
      · rw [peek_store_of_disjoint hoff (hquiet hptr), hpeek]
    · exact ⟨mem, (Function.update_of_ne hid ..).trans hmem, hle, hpeek⟩
  · exact ⟨hsame ▸ hkey, mem, hsame ▸ hmem, hle, hpeek⟩

theorem Contains.of_store {pid k : Nat} (hkey : w.shms.idOf key = some id)
    (hptr : (w.ptrs pid)[k]? = some id) (h : step stat w (.store pid k off bs) = some w') :
    w'.Contains key id off bs := by
  obtain ⟨id', hid', hstore⟩ := Option.bind_eq_some_iff.mp h
  obtain rfl := Option.some.inj (hptr.symm.trans hid')
  obtain ⟨shms, hshms, rfl⟩ := Option.map_eq_some_iff.mp hstore
  obtain ⟨mem, hmem, hle, hidOf, hmemOf⟩ := SharedBlocks.store_eq_some hshms
  have hoff : off ≤ mem.length := Nat.le_of_add_right_le hle
  refine ⟨hidOf ▸ hkey, _, hmemOf ▸ Function.update_self .., ?_, peek_store mem off bs hoff⟩
  rwa [store_length _ _ _ hoff, Nat.max_eq_left hle]

theorem Contains.read {pid k : Nat} (h : w.Contains key id off bs)
    (hptr : (w.ptrs pid)[k]? = some id) : w.read pid k off bs.length = some bs := by
  obtain ⟨-, mem, hmem, hle, hpeek⟩ := h
  rw [ShmWorld.read, hptr, Option.bind_some, hmem, Option.bind_some, if_pos hle, hpeek]

/-- **What one process writes, another reads**, over any run in which no one
writes there and no broker starts that has the segment in its file. -/
theorem read_stored {pid pid' k k' : Nat} {w₁ : ShmWorld} (hkey : w.shms.idOf key = some id)
    (hptr : (w.ptrs pid)[k]? = some id) (hstore : step stat w (.store pid k off bs) = some w₁)
    (hrun : Reaches (step stat) (Quiet stat key id off bs.length) w₁ w')
    (hptr' : (w'.ptrs pid')[k']? = some id) : w'.read pid' k' off bs.length = some bs := by
  have hcontains : w'.Contains key id off bs :=
    hrun.invariant (I := fun t => t.Contains key id off bs) (.of_store hkey hptr hstore)
      fun _ _ _ ht hquiet hs => ht.kept hquiet hs
  exact hcontains.read hptr'

/-- Two processes on the second segment. -/
theorem read_stored_one : ∃ w₁ w', step oneInode shared (.store 1 0 2 [5, 6]) = some w₁ ∧
    step oneInode w₁ (.store 2 0 4 [9]) = some w' ∧ w'.read 2 0 2 2 = some [5, 6] := by
  refine ⟨_, _, rfl, rfl, @read_stored oneInode shared _
    (ftok oneInode (some (Served.shmFile twoElements)) 2) 1 2 [5, 6] 1 2 0 0 _ rfl rfl rfl ?_ rfl⟩
  exact .tail .refl ⟨.store 2 0 4 [9], fun _ => .inl (by decide), rfl⟩

end ShmWorld

/-! ## The segment of a name -/

/-- The project id that `shm_create` uses for the entry at position `i`. -/
def entryProj (i : Nat) : UInt8 := if 0 < UInt8.ofNat (i + 1) then UInt8.ofNat (i + 1) else 1

section Entries

variable {create : Bytes → UInt8 → Int → Option Int} {json : CJson}

theorem LoadsAs.name {n : PubSubNode} (h : LoadsAs create json n) : n.name = (nameOf json).getD [] := by
  obtain ⟨node, hnode, rfl⟩ := h
  exact (nameOf_getD (loadedIn hnode).name).symm

end Entries

/-! ### The table in a buffer -/

section Table

variable {table : List ShmNode} {e : ShmNode} {i : Nat} {rest : Bytes}

theorem tableBytes_drop (h : table[i]? = some e) (rest : Bytes) :
    ∃ rest', (tableBytes table ++ rest).drop (sizeofShmNode * i) = e.bytes ++ rest' := by
  induction table generalizing i with
  | nil => cases h
  | cons n table ih =>
      rw [tableBytes, List.flatMap_cons, List.append_assoc]
      cases i with
      | zero =>
          obtain rfl := Option.some.inj h
          exact ⟨_, rfl⟩
      | succ i =>
          obtain ⟨rest', hrest'⟩ := ih (i := i) h
          have hn : n.bytes.length = sizeofShmNode := by simp [ShmNode.bytes, intBytes, sizeofShmNode]
          refine ⟨rest', ?_⟩
          rw [Nat.mul_succ, Nat.add_comm, ← List.drop_drop, ← hn, List.drop_left, hn]
          exact hrest'

/-- The name of an entry is read back, if it is a string that fits. -/
theorem stringIn_bytes (hstr : 0 ∉ e.shmName) (hlt : e.shmName.length < maxFileName) :
    stringIn (e.bytes ++ rest) = some e.shmName := by
  obtain ⟨m, hm⟩ : ∃ m, 32 = e.shmName.length + (m + 1) :=
    ⟨31 - e.shmName.length, by rw [maxFileName] at hlt; omega⟩
  have hzeros : peek e.shmName e.shmName.length (m + 1) = 0 :: List.replicate m 0 :=
    peek_eq_replicate fun i hi _ => List.getD_eq_default _ _ hi
  have hbytes : e.bytes ++ rest = e.shmName ++ 0 ::
      (List.replicate m 0 ++ (intBytes e.shmId ++ (intBytes e.shmSize ++ rest))) := by
    rw [ShmNode.bytes, hm, peek_add, peek_eq _ _ _ (by omega), List.drop_zero, List.take_length,
      Nat.zero_add, hzeros]
    simp only [List.append_assoc, List.cons_append]
  rw [hbytes, stringIn, if_pos (List.mem_append_right _ List.mem_cons_self), cString_append hstr]

/-- So is its id. -/
theorem shmIdIn_bytes {id : ShmId} (hid : e.shmId = id.val) : shmIdIn (e.bytes ++ rest) = id.val := by
  have hlt : id.val < 2147483648 := id.isLt
  have hbyte : ∀ k, k < 4 → byteAt (e.bytes ++ rest) (32 + k) = (intBytes e.shmId).getD k 0 := by
    intro k hk
    rw [byteAt, ShmNode.bytes, List.append_assoc, List.append_assoc,
      List.getD_append_right _ _ _ _ (by simp), peek_length, Nat.add_sub_cancel_left,
      List.getD_append _ _ _ _ (by simpa using hk)]
    rfl
  have h0 : byteAt (e.bytes ++ rest) 32 = toU8 id.val := by rw [hbyte 0 (by decide), hid]; rfl
  have h1 : byteAt (e.bytes ++ rest) 33 = toU8 ((id.val : Int) / 256) := by
    rw [hbyte 1 (by decide), hid]; rfl
  have h2 : byteAt (e.bytes ++ rest) 34 = toU8 ((id.val : Int) / 65536) := by
    rw [hbyte 2 (by decide), hid]; rfl
  have h3 : byteAt (e.bytes ++ rest) 35 = toU8 ((id.val : Int) / 16777216) := by
    rw [hbyte 3 (by decide), hid]; rfl
  have hval : ∀ x : Int, 0 ≤ x → (toU8 x).toNat = (x % 256).toNat := by
    intro x hx
    rw [toU8, UInt8.toNat_ofNat']
    omega
  rw [shmIdIn, h0, h1, h2, h3, hval _ (by omega), hval _ (by omega), hval _ (by omega),
    hval _ (by omega)]
  have hsum : (((id.val : Int) % 256).toNat + 256 * (((id.val : Int) / 256 % 256).toNat
      + 256 * (((id.val : Int) / 65536 % 256).toNat + 256 * ((id.val : Int) / 16777216 % 256).toNat)) : Nat)
      = id.val := by
    omega
  rw [hsum, toInt32_eq (by omega) (by omega)]

/-- What tells an entry from those in front of it. -/
structure Findable (table : List ShmNode) (i : Nat) (e : ShmNode) : Prop where
  entry : table[i]? = some e
  strings : ∀ e' ∈ table, 0 ∉ e'.shmName ∧ e'.shmName.length < maxFileName
  others : ∀ j e', j < i → table[j]? = some e' → e'.shmName ≠ [] ∧ e'.shmName ≠ e.shmName

/-- **The search finds it**, whatever is behind the table. -/
theorem Findable.finds (h : Findable table i e) (sys : SysV) (rest : Bytes) {id : ShmId}
    (hid : e.shmId = id.val) :
    ihGetShmByName sys (tableBytes table ++ rest) e.shmName = ihGetShmById sys id.val := by
  have hname : ∀ {j e'}, table[j]? = some e' →
      entryAt (tableBytes table ++ rest) j = some e'.shmName := by
    intro j e' hj
    obtain ⟨rest', hrest'⟩ := tableBytes_drop hj rest
    obtain ⟨hstr, hlt⟩ := h.strings e' (List.mem_of_getElem? hj)
    rw [entryAt, hrest', stringIn_bytes hstr hlt]
  have hpass : ∀ j, j < i → GoesOn (tableBytes table ++ rest) e.shmName j := by
    intro j hj
    have hlt : j < table.length := Nat.lt_trans hj (List.getElem?_eq_some_iff.mp h.entry).1
    have hje := List.getElem?_eq_getElem hlt
    obtain ⟨hne, hother⟩ := h.others j _ hj hje
    exact ⟨_, hname hje, hne, hother⟩
  obtain ⟨rest', hrest'⟩ := tableBytes_drop h.entry rest
  have hlen : ¬ (e.bytes ++ rest').length < 36 := by
    rw [List.length_append]
    simp [ShmNode.bytes, intBytes]
    omega
  rw [ihGetShmByName_drop hpass, ihGetShmByName_some (hname h.entry), if_pos rfl, hrest',
    if_neg hlen, shmIdIn_bytes hid]

end Table

/-! ### From the file to the segment -/

namespace ShmWorld

variable {stat : Bytes → Option (Nat × Nat)} {w w₁ w' : ShmWorld} {asserts : Bool} {a : ShmAlloc}
  {values : List CJson} {r : NodeStart} {json : CJson} {n : PubSubNode} {table : List ShmNode}

/-- The segment of the entry at position `i` of this value's table. -/
structure Holds (stat : Bytes → Option (Nat × Nat)) (w : ShmWorld) (json : CJson) (i : Nat)
    (e : ShmNode) (id : ShmId) : Prop where
  shmId : e.shmId = id.val
  idOf : w.shms.idOf (ftok stat (some (Served.shmFile json)) (entryProj i).toNat) = some id
  size : toSizeT e.shmSize ≤ shmSegsz w.shms id

/-- The head node is loaded from the head value, in either build. -/
theorem head_loaded (hok : (Loading.getNodeStart asserts a stat values w.shms).1 = .ok r)
    (hjson : headValue values = some json) (hn : r.head = some n) :
    LoadsAs Erases.zeroId json n.withoutIds := by
  have hrelaxed : (Loading.getNodeStart false a stat values w.shms).1 = .ok r := by
    cases asserts with
    | true => rw [Served.getNodeStart.relaxed false w.shms r hok, hok]
    | false => exact hok
  have hzero := @Erases.getNodeStart a stat values w.shms
  rw [hrelaxed] at hzero
  obtain ⟨⟨json', n', hjson', hn', hload⟩, -⟩ := getNodeStart_listed hzero.symm
  obtain rfl := Option.some.inj (hjson.symm.trans hjson')
  have hhead : r.withoutIds.head = r.head.map PubSubNode.withoutIds := by
    unfold NodeStart.head NodeStart.withoutIds
    rw [List.getElem?_map]
    cases r.heap[r.result]? <;> rfl
  rw [hhead, hn] at hn'
  rwa [Option.some.inj hn']

/-- An entry that `shm_create` has given a segment for has it from then on. -/
theorem holds_of_start {i : Nat} {e : ShmNode}
    (hok : (Loading.getNodeStart asserts a stat values w.shms).1 = .ok r)
    (hstart : step stat w (.start asserts a values) = some w₁)
    (hrun : Reaches (step stat) anyStep w₁ w') (hjson : headValue values = some json)
    (hn : r.head = some n) (hptr : n.shmNodePtr = some table) (he : table[i]? = some e)
    (hmade : e.shmId ≠ 0 ∨ Loading.Succeeds a stat values w.shms) :
    ∃ id, Holds stat w' json i e id := by
  have hw₁ : w₁.shms = (Loading.getNodeStart asserts a stat values w.shms).2 := by
    rw [← Option.some.inj hstart]
  obtain ⟨h, hheap, rfl⟩ := Option.map_eq_some_iff.mp hn
  have hmem := List.mem_of_getElem? hheap
  have hfile : namePrefix ++ h.node.name = Served.shmFile json := by
    rw [Served.shmFile, ← (head_loaded hok hjson hn).name]
    rfl
  have hlaid : e.Laid true w₁.shms (projKey stat (Served.shmFile json) (0 + UInt8.ofNat (i + 1))) := by
    rw [← hfile, hw₁]
    rcases hmade with hne | ⟨r', hr'⟩
    · have hgives := Gives.getNodeStart.holds w.shms r hok _ (.refl _) h hmem table hptr i e he
      exact .inl (hgives.resolve_right fun hzero => hne hzero.2)
    · have hsame := (@Served.getNodeStart stat a values).relaxed asserts w.shms r' hr'
      rw [hsame] at hok ⊢
      exact Gives.getNodeStart.holds w.shms r hok _ (.refl _) h hmem table hptr i e he
  obtain ⟨id, hval, hidOf, mem, hmem, hle, -⟩ := hlaid.resolve_right fun hfalse => by cases hfalse.1
  rw [UInt8.zero_add] at hidOf
  refine ⟨id, hval, (persists hrun).idOf _ id hidOf, ?_⟩
  rwa [shmSegsz_persists (persists hrun) hidOf, shmSegsz_of hmem]

/-- **From the file to the segment.** A client that looks a name up in the table
of a broker, at any time after that has started, gets the segment that the entry
has in the file, and it is large enough, if the entry has got one. -/
theorem segment_of_name {i : Nat} {e : ShmNode} {rest : Bytes}
    (hok : (Loading.getNodeStart asserts a stat values w.shms).1 = .ok r)
    (hstart : step stat w (.start asserts a values) = some w₁)
    (hrun : Reaches (step stat) anyStep w₁ w') (hjson : headValue values = some json)
    (hn : r.head = some n) (hptr : n.shmNodePtr = some table) (hfind : Findable table i e)
    (hmade : e.shmId ≠ 0 ∨ Loading.Succeeds a stat values w.shms) :
    ∃ id mem, w'.shms.idOf (ftok stat (some (Served.shmFile json)) (entryProj i).toNat) = some id ∧
      w'.shms.memOf id = some mem ∧ toSizeT e.shmSize ≤ mem.length ∧
      ihGetShmByName (sysVOf stat w'.shms) (tableBytes table ++ rest) e.shmName
        = .returned (toInt32 mem.length) (some (some id.val)) := by
  obtain ⟨id, hid, hidOf, hle⟩ := holds_of_start hok hstart hrun hjson hn hptr hfind.entry hmade
  obtain ⟨mem, hmem⟩ := w'.shms.backed _ id hidOf
  refine ⟨id, mem, hidOf, hmem, shmSegsz_of hmem ▸ hle, ?_⟩
  rw [hfind.finds _ rest hid, ihGetShmById_val hmem]

/-- The second element of two. -/
theorem segment_of_name_one : ∃ r n table w₁,
    (Loading.getNodeStart false twoSegments oneInode [twoElements] empty.shms).1 = .ok r ∧
      r.head = some n ∧ n.shmNodePtr = some table ∧
      step oneInode empty (.start false twoSegments [twoElements]) = some w₁ ∧
      ∃ id mem, w₁.shms.idOf (ftok oneInode (some (Served.shmFile twoElements))
          (entryProj 1).toNat) = some id ∧ w₁.shms.memOf id = some mem ∧ toSizeT 8 ≤ mem.length ∧
        ihGetShmByName (sysVOf oneInode w₁.shms) (tableBytes table ++ []) [110]
          = .returned (toInt32 mem.length) (some (some id.val)) := by
  refine ⟨_, _, _, _, rfl, rfl, rfl, rfl, segment_of_name (a := twoSegments) (w := empty) (i := 1)
    (e := ⟨[110], 1, 8⟩) rfl rfl (Reaches.refl _) rfl rfl rfl ⟨rfl, ?_, ?_⟩ (.inl (by decide))⟩
  · intro e' he'
    rcases List.mem_pair.mp he' with rfl | rfl <;> exact ⟨by decide, by decide⟩
  · intro j e' hj he'
    obtain rfl := Nat.lt_one_iff.mp hj
    obtain rfl := Option.some.inj he'
    exact ⟨by decide, by decide⟩

/-- **Which entries share a segment**, of those that have got one: none, as long
as the file is there and the counter has not come round. -/
theorem entries_share_iff {i j : Nat} {e e' : ShmNode}
    (hok : (Loading.getNodeStart asserts a stat values w.shms).1 = .ok r)
    (hjson : headValue values = some json) (hn : r.head = some n)
    (hptr : n.shmNodePtr = some table) (hi : table[i]? = some e) (hj : table[j]? = some e')
    (hmade : e.shmId ≠ 0 ∨ Loading.Succeeds a stat values w.shms)
    (hmade' : e'.shmId ≠ 0 ∨ Loading.Succeeds a stat values w.shms) :
    e.shmId = e'.shmId ↔
      stat (Served.shmFile json) = none ∨ entryProj i = entryProj j := by
  obtain ⟨id, hid, hidOf, -⟩ := holds_of_start hok rfl (Reaches.refl _) hjson hn hptr hi hmade
  obtain ⟨id', hid', hidOf', -⟩ := holds_of_start hok rfl (Reaches.refl _) hjson hn hptr hj hmade'
  rw [← ftok_eq_iff, hid, hid']
  constructor
  · intro h
    obtain rfl := Fin.ext (Int.ofNat.inj h)
    exact SharedBlocks.apart _ _ _ _ hidOf hidOf'
  · intro h
    rw [h] at hidOf
    rw [Option.some.inj (hidOf.symm.trans hidOf')]

theorem entries_share_two : ∃ r n table,
    (Loading.getNodeStart false twoSegments oneInode [twoElements] empty.shms).1 = .ok r ∧
      r.head = some n ∧ n.shmNodePtr = some table ∧
      ((0 : Int) = 1 ↔ oneInode (Served.shmFile twoElements) = none ∨ entryProj 0 = entryProj 1) := by
  obtain ⟨r, n, table, hok, hn, hptr, h0, h1⟩ : ∃ r n table,
      (Loading.getNodeStart false twoSegments oneInode [twoElements] empty.shms).1 = .ok r ∧
        r.head = some n ∧ n.shmNodePtr = some table ∧ table[0]? = some ⟨[109], 0, 4⟩ ∧
        table[1]? = some ⟨[110], 1, 8⟩ := ⟨_, _, _, rfl, rfl, rfl, rfl, rfl⟩
  have hmade : Loading.Succeeds twoSegments oneInode [twoElements] empty.shms := ⟨_, rfl⟩
  exact ⟨r, n, table, hok, hn, hptr, entries_share_iff hok rfl hn hptr h0 h1 (.inr hmade) (.inr hmade)⟩

/-- The table of the file, as the broker answers with it. -/
theorem hasTable_of_start (hok : (Loading.getNodeStart asserts a stat values w.shms).1 = .ok r)
    (hjson : headValue values = some json) (hn : r.head = some n) (hptr : n.shmNodePtr = some table)
    (hle : table.length ≤ 255) : n.HasTable table := by
  have htabled := (head_loaded hok hjson hn).tabled
  have hshm : n.withoutIds.shmTable = (some (table.map ShmNode.withoutId), n.shmNodeNum) := by
    rw [PubSubNode.shmTable, PubSubNode.withoutIds, hptr]
    rfl
  rw [hshm] at htabled
  generalize hnum : n.shmNodeNum = num at htabled
  generalize shmItems json = items at htabled
  cases htabled with
  | some hitems =>
      have hlen := hitems.length_eq
      rw [List.length_map] at hlen
      refine ⟨by rw [hptr, Option.getD_some], ?_, hle⟩
      rw [hnum]
      omega

/-- **From the file to the pointer.** A client asks a broker for its table, over
its socket and with broadcasts in between that fit its buffers, and looks a name
up in what it has received. It gets the segment that the entry has in the file, if
the entry has got one. -/
theorem discovered_segment {i : Nat} {e : ShmNode} {c : Client} {buffer : Bytes}
    {bs bs' : List Frame} {es : Stream' Bool}
    (hok : (Loading.getNodeStart asserts a stat values w.shms).1 = .ok r)
    (hstart : step stat w (.start asserts a values) = some w₁)
    (hrun : Reaches (step stat) anyStep w₁ w') (hjson : headValue values = some json)
    (hn : r.head = some n) (hptr : n.shmNodePtr = some table) (hle : table.length ≤ 255)
    (hfind : Findable table i e) (hmade : e.shmId ≠ 0 ∨ Loading.Succeeds a stat values w.shms)
    (hfd : 0 ≤ c.connfd) (hint : buffer.length < 2147483648)
    (hroom : sizeofShmNode * table.length ≤ buffer.length) (hnum : NumArrives c n bs)
    (hinfo : InfoArrives c n buffer.length bs bs') (hes : Recurs true es) :
    ∃ q es', Leads Query.step (ihGetShmInfos c buffer buffer.length, es) (q, es') ∧
      q.pc = .returned table.length ∧
      ∃ id mem, w'.shms.idOf (ftok stat (some (Served.shmFile json)) (entryProj i).toNat) = some id ∧
        w'.shms.memOf id = some mem ∧ toSizeT e.shmSize ≤ mem.length ∧
        ihGetShmByName (sysVOf stat w'.shms) q.buffer e.shmName
          = .returned (toInt32 mem.length) (some (some id.val)) := by
  have ht := hasTable_of_start hok hjson hn hptr hle
  obtain ⟨id, hid, hidOf, hsize⟩ := holds_of_start hok hstart hrun hjson hn hptr hfind.entry hmade
  obtain ⟨mem, hmem⟩ := w'.shms.backed _ id hidOf
  have hpos : 0 < table.length :=
    Nat.zero_lt_of_lt (List.getElem?_eq_some_iff.mp hfind.entry).1
  obtain ⟨hk, hlen⟩ := hnum.numAt ht
  obtain ⟨hm, hbody⟩ := hinfo.firstAt ht (List.ne_nil_of_length_pos hpos)
  have hkilled : sendRet (firstAsk c) protocolCmdHeadLen ≠ .killed := by
    rw [hnum.asked]
    exact Ret.noConfusion
  have hint' : (buffer.length : Int) < 2147483648 := by omega
  have hsizet : (toSizeT (buffer.length : Int) : Int) = buffer.length :=
    toSizeT_of_nonneg (Int.natCast_nonneg _) hint'
  have hwanted : Wanted c buffer.length bs.length :=
    ⟨by rw [hlen]; exact Nat.ne_of_gt hpos, by rw [hlen]; omega⟩
  obtain ⟨q, es', hlead, hpc, -, b, hbuf⟩ :=
    Query.leads_done hfd buffer hkilled ⟨hk, hwanted, hinfo.asked⟩ hm hes
  rw [hbody] at hpc hbuf
  refine ⟨q, es', hlead, ?_, id, mem, hidOf, hmem, shmSegsz_of hmem ▸ hsize, ?_⟩
  · rw [hpc, tableBytes_length, Nat.mul_div_cancel_left _ (by decide)]
  · rw [hbuf, store, List.take_zero, List.nil_append, hfind.finds _ _ hid, ihGetShmById_val hmem]

/-- What `twoElements` is loaded to. -/
def twoEntries : PubSubNode where
  name := [104]
  id := 0
  shmNodePtr := some [⟨[109], 0, 4⟩, ⟨[110], 1, 8⟩]
  shmNodeNum := 2

/-- The second of them, behind a broadcast. -/
theorem discovered_segment_one :
    let c := Client.eager ((broadcastOf 120).bytes
      ++ replyBytes twoEntries (requestFrame ihReserveCmdIdGetShmNum)
      ++ replyBytes twoEntries (requestFrame ihReserveCmdIdGetShmInfo))
    ∃ w₁ q es', step oneInode empty (.start false twoSegments [twoElements]) = some w₁ ∧
      Leads Query.step (ihGetShmInfos c (List.replicate 80 0) 80, Stream'.const true) (q, es') ∧
      q.pc = .returned 2 ∧
      ∃ id mem, w₁.shms.idOf (ftok oneInode (some (Served.shmFile twoElements))
          (entryProj 1).toNat) = some id ∧ w₁.shms.memOf id = some mem ∧ toSizeT 8 ≤ mem.length ∧
        ihGetShmByName (sysVOf oneInode w₁.shms) q.buffer [110]
          = .returned (toInt32 mem.length) (some (some id.val)) := by
  intro c
  have hb : ∀ f ∈ [broadcastOf 120], getProtocolCmdId f.head = ihCmdIdDefault ∧ f.body.length = 1 := by
    intro f hf
    obtain rfl := List.mem_singleton.mp hf
    exact ⟨rfl, rfl⟩
  have hwhole : ∀ i, i ≤ 2 → (c.sock.nth i).Whole := by decide +kernel
  have hnum : NumArrives c twoEntries [broadcastOf 120] := by
    refine ⟨by decide +kernel, fun f hf => ⟨(hb f hf).1, ?_⟩, ⟨_, rfl⟩,
      fun i hi => hwhole i (Nat.le_trans hi (by decide))⟩
    rw [(hb f hf).2]
    decide
  have hinfo : InfoArrives c twoEntries 80 [broadcastOf 120] [] :=
    ⟨by decide +kernel, fun f hf => absurd hf (List.not_mem_nil), ⟨_, rfl⟩, fun i _ hi => hwhole i hi⟩
  have hfind : Findable [⟨[109], 0, 4⟩, ⟨[110], 1, 8⟩] 1 ⟨[110], 1, 8⟩ := by
    refine ⟨rfl, ?_, ?_⟩
    · intro e' he'
      rcases List.mem_pair.mp he' with rfl | rfl <;> exact ⟨by decide, by decide⟩
    · intro j e' hj he'
      obtain rfl := Nat.lt_one_iff.mp hj
      obtain rfl := Option.some.inj he'
      exact ⟨by decide, by decide⟩
  obtain ⟨w₁, hw₁⟩ : ∃ w₁, step oneInode empty (.start false twoSegments [twoElements]) = some w₁ :=
    ⟨_, rfl⟩
  obtain ⟨r, hok, hr⟩ : ∃ r, (Loading.getNodeStart false twoSegments oneInode [twoElements]
      empty.shms).1 = .ok r ∧ r.head = some twoEntries := ⟨_, rfl, rfl⟩
  have hroom : sizeofShmNode * 2 ≤ (List.replicate 80 (0 : UInt8)).length := by decide
  obtain ⟨q, es', hlead, hpc, hfound⟩ := discovered_segment (w := empty) hok hw₁ (Reaches.refl _)
    rfl hr rfl (by decide) hfind (.inl (by decide)) (by decide) (by decide) hroom hnum hinfo (recurs_const true)
  exact ⟨w₁, q, es', hw₁, hlead, hpc, hfound⟩

end ShmWorld

end Icehydra
