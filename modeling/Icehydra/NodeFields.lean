import Icehydra.ConfText
import Icehydra.Keys

/-!
# NodeFields — a node in memory while it is loaded

`get_icehydra_json_node` once more, on the bytes of `pub_sub_node_t` instead of
its fields. `strcpy` is told nothing of the 32 bytes of `name`: what does not fit
goes on in the fields behind, and the rounds that follow write over some of it.
Ints and enums have four bytes, pointers eight.
-/

namespace Icehydra

open Block

/-! ## pub_sub_node_t -/

def offType : Nat := 32
def offCpuBind : Nat := 36
def offId : Nat := 40
def offConnfd : Nat := 44
def offNodeList : Nat := 48
def offShmNodePtr : Nat := 64
def offShmNodeNum : Nat := 72
def offPubLinksNum : Nat := 76
def sizeofPubSubNode : Nat := 80

def ChunkTypes.value : ChunkTypes → Int
  | .err => 0
  | .pub => 1
  | .sub => 2

@[simp] theorem intBytes_length (x : Int) : (intBytes x).length = 4 := rfl

/-- A pointer in memory, by its address. -/
def ptrBytes (addr : Nat) : Bytes := intBytes addr ++ intBytes (addr / 4294967296 : Nat)

/-- The bytes of the struct, and what lies behind `shm_node_ptr` once it is set. -/
structure RawNode where
  bytes : Bytes
  table : Option (List ShmNode)

namespace RawNode

/-- `create_pub_sub_object`. -/
def fresh : RawNode := ⟨List.replicate sizeofPubSubNode 0, none⟩

/-- An assignment to a field. -/
def set (obj : RawNode) (off : Nat) (bs : Bytes) : RawNode :=
  { obj with bytes := store obj.bytes off bs }

/-- `strcpy(sub_pub_obj->name,object->valuestring)`: an overrun is one of the
struct. -/
def strcpyName (obj : RawNode) (object : CJson) : Load RawNode :=
  match object.valuestring with
  | none => .ended
  | some src =>
      if src.length < sizeofPubSubNode then .ok (obj.set 0 (src ++ [0])) else .overrun

def setPid (obj : RawNode) (object : CJson) : RawNode :=
  let type : ChunkTypes := if object.valueint = 0 then .pub else .sub
  (obj.set offId (intBytes object.valueint)).set offType (intBytes type.value)

def setCpuBind (obj : RawNode) (object : CJson) : RawNode :=
  obj.set offCpuBind (intBytes object.valueint)

section Shm

-- `addr` is where `calloc` puts the table.
variable (shmCreate : Bytes → UInt8 → Int → Option Int) (addr : Nat)

/-- `init_shm`; a name that is inside the struct fits into `filename`. -/
def initShm (obj : RawNode) (json : CJson) : Load RawNode := do
  let obj := obj.set offShmNodePtr (ptrBytes addr)
  let r ← initShmLoop shmCreate (namePrefix ++ cString obj.bytes) 0 json.child
  pure ⟨store obj.bytes offShmNodeNum (intBytes r.2.toNat), some r.1⟩

def branches : Branches RawNode where
  name := strcpyName
  pid := setPid
  cpuBind := setCpuBind
  shm := initShm shmCreate addr

def getIcehydraJsonNode (json : CJson) : Load RawNode := (branches shmCreate addr).run json fresh

end Shm

/-! ## What one round writes -/

section Writes

variable {obj : RawNode} {object : CJson} {off off' m n : Nat} {bs : Bytes}
  (hsize : obj.bytes.length = sizeofPubSubNode)

include hsize

theorem set_size (hlen : bs.length = m) (h : off + m ≤ sizeofPubSubNode) :
    (obj.set off bs).bytes.length = sizeofPubSubNode := by
  rw [set, store_length _ _ _ (by omega)]
  omega

theorem peek_set (hlen : bs.length = m) (h : off ≤ sizeofPubSubNode) :
    peek (obj.set off bs).bytes off m = bs := by
  rw [← hlen]
  exact peek_store _ _ _ (by omega)

theorem peek_set_of_disjoint (hlen : bs.length = m) (h : off ≤ sizeofPubSubNode)
    (hd : off' + n ≤ off ∨ off + m ≤ off') :
    peek (obj.set off bs).bytes off' n = peek obj.bytes off' n :=
  peek_store_of_disjoint (by omega) (by omega)

theorem setPid_size : (obj.setPid object).bytes.length = sizeofPubSubNode :=
  set_size (set_size hsize (intBytes_length _) (by decide)) (intBytes_length _) (by decide)

theorem setPid_id : peek (obj.setPid object).bytes offId 4 = intBytes object.valueint := by
  rw [setPid, peek_set_of_disjoint (set_size hsize (intBytes_length _) (by decide))
    (intBytes_length _) (by decide) (.inr (by decide))]
  exact peek_set hsize (intBytes_length _) (by decide)

theorem setPid_type :
    peek (obj.setPid object).bytes offType 4
      = intBytes (if object.valueint = 0 then ChunkTypes.pub else .sub).value :=
  peek_set (set_size hsize (intBytes_length _) (by decide)) (intBytes_length _) (by decide)

theorem setPid_other
    (h : off + n ≤ offType ∨ (offCpuBind ≤ off ∧ off + n ≤ offId) ∨ offConnfd ≤ off) :
    peek (obj.setPid object).bytes off n = peek obj.bytes off n := by
  simp only [offType, offCpuBind, offId, offConnfd] at h
  rw [setPid, peek_set_of_disjoint (set_size hsize (intBytes_length _) (by decide))
      (intBytes_length _) (by decide) (by rw [offType]; omega),
    peek_set_of_disjoint hsize (intBytes_length _) (by decide) (by rw [offId]; omega)]

theorem setCpuBind_size : (obj.setCpuBind object).bytes.length = sizeofPubSubNode :=
  set_size hsize (intBytes_length _) (by decide)

theorem setCpuBind_cpuBind :
    peek (obj.setCpuBind object).bytes offCpuBind 4 = intBytes object.valueint :=
  peek_set hsize (intBytes_length _) (by decide)

theorem setCpuBind_other (h : off + n ≤ offCpuBind ∨ offId ≤ off) :
    peek (obj.setCpuBind object).bytes off n = peek obj.bytes off n :=
  peek_set_of_disjoint hsize (intBytes_length _) (by decide) h

end Writes

/-! ## All rounds -/

/-- `raw` is `obj` with what the items of `ih-pid` and `ih-cpu_bind` set, where there
are such items. -/
structure NumbersSet (json : CJson) (obj raw : RawNode) : Prop where
  size : raw.bytes.length = sizeofPubSubNode
  table : raw.table = obj.table
  type : peek raw.bytes offType 4 =
    if (itemOf json keyPid).isSome then intBytes (typeOf json).value else peek obj.bytes offType 4
  cpuBind : peek raw.bytes offCpuBind 4 =
    if (itemOf json keyCpuBind).isSome then intBytes (cpuBindOf json)
    else peek obj.bytes offCpuBind 4
  id : peek raw.bytes offId 4 =
    if (itemOf json keyPid).isSome then intBytes (pidOf json) else peek obj.bytes offId 4
  other : ∀ off n, off + n ≤ offType ∨ offConnfd ≤ off →
    peek raw.bytes off n = peek obj.bytes off n

section Rounds

variable {shmCreate : Bytes → UInt8 → Int → Option Int} {addr : Nat} {json object : CJson}
  {obj raw : RawNode} {off n : Nat} (hsize : obj.bytes.length = sizeofPubSubNode)

include hsize

/-- What `init_shm` leaves: a pointer and a number, all else as it was. -/
theorem initShm_ok (h : initShm shmCreate addr obj object = .ok raw) :
    ∃ r, initShmLoop shmCreate
        (namePrefix ++ cString (obj.set offShmNodePtr (ptrBytes addr)).bytes) 0 object.child = .ok r ∧
      raw.table = some r.1 ∧ raw.bytes.length = sizeofPubSubNode ∧
      peek raw.bytes offShmNodePtr 8 = ptrBytes addr ∧
      peek raw.bytes offShmNodeNum 4 = intBytes r.2.toNat ∧
      ∀ off n, off + n ≤ offShmNodePtr ∨ offPubLinksNum ≤ off →
        peek raw.bytes off n = peek obj.bytes off n := by
  obtain ⟨r, hloop, hr⟩ := Load.bind_eq_ok.mp h
  have hptr : (ptrBytes addr).length = 8 := rfl
  have hset : (obj.set offShmNodePtr (ptrBytes addr)).bytes.length = sizeofPubSubNode :=
    set_size hsize hptr (by decide)
  obtain rfl := Load.ok.inj hr
  refine ⟨r, hloop, rfl, set_size hset (intBytes_length _) (by decide), ?_, ?_, fun off n hd => ?_⟩
  · refine (peek_set_of_disjoint hset (intBytes_length r.2.toNat) (by decide)
      (.inl (by decide))).trans ?_
    exact peek_set hsize hptr (by decide)
  · exact peek_set hset (intBytes_length _) (by decide)
  · simp only [offShmNodePtr, offPubLinksNum] at hd
    refine (peek_set_of_disjoint hset (intBytes_length r.2.toNat) (by decide)
      (by rw [offShmNodeNum]; omega)).trans ?_
    exact peek_set_of_disjoint hsize hptr (by decide) (by rw [offShmNodePtr]; omega)

theorem numbersSet : NumbersSet json obj ((branches shmCreate addr).numbers json obj) := by
  -- The pid first, and what it does not touch.
  have hpid : ∃ obj', (itemOf json keyPid).elim obj obj.setPid = obj' ∧
      obj'.bytes.length = sizeofPubSubNode ∧ obj'.table = obj.table ∧
      peek obj'.bytes offType 4 = (if (itemOf json keyPid).isSome then intBytes (typeOf json).value
        else peek obj.bytes offType 4) ∧
      peek obj'.bytes offId 4 = (if (itemOf json keyPid).isSome then intBytes (pidOf json)
        else peek obj.bytes offId 4) ∧
      ∀ off n, off + n ≤ offType ∨ (offCpuBind ≤ off ∧ off + n ≤ offId) ∨ offConnfd ≤ off →
        peek obj'.bytes off n = peek obj.bytes off n := by
    refine ⟨_, rfl, ?_⟩
    rw [typeOf, pidOf, ← itemOf]
    cases itemOf json keyPid with
    | none => exact ⟨hsize, rfl, rfl, rfl, fun _ _ _ => rfl⟩
    | some object =>
        exact ⟨setPid_size hsize, rfl, setPid_type hsize, setPid_id hsize,
          fun _ _ hd => setPid_other hsize hd⟩
  obtain ⟨obj', hobj', hsize', htable, htype, hid, hother⟩ := hpid
  have hraw : (branches shmCreate addr).numbers json obj
      = (itemOf json keyCpuBind).elim obj' obj'.setCpuBind := by rw [← hobj']; rfl
  rw [hraw]
  cases hcpu : itemOf json keyCpuBind with
  | none =>
      refine ⟨hsize', htable, htype, ?_, hid, fun off n hd => hother off n (by omega)⟩
      rw [hcpu]
      exact hother _ _ (.inr (.inl ⟨by decide, by decide⟩))
  | some object =>
      refine ⟨setCpuBind_size hsize', htable, ?_, ?_, ?_, fun off n hd => ?_⟩
      · exact (setCpuBind_other hsize' (.inl (by decide))).trans htype
      · rw [cpuBindOf, hcpu]
        exact setCpuBind_cpuBind hsize'
      · exact (setCpuBind_other hsize' (.inr (by decide))).trans hid
      · simp only [offType, offConnfd] at hd
        exact (setCpuBind_other hsize' (by rw [offCpuBind, offId]; omega)).trans
          (hother off n (by rw [offType, offConnfd]; omega))

end Rounds

end RawNode

/-! ## Strings in memory -/

theorem cString_append {s : Bytes} (h : 0 ∉ s) (rest : Bytes) : cString (s ++ 0 :: rest) = s := by
  have hall : ∀ b ∈ s, decide (b ≠ 0) = true := by
    intro b hb
    rw [decide_eq_true_iff]
    rintro rfl
    exact h hb
  rw [cString, List.takeWhile_append_of_pos hall, List.takeWhile_cons_of_neg (by decide),
    List.append_nil]

/-- A string in a block that is longer: its bytes and the NUL are at the start. -/
theorem cString_eq_iff {s b : Bytes} (h : 0 ∉ s) (hlen : s.length < b.length) :
    cString b = s ↔ peek b 0 (s.length + 1) = s ++ [0] := by
  rw [peek_eq _ _ _ (by omega), List.drop_zero]
  constructor
  · intro hs
    have hsplit : s ++ b.dropWhile (· ≠ 0) = b := by
      rw [← hs]
      exact List.takeWhile_append_dropWhile
    cases hrest : b.dropWhile (· ≠ 0) with
    | nil =>
        rw [hrest, List.append_nil] at hsplit
        rw [hsplit] at hlen
        exact absurd hlen (Nat.lt_irrefl _)
    | cons x rest =>
        have hx : x = 0 := by
          have hhead := List.head?_dropWhile_not (fun x : UInt8 => decide (x ≠ 0)) b
          rw [hrest] at hhead
          simpa using hhead
        rw [← hsplit, hrest, hx, ← List.singleton_append, ← List.append_assoc,
          List.take_left' (by simp)]
  · intro hs
    rw [← List.take_append_drop (s.length + 1) b, hs, List.append_assoc]
    exact cString_append h _

/-! ## Where the name ends -/

/-- **What `strcpy` writes behind the 32 bytes of `name`** is there anyway once the
other rounds are over: `ih-cpu_bind` and `ih-pid`, or zeros where they are missing,
behind a type that only `ih-pid` sets, and the first byte of `connfd`. -/
def NameFits (json : CJson) (name : Bytes) : Prop :=
  ∃ type : Bytes, type.length = 4 ∧
    ((itemOf json keyPid).isSome → type = intBytes (typeOf json).value) ∧
    (name ++ [0]).drop maxFileName
      <+: type ++ intBytes (cpuBindOf json) ++ intBytes (pidOf json) ++ [0]

/-- It is, if there is nothing behind them. -/
theorem NameFits.of_short {json : CJson} {name : Bytes} (h : name.length < maxFileName) :
    NameFits json name := by
  have hdrop : (name ++ [0]).drop maxFileName = [] :=
    List.drop_eq_nil_of_le (by rw [List.length_append]; exact h)
  refine ⟨intBytes (typeOf json).value, rfl, fun _ => rfl, ?_⟩
  rw [hdrop]
  exact List.nil_prefix

namespace RawNode

/-- A fresh node with this name. -/
def named (name : Bytes) : RawNode := fresh.set 0 (name ++ [0])

theorem named_size {name : Bytes} (h : name.length < sizeofPubSubNode) :
    (named name).bytes.length = sizeofPubSubNode :=
  set_size List.length_replicate rfl (by rw [List.length_append, Nat.zero_add]; exact h)

theorem peek_named (name : Bytes) (off n : Nat) :
    peek (named name).bytes off n = peek (name ++ [0]) off n := by
  apply peek_congr
  intro i _ _
  rw [named, set, getD_store _ _ _ _ (Nat.zero_le _)]
  by_cases hi : i < (name ++ [0]).length
  · rw [if_pos ⟨Nat.zero_le _, by omega⟩, Nat.sub_zero]
  · have hout : (name ++ [0]).getD i default = default := by
      rw [List.getD_eq_getElem?_getD, List.getElem?_eq_none (by omega), Option.getD_none]
    rw [if_neg (by omega), hout, fresh, List.getD_eq_getElem?_getD, List.getElem?_replicate]
    split <;> rfl

/-- Behind the NUL there is nothing. -/
theorem peek_behind {name : Bytes} {off n : Nat} (h : name.length < off) :
    peek (name ++ [0]) off n = List.replicate n 0 := by
  refine peek_eq_replicate fun i hlo _ => ?_
  have hi : (name ++ [0]).length ≤ i := by
    rw [List.length_append, List.length_singleton]
    omega
  rw [List.getD_eq_getElem?_getD, List.getElem?_eq_none hi, Option.getD_none]

/-- The bytes of a loaded node in front of `shm_node_ptr`: the name and its NUL, with
the fields over it. -/
structure LaidOut (json : CJson) (name : Bytes) (raw : RawNode) : Prop where
  size : raw.bytes.length = sizeofPubSubNode
  type : peek raw.bytes offType 4 =
    if (itemOf json keyPid).isSome then intBytes (typeOf json).value
    else peek (name ++ [0]) offType 4
  cpuBind : peek raw.bytes offCpuBind 4 =
    if (itemOf json keyCpuBind).isSome then intBytes (cpuBindOf json)
    else peek (name ++ [0]) offCpuBind 4
  id : peek raw.bytes offId 4 =
    if (itemOf json keyPid).isSome then intBytes (pidOf json) else peek (name ++ [0]) offId 4
  other : ∀ off n, off + n ≤ offType ∨ (offConnfd ≤ off ∧ off + n ≤ offShmNodePtr) →
    peek raw.bytes off n = peek (name ++ [0]) off n

/-- The ints are the given ones and nothing is in the fields behind them. -/
structure Plain (json : CJson) (raw : RawNode) : Prop where
  id : peek raw.bytes offId 4 = intBytes (pidOf json)
  cpuBind : peek raw.bytes offCpuBind 4 = intBytes (cpuBindOf json)
  connfd : peek raw.bytes offConnfd 4 = intBytes 0
  nodeList : peek raw.bytes offNodeList 16 = List.replicate 16 0

section LaidOut

variable {json : CJson} {name : Bytes} {raw : RawNode}

/-- A name that leaves `connfd` alone ends in front of its second byte. -/
theorem LaidOut.length_le (h : LaidOut json name raw) (hstr : 0 ∉ name) (hp : Plain json raw) :
    name.length ≤ 44 := by
  by_contra hlong
  have hcell : (peek raw.bytes offConnfd 4).getD 0 default = (name ++ [0]).getD 44 default := by
    rw [h.other _ _ (.inr ⟨by decide, by decide⟩), getD_peek (by decide)]
    rfl
  have hlt : 44 < name.length := Nat.not_le.mp hlong
  rw [hp.connfd, List.getD_eq_getElem?_getD, List.getD_eq_getElem?_getD,
    List.getElem?_append_left hlt, List.getElem?_eq_getElem hlt] at hcell
  have hzero : (0 : UInt8) = name[44] := hcell
  rw [hzero] at hstr
  exact hstr (List.getElem_mem hlt)

theorem LaidOut.nameFits (h : LaidOut json name raw) (hstr : 0 ∉ name)
    (hname : peek raw.bytes 0 (name.length + 1) = name ++ [0]) (hp : Plain json raw) :
    NameFits json name := by
  have hlen := h.length_le hstr hp
  refine ⟨peek raw.bytes offType 4, peek_length _ _ _, fun hpid => ?_, ?_⟩
  · rw [h.type, if_pos hpid]
  · have hzero : peek raw.bytes offConnfd 1 = [0] := by
      rw [← peek_take _ _ 4 1 (by decide), hp.connfd]
      rfl
    have hfields : peek raw.bytes offType 13
        = peek raw.bytes offType 4 ++ intBytes (cpuBindOf json) ++ intBytes (pidOf json) ++ [0] := by
      have hsplit : peek raw.bytes offType (4 + 4 + 4 + 1) = _ := peek_add _ _ _ _
      rw [← hp.cpuBind, ← hp.id, ← hzero]
      rw [peek_add _ _ (4 + 4), peek_add] at hsplit
      exact hsplit
    rw [← hfields, ← hname, drop_peek, ← peek_take _ (0 + maxFileName) 13 _ (by
      rw [maxFileName]; omega)]
    exact List.take_prefix _ _

/-- The cells of the name and its NUL, from the 32nd on: those of the fields, or behind
its end. -/
theorem cell_of_nameFits (h : NameFits json name) :
    name.length ≤ 44 ∧ ∃ type : Bytes, type.length = 4 ∧
      ((itemOf json keyPid).isSome → type = intBytes (typeOf json).value) ∧
      ∀ j, (name ++ [0]).getD (32 + j) default
          = (type ++ intBytes (cpuBindOf json) ++ intBytes (pidOf json) ++ [0]).getD j default ∨
        (name.length < 32 + j ∧ (name ++ [0]).getD (32 + j) default = default) := by
  obtain ⟨type, hlen, htype, rest, hx⟩ := h
  refine ⟨?_, type, hlen, htype, fun j => ?_⟩
  · have hle := congrArg List.length hx
    simp only [List.length_append, List.length_drop, intBytes_length, hlen, maxFileName,
      List.length_singleton] at hle
    omega
  · rcases Nat.lt_or_ge (32 + j) (name ++ [0]).length with hj | hj
    · have hlt : j < ((name ++ [0]).drop maxFileName).length := by
        rw [List.length_drop, maxFileName]
        omega
      have hcell := @List.getElem?_append_left _ _ rest _ hlt
      rw [hx, List.getElem?_drop] at hcell
      rw [List.getD_eq_getElem?_getD, List.getD_eq_getElem?_getD, hcell, maxFileName]
      exact .inl rfl
    · right
      refine ⟨by rw [List.length_append, List.length_singleton] at hj; omega, ?_⟩
      rw [List.getD_eq_getElem?_getD, List.getElem?_eq_none hj, Option.getD_none]

theorem getD_fields {type u v : Bytes} {k : Nat} (ht : type.length = 4) (hu : u.length = 4)
    (hv : v.length = 4) (hk : k < 4) :
    (type ++ u ++ v ++ [0]).getD k default = type.getD k default ∧
      (type ++ u ++ v ++ [0]).getD (4 + k) default = u.getD k default ∧
      (type ++ u ++ v ++ [0]).getD (8 + k) default = v.getD k default ∧
      (type ++ u ++ v ++ [0]).getD (12 + k) default = default := by
  simp only [List.getD_eq_getElem?_getD, List.getElem?_append, List.length_append, ht, hu, hv]
  refine ⟨?_, ?_, ?_, ?_⟩
  · rw [if_pos (by omega), if_pos (by omega), if_pos (by omega)]
  · rw [if_pos (by omega), if_pos (by omega), if_neg (by omega), Nat.add_sub_cancel_left]
  · rw [if_pos (by omega), if_neg (by omega), Nat.add_sub_cancel_left]
  · rw [if_neg (by omega), Nat.add_sub_cancel_left]
    cases k <;> rfl

theorem LaidOut.plain (h : LaidOut json name raw) (hfits : NameFits json name) : Plain json raw := by
  obtain ⟨hlen, type, ht, -, hcell⟩ := cell_of_nameFits hfits
  have hfields := fun k (hk : k < 4) =>
    getD_fields ht (intBytes_length (cpuBindOf json)) (intBytes_length (pidOf json)) hk
  have hnone : ∀ k, k < 4 → (intBytes 0).getD k default = default := by decide
  -- Where the fields are zero, so is the name, or it has ended.
  have hzero : ∀ m, (∀ k, k < 4 →
      (type ++ intBytes (cpuBindOf json) ++ intBytes (pidOf json) ++ [0]).getD (m + k) default
        = default) → peek (name ++ [0]) (32 + m) 4 = intBytes 0 := by
    intro m hm
    refine peek_eq_replicate fun i hlo hhi => ?_
    obtain ⟨k, rfl⟩ := Nat.exists_eq_add_of_le hlo
    rw [Nat.add_assoc]
    rcases hcell (m + k) with hj | ⟨-, hj⟩
    · exact hj.trans (hm k (Nat.lt_of_add_lt_add_left hhi))
    · exact hj
  refine ⟨?_, ?_, ?_, ?_⟩
  · rw [h.id]
    split
    · rfl
    · rename_i hitem
      have hid : pidOf json = 0 := pidOf_of_none (Option.not_isSome_iff_eq_none.mp hitem)
      rw [hid] at hfields ⊢
      exact hzero 8 fun k hk => by rw [hid, (hfields k hk).2.2.1, hnone k hk]
  · rw [h.cpuBind]
    split
    · rfl
    · rename_i hitem
      have hcpu : cpuBindOf json = 0 := cpuBindOf_of_none (Option.not_isSome_iff_eq_none.mp hitem)
      rw [hcpu] at hfields ⊢
      exact hzero 4 fun k hk => by rw [hcpu, (hfields k hk).2.1, hnone k hk]
  · rw [h.other _ _ (.inr ⟨by decide, by decide⟩)]
    exact hzero 12 fun k hk => (hfields k hk).2.2.2
  · rw [h.other _ _ (.inr ⟨by decide, by decide⟩)]
    exact peek_behind (by rw [offNodeList]; omega)

/-- The rounds behind the name write nothing over it that is not there. -/
theorem LaidOut.nameKept (h : LaidOut json name raw) (hfits : NameFits json name) :
    peek raw.bytes 0 (name.length + 1) = name ++ [0] := by
  obtain ⟨hlen, type, ht, htype, hcell⟩ := cell_of_nameFits hfits
  have hfields := fun k (hk : k < 4) =>
    getD_fields ht (intBytes_length (cpuBindOf json)) (intBytes_length (pidOf json)) hk
  have hcopied : ∀ off n, peek raw.bytes off n = peek (name ++ [0]) off n → ∀ i, off ≤ i →
      i < off + n → raw.bytes.getD i default = (name ++ [0]).getD i default := by
    intro off n hpeek i hlo hhi
    rw [getD_of_peek hpeek hlo hhi, getD_peek (by omega), Nat.add_sub_cancel' hlo]
  -- A field that has been set holds what the name has there.
  have hset : ∀ m bs, peek raw.bytes (32 + m) 4 = bs → (∀ k, k < 4 →
      (type ++ intBytes (cpuBindOf json) ++ intBytes (pidOf json) ++ [0]).getD (m + k) default
        = bs.getD k default) → ∀ i, 32 + m ≤ i → i < 32 + m + 4 → i ≤ name.length →
      raw.bytes.getD i default = (name ++ [0]).getD i default := by
    intro m bs hpeek hbs i hlo hhi hend
    obtain ⟨k, rfl⟩ := Nat.exists_eq_add_of_le hlo
    rw [getD_of_peek hpeek hlo hhi, Nat.add_sub_cancel_left, Nat.add_assoc,
      ← hbs k (Nat.lt_of_add_lt_add_left hhi)]
    rcases hcell (m + k) with hj | ⟨hj, -⟩
    · exact hj.symm
    · omega
  have hsame : peek raw.bytes 0 (name.length + 1) = peek (name ++ [0]) 0 (name.length + 1) := by
    apply peek_congr
    intro i _ hi
    rcases Nat.lt_or_ge i 32 with hi₁ | hi₁
    · exact hcopied 0 32 (h.other _ _ (.inl (by decide))) i (Nat.zero_le i) (by omega)
    rcases Nat.lt_or_ge i 36 with hi₂ | hi₂
    · have hpeek := h.type
      split at hpeek
      · rename_i hitem
        exact hset 0 _ (hpeek.trans (htype hitem).symm)
          (fun k hk => by rw [Nat.zero_add]; exact (hfields k hk).1) i hi₁ hi₂ (by omega)
      · exact hcopied 32 4 hpeek i hi₁ hi₂
    rcases Nat.lt_or_ge i 40 with hi₃ | hi₃
    · have hpeek := h.cpuBind
      split at hpeek
      · exact hset 4 _ hpeek (fun k hk => (hfields k hk).2.1) i hi₂ hi₃ (by omega)
      · exact hcopied 36 4 hpeek i hi₂ hi₃
    rcases Nat.lt_or_ge i 44 with hi₄ | hi₄
    · have hpeek := h.id
      split at hpeek
      · exact hset 8 _ hpeek (fun k hk => (hfields k hk).2.2.1) i hi₃ hi₄ (by omega)
      · exact hcopied 40 4 hpeek i hi₃ hi₄
    · exact hcopied 44 4 (h.other _ _ (.inr ⟨by decide, by decide⟩)) i hi₄ (by omega)
  rw [hsame, peek_eq _ _ _ (by simp), List.drop_zero, List.take_of_length_le (by simp)]

/-- **The name fits** exactly when it is read back and the ints and what is behind them
are as they should be. -/
theorem LaidOut.fits_iff (h : LaidOut json name raw) (hstr : 0 ∉ name)
    (hlt : name.length < sizeofPubSubNode) :
    cString raw.bytes = name ∧ Plain json raw ↔ NameFits json name := by
  rw [cString_eq_iff hstr (by rw [h.size]; exact hlt)]
  exact ⟨fun ⟨hname, hp⟩ => h.nameFits hstr hname hp, fun hfits => ⟨h.nameKept hfits, h.plain hfits⟩⟩

theorem LaidOut.of_below {raw' : RawNode} (h : LaidOut json name raw)
    (hsize : raw'.bytes.length = sizeofPubSubNode)
    (hbelow : ∀ off n, off + n ≤ offShmNodePtr → peek raw'.bytes off n = peek raw.bytes off n) :
    LaidOut json name raw' where
  size := hsize
  type := (hbelow _ _ (by decide)).trans h.type
  cpuBind := (hbelow _ _ (by decide)).trans h.cpuBind
  id := (hbelow _ _ (by decide)).trans h.id
  other off n hd := by
    refine (hbelow off n ?_).trans (h.other off n hd)
    simp only [offType, offConnfd, offShmNodePtr] at hd ⊢
    omega

end LaidOut

/-! ## What comes out -/

section Outcome

variable {shmCreate : Bytes → UInt8 → Int → Option Int} {addr : Nat} {json : CJson} {name : Bytes}
  {raw : RawNode}

theorem laidOut_numbers (hlt : name.length < sizeofPubSubNode) :
    LaidOut json name ((branches shmCreate addr).numbers json (named name)) := by
  have hset : NumbersSet json (named name) ((branches shmCreate addr).numbers json (named name)) :=
    numbersSet (named_size hlt)
  refine ⟨hset.size, ?_, ?_, ?_, fun off n hd => ?_⟩
  · rw [hset.type, peek_named]
  · rw [hset.cpuBind, peek_named]
  · rw [hset.id, peek_named]
  · rw [hset.other off n (by omega), peek_named]

theorem getIcehydraJsonNode_named (hname : nameOf json = some name) :
    getIcehydraJsonNode shmCreate addr json =
      if name.length < sizeofPubSubNode then
        (itemOf json keyShm).elim (.ok ((branches shmCreate addr).numbers json (named name)))
          (initShm shmCreate addr ((branches shmCreate addr).numbers json (named name)))
      else .overrun := by
  obtain ⟨object, hitem, hvalue⟩ := Option.bind_eq_some_iff.mp hname
  have hcpy : strcpyName fresh object
      = if name.length < sizeofPubSubNode then .ok (named name) else .overrun := by
    rw [strcpyName, hvalue]
    rfl
  rw [getIcehydraJsonNode, Branches.run_eq, hitem]
  show (strcpyName fresh object >>= _) = _
  rw [hcpy]
  split <;> rfl

theorem LaidOut.set_ptr (h : LaidOut json name raw) :
    LaidOut json name (raw.set offShmNodePtr (ptrBytes addr)) :=
  h.of_below (set_size h.size (m := 8) rfl (by decide)) fun _ _ hd =>
    peek_set_of_disjoint h.size (m := 8) rfl (by decide) (.inl hd)

theorem LaidOut.of_initShm {raw' : RawNode} {object : CJson} (h : LaidOut json name raw)
    (hok : initShm shmCreate addr raw object = .ok raw') :
    LaidOut json name raw' ∧ ∃ r, initShmLoop shmCreate
        (namePrefix ++ cString (raw.set offShmNodePtr (ptrBytes addr)).bytes) 0 object.child = .ok r ∧
      raw'.table = some r.1 ∧
      peek raw'.bytes offShmNodePtr 12 = ptrBytes addr ++ intBytes r.2.toNat := by
  obtain ⟨r, hloop, htable, hsize, hptr, hnum, hother⟩ := initShm_ok h.size hok
  refine ⟨h.of_below hsize fun off n hd => hother off n (.inl hd), r, hloop, htable, ?_⟩
  rw [← hptr, ← hnum]
  exact peek_add raw'.bytes offShmNodePtr 8 4

end Outcome

/-- **What is promised** of a node with this name: it is read back, the numbers are the
given ones, and all else is as it is under any name: zeros, and the table that
`init_shm` makes for the file of this name. -/
structure Isolated (shmCreate : Bytes → UInt8 → Int → Option Int) (addr : Nat) (json : CJson)
    (name : Bytes) (raw : RawNode) : Prop where
  readBack : cString raw.bytes = name
  plain : Plain json raw
  shm : (shmItems json).elim
    (raw.table = none ∧ peek raw.bytes offShmNodePtr 12 = List.replicate 12 0) fun items =>
      ∃ r, initShmLoop shmCreate (namePrefix ++ name) 0 items = .ok r ∧ raw.table = some r.1 ∧
        peek raw.bytes offShmNodePtr 12 = ptrBytes addr ++ intBytes r.2.toNat

/-- Every `shm_name` is short enough for its array. -/
def ShmNamesFit (json : CJson) : Prop :=
  ∀ items, shmItems json = some items → ∀ obj ∈ items, ∀ name, shmNameOf obj = some name →
    name.length < maxFileName

section Isolated

variable {shmCreate : Bytes → UInt8 → Int → Option Int} {addr : Nat} {json : CJson} {name : Bytes}
  {raw : RawNode}

theorem Isolated.fits (h : Isolated shmCreate addr json name raw) (hname : nameOf json = some name)
    (hstr : 0 ∉ name) (hok : getIcehydraJsonNode shmCreate addr json = .ok raw) :
    NameFits json name ∧ ShmNamesFit json := by
  rw [getIcehydraJsonNode_named hname] at hok
  split at hok
  · rename_i hlt
    have hp : LaidOut json name ((branches shmCreate addr).numbers json (named name)) :=
      laidOut_numbers hlt
    cases hitem : itemOf json keyShm with
    | none =>
        rw [hitem] at hok
        obtain rfl := Load.ok.inj hok
        refine ⟨(hp.fits_iff hstr hlt).mp ⟨h.readBack, h.plain⟩, fun items hitems => ?_⟩
        rw [shmItems, ← itemOf, hitem] at hitems
        cases hitems
    | some object =>
        rw [hitem] at hok
        obtain ⟨hraw, r, hloop, -⟩ := hp.of_initShm hok
        refine ⟨(hraw.fits_iff hstr hlt).mp ⟨h.readBack, h.plain⟩, fun items hitems => ?_⟩
        rw [shmItems, ← itemOf, hitem] at hitems
        obtain rfl := Option.some.inj hitems
        exact initShmLoop_short hloop
  · cases hok

/-- Where the process does not end, a table whose names fit is made. -/
theorem initShm_of_fits {object : CJson} (hitem : itemOf json keyShm = some object)
    (hshm : ShmNamesFit json) (hret : initShm shmCreate addr raw object ≠ .ended) :
    ∃ raw', initShm shmCreate addr raw object = .ok raw' := by
  cases hout : initShm shmCreate addr raw object with
  | ok raw' => exact ⟨raw', rfl⟩
  | ended => exact absurd hout hret
  | overrun =>
      rcases Load.bind_eq_overrun.mp hout with hloop | ⟨r, -, hr⟩
      · obtain ⟨obj, hobj, s, hs, hle⟩ := initShmLoop_overrun hloop
        have hitems : shmItems json = some object.child := by
          rw [shmItems, ← itemOf, hitem]
          rfl
        exact absurd (hshm _ hitems obj hobj s hs) (Nat.not_lt.mpr hle)
      · cases hr

theorem isolated_of_fits (hname : nameOf json = some name) (hstr : 0 ∉ name)
    (hret : getIcehydraJsonNode shmCreate addr json ≠ .ended) (hfits : NameFits json name)
    (hshm : ShmNamesFit json) :
    ∃ raw, getIcehydraJsonNode shmCreate addr json = .ok raw ∧
      Isolated shmCreate addr json name raw := by
  have hlen := (cell_of_nameFits hfits).1
  have hlt : name.length < sizeofPubSubNode := Nat.lt_of_le_of_lt hlen (by decide)
  have hp : LaidOut json name ((branches shmCreate addr).numbers json (named name)) :=
    laidOut_numbers hlt
  rw [getIcehydraJsonNode_named hname, if_pos hlt] at hret ⊢
  cases hitem : itemOf json keyShm with
  | none =>
      have hset : NumbersSet json (named name) ((branches shmCreate addr).numbers json (named name)) :=
        numbersSet (named_size hlt)
      obtain ⟨hread, hplain⟩ := (hp.fits_iff hstr hlt).mpr hfits
      refine ⟨_, rfl, hread, hplain, ?_⟩
      rw [shmItems, ← itemOf, hitem]
      refine ⟨hset.table, ?_⟩
      rw [hset.other _ _ (.inr (by decide)), peek_named]
      exact peek_behind (Nat.lt_of_le_of_lt hlen (by decide))
  | some object =>
      rw [hitem] at hret
      have hfile : cString (((branches shmCreate addr).numbers json (named name)).set offShmNodePtr
          (ptrBytes addr)).bytes = name := ((hp.set_ptr.fits_iff hstr hlt).mpr hfits).1
      obtain ⟨raw, hok⟩ := initShm_of_fits hitem hshm hret
      obtain ⟨hraw, r, hloop, htable, hbytes⟩ := hp.of_initShm hok
      obtain ⟨hread, hplain⟩ := (hraw.fits_iff hstr hlt).mpr hfits
      refine ⟨raw, hok, hread, hplain, ?_⟩
      rw [shmItems, ← itemOf, hitem]
      rw [hfile] at hloop
      exact ⟨r, hloop, htable, hbytes⟩

/-- **Loading a node field by field.** Unless the process ends on the way, a node with
all that is promised comes out exactly when the name, its NUL included, ends in front
of any field it would change, and so does every `shm_name`. -/
theorem getIcehydraJsonNode_isolated_iff (shmCreate : Bytes → UInt8 → Int → Option Int)
    (addr : Nat) (json : CJson) (name : Bytes) (hname : nameOf json = some name) (hstr : 0 ∉ name)
    (hret : getIcehydraJsonNode shmCreate addr json ≠ .ended) :
    (∃ raw, getIcehydraJsonNode shmCreate addr json = .ok raw ∧
      Isolated shmCreate addr json name raw) ↔ NameFits json name ∧ ShmNamesFit json :=
  ⟨fun ⟨_, hok, hiso⟩ => hiso.fits hname hstr hok,
    fun ⟨hfits, hshm⟩ => isolated_of_fits hname hstr hret hfits hshm⟩

end Isolated

/-- A name of 33 bytes without `ih-pid`: what is written behind them is the type's. -/
theorem getIcehydraJsonNode_isolated_type :
    let name : Bytes := List.replicate 33 120
    let json := CJson.object [.stringItem keyName name, .numberItem keyCpuBind 3]
    ∃ raw, getIcehydraJsonNode (fun _ _ _ => none) 0 json = .ok raw ∧
      Isolated (fun _ _ _ => none) 0 json name raw := by
  intro name json
  have hret : getIcehydraJsonNode (fun _ _ _ => none) 0 json ≠ .ended := by
    rw [@getIcehydraJsonNode_named _ 0 json name rfl]
    exact fun h => by cases h
  exact (getIcehydraJsonNode_isolated_iff (fun _ _ _ => none) 0 json name rfl (by decide) hret).mpr
    ⟨⟨[120, 0, 0, 0], rfl, fun h => absurd h (by decide), by decide⟩, fun _ h => by cases h⟩

/-- **A name of 48 bytes**, with `ih-pid` and `ih-cpu_bind`: the numbers are set over it,
it is read back with the type in its 33rd byte, and `connfd` holds four of its bytes. -/
theorem getIcehydraJsonNode_spills :
    let name : Bytes := List.replicate 48 120
    let json := CJson.object
      [.stringItem keyName name, .numberItem keyPid 7, .numberItem keyCpuBind 3]
    ∃ raw, getIcehydraJsonNode (fun _ _ _ => none) 0 json = .ok raw ∧ nameOf json = some name ∧
      cString raw.bytes = List.replicate 32 120 ++ [2] ∧
      peek raw.bytes offConnfd 4 = List.replicate 4 120 ∧
      ¬ Isolated (fun _ _ _ => none) 0 json name raw :=
  ⟨_, rfl, rfl, by decide, by decide, fun h => absurd h.plain.connfd (by decide)⟩

/-! ## The fields of a `ConfNode` -/

/-- The bytes of a node, field by field. -/
structure Represents (addr : Nat) (raw : RawNode) (node : ConfNode) : Prop where
  readBack : cString raw.bytes = node.name
  type : peek raw.bytes offType 4 = intBytes node.type.value
  cpuBind : peek raw.bytes offCpuBind 4 = intBytes node.cpuBind
  id : peek raw.bytes offId 4 = intBytes node.id
  connfd : peek raw.bytes offConnfd 4 = intBytes node.connfd
  nodeList : peek raw.bytes offNodeList 16 = List.replicate 16 0
  shmNodePtr : peek raw.bytes offShmNodePtr 8
    = if node.shmNodePtr.isSome then ptrBytes addr else List.replicate 8 0
  table : raw.table = node.shmNodePtr
  shmNodeNum : peek raw.bytes offShmNodeNum 4 = intBytes node.shmNodeNum
  pubLinksNum : peek raw.bytes offPubLinksNum 4 = intBytes node.pubLinksNum

section Represents

variable {shmCreate : Bytes → UInt8 → Int → Option Int} {addr : Nat} {json object : CJson}
  {name : Bytes} {raw raw' : RawNode} {node : ConfNode}

/-- The rounds in front of the table, under a name that is short enough. -/
theorem represents_numbers (hshort : name.length < maxFileName) (hstr : 0 ∉ name) :
    Represents addr ((branches shmCreate addr).numbers json (named name)) (plainNode json name) := by
  have hlt : name.length < sizeofPubSubNode := Nat.lt_trans hshort (by decide)
  have hset : NumbersSet json (named name) ((branches shmCreate addr).numbers json (named name)) :=
    numbersSet (named_size hlt)
  have hp : LaidOut json name ((branches shmCreate addr).numbers json (named name)) :=
    laidOut_numbers hlt
  obtain ⟨hread, hplain⟩ := (hp.fits_iff hstr hlt).mpr (.of_short hshort)
  have hbehind : ∀ off n, offConnfd ≤ off →
      peek ((branches shmCreate addr).numbers json (named name)).bytes off n = List.replicate n 0 := by
    intro off n hoff
    rw [hset.other off n (.inr hoff), peek_named]
    exact peek_behind (Nat.lt_of_lt_of_le hshort (Nat.le_trans (by decide) hoff))
  refine ⟨hread, ?_, hplain.cpuBind, hplain.id, hplain.connfd, hplain.nodeList,
    hbehind _ _ (by decide), hset.table, hbehind _ _ (by decide), hbehind _ _ (by decide)⟩
  rw [hp.type]
  split
  · rfl
  · rename_i hitem
    have htype : (plainNode json name).type = .err :=
      typeOf_of_none (Option.not_isSome_iff_eq_none.mp hitem)
    rw [htype]
    exact peek_behind hshort

/-- `init_shm` on the bytes and on the fields. -/
theorem Represents.of_initShm {node' : ConfNode} (hrep : Represents addr raw node)
    (hp : LaidOut json node.name raw) (hfits : NameFits json node.name) (hstr : 0 ∉ node.name)
    (h : Icehydra.initShm shmCreate node object = .ok node') :
    ∃ raw', initShm shmCreate addr raw object = .ok raw' ∧ Represents addr raw' node' := by
  obtain ⟨r, hloop, hr⟩ := Load.bind_eq_ok.mp h
  obtain rfl := Load.ok.inj hr
  have hlt : node.name.length < sizeofPubSubNode :=
    Nat.lt_of_le_of_lt (cell_of_nameFits hfits).1 (by decide)
  have hfile : cString (raw.set offShmNodePtr (ptrBytes addr)).bytes = node.name :=
    ((hp.set_ptr.fits_iff hstr hlt).mpr hfits).1
  have hok : ∃ raw', initShm shmCreate addr raw object = .ok raw' := by
    rw [initShm]
    simp only [hfile, hloop]
    exact ⟨_, rfl⟩
  obtain ⟨raw', hok⟩ := hok
  obtain ⟨r', hloop', htable, -, hptr, hnum, hother⟩ := initShm_ok hp.size hok
  rw [hfile] at hloop'
  obtain rfl := Load.ok.inj (hloop.symm.trans hloop')
  have hread : cString raw'.bytes = node.name :=
    (((hp.of_initShm hok).1.fits_iff hstr hlt).mpr hfits).1
  refine ⟨raw', hok, hread, ?_, ?_, ?_, ?_, ?_, hptr, htable, hnum, ?_⟩
  · exact (hother _ _ (.inl (by decide))).trans hrep.type
  · exact (hother _ _ (.inl (by decide))).trans hrep.cpuBind
  · exact (hother _ _ (.inl (by decide))).trans hrep.id
  · exact (hother _ _ (.inl (by decide))).trans hrep.connfd
  · exact (hother _ _ (.inl (by decide))).trans hrep.nodeList
  · exact (hother _ _ (.inr (by decide))).trans hrep.pubLinksNum

end Represents

/-- **Fields are bytes.** A value that is loaded with all its strings in their arrays is
loaded so in memory, whatever the fields are. -/
theorem getIcehydraJsonNode_represents (shmCreate : Bytes → UInt8 → Int → Option Int) (addr : Nat)
    (json : CJson) (node : ConfNode) (hstr : ∀ name, nameOf json = some name → 0 ∉ name)
    (h : Icehydra.getIcehydraJsonNode shmCreate json = .ok node) :
    ∃ raw, getIcehydraJsonNode shmCreate addr json = .ok raw ∧ Represents addr raw node := by
  rw [getIcehydraJsonNode_eq] at h
  obtain ⟨name, hname, hshm⟩ := Load.bind_eq_ok.mp h
  have hstart : name.length < maxFileName ∧ 0 ∉ name ∧ getIcehydraJsonNode shmCreate addr json
      = (itemOf json keyShm).elim (.ok ((branches shmCreate addr).numbers json (named name)))
        (initShm shmCreate addr ((branches shmCreate addr).numbers json (named name))) := by
    cases hitem : itemOf json keyName with
    | none =>
        rw [hitem] at hname
        obtain rfl := Load.ok.inj hname
        refine ⟨by decide, List.not_mem_nil, ?_⟩
        rw [getIcehydraJsonNode, Branches.run_eq, hitem]
        rfl
    | some object =>
        rw [hitem] at hname
        obtain ⟨hvalue, hshort⟩ := strcpyFileName_eq_ok.mp hname
        have hof : nameOf json = some name := by
          rw [nameOf, hitem]
          exact hvalue
        refine ⟨hshort, hstr name hof, ?_⟩
        rw [getIcehydraJsonNode_named hof, if_pos (Nat.lt_trans hshort (by decide))]
  obtain ⟨hshort, hzero, hrun⟩ := hstart
  have hrep : Represents addr ((branches shmCreate addr).numbers json (named name))
      (plainNode json name) := represents_numbers hshort hzero
  rw [hrun]
  cases hitem : itemOf json keyShm with
  | none =>
      rw [hitem] at hshm
      obtain rfl := Load.ok.inj hshm
      exact ⟨_, rfl, hrep⟩
  | some object =>
      rw [hitem] at hshm
      exact hrep.of_initShm (laidOut_numbers (Nat.lt_trans hshort (by decide))) (.of_short hshort)
        hzero hshm

/-- A subscriber with a number and a segment. -/
theorem getIcehydraJsonNode_represents_one :
    let json := CJson.object
      [.stringItem keyName [120], .numberItem keyPid 7, shmArray [shmElement [109] 64]]
    let shmCreate : Bytes → UInt8 → Int → Option Int := fun _ p s => some (p.toNat + s)
    ∃ node raw, Icehydra.getIcehydraJsonNode shmCreate json = .ok node ∧
      getIcehydraJsonNode shmCreate 4096 json = .ok raw ∧ Represents 4096 raw node := by
  intro json shmCreate
  have hstr : ∀ name, nameOf json = some name → 0 ∉ name := by
    rintro name ⟨⟩
    decide
  obtain ⟨node, hnode⟩ : ∃ node, Icehydra.getIcehydraJsonNode shmCreate json = .ok node := ⟨_, rfl⟩
  obtain ⟨raw, hraw, hrep⟩ := getIcehydraJsonNode_represents shmCreate 4096 json node hstr hnode
  exact ⟨node, raw, hnode, hraw, hrep⟩

end RawNode

end Icehydra
