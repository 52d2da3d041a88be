import Icehydra.ShmTable

/-!
# Keys — which member a field is taken from

The lookup of `get_icehydra_json_node` takes upper for lower case, the
comparison behind it does not. What its four rounds come to is one equation over
the items that pass both.
-/

namespace Icehydra

/-! ## The item of a round -/

/-- What the lookup finds for a key, if it is spelled so. -/
def itemOf (json : CJson) (key : Bytes) : Option CJson :=
  (cJSONGetObjectItem json key).filter fun object => object.string = some key

section Items

variable {json object : CJson} {key : Bytes}

theorem itemOf_string (h : itemOf json key = some object) : object.string = some key := by
  have hfound := (Option.filter_eq_some_iff.mp h).2
  exact of_decide_eq_true hfound

/-- No two keys are one when upper is taken for lower case. -/
theorem itemList_tolower :
    ∀ k ∈ itemList, ∀ k' ∈ itemList, k' ≠ k → k.map tolower ≠ k'.map tolower := by
  decide

theorem mem_itemList : key ∈ itemList ↔
    key = keyName ∨ key = keyPid ∨ key = keyCpuBind ∨ key = keyShm := by
  simp [itemList]

end Items

/-! ## The rounds

What a round does to a node is the same four comparisons, however the node is
represented; what stands behind each of them is a parameter.
-/

structure Branches (σ : Type) where
  name : σ → CJson → Load σ
  pid : σ → CJson → σ
  cpuBind : σ → CJson → σ
  shm : σ → CJson → Load σ

namespace Branches

variable {σ : Type} (b : Branches σ)

def item (obj : σ) (object : CJson) : Load σ :=
  (if object.string = some keyName then b.name obj object else pure obj) >>= fun obj =>
    let obj := if object.string = some keyPid then b.pid obj object else obj
    let obj := if object.string = some keyCpuBind then b.cpuBind obj object else obj
    if object.string = some keyShm then b.shm obj object else pure obj

def key (json : CJson) (obj : σ) (key : Bytes) : Load σ :=
  match cJSONGetObjectItem json key with
  | none => .ok obj
  | some object => b.item obj object

/-- `for(int i = 0;i<ARRAY_SIZE(item_list);i++)`. -/
def run (json : CJson) (obj : σ) : Load σ := itemList.foldlM (b.key json) obj

/-- What the items with numbers make of a node. -/
def numbers (json : CJson) (obj : σ) : σ :=
  let obj := (itemOf json keyPid).elim obj (b.pid obj)
  (itemOf json keyCpuBind).elim obj (b.cpuBind obj)

variable {b} {json object : CJson} {obj : σ}

/-- An item that is not spelled like any of the keys changes nothing. -/
theorem item_other (h : ∀ k ∈ itemList, object.string ≠ some k) : b.item obj object = .ok obj := by
  have hname : object.string ≠ some keyName := h keyName (by decide)
  have hpid : object.string ≠ some keyPid := h keyPid (by decide)
  have hcpu : object.string ≠ some keyCpuBind := h keyCpuBind (by decide)
  have hshm : object.string ≠ some keyShm := h keyShm (by decide)
  simp only [item, if_neg hname, if_neg hpid, if_neg hcpu, if_neg hshm]
  rfl

/-! What is done with an item, by its spelling. -/

theorem item_name (h : object.string = some keyName) : b.item obj object = b.name obj object := by
  have hpid : object.string ≠ some keyPid := by rw [h]; decide
  have hcpu : object.string ≠ some keyCpuBind := by rw [h]; decide
  have hshm : object.string ≠ some keyShm := by rw [h]; decide
  simp only [item, if_pos h, if_neg hpid, if_neg hcpu, if_neg hshm]
  cases b.name obj object <;> rfl

theorem item_pid (h : object.string = some keyPid) : b.item obj object = .ok (b.pid obj object) := by
  have hname : object.string ≠ some keyName := by rw [h]; decide
  have hcpu : object.string ≠ some keyCpuBind := by rw [h]; decide
  have hshm : object.string ≠ some keyShm := by rw [h]; decide
  simp only [item, if_pos h, if_neg hname, if_neg hcpu, if_neg hshm]
  rfl

theorem item_cpuBind (h : object.string = some keyCpuBind) :
    b.item obj object = .ok (b.cpuBind obj object) := by
  have hname : object.string ≠ some keyName := by rw [h]; decide
  have hpid : object.string ≠ some keyPid := by rw [h]; decide
  have hshm : object.string ≠ some keyShm := by rw [h]; decide
  simp only [item, if_pos h, if_neg hname, if_neg hpid, if_neg hshm]
  rfl

theorem item_shm (h : object.string = some keyShm) : b.item obj object = b.shm obj object := by
  have hname : object.string ≠ some keyName := by rw [h]; decide
  have hpid : object.string ≠ some keyPid := by rw [h]; decide
  have hcpu : object.string ≠ some keyCpuBind := by rw [h]; decide
  simp only [item, if_pos h, if_neg hname, if_neg hpid, if_neg hcpu]
  rfl

/-- **One round**: the item of this key is loaded, if there is one. -/
theorem key_eq {k : Bytes} (hk : k ∈ itemList) :
    b.key json obj k = (itemOf json k).elim (.ok obj) (b.item obj) := by
  unfold key itemOf
  cases hfound : cJSONGetObjectItem json k with
  | none => rfl
  | some object =>
      by_cases hsame : object.string = some k
      · simp [Option.filter_some, hsame]
      · have hother : ∀ k' ∈ itemList, object.string ≠ some k' := by
          intro k' hk'
          by_cases heq : k' = k
          · rwa [heq]
          · exact cJSONGetObjectItem_string_ne hfound (itemList_tolower k hk k' hk' heq)
        simp [Option.filter_some, hsame, item_other hother]

theorem key_pid : b.key json obj keyPid = .ok ((itemOf json keyPid).elim obj (b.pid obj)) := by
  rw [key_eq (by decide)]
  cases hitem : itemOf json keyPid with
  | none => rfl
  | some object => exact item_pid (itemOf_string hitem)

theorem key_cpuBind :
    b.key json obj keyCpuBind = .ok ((itemOf json keyCpuBind).elim obj (b.cpuBind obj)) := by
  rw [key_eq (by decide)]
  cases hitem : itemOf json keyCpuBind with
  | none => rfl
  | some object => exact item_cpuBind (itemOf_string hitem)

theorem key_name :
    b.key json obj keyName = (itemOf json keyName).elim (.ok obj) (b.name obj) := by
  rw [key_eq (by decide)]
  cases hitem : itemOf json keyName with
  | none => rfl
  | some object => exact item_name (itemOf_string hitem)

theorem key_shm : b.key json obj keyShm = (itemOf json keyShm).elim (.ok obj) (b.shm obj) := by
  rw [key_eq (by decide)]
  cases hitem : itemOf json keyShm with
  | none => rfl
  | some object => exact item_shm (itemOf_string hitem)

/-- **The four rounds**: the name, what is set from numbers, and the table. -/
theorem run_eq :
    b.run json obj = (itemOf json keyName).elim (.ok obj) (b.name obj) >>= fun obj =>
      (itemOf json keyShm).elim (.ok (b.numbers json obj)) (b.shm (b.numbers json obj)) := by
  rw [run, itemList, List.foldlM_cons, key_name]
  congr 1
  funext obj
  rw [List.foldlM_cons, key_pid]
  show [keyCpuBind, keyShm].foldlM (b.key json) ((itemOf json keyPid).elim obj (b.pid obj)) = _
  rw [List.foldlM_cons, key_cpuBind]
  show (b.key json (b.numbers json obj) keyShm >>= fun obj => .ok obj) = _
  rw [key_shm]
  cases (itemOf json keyShm).elim (.ok (b.numbers json obj)) (b.shm (b.numbers json obj)) <;> rfl

end Branches

/-! ## The node that comes out -/

/-- The string that is copied to `name`. -/
def nameOf (json : CJson) : Option Bytes := (itemOf json keyName).bind CJson.valuestring

def typeOf (json : CJson) : ChunkTypes :=
  (itemOf json keyPid).elim .err fun object => if object.valueint = 0 then .pub else .sub

def cpuBindOf (json : CJson) : Int := ((itemOf json keyCpuBind).map CJson.valueint).getD 0

section Absent

variable {json : CJson}

theorem pidOf_of_none (h : itemOf json keyPid = none) : pidOf json = 0 := by
  rw [pidOf, ← itemOf, h]
  rfl

theorem typeOf_of_none (h : itemOf json keyPid = none) : typeOf json = .err := by
  rw [typeOf, h]
  rfl

theorem cpuBindOf_of_none (h : itemOf json keyCpuBind = none) : cpuBindOf json = 0 := by
  rw [cpuBindOf, h]
  rfl

end Absent

/-- The node in front of the last round. -/
def plainNode (json : CJson) (name : Bytes) : ConfNode :=
  { name := name, id := pidOf json, type := typeOf json, cpuBind := cpuBindOf json }

section Node

variable {shmCreate : Bytes → UInt8 → Int → Option Int} {json : CJson}

/-- The branches on a `ConfNode`. -/
def confBranches (shmCreate : Bytes → UInt8 → Int → Option Int) : Branches ConfNode where
  name obj object := do
    let name ← strcpyFileName object.valuestring
    pure { obj with name := name }
  pid obj object :=
    { obj with id := object.valueint, type := if object.valueint = 0 then .pub else .sub }
  cpuBind obj object := { obj with cpuBind := object.valueint }
  shm := initShm shmCreate

theorem getIcehydraJsonNode_run :
    getIcehydraJsonNode shmCreate json = (confBranches shmCreate).run json { name := [], id := 0 } := by
  have hkey : loadKey shmCreate json = (confBranches shmCreate).key json := by
    funext obj key
    unfold loadKey Branches.key
    cases cJSONGetObjectItem json key <;> rfl
  rw [getIcehydraJsonNode, hkey]
  rfl

theorem confBranches_numbers {name : Bytes} :
    (confBranches shmCreate).numbers json { name := name, id := 0 } = plainNode json name := by
  rw [plainNode, typeOf, cpuBindOf, pidOf, ← itemOf]
  unfold Branches.numbers
  cases itemOf json keyPid <;> cases itemOf json keyCpuBind <;> rfl

/-- **A value, loaded.** -/
theorem getIcehydraJsonNode_eq :
    getIcehydraJsonNode shmCreate json
      = (itemOf json keyName).elim (.ok []) (fun object => strcpyFileName object.valuestring)
        >>= fun name => (itemOf json keyShm).elim (.ok (plainNode json name))
          (initShm shmCreate (plainNode json name)) := by
  rw [getIcehydraJsonNode_run, Branches.run_eq]
  cases itemOf json keyName with
  | none =>
      show (itemOf json keyShm).elim (Load.ok ((confBranches shmCreate).numbers json _)) _ = _
      rw [confBranches_numbers]
      rfl
  | some object =>
      show ((strcpyFileName object.valuestring >>= fun name => .ok ({ name := name, id := 0 } : ConfNode))
        >>= _) = strcpyFileName object.valuestring >>= _
      cases strcpyFileName object.valuestring with
      | ok name =>
          show (itemOf json keyShm).elim (Load.ok ((confBranches shmCreate).numbers json _)) _ = _
          rw [confBranches_numbers]
          rfl
      | ended | overrun => rfl

end Node

/-! ## Strings that fit -/

theorem strcpyFileName_eq_overrun {src : Option Bytes} :
    strcpyFileName src = .overrun ↔ ∃ name, src = some name ∧ maxFileName ≤ name.length := by
  unfold strcpyFileName
  split
  · simp
  · split
    · rename_i hlt
      simp [Nat.not_le.mpr hlt]
    · rename_i hge
      simp [Nat.not_lt.mp hge]

/-- Every string that the item of a key has copied is short enough for its array. -/
structure CopiesFit (json : CJson) : Prop where
  name : ∀ name, nameOf json = some name → name.length < maxFileName
  shm : ∀ items, shmItems json = some items → ∀ obj ∈ items, ∀ name, shmNameOf obj = some name →
    name.length < maxFileName

section Copies

variable {shmCreate : Bytes → UInt8 → Int → Option Int} {filename : Bytes} {p : UInt8}
  {items : List CJson} {r : List ShmNode × UInt8} {json : CJson} {node : ConfNode}

theorem initShmLoop_short (h : initShmLoop shmCreate filename p items = .ok r) :
    ∀ obj ∈ items, ∀ name, shmNameOf obj = some name → name.length < maxFileName := by
  induction items generalizing p r with
  | nil => exact fun _ hobj => absurd hobj List.not_mem_nil
  | cons obj items ih =>
      obtain ⟨n, r', hn, hlt, -, hrest, -⟩ := initShmLoop_cons_iff.mp h
      intro obj' hobj' name hname
      rcases List.mem_cons.mp hobj' with rfl | hobj'
      · rwa [← Option.some.inj (hn.name.symm.trans hname)]
      · exact ih hrest obj' hobj' name hname

theorem initShmLoop_overrun (h : initShmLoop shmCreate filename p items = .overrun) :
    ∃ obj ∈ items, ∃ name, shmNameOf obj = some name ∧ maxFileName ≤ name.length := by
  induction items generalizing p with
  | nil => cases h
  | cons obj items ih =>
      rw [initShmLoop] at h
      cases hsize : cJSONGetObjectItemCaseSensitive obj keyShmSize with
      | none =>
          rw [hsize] at h
          cases h
      | some shmSize =>
          rw [hsize] at h
          cases hid : shmCreate filename (p + 1) shmSize.valueint with
          | none =>
              simp only [hid] at h
              cases h
          | some shmId =>
              simp only [hid] at h
              rcases Load.bind_eq_overrun.mp h with hcpy | ⟨shmName, -, h⟩
              · obtain ⟨name, hname, hle⟩ := strcpyFileName_eq_overrun.mp hcpy
                exact ⟨obj, List.mem_cons_self, name, hname, hle⟩
              · rcases Load.bind_eq_overrun.mp h with hrest | ⟨r', -, h⟩
                · obtain ⟨obj', hobj', hlong⟩ := ih hrest
                  exact ⟨obj', List.mem_cons_of_mem _ hobj', hlong⟩
                · cases h

theorem copiesFit_of_loads (h : Loads shmCreate json) : CopiesFit json := by
  obtain ⟨node, hnode⟩ := h
  rw [getIcehydraJsonNode_eq] at hnode
  obtain ⟨name, hname, hshm⟩ := Load.bind_eq_ok.mp hnode
  refine ⟨fun s hs => ?_, fun items hitems => ?_⟩
  · obtain ⟨object, hitem, hvalue⟩ := Option.bind_eq_some_iff.mp hs
    rw [hitem] at hname
    obtain ⟨hsome, hlt⟩ := strcpyFileName_eq_ok.mp hname
    rwa [Option.some.inj (hvalue.symm.trans hsome)]
  · rw [shmItems, ← itemOf] at hitems
    obtain ⟨object, hitem, rfl⟩ := Option.map_eq_some_iff.mp hitems
    rw [hitem] at hshm
    obtain ⟨r, hloop, -⟩ := Load.bind_eq_ok.mp hshm
    exact initShmLoop_short hloop

theorem not_copiesFit_of_overruns (h : Overruns shmCreate json) : ¬ CopiesFit json := by
  intro hfit
  rw [Overruns, getIcehydraJsonNode_eq] at h
  rcases Load.bind_eq_overrun.mp h with hname | ⟨name, -, hshm⟩
  · cases hitem : itemOf json keyName with
    | none =>
        rw [hitem] at hname
        cases hname
    | some object =>
        rw [hitem] at hname
        obtain ⟨s, hs, hle⟩ := strcpyFileName_eq_overrun.mp hname
        exact Nat.not_lt.mpr hle (hfit.name s (by rw [nameOf, hitem]; exact hs))
  · cases hitem : itemOf json keyShm with
    | none =>
        rw [hitem] at hshm
        cases hshm
    | some object =>
        rw [hitem] at hshm
        rcases Load.bind_eq_overrun.mp hshm with hloop | ⟨r, -, h⟩
        · obtain ⟨obj, hobj, s, hs, hle⟩ := initShmLoop_overrun hloop
          exact Nat.not_lt.mpr hle
            (hfit.shm object.child (by rw [shmItems, ← itemOf, hitem]; rfl) obj hobj s hs)
        · cases h

/-- If the process goes on, a value is loaded or a string was too long. -/
theorem loads_or_overruns (hret : getIcehydraJsonNode shmCreate json ≠ .ended) :
    Loads shmCreate json ∨ Overruns shmCreate json := by
  unfold Loads Overruns
  cases hout : getIcehydraJsonNode shmCreate json with
  | ok node => exact .inl ⟨node, rfl⟩
  | ended => exact absurd hout hret
  | overrun => exact .inr rfl

end Copies

/-! ## Fields and members -/

/-- The field of this key has the value of this member. -/
structure TakenFrom (shmCreate : Bytes → UInt8 → Int → Option Int) (key : Bytes) (object : CJson)
    (node : ConfNode) : Prop where
  name : key = keyName → object.valuestring = some node.name
  pid : key = keyPid → node.id = object.valueint ∧
    node.type = if object.valueint = 0 then .pub else .sub
  cpuBind : key = keyCpuBind → node.cpuBind = object.valueint
  shm : key = keyShm → ∃ r, initShmLoop shmCreate (namePrefix ++ node.name) 0 object.child = .ok r ∧
    node.shmTable = (some r.1, (r.2.toNat : Int))

/-- It is as `calloc` left it. -/
structure Untouched (key : Bytes) (node : ConfNode) : Prop where
  name : key = keyName → node.name = []
  pid : key = keyPid → node.id = 0 ∧ node.type = .err
  cpuBind : key = keyCpuBind → node.cpuBind = 0
  shm : key = keyShm → node.shmTable = (none, 0)

/-- The member says what an untouched field says: an empty name, or CPU 0. -/
def SaysNothing (key : Bytes) (object : CJson) : Prop :=
  (key = keyName ∧ object.valuestring = some []) ∨ (key = keyCpuBind ∧ object.valueint = 0)

section Fields

variable {shmCreate : Bytes → UInt8 → Int → Option Int} {json object : CJson} {node : ConfNode}
  {key : Bytes} {pre post : List CJson}

theorem initShm_taken {name : Bytes} (h : initShm shmCreate (plainNode json name) object = .ok node) :
    ∃ r, initShmLoop shmCreate (namePrefix ++ name) 0 object.child = .ok r ∧
      node = { plainNode json name with shmNodePtr := some r.1, shmNodeNum := r.2.toNat } := by
  obtain ⟨r, hloop, hr⟩ := Load.bind_eq_ok.mp h
  exact ⟨r, hloop, (Load.ok.inj hr).symm⟩

/-- A node that has been loaded, in the two parts that the name and the table come in. -/
structure LoadedIn (shmCreate : Bytes → UInt8 → Int → Option Int) (json : CJson)
    (node : ConfNode) : Prop where
  name : (itemOf json keyName).elim (.ok []) (fun object => strcpyFileName object.valuestring)
    = .ok node.name
  pid : node.id = pidOf json
  type : node.type = typeOf json
  cpuBind : node.cpuBind = cpuBindOf json
  shm : (itemOf json keyShm).elim (.ok (plainNode json node.name))
    (initShm shmCreate (plainNode json node.name)) = .ok node

theorem loadedIn (h : getIcehydraJsonNode shmCreate json = .ok node) :
    LoadedIn shmCreate json node := by
  rw [getIcehydraJsonNode_eq] at h
  obtain ⟨name, hname, hshm⟩ := Load.bind_eq_ok.mp h
  cases hitem : itemOf json keyShm with
  | none =>
      rw [hitem] at hshm
      obtain rfl := Load.ok.inj hshm
      exact ⟨hname, rfl, rfl, rfl, by rw [hitem]; rfl⟩
  | some object =>
      rw [hitem] at hshm
      obtain ⟨r, -, hnode⟩ := initShm_taken hshm
      have hsame : node.name = name := by rw [hnode]; rfl
      subst hsame
      exact ⟨hname, by rw [hnode]; rfl, by rw [hnode]; rfl, by rw [hnode]; rfl, by rw [hitem]; exact hshm⟩

theorem LoadedIn.untouched (h : LoadedIn shmCreate json node) (hitem : itemOf json key = none) :
    Untouched key node where
  name := by
    rintro rfl
    have hname := h.name
    rw [hitem] at hname
    exact (Load.ok.inj hname).symm
  pid := by
    rintro rfl
    exact ⟨h.pid.trans (pidOf_of_none hitem), h.type.trans (typeOf_of_none hitem)⟩
  cpuBind := by
    rintro rfl
    exact h.cpuBind.trans (cpuBindOf_of_none hitem)
  shm := by
    rintro rfl
    have hshm := h.shm
    rw [hitem] at hshm
    rw [← Load.ok.inj hshm]
    rfl

theorem LoadedIn.takenFrom (h : LoadedIn shmCreate json node)
    (hitem : itemOf json key = some object) : TakenFrom shmCreate key object node where
  name := by
    rintro rfl
    have hname := h.name
    rw [hitem] at hname
    exact (strcpyFileName_eq_ok.mp hname).1
  pid := by
    rintro rfl
    rw [h.pid, h.type, pidOf, typeOf, ← itemOf, hitem]
    exact ⟨rfl, rfl⟩
  cpuBind := by
    rintro rfl
    rw [h.cpuBind, cpuBindOf, hitem]
    rfl
  shm := by
    rintro rfl
    have hshm := h.shm
    rw [hitem] at hshm
    obtain ⟨r, hloop, hnode⟩ := initShm_taken hshm
    exact ⟨r, hloop, by rw [hnode]; rfl⟩

theorem takenFrom_untouched_iff (h : Untouched key node) (hkey : key ∈ itemList) :
    TakenFrom shmCreate key object node ↔ SaysNothing key object := by
  constructor
  · intro ht
    rcases mem_itemList.mp hkey with rfl | rfl | rfl | rfl
    · exact .inl ⟨rfl, by rw [ht.name rfl, h.name rfl]⟩
    · have htype := (ht.pid rfl).2
      rw [(h.pid rfl).2] at htype
      split at htype <;> cases htype
    · exact .inr ⟨rfl, by rw [← ht.cpuBind rfl, h.cpuBind rfl]⟩
    · obtain ⟨r, -, htable⟩ := ht.shm rfl
      rw [h.shm rfl] at htable
      cases htable
  · rintro (⟨rfl, hvalue⟩ | ⟨rfl, hvalue⟩)
    · refine ⟨fun _ => by rw [hvalue, h.name rfl], fun heq => ?_, fun heq => ?_, fun heq => ?_⟩
      · exact absurd heq (by decide)
      · exact absurd heq (by decide)
      · exact absurd heq (by decide)
    · refine ⟨fun heq => ?_, fun heq => ?_, fun _ => by rw [hvalue, h.cpuBind rfl], fun heq => ?_⟩
      · exact absurd heq (by decide)
      · exact absurd heq (by decide)
      · exact absurd heq (by decide)

/-- No member is the value of every field. -/
theorem exists_not_takenFrom (shmCreate : Bytes → UInt8 → Int → Option Int) (object : CJson)
    (hkey : key ∈ itemList) : ∃ node, ¬ TakenFrom shmCreate key object node := by
  refine ⟨{ name := if object.valuestring = some [] then [0] else [], id := 0,
            cpuBind := object.valueint + 1 }, fun h => ?_⟩
  rcases mem_itemList.mp hkey with rfl | rfl | rfl | rfl
  · have hname := h.name rfl
    by_cases hempty : object.valuestring = some []
    · simp [hempty] at hname
    · simp [hempty] at hname
  · have htype : ChunkTypes.err = if object.valueint = 0 then .pub else .sub := (h.pid rfl).2
    split at htype <;> cases htype
  · have hcpu : object.valueint + 1 = object.valueint := h.cpuBind rfl
    omega
  · obtain ⟨r, -, htable⟩ := h.shm rfl
    cases htable

/-! ## The member in front -/

/-- With no other spelling in front of it, the lookup finds the member. -/
theorem itemOf_of_plain (hchild : json.child = pre ++ object :: post)
    (hexact : object.string = some key)
    (hplain : ∀ m ∈ pre, caseInsensitiveStrcmp key m.string = false) :
    itemOf json key = some object := by
  have hself : (object :: post).find? (fun m => caseInsensitiveStrcmp key m.string) = some object :=
    List.find?_cons_of_pos (by simp [hexact, caseInsensitiveStrcmp])
  have hnone : pre.find? (fun m => caseInsensitiveStrcmp key m.string) = none :=
    List.find?_eq_none.mpr fun m hm => by simp [hplain m hm]
  rw [itemOf, cJSONGetObjectItem, hchild, List.find?_append, hnone, Option.none_or,
    hself, Option.filter_some, if_pos (by simp [hexact])]

/-- Another spelling in front of it is found, and passed over. -/
theorem itemOf_of_variant (hchild : json.child = pre ++ object :: post)
    (hfirst : ∀ m ∈ pre, m.string ≠ some key)
    (hvariant : ∃ m ∈ pre, caseInsensitiveStrcmp key m.string = true) :
    itemOf json key = none := by
  have hsome : (pre.find? fun m => caseInsensitiveStrcmp key m.string).isSome :=
    List.find?_isSome.mpr hvariant
  obtain ⟨m, hm⟩ := Option.isSome_iff_exists.mp hsome
  have hmem := List.mem_of_find?_eq_some hm
  rw [itemOf, cJSONGetObjectItem, hchild, List.find?_append, hm, Option.some_or,
    Option.filter_some, if_neg (by simp [hfirst m hmem])]

end Fields

/-- `get_icehydra_json_node` may return this; behind an overrun, anything. -/
inductive YieldsItem (shmCreate : Bytes → UInt8 → Int → Option Int) (json : CJson)
    (node : ConfNode) : Prop
  | ok : getIcehydraJsonNode shmCreate json = .ok node → YieldsItem shmCreate json node
  | overrun : getIcehydraJsonNode shmCreate json = .overrun → YieldsItem shmCreate json node

/-- **The member with the exact key**, the first of them, is what the field is
taken from exactly when the strings that are copied fit and no member in front of
it has the key in another spelling, or it says no more than an untouched field. -/
theorem getIcehydraJsonNode_takes_iff (shmCreate : Bytes → UInt8 → Int → Option Int)
    (json : CJson) (key : Bytes) (object : CJson) (pre post : List CJson) (hkey : key ∈ itemList)
    (hchild : json.child = pre ++ object :: post) (hexact : object.string = some key)
    (hfirst : ∀ m ∈ pre, m.string ≠ some key)
    (hret : getIcehydraJsonNode shmCreate json ≠ .ended) :
    (∀ node, YieldsItem shmCreate json node → TakenFrom shmCreate key object node) ↔
      CopiesFit json ∧
        ((∀ m ∈ pre, caseInsensitiveStrcmp key m.string = false) ∨ SaysNothing key object) := by
  rcases loads_or_overruns hret with hload | hover
  · have hfit := copiesFit_of_loads hload
    obtain ⟨node, hnode⟩ := hload
    have hloaded := loadedIn hnode
    have honly : (∀ node, YieldsItem shmCreate json node → TakenFrom shmCreate key object node) ↔
        TakenFrom shmCreate key object node := by
      refine ⟨fun hall => hall node (.ok hnode), fun ht node' hy => ?_⟩
      cases hy with
      | ok hok =>
          obtain rfl := Load.ok.inj (hnode.symm.trans hok)
          exact ht
      | overrun hover =>
          rw [hnode] at hover
          cases hover
    rw [honly, and_iff_right hfit]
    by_cases hplain : ∀ m ∈ pre, caseInsensitiveStrcmp key m.string = false
    · have htaken : TakenFrom shmCreate key object node :=
        hloaded.takenFrom (itemOf_of_plain hchild hexact hplain)
      exact iff_of_true htaken (.inl hplain)
    · have hvariant : ∃ m ∈ pre, caseInsensitiveStrcmp key m.string = true := by
        simpa using hplain
      rw [or_iff_right hplain]
      exact takenFrom_untouched_iff (hloaded.untouched (itemOf_of_variant hchild hfirst hvariant)) hkey
  · refine iff_of_false (fun hall => ?_) fun h => not_copiesFit_of_overruns hover h.1
    obtain ⟨node, hnot⟩ := exists_not_takenFrom shmCreate object hkey
    exact hnot (hall node (.overrun hover))

/-- `ih-pid` in front of the same in capitals. -/
theorem getIcehydraJsonNode_takes_first :
    let object := CJson.numberItem keyPid 5
    let post := [CJson.numberItem [73, 72, 45, 80, 73, 68] 1]
    ∀ node, YieldsItem (fun _ _ _ => none) (.object (object :: post)) node →
      TakenFrom (fun _ _ _ => none) keyPid object node := by
  intro object post
  have hok : getIcehydraJsonNode (fun _ _ _ => none) (.object (object :: post))
      = .ok { name := [], id := 5, type := .sub } := rfl
  have hret : getIcehydraJsonNode (fun _ _ _ => none) (.object (object :: post)) ≠ .ended := by
    rw [hok]
    exact fun h => by cases h
  exact (getIcehydraJsonNode_takes_iff (fun _ _ _ => none) (.object (object :: post)) keyPid object
    [] post (by decide) rfl rfl (fun _ hm => absurd hm List.not_mem_nil) hret).mpr
    ⟨copiesFit_of_loads ⟨_, hok⟩, .inl fun _ hm => absurd hm List.not_mem_nil⟩

/-- **`IH-PID` in front of `ih-pid`**: the id is 0, and not 5. -/
theorem getIcehydraJsonNode_passes_over :
    let object := CJson.numberItem keyPid 5
    let pre := [CJson.numberItem [73, 72, 45, 80, 73, 68] 1]
    ∃ node, YieldsItem (fun _ _ _ => none) (.object (pre ++ [object])) node ∧ node.id = 0 ∧
      ¬ TakenFrom (fun _ _ _ => none) keyPid object node :=
  ⟨{ name := [], id := 0 }, .ok rfl, rfl, fun h => absurd (h.pid rfl).1 (by decide)⟩

end Icehydra
