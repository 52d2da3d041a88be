import Icehydra.Main

/-!
# ConfFile — get_node_start

`get_node_start` of `src/conf.c` and what it calls, over the values that the
successive `cJSON_ParseWithOpts` calls give for the file, up to the first that
gives none. The nodes it allocates are numbered in that order; a list head is
the row of the nodes that were hung on it. What `shm_create` answers is a
parameter.
-/

namespace Icehydra

/-! ## cJSON -/

/-- `cJSON`, as far as it is read: `string` is the key under which an object
has it, `valuestring` and `valueint` are set by strings and by numbers. -/
structure CJson where
  string : Option Bytes
  valuestring : Option Bytes
  valueint : Int
  child : List CJson

/-- The C locale's. -/
def tolower (b : UInt8) : UInt8 := if 65 ≤ b ∧ b ≤ 90 then b + 32 else b

/-- Whether `case_insensitive_strcmp` gives 0; a null pointer differs. -/
def caseInsensitiveStrcmp (string1 : Bytes) (string2 : Option Bytes) : Bool :=
  string2.any fun string2 => string1.map tolower = string2.map tolower

def cJSONGetObjectItem (object : CJson) (string : Bytes) : Option CJson :=
  object.child.find? fun current => caseInsensitiveStrcmp string current.string

/-- A child without a key ends the search. -/
def cJSONGetObjectItemCaseSensitive (object : CJson) (string : Bytes) : Option CJson :=
  (object.child.find? fun current => current.string = none ∨ current.string = some string).filter
    fun current => current.string.isSome

/-! ## Loading -/

/-- How a step of loading comes out. `ended`: `exit`, a failed assertion or a
null pointer ends the process. `overrun`: a string was copied past the end of
its array, behind which C promises nothing. -/
inductive Load (α : Type) where
  | ok (a : α)
  | ended
  | overrun

def Load.bind {α β : Type} (x : Load α) (f : α → Load β) : Load β :=
  match x with
  | .ok a => f a
  | .ended => .ended
  | .overrun => .overrun

instance : Monad Load where
  pure := .ok
  bind := Load.bind

inductive ChunkTypes where
  | err
  | pub
  | sub
  deriving DecidableEq

/-- `pub_sub_node_t` with the fields that only its loading touches; `calloc`
has set all of them to zero. -/
structure ConfNode extends PubSubNode where
  type : ChunkTypes := .err
  cpuBind : Int := 0
  pubLinksNum : Int := 0

def maxFileName : Nat := 32

/-- `strcpy` into an array of MAX_FILE_NAME bytes. -/
def strcpyFileName (src : Option Bytes) : Load Bytes :=
  match src with
  | none => .ended
  | some src => if src.length < maxFileName then .ok src else .overrun

/-! ### init_shm -/

def keyShmName : Bytes := [115, 104, 109, 95, 110, 97, 109, 101]
def keyShmSize : Bytes := [115, 104, 109, 95, 115, 105, 122, 101]

section Shm

-- The id that `shm_create` finds for a file name, a `proj_id` and a size;
-- `none` where it leaves `mem_ptr` null and the assertion behind it fails. In a
-- build without assertions the answer there is 0, to which the id is initialized.
variable (shmCreate : Bytes → UInt8 → Int → Option Int)

/-- `cJSON_ArrayForEach(shm_json_obj, json)`; the result holds `shm_proj_id`
too. -/
def initShmLoop (filename : Bytes) (shmProjId : UInt8) : List CJson → Load (List ShmNode × UInt8)
  | [] => .ok ([], shmProjId)
  | obj :: rest =>
      let shmProjId := shmProjId + 1
      match cJSONGetObjectItemCaseSensitive obj keyShmSize with
      | none => .ended
      | some shmSize =>
          match shmCreate filename shmProjId shmSize.valueint with
          | none => .ended
          | some shmId => do
              let shmName ← strcpyFileName
                ((cJSONGetObjectItemCaseSensitive obj keyShmName).bind CJson.valuestring)
              let r ← initShmLoop filename shmProjId rest
              pure (⟨shmName, shmId, shmSize.valueint⟩ :: r.1, r.2)

/-- `calloc` does not fail. -/
def initShm (node : ConfNode) (json : CJson) : Load ConfNode := do
  let r ← initShmLoop shmCreate (namePrefix ++ node.name) 0 json.child
  pure { node with shmNodePtr := some r.1, shmNodeNum := r.2.toNat }

/-! ### get_icehydra_json_node -/

def keyName : Bytes := [105, 104, 45, 110, 97, 109, 101]
def keyPid : Bytes := [105, 104, 45, 112, 105, 100]
def keyCpuBind : Bytes := [105, 104, 45, 99, 112, 117, 95, 98, 105, 110, 100]
def keyShm : Bytes := [105, 104, 45, 115, 104, 109]

def itemList : List Bytes := [keyName, keyPid, keyCpuBind, keyShm]

/-! What the loop does with an item it has found; each `isStrSame` is exact,
where the lookup was not. -/

def loadName (obj : ConfNode) (object : CJson) : Load ConfNode :=
  if object.string = some keyName then do
    let name ← strcpyFileName object.valuestring
    pure { obj with name := name }
  else pure obj

def loadPid (obj : ConfNode) (object : CJson) : ConfNode :=
  if object.string = some keyPid then
    { obj with id := object.valueint, type := if object.valueint = 0 then .pub else .sub }
  else obj

def loadCpuBind (obj : ConfNode) (object : CJson) : ConfNode :=
  if object.string = some keyCpuBind then { obj with cpuBind := object.valueint } else obj

def loadShm (obj : ConfNode) (object : CJson) : Load ConfNode :=
  if object.string = some keyShm then initShm shmCreate obj object else pure obj

def loadItem (obj : ConfNode) (object : CJson) : Load ConfNode := do
  let obj ← loadName obj object
  loadShm shmCreate (loadCpuBind (loadPid obj object) object) object

def loadKey (json : CJson) (obj : ConfNode) (key : Bytes) : Load ConfNode :=
  match cJSONGetObjectItem json key with
  | none => .ok obj
  | some object => loadItem shmCreate obj object

def getIcehydraJsonNode (json : CJson) : Load ConfNode :=
  itemList.foldlM (loadKey shmCreate json) { name := [], id := 0 }

/-! ### get_node_start -/

/-- An allocated node, and the nodes that hang on its `node_list`. -/
structure HeapNode where
  node : ConfNode
  nodeList : List Nat

/-- Where the loop stands: `heap` are the nodes allocated so far. -/
structure Building where
  heap : List HeapNode
  nodeCount : Nat
  headNode : Option Nat
  resultNode : Option Nat

/-- One round of `while(json)`. -/
def Building.add (st : Building) (json : CJson) : Load Building := do
  let node ← getIcehydraJsonNode shmCreate json
  let i := st.heap.length
  if st.nodeCount = 0 ∧ node.id ≠ 0 then .ended
  else if node.id = 0 then
    pure ⟨st.heap ++ [⟨node, []⟩], st.nodeCount + 1, some i, some i⟩
  else
    match st.headNode with
    | none => .ended
    | some head =>
        let heap := st.heap.modify head fun h => { h with nodeList := h.nodeList ++ [i] }
        pure { st with heap := heap ++ [⟨node, []⟩], nodeCount := st.nodeCount + 1 }

def Building.addAll (st : Building) : List CJson → Load Building
  | [] => .ok st
  | json :: rest => do
      let st ← st.add shmCreate json
      st.addAll rest

/-- The pointer that comes back, and what it leads to. -/
structure NodeStart where
  heap : List HeapNode
  result : Nat

/-- `result_node->pub_links_num = node_count-1;` -/
def Building.linked (st : Building) (result : Nat) : NodeStart where
  heap :=
    st.heap.modify result fun h => { h with node := { h.node with pubLinksNum := st.nodeCount - 1 } }
  result := result

def getNodeStart (values : List CJson) : Load NodeStart := do
  let st ← Building.addAll shmCreate ⟨[], 0, none, none⟩ values
  match st.resultNode with
  | none => .ended
  | some result => pure (st.linked result)

end Shm

/-! ## The id of a value -/

/-- The value loads with id 0: it has no `ih-pid` that the lookup finds and
that is spelled so, or one whose number is 0. -/
def ZeroPid (json : CJson) : Prop :=
  ∀ object, cJSONGetObjectItem json keyPid = some object → object.string = some keyPid →
    object.valueint = 0

/-- The id that a value loads with. -/
def pidOf (json : CJson) : Int :=
  (((cJSONGetObjectItem json keyPid).filter fun object =>
    object.string = some keyPid).map CJson.valueint).getD 0

theorem zeroPid_iff {json : CJson} : ZeroPid json ↔ pidOf json = 0 := by
  unfold ZeroPid pidOf
  cases cJSONGetObjectItem json keyPid with
  | none => simp
  | some object =>
      by_cases hpid : object.string = some keyPid
      · simp [Option.filter_some, hpid]
      · simp [Option.filter_some, hpid]

section Load

variable {α β : Type} {x : Load α} {f : α → Load β}

theorem Load.bind_eq_ok {b : β} : (x >>= f) = .ok b ↔ ∃ a, x = .ok a ∧ f a = .ok b := by
  cases x with
  | ok a => simp [Bind.bind, Load.bind]
  | ended | overrun => simp [Bind.bind, Load.bind]

theorem Load.bind_eq_overrun :
    (x >>= f) = .overrun ↔ x = .overrun ∨ ∃ a, x = .ok a ∧ f a = .overrun := by
  cases x with
  | ok a => simp [Bind.bind, Load.bind]
  | ended | overrun => simp [Bind.bind, Load.bind]

end Load

theorem cJSONGetObjectItem_string {json object : CJson} {key : Bytes}
    (h : cJSONGetObjectItem json key = some object) :
    ∃ s, object.string = some s ∧ key.map tolower = s.map tolower := by
  have hfound := List.find?_some h
  simp only [caseInsensitiveStrcmp, Option.any_eq_true, decide_eq_true_eq] at hfound
  exact hfound

theorem cJSONGetObjectItem_string_ne {json object : CJson} {key key' : Bytes}
    (h : cJSONGetObjectItem json key = some object) (hne : key.map tolower ≠ key'.map tolower) :
    object.string ≠ some key' := by
  obtain ⟨s, hs, hsame⟩ := cJSONGetObjectItem_string h
  rw [hs]
  intro heq
  rw [Option.some.inj heq] at hsame
  exact hne hsame

section Shm

variable {shmCreate : Bytes → UInt8 → Int → Option Int}

theorem loadName_eq {obj node : ConfNode} {object : CJson}
    (h : loadName obj object = .ok node) : ∃ name, node = { obj with name := name } := by
  unfold loadName at h
  split at h
  · obtain ⟨name, -, hobj⟩ := Load.bind_eq_ok.mp h
    exact ⟨name, (Load.ok.inj hobj).symm⟩
  · exact ⟨obj.name, (Load.ok.inj h).symm⟩

theorem loadShm_eq {obj node : ConfNode} {object : CJson}
    (h : loadShm shmCreate obj object = .ok node) :
    ∃ ptr num, node = { obj with shmNodePtr := ptr, shmNodeNum := num } := by
  unfold loadShm at h
  split at h
  · obtain ⟨r, -, hr⟩ := Load.bind_eq_ok.mp h
    exact ⟨_, _, (Load.ok.inj hr).symm⟩
  · exact ⟨obj.shmNodePtr, obj.shmNodeNum, (Load.ok.inj h).symm⟩

theorem loadItem_eq {obj node : ConfNode} {object : CJson}
    (h : loadItem shmCreate obj object = .ok node) :
    ∃ name ptr num, node =
      { loadCpuBind (loadPid { obj with name := name } object) object with
        shmNodePtr := ptr, shmNodeNum := num } := by
  obtain ⟨obj₁, hname, hshm⟩ := Load.bind_eq_ok.mp h
  obtain ⟨name, rfl⟩ := loadName_eq hname
  obtain ⟨ptr, num, rfl⟩ := loadShm_eq hshm
  exact ⟨name, ptr, num, rfl⟩

/-- Only an item that is spelled `ih-pid` sets the id. -/
theorem loadItem_id {obj node : ConfNode} {object : CJson}
    (h : loadItem shmCreate obj object = .ok node) :
    node.id = if object.string = some keyPid then object.valueint else obj.id := by
  obtain ⟨name, ptr, num, rfl⟩ := loadItem_eq h
  show (loadCpuBind (loadPid { obj with name := name } object) object).id = _
  unfold loadCpuBind loadPid
  split <;> split <;> rfl

theorem loadItem_connfd {obj node : ConfNode} {object : CJson}
    (h : loadItem shmCreate obj object = .ok node) : node.connfd = obj.connfd := by
  obtain ⟨name, ptr, num, rfl⟩ := loadItem_eq h
  show (loadCpuBind (loadPid { obj with name := name } object) object).connfd = _
  unfold loadCpuBind loadPid
  split <;> split <;> rfl

theorem loadKey_connfd {json : CJson} {obj node : ConfNode} {key : Bytes}
    (h : loadKey shmCreate json obj key = .ok node) : node.connfd = obj.connfd := by
  unfold loadKey at h
  split at h
  · rw [← Load.ok.inj h]
  · exact loadItem_connfd h

/-- The four rounds of the loop. -/
theorem getIcehydraJsonNode_ok {json : CJson} {node : ConfNode}
    (h : getIcehydraJsonNode shmCreate json = .ok node) :
    ∃ n₁ n₂ n₃, loadKey shmCreate json { name := [], id := 0 } keyName = .ok n₁ ∧
      loadKey shmCreate json n₁ keyPid = .ok n₂ ∧ loadKey shmCreate json n₂ keyCpuBind = .ok n₃ ∧
      loadKey shmCreate json n₃ keyShm = .ok node := by
  obtain ⟨n₁, h₁, h⟩ := Load.bind_eq_ok.mp h
  obtain ⟨n₂, h₂, h⟩ := Load.bind_eq_ok.mp h
  obtain ⟨n₃, h₃, h⟩ := Load.bind_eq_ok.mp h
  obtain ⟨n₄, h₄, h⟩ := Load.bind_eq_ok.mp h
  obtain rfl := Load.ok.inj h
  exact ⟨n₁, n₂, n₃, h₁, h₂, h₃, h₄⟩

/-- No key of the file is about the connection. -/
theorem getIcehydraJsonNode_connfd {json : CJson} {node : ConfNode}
    (h : getIcehydraJsonNode shmCreate json = .ok node) : node.connfd = 0 := by
  obtain ⟨n₁, n₂, n₃, h₁, h₂, h₃, h₄⟩ := getIcehydraJsonNode_ok h
  rw [loadKey_connfd h₄, loadKey_connfd h₃, loadKey_connfd h₂, loadKey_connfd h₁]

theorem loadKey_id {json : CJson} {obj node : ConfNode} {key : Bytes}
    (h : loadKey shmCreate json obj key = .ok node) :
    node.id = (((cJSONGetObjectItem json key).filter fun object =>
      object.string = some keyPid).map CJson.valueint).getD obj.id := by
  unfold loadKey at h
  split at h
  · rename_i hnone
    rw [← Load.ok.inj h, hnone]
    rfl
  · rename_i object hobject
    rw [loadItem_id h, hobject, Option.filter_some]
    by_cases hpid : object.string = some keyPid
    · simp [hpid]
    · simp [hpid]

/-- The other keys do not. -/
theorem loadKey_id_of_ne {json : CJson} {obj node : ConfNode} {key : Bytes}
    (h : loadKey shmCreate json obj key = .ok node)
    (hne : key.map tolower ≠ keyPid.map tolower) : node.id = obj.id := by
  rw [loadKey_id h]
  cases hobject : cJSONGetObjectItem json key with
  | none => rfl
  | some object =>
      have hnot := cJSONGetObjectItem_string_ne hobject hne
      simp [Option.filter_some, hnot]

/-- **The id a value loads with.** -/
theorem getIcehydraJsonNode_pid {json : CJson} {node : ConfNode}
    (h : getIcehydraJsonNode shmCreate json = .ok node) : node.id = pidOf json := by
  obtain ⟨n₁, n₂, n₃, h₁, h₂, h₃, h₄⟩ := getIcehydraJsonNode_ok h
  have hstart : n₁.id = 0 := loadKey_id_of_ne h₁ (by decide)
  rw [loadKey_id_of_ne h₄ (by decide), loadKey_id_of_ne h₃ (by decide), loadKey_id h₂, hstart]
  rfl

theorem getIcehydraJsonNode_id {json : CJson} {node : ConfNode}
    (h : getIcehydraJsonNode shmCreate json = .ok node) : node.id = 0 ↔ ZeroPid json := by
  rw [getIcehydraJsonNode_pid h, zeroPid_iff]

/-! ## One value after another -/

/-- The value becomes a node. -/
def Loads (shmCreate : Bytes → UInt8 → Int → Option Int) (json : CJson) : Prop :=
  ∃ node, getIcehydraJsonNode shmCreate json = .ok node

/-- One of its strings is too long for the array it is copied to. -/
def Overruns (shmCreate : Bytes → UInt8 → Int → Option Int) (json : CJson) : Prop :=
  getIcehydraJsonNode shmCreate json = .overrun

namespace Building

variable {st st' : Building} {json : CJson}

/-- A node with id 0 becomes the head. -/
def addHead (st : Building) (node : ConfNode) : Building :=
  ⟨st.heap ++ [⟨node, []⟩], st.nodeCount + 1, some st.heap.length, some st.heap.length⟩

/-- Any other is hung on the present one. -/
def addTail (st : Building) (head : Nat) (node : ConfNode) : Building :=
  { st with
    heap := (st.heap.modify head fun h => { h with nodeList := h.nodeList ++ [st.heap.length] })
      ++ [⟨node, []⟩]
    nodeCount := st.nodeCount + 1 }

theorem add_eq {node : ConfNode} (hnode : getIcehydraJsonNode shmCreate json = .ok node) :
    st.add shmCreate json =
      if st.nodeCount = 0 ∧ node.id ≠ 0 then .ended
      else if node.id = 0 then .ok (st.addHead node)
      else (st.headNode.elim .ended fun head => .ok (st.addTail head node)) := by
  obtain ⟨heap, nodeCount, headNode, resultNode⟩ := st
  rw [add, hnode]
  cases headNode <;> rfl

theorem add_zero {node : ConfNode} (hnode : getIcehydraJsonNode shmCreate json = .ok node)
    (hzero : node.id = 0) : st.add shmCreate json = .ok (st.addHead node) := by
  rw [add_eq hnode, if_neg fun h => h.2 hzero, if_pos hzero]

theorem add_of_ne {node : ConfNode} {head : Nat}
    (hnode : getIcehydraJsonNode shmCreate json = .ok node) (hne : node.id ≠ 0)
    (hcount : st.nodeCount ≠ 0) (hhead : st.headNode = some head) :
    st.add shmCreate json = .ok (st.addTail head node) := by
  rw [add_eq hnode, if_neg fun h => hcount h.1, if_neg hne, hhead, Option.elim_some]

/-- The ways a round goes on. -/
theorem add_cases (h : st.add shmCreate json = .ok st') :
    ∃ node, getIcehydraJsonNode shmCreate json = .ok node ∧
      ((node.id = 0 ∧ st' = st.addHead node) ∨
        (node.id ≠ 0 ∧ ∃ head, st.headNode = some head ∧ st' = st.addTail head node)) := by
  obtain ⟨node, hnode, -⟩ := Load.bind_eq_ok.mp h
  refine ⟨node, hnode, ?_⟩
  rw [add_eq hnode] at h
  split at h
  · cases h
  · split at h
    · rename_i hzero
      exact .inl ⟨hzero, (Load.ok.inj h).symm⟩
    · rename_i hne
      cases hhead : st.headNode with
      | none =>
          rw [hhead] at h
          cases h
      | some head =>
          rw [hhead] at h
          exact .inr ⟨hne, head, rfl, (Load.ok.inj h).symm⟩

theorem add_overrun_iff : st.add shmCreate json = .overrun ↔ Overruns shmCreate json := by
  refine Load.bind_eq_overrun.trans (or_iff_left ?_)
  rintro ⟨node, -, h⟩
  split at h
  · cases h
  · split at h
    · cases h
    · split at h <;> cases h

/-- A head is there. -/
structure Started (st : Building) : Prop where
  nodeCount : st.nodeCount ≠ 0
  headNode : ∃ head, st.headNode = some head

/-- A value that loads is taken once there is a head, and makes one if its id
is 0. -/
theorem add_of_loads (h : st.Started ∨ ZeroPid json) (hload : Loads shmCreate json) :
    ∃ st', st.add shmCreate json = .ok st' ∧ st'.Started := by
  obtain ⟨node, hnode⟩ := hload
  by_cases hzero : node.id = 0
  · exact ⟨_, add_zero hnode hzero, Nat.succ_ne_zero _, _, rfl⟩
  · obtain ⟨hcount, head, hhead⟩ :=
      h.resolve_right fun h => hzero ((getIcehydraJsonNode_id hnode).mpr h)
    exact ⟨_, add_of_ne hnode hzero hcount hhead, Nat.succ_ne_zero _, head, hhead⟩

/-! ### All of them -/

variable {values : List CJson}

theorem addAll_cons (rest : List CJson) :
    st.addAll shmCreate (json :: rest)
      = st.add shmCreate json >>= fun st => st.addAll shmCreate rest := rfl

theorem loads_of_addAll (h : st.addAll shmCreate values = .ok st') :
    ∀ json ∈ values, Loads shmCreate json := by
  induction values generalizing st with
  | nil => exact fun _ hmem => absurd hmem List.not_mem_nil
  | cons json rest ih =>
      obtain ⟨st₁, hadd, hrest⟩ := Load.bind_eq_ok.mp h
      obtain ⟨node, hnode, -⟩ := add_cases hadd
      intro json' hmem
      rcases List.mem_cons.mp hmem with rfl | hmem
      · exact ⟨node, hnode⟩
      · exact ih hrest json' hmem

theorem addAll_of_loads (h : st.Started) (hload : ∀ json ∈ values, Loads shmCreate json) :
    ∃ st', st.addAll shmCreate values = .ok st' := by
  induction values generalizing st with
  | nil => exact ⟨st, rfl⟩
  | cons json rest ih =>
      obtain ⟨st₁, hadd, hst₁⟩ := add_of_loads (.inl h) (hload json (List.mem_cons_self ..))
      obtain ⟨st₂, hst₂⟩ := ih hst₁ fun j hj => hload j (List.mem_cons_of_mem _ hj)
      exact ⟨st₂, by rw [addAll_cons, hadd]; exact hst₂⟩

/-- An overrun is one of a value that the loop gets to. -/
theorem exists_overruns (h : st.addAll shmCreate values = .overrun) :
    ∃ pre json post, values = pre ++ json :: post ∧ (∀ j ∈ pre, Loads shmCreate j) ∧
      Overruns shmCreate json := by
  induction values generalizing st with
  | nil => cases h
  | cons json rest ih =>
      rcases Load.bind_eq_overrun.mp h with hover | ⟨st₁, hadd, hrest⟩
      · exact ⟨[], json, rest, rfl, fun _ hj => absurd hj List.not_mem_nil, add_overrun_iff.mp hover⟩
      · obtain ⟨node, hnode, -⟩ := add_cases hadd
        obtain ⟨pre, json', post, rfl, hpre, hover⟩ := ih hrest
        refine ⟨json :: pre, json', post, rfl, fun j hj => ?_, hover⟩
        rcases List.mem_cons.mp hj with rfl | hj
        · exact ⟨node, hnode⟩
        · exact hpre j hj

theorem addAll_overrun {pre post : List CJson} (h : st.Started)
    (hpre : ∀ j ∈ pre, Loads shmCreate j) (hover : Overruns shmCreate json) :
    st.addAll shmCreate (pre ++ json :: post) = .overrun := by
  induction pre generalizing st with
  | nil =>
      rw [List.nil_append, addAll_cons, add_overrun_iff.mpr hover]
      rfl
  | cons j pre ih =>
      obtain ⟨st₁, hadd, hst₁⟩ := add_of_loads (.inl h) (hpre j (List.mem_cons_self ..))
      rw [List.cons_append, addAll_cons, hadd]
      exact ih hst₁ fun j hj => hpre j (List.mem_cons_of_mem _ hj)

/-- A second head is what comes back, in place of the first. -/
theorem resultNode_pos (h : st.addAll shmCreate values = .ok st') (hheap : 0 < st.heap.length)
    (hpos : (∃ r, st.resultNode = some r ∧ 0 < r) ∨ ∃ json ∈ values, ZeroPid json) :
    ∃ r, st'.resultNode = some r ∧ 0 < r := by
  induction values generalizing st with
  | nil =>
      obtain rfl := Load.ok.inj h
      exact hpos.resolve_right fun ⟨_, hmem, _⟩ => List.not_mem_nil hmem
  | cons json rest ih =>
      obtain ⟨st₁, hadd, hrest⟩ := Load.bind_eq_ok.mp h
      obtain ⟨node, hnode, hround⟩ := add_cases hadd
      have hid := getIcehydraJsonNode_id hnode
      rcases hround with ⟨hzero, rfl⟩ | ⟨hne, head, -, rfl⟩
      · exact ih hrest (by simp [addHead]) (.inl ⟨_, rfl, hheap⟩)
      · refine ih hrest (by simp [addTail]) ?_
        rcases hpos with hres | ⟨j, hmem, hj⟩
        · exact .inl hres
        · rcases List.mem_cons.mp hmem with rfl | hmem
          · exact absurd (hid.mpr hj) hne
          · exact .inr ⟨j, hmem, hj⟩

/-- The first value's node, and the others hung on it in order. -/
def chain (first : ConfNode) (rest : List ConfNode) : Building :=
  ⟨⟨first, List.range' 1 rest.length⟩ :: rest.map fun n => ⟨n, []⟩, rest.length + 1, some 0, some 0⟩

theorem addTail_chain (first node : ConfNode) (rest : List ConfNode) :
    (chain first rest).addTail 0 node = chain first (rest ++ [node]) := by
  have hlen : (chain first rest).heap.length = 1 + rest.length := by
    simp [chain, Nat.add_comm]
  have hrange : List.range' 1 (rest.length + 1) = List.range' 1 rest.length ++ [1 + rest.length] :=
    List.range'_1_concat ..
  rw [addTail, hlen]
  simp [chain, hrange]

/-- **One list**: as long as no further value has id 0. -/
theorem addAll_chain {first : ConfNode} {rest : List ConfNode}
    (h : (chain first rest).addAll shmCreate values = .ok st')
    (hne : ∀ json ∈ values, ¬ ZeroPid json) :
    ∃ more, List.Forall₂ (fun json node => getIcehydraJsonNode shmCreate json = .ok node)
        values more ∧ st' = chain first (rest ++ more) := by
  induction values generalizing rest with
  | nil =>
      obtain rfl := Load.ok.inj h
      exact ⟨[], .nil, by rw [List.append_nil]⟩
  | cons json values ih =>
      obtain ⟨st₁, hadd, hrest⟩ := Load.bind_eq_ok.mp h
      obtain ⟨node, hnode, hround⟩ := add_cases hadd
      rcases hround with ⟨hzero, -⟩ | ⟨-, head, hhead, rfl⟩
      · exact absurd ((getIcehydraJsonNode_id hnode).mp hzero) (hne json (List.mem_cons_self ..))
      · obtain rfl : 0 = head := Option.some.inj hhead
        rw [addTail_chain] at hrest
        obtain ⟨more, hmore, rfl⟩ := ih hrest fun j hj => hne j (List.mem_cons_of_mem _ hj)
        exact ⟨node :: more, .cons hnode hmore, by rw [List.append_assoc, List.singleton_append]⟩

/-! ### What hangs on the heads -/

/-- What hangs on a head has an id other than 0, and nothing is connected yet. -/
structure WellHung (st : Building) : Prop where
  hung : ∀ h ∈ st.heap, ∀ i ∈ h.nodeList, ∃ n, st.heap[i]? = some n ∧ n.node.id ≠ 0
  connfd : ∀ h ∈ st.heap, h.node.connfd = 0

theorem exists_of_mem_modify {heap : List HeapNode} {k : Nat} {f : HeapNode → HeapNode}
    {h : HeapNode} (hmem : h ∈ heap.modify k f) : ∃ g ∈ heap, h = g ∨ h = f g := by
  obtain ⟨i, hi⟩ := List.getElem?_of_mem hmem
  rw [List.getElem?_modify] at hi
  obtain ⟨g, hg, rfl⟩ := Option.map_eq_some_iff.mp hi
  refine ⟨g, List.mem_of_getElem? hg, ?_⟩
  split
  · exact .inr rfl
  · exact .inl rfl

/-- A change to the list or the counter of a node leaves its id. -/
theorem id_modify {heap : List HeapNode} {k : Nat} {f : HeapNode → HeapNode}
    (hf : ∀ h, (f h).node.id = h.node.id) {i : Nat} {n : HeapNode} (hn : heap[i]? = some n) :
    ∃ n', (heap.modify k f)[i]? = some n' ∧ n'.node.id = n.node.id := by
  rw [List.getElem?_modify, hn]
  refine ⟨_, rfl, ?_⟩
  split
  · exact hf n
  · rfl

/-- What it takes to stay well hung: the ids stay, and what is newly hung on a
head has one. -/
theorem WellHung.of_kept (hw : st.WellHung)
    (hkept : ∀ (i : Nat) n, st.heap[i]? = some n →
      ∃ n', st'.heap[i]? = some n' ∧ n'.node.id = n.node.id)
    (hlists : ∀ h ∈ st'.heap, ∀ i ∈ h.nodeList,
      (∃ g ∈ st.heap, i ∈ g.nodeList) ∨ ∃ n, st'.heap[i]? = some n ∧ n.node.id ≠ 0)
    (hconnfd : ∀ h ∈ st'.heap, h.node.connfd = 0) : st'.WellHung := by
  refine ⟨fun h hmem i hi => ?_, hconnfd⟩
  rcases hlists h hmem i hi with ⟨g, hg, hold⟩ | hnew
  · obtain ⟨n, hn, hid⟩ := hw.hung g hg i hold
    obtain ⟨n', hn', hsame⟩ := hkept i n hn
    exact ⟨n', hn', by rwa [hsame]⟩
  · exact hnew

theorem WellHung.addHead (hw : st.WellHung) {node : ConfNode} (hfresh : node.connfd = 0) :
    (st.addHead node).WellHung := by
  refine hw.of_kept (fun i n hn => ?_) (fun h hmem i hi => ?_) (fun h hmem => ?_)
  · have hlt := (List.getElem?_eq_some_iff.mp hn).1
    exact ⟨n, (List.getElem?_append_left hlt).trans hn, rfl⟩
  · rcases List.mem_append.mp hmem with hold | hnew
    · exact .inl ⟨h, hold, hi⟩
    · obtain rfl := List.mem_singleton.mp hnew
      exact absurd hi List.not_mem_nil
  · rcases List.mem_append.mp hmem with hold | hnew
    · exact hw.connfd h hold
    · obtain rfl := List.mem_singleton.mp hnew
      exact hfresh

theorem WellHung.addTail (hw : st.WellHung) (head : Nat) {node : ConfNode}
    (hfresh : node.connfd = 0) (hne : node.id ≠ 0) : (st.addTail head node).WellHung := by
  have hlen : (st.heap.modify head fun h =>
      { h with nodeList := h.nodeList ++ [st.heap.length] }).length = st.heap.length :=
    List.length_modify ..
  have hself : (st.addTail head node).heap[st.heap.length]? = some ⟨node, []⟩ := by
    rw [Building.addTail, List.getElem?_append_right (by rw [hlen]), hlen, Nat.sub_self]
    rfl
  refine hw.of_kept (fun i n hn => ?_) (fun h hmem i hi => ?_) (fun h hmem => ?_)
  · obtain ⟨n', hn', hid⟩ := id_modify (k := head)
      (f := fun h => { h with nodeList := h.nodeList ++ [st.heap.length] }) (fun _ => rfl) hn
    have hlt := (List.getElem?_eq_some_iff.mp hn').1
    exact ⟨n', (List.getElem?_append_left hlt).trans hn', hid⟩
  · rcases List.mem_append.mp hmem with hold | hnew
    · obtain ⟨g, hg, rfl | rfl⟩ := exists_of_mem_modify hold
      · exact .inl ⟨h, hg, hi⟩
      · rcases List.mem_append.mp hi with hin | hlast
        · exact .inl ⟨g, hg, hin⟩
        · obtain rfl := List.mem_singleton.mp hlast
          exact .inr ⟨_, hself, hne⟩
    · obtain rfl := List.mem_singleton.mp hnew
      exact absurd hi List.not_mem_nil
  · rcases List.mem_append.mp hmem with hold | hnew
    · obtain ⟨g, hg, rfl | rfl⟩ := exists_of_mem_modify hold
      · exact hw.connfd h hg
      · exact hw.connfd g hg
    · obtain rfl := List.mem_singleton.mp hnew
      exact hfresh

/-- The last assignment is to `pub_links_num` alone. -/
theorem WellHung.linked (hw : st.WellHung) (result : Nat) :
    WellHung { st with heap := (st.linked result).heap } := by
  refine hw.of_kept (fun i n hn => ?_) (fun h hmem i hi => ?_) (fun h hmem => ?_)
  · exact id_modify (k := result) (f := fun h =>
      { h with node := { h.node with pubLinksNum := st.nodeCount - 1 } }) (fun _ => rfl) hn
  · obtain ⟨g, hg, rfl | rfl⟩ := exists_of_mem_modify hmem
    · exact .inl ⟨h, hg, hi⟩
    · exact .inl ⟨g, hg, hi⟩
  · obtain ⟨g, hg, rfl | rfl⟩ := exists_of_mem_modify hmem
    · exact hw.connfd h hg
    · exact hw.connfd g hg

theorem WellHung.add (hw : st.WellHung) (h : st.add shmCreate json = .ok st') : st'.WellHung := by
  obtain ⟨node, hnode, hround⟩ := add_cases h
  have hfresh := getIcehydraJsonNode_connfd hnode
  rcases hround with ⟨-, rfl⟩ | ⟨hne, head, -, rfl⟩
  · exact hw.addHead hfresh
  · exact hw.addTail head hfresh hne

theorem WellHung.addAll (hw : st.WellHung) (h : st.addAll shmCreate values = .ok st') :
    st'.WellHung := by
  induction values generalizing st with
  | nil =>
      obtain rfl := Load.ok.inj h
      exact hw
  | cons json rest ih =>
      obtain ⟨st₁, hadd, hrest⟩ := Load.bind_eq_ok.mp h
      exact ih (hw.add hadd) hrest

end Building

end Shm

/-! ## What comes back -/

section Represents

variable (shmCreate : Bytes → UInt8 → Int → Option Int)

/-- The first value is the head that comes back, every other is one element of
its list, in file order, and `pub_links_num` is the length of the list. -/
structure NodeStart.Represents (r : NodeStart) (value : CJson) (values : List CJson) : Prop where
  result : r.result = 0
  head : ∃ node, getIcehydraJsonNode shmCreate value = .ok node ∧
    r.heap[0]? = some ⟨{ node with pubLinksNum := values.length }, List.range' 1 values.length⟩
  elements : ∀ (i : Nat) json, values[i]? = some json →
    ∃ node, getIcehydraJsonNode shmCreate json = .ok node ∧ r.heap[i + 1]? = some ⟨node, []⟩

/-- `get_node_start` may return this; behind an overrun, anything. -/
inductive YieldsNode (values : List CJson) (r : NodeStart) : Prop
  | ok : getNodeStart shmCreate values = .ok r → YieldsNode values r
  | overrun : getNodeStart shmCreate values = .overrun → YieldsNode values r

/-- Every string that is copied before the process ends fits its array, and
when all values load, only the first has id 0. -/
structure OneHead (value : CJson) (values : List CJson) : Prop where
  fits : ∀ pre json post, value :: values = pre ++ json :: post →
    (∀ j ∈ pre, Loads shmCreate j) → ¬ Overruns shmCreate json
  pids : (∀ json ∈ value :: values, Loads shmCreate json) → ∀ json ∈ values, ¬ ZeroPid json

variable {shmCreate} {value : CJson} {values : List CJson} {r : NodeStart}

theorem getNodeStart_overrun_iff :
    getNodeStart shmCreate values = .overrun ↔
      Building.addAll shmCreate ⟨[], 0, none, none⟩ values = .overrun := by
  refine Load.bind_eq_overrun.trans (or_iff_left ?_)
  rintro ⟨st, -, h⟩
  split at h <;> cases h

theorem getNodeStart_ok_iff :
    getNodeStart shmCreate values = .ok r ↔
      ∃ st, Building.addAll shmCreate ⟨[], 0, none, none⟩ values = .ok st ∧
        ∃ result, st.resultNode = some result ∧ st.linked result = r := by
  refine Load.bind_eq_ok.trans (exists_congr fun st => and_congr_right fun _ => ?_)
  cases hresult : st.resultNode with
  | none => simp
  | some result =>
      simp only [Option.some.injEq, exists_eq_left']
      exact ⟨Load.ok.inj, congrArg Load.ok⟩

theorem wellHung_of_ok (h : getNodeStart shmCreate values = .ok r) :
    (∀ g ∈ r.heap, ∀ i ∈ g.nodeList, ∃ n, r.heap[i]? = some n ∧ n.node.id ≠ 0) ∧
      ∀ g ∈ r.heap, g.node.connfd = 0 := by
  obtain ⟨st, hst, result, -, rfl⟩ := getNodeStart_ok_iff.mp h
  have hempty : Building.WellHung ⟨[], 0, none, none⟩ :=
    ⟨fun _ hmem => absurd hmem List.not_mem_nil, fun _ hmem => absurd hmem List.not_mem_nil⟩
  have hw := (hempty.addAll hst).linked result
  exact ⟨hw.hung, hw.connfd⟩

/-- The list that `main` walks. -/
def NodeStart.nodes (r : NodeStart) : List PubSubNode :=
  ((r.heap[r.result]?).elim [] HeapNode.nodeList).filterMap fun i =>
    (r.heap[i]?).map fun h => h.node.toPubSubNode

theorem nodes_of_ok (h : getNodeStart shmCreate values = .ok r) :
    ∀ n ∈ r.nodes, n.id ≠ 0 ∧ n.connfd = 0 := by
  obtain ⟨hhung, hconnfd⟩ := wellHung_of_ok h
  intro n hn
  obtain ⟨i, hi, hnode⟩ := List.mem_filterMap.mp hn
  obtain ⟨g, hg, rfl⟩ := Option.map_eq_some_iff.mp hnode
  cases hresult : r.heap[r.result]? with
  | none =>
      rw [hresult] at hi
      exact absurd hi List.not_mem_nil
  | some head =>
      rw [hresult] at hi
      obtain ⟨g', hg', hid⟩ := hhung head (List.mem_of_getElem? hresult) i hi
      obtain rfl := Option.some.inj (hg.symm.trans hg')
      exact ⟨hid, hconnfd g (List.mem_of_getElem? hg)⟩

/-- **What the broker starts with**, on this listening socket. -/
def NodeStart.config (h : getNodeStart shmCreate values = .ok r) (sockfd : Int)
    (hpos : 0 < sockfd) : Option Config :=
  (r.heap[r.result]?).map fun head =>
    { nodeStart := head.node.toPubSubNode
      nodes := r.nodes
      id_ne_zero := fun n hn => (nodes_of_ok h n hn).1
      connfd_zero := fun n hn => (nodes_of_ok h n hn).2
      sockfd := sockfd
      sockfd_pos := hpos }

/-- The first round, on a value with id 0. -/
theorem Building.addAll_first {st : Building} (hzero : ZeroPid value)
    (h : Building.addAll shmCreate ⟨[], 0, none, none⟩ (value :: values) = .ok st) :
    ∃ first, getIcehydraJsonNode shmCreate value = .ok first ∧
      (Building.chain first []).addAll shmCreate values = .ok st := by
  obtain ⟨st₁, hadd, hrest⟩ := Load.bind_eq_ok.mp h
  obtain ⟨node, hnode, -⟩ := Building.add_cases hadd
  rw [Building.add_zero hnode ((getIcehydraJsonNode_id hnode).mpr hzero)] at hadd
  obtain rfl := Load.ok.inj hadd
  exact ⟨node, hnode, hrest⟩

theorem OneHead.represents (hone : OneHead shmCreate value values) (hzero : ZeroPid value)
    (h : YieldsNode shmCreate (value :: values) r) : r.Represents shmCreate value values := by
  cases h with
  | overrun hover =>
      obtain ⟨pre, json, post, heq, hpre, hjson⟩ :=
        Building.exists_overruns (getNodeStart_overrun_iff.mp hover)
      exact absurd hjson (hone.fits pre json post heq hpre)
  | ok hok =>
      obtain ⟨st, hst, result, hresult, rfl⟩ := getNodeStart_ok_iff.mp hok
      have hne := hone.pids (Building.loads_of_addAll hst)
      obtain ⟨first, hfirst, hrest⟩ := Building.addAll_first hzero hst
      obtain ⟨more, hmore, rfl⟩ := Building.addAll_chain hrest hne
      obtain rfl : 0 = result := Option.some.inj hresult
      have hlen := hmore.length_eq
      refine ⟨rfl, ⟨first, hfirst, ?_⟩, fun i json hi => ?_⟩
      · simp [Building.linked, Building.chain, hlen]
      · obtain ⟨hlt, rfl⟩ := List.getElem?_eq_some_iff.mp hi
        refine ⟨more[i], hmore.get hlt (hlen ▸ hlt), ?_⟩
        simp [Building.linked, Building.chain, List.getElem?_eq_getElem (hlen ▸ hlt)]

theorem getNodeStart_overrun {pre post : List CJson} {json : CJson} (hzero : ZeroPid value)
    (heq : value :: values = pre ++ json :: post) (hpre : ∀ j ∈ pre, Loads shmCreate j)
    (hover : Overruns shmCreate json) : getNodeStart shmCreate (value :: values) = .overrun := by
  rw [getNodeStart_overrun_iff, heq]
  cases pre with
  | nil =>
      rw [List.nil_append, Building.addAll_cons, Building.add_overrun_iff.mpr hover]
      rfl
  | cons p pre =>
      obtain ⟨rfl, -⟩ := List.cons.inj heq
      obtain ⟨st, hadd, hst⟩ := Building.add_of_loads (.inr hzero) (hpre value (List.mem_cons_self ..))
      rw [List.cons_append, Building.addAll_cons, hadd]
      exact Building.addAll_overrun hst (fun j hj => hpre j (List.mem_cons_of_mem _ hj)) hover

/-- A second value with id 0 comes back in place of the first. -/
theorem exists_result_pos {json : CJson} (hzero : ZeroPid value)
    (hload : ∀ json ∈ value :: values, Loads shmCreate json) (hmem : json ∈ values)
    (hjson : ZeroPid json) :
    ∃ r, getNodeStart shmCreate (value :: values) = .ok r ∧ 0 < r.result := by
  obtain ⟨st₁, hadd, hst₁⟩ := Building.add_of_loads (.inr hzero) (hload value (List.mem_cons_self ..))
  obtain ⟨st, hrest⟩ := Building.addAll_of_loads hst₁ fun j hj => hload j (List.mem_cons_of_mem _ hj)
  have hst : Building.addAll shmCreate ⟨[], 0, none, none⟩ (value :: values) = .ok st := by
    rw [Building.addAll_cons, hadd]
    exact hrest
  obtain ⟨first, -, hchain⟩ := Building.addAll_first hzero hst
  obtain ⟨result, hresult, hpos⟩ :=
    Building.resultNode_pos hchain Nat.zero_lt_one (.inr ⟨json, hmem, hjson⟩)
  exact ⟨st.linked result, getNodeStart_ok_iff.mpr ⟨st, hst, result, hresult, rfl⟩, hpos⟩

theorem OneHead.of_represents (hzero : ZeroPid value)
    (hall : ∀ r, YieldsNode shmCreate (value :: values) r →
      r.Represents shmCreate value values) : OneHead shmCreate value values := by
  refine ⟨fun pre json post heq hpre hover => ?_, fun hload json hmem hjson => ?_⟩
  · have hout := hall ⟨[], 1⟩ (.overrun (getNodeStart_overrun hzero heq hpre hover))
    exact absurd hout.result Nat.one_ne_zero
  · obtain ⟨r, hok, hpos⟩ := exists_result_pos hzero hload hmem hjson
    exact absurd (hall r (.ok hok)).result (Nat.ne_of_gt hpos)

end Represents

/-- **Every value of the file.** With a first value of id 0, what comes back
represents the file exactly when no later value has id 0, and no string is too
long for where it is copied to. -/
theorem getNodeStart_represents_iff (shmCreate : Bytes → UInt8 → Int → Option Int)
    (value : CJson) (values : List CJson) (hzero : ZeroPid value) :
    (∀ r, YieldsNode shmCreate (value :: values) r → r.Represents shmCreate value values) ↔
      OneHead shmCreate value values :=
  ⟨OneHead.of_represents hzero, fun hone _ h => hone.represents hzero h⟩

/-- What the parser gives for an object, and for its members. -/
def CJson.object (members : List CJson) : CJson := ⟨none, none, 0, members⟩

def CJson.stringItem (key value : Bytes) : CJson := ⟨some key, some value, 0, []⟩

def CJson.numberItem (key : Bytes) (value : Int) : CJson := ⟨some key, none, value, []⟩

/-- A publisher and a subscriber with `ih-pid` 10. -/
theorem getNodeStart_represents_two :
    let value := CJson.object [.stringItem keyName [104], .numberItem keyPid 0]
    let sub := CJson.object [.stringItem keyName [97], .numberItem keyPid 10]
    ∃ r, getNodeStart (fun _ _ _ => none) [value, sub] = .ok r ∧
      r.Represents (fun _ _ _ => none) value [sub] := by
  intro value sub
  have hvalue : getIcehydraJsonNode (fun _ _ _ => none) value
      = .ok { name := [104], id := 0, type := .pub } := rfl
  have hsub : getIcehydraJsonNode (fun _ _ _ => none) sub
      = .ok { name := [97], id := 10, type := .sub } := rfl
  have hload : ∀ json ∈ [value, sub], Loads (fun _ _ _ => none) json := by
    intro json hmem
    rcases List.mem_pair.mp hmem with rfl | rfl
    · exact ⟨_, hvalue⟩
    · exact ⟨_, hsub⟩
  have hone : OneHead (fun _ _ _ => none) value [sub] := by
    refine ⟨fun pre json post heq _ hover => ?_, fun _ json hmem hjson => ?_⟩
    · obtain ⟨node, hnode⟩ := hload json (by rw [heq]; simp)
      rw [Overruns, hnode] at hover
      cases hover
    · obtain rfl := List.mem_singleton.mp hmem
      exact absurd ((getIcehydraJsonNode_id hsub).mpr hjson) (by decide)
  exact ⟨_, rfl, (getNodeStart_represents_iff (fun _ _ _ => none) value [sub]
    ((getIcehydraJsonNode_id hvalue).mp rfl)).mpr hone _ (.ok rfl)⟩

/-- **A subscriber without `ih-pid`** takes the head's place: its list is empty,
and `pub_links_num` is 2. -/
theorem second_head_replaces :
    let value := CJson.object [.stringItem keyName [104], .numberItem keyPid 0]
    let sub := CJson.object [.stringItem keyName [97], .numberItem keyPid 10]
    let anon := CJson.object [.stringItem keyName [98]]
    ∃ r, getNodeStart (fun _ _ _ => none) [value, sub, anon] = .ok r ∧
      (r.heap[r.result]?).map (fun h => (h.node.name, h.nodeList, h.node.pubLinksNum))
        = some ([98], [], 2) ∧
      ¬ r.Represents (fun _ _ _ => none) value [sub, anon] :=
  ⟨_, rfl, rfl, fun h => absurd h.result (by decide)⟩

end Icehydra
