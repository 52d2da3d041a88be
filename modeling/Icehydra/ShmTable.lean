import Icehydra.ConfList

/-!
# ShmTable — init_shm

The table of the head node: an entry for each element of `ih-shm`, and a counter
of one byte that is the project id of the next entry and, behind the loop, the
number of them.
-/

namespace Icehydra

/-! ## Elements and entries -/

def shmNameOf (obj : CJson) : Option Bytes :=
  (cJSONGetObjectItemCaseSensitive obj keyShmName).bind CJson.valuestring

def shmSizeOf (obj : CJson) : Option Int :=
  (cJSONGetObjectItemCaseSensitive obj keyShmSize).map CJson.valueint

/-- The entry has the element's name and size. -/
structure Configures (obj : CJson) (n : ShmNode) : Prop where
  name : shmNameOf obj = some n.shmName
  size : shmSizeOf obj = some n.shmSize

/-- A name that fits into its array, and a positive size. -/
structure ShmItem (obj : CJson) : Prop where
  name : ∃ name, shmNameOf obj = some name ∧ name.length < maxFileName
  size : ∃ size, shmSizeOf obj = some size ∧ 0 < size

theorem strcpyFileName_eq_ok {src : Option Bytes} {name : Bytes} :
    strcpyFileName src = .ok name ↔ src = some name ∧ name.length < maxFileName := by
  unfold strcpyFileName
  split
  · simp
  · split
    · rename_i hlt
      constructor
      · intro h
        obtain rfl := Load.ok.inj h
        exact ⟨rfl, hlt⟩
      · rintro ⟨h, -⟩
        rw [Option.some.inj h]
    · rename_i hge
      refine iff_of_false (fun h => by cases h) ?_
      rintro ⟨h, hlt⟩
      rw [Option.some.inj h] at hge
      exact hge hlt

section Loop

variable {shmCreate : Bytes → UInt8 → Int → Option Int} {filename : Bytes} {p : UInt8}
  {obj : CJson} {items : List CJson} {r : List ShmNode × UInt8}

/-- **One round**: an entry for the element, made with the next project id. -/
theorem initShmLoop_cons_iff :
    initShmLoop shmCreate filename p (obj :: items) = .ok r ↔
      ∃ n r', Configures obj n ∧ n.shmName.length < maxFileName ∧
        shmCreate filename (p + 1) n.shmSize = some n.shmId ∧
        initShmLoop shmCreate filename (p + 1) items = .ok r' ∧ r = (n :: r'.1, r'.2) := by
  have hname : ∀ {name}, strcpyFileName
      ((cJSONGetObjectItemCaseSensitive obj keyShmName).bind CJson.valuestring) = .ok name ↔
        shmNameOf obj = some name ∧ name.length < maxFileName := strcpyFileName_eq_ok
  rw [initShmLoop]
  constructor
  · intro h
    cases hsize : cJSONGetObjectItemCaseSensitive obj keyShmSize with
    | none =>
        rw [hsize] at h
        cases h
    | some shmSize =>
        rw [hsize] at h
        cases hid : shmCreate filename (p + 1) shmSize.valueint with
        | none =>
            simp only [hid] at h
            cases h
        | some shmId =>
            simp only [hid] at h
            obtain ⟨shmName, hcpy, h⟩ := Load.bind_eq_ok.mp h
            obtain ⟨r', hrest, h⟩ := Load.bind_eq_ok.mp h
            obtain ⟨hsome, hlt⟩ := hname.mp hcpy
            refine ⟨⟨shmName, shmId, shmSize.valueint⟩, r', ⟨hsome, ?_⟩, hlt, hid, hrest,
              (Load.ok.inj h).symm⟩
            rw [shmSizeOf, hsize]
            rfl
  · rintro ⟨⟨shmName, shmId, size⟩, r', ⟨hsome, hvalue⟩, hlt, hid, hrest, rfl⟩
    obtain ⟨shmSize, hsize, rfl⟩ := Option.map_eq_some_iff.mp hvalue
    simp only [hsize, hid]
    exact Load.bind_eq_ok.mpr ⟨shmName, hname.mpr ⟨hsome, hlt⟩,
      Load.bind_eq_ok.mpr ⟨r', hrest, rfl⟩⟩

/-- What the loop leaves: an entry for each element, and their number in a byte. -/
theorem initShmLoop_ok (h : initShmLoop shmCreate filename p items = .ok r) :
    List.Forall₂ Configures items r.1 ∧ r.2 = p + UInt8.ofNat items.length := by
  induction items generalizing p r with
  | nil =>
      obtain rfl := Load.ok.inj h
      exact ⟨.nil, by simp⟩
  | cons obj items ih =>
      obtain ⟨n, r', hn, -, -, hrest, rfl⟩ := initShmLoop_cons_iff.mp h
      obtain ⟨htable, hcount⟩ := ih hrest
      refine ⟨.cons hn htable, ?_⟩
      rw [hcount, List.length_cons, UInt8.ofNat_add, UInt8.add_assoc,
        UInt8.add_comm 1 (UInt8.ofNat items.length)]
      rfl

/-- Elements that are well formed are all loaded, if the segments are there. -/
theorem initShmLoop_total (hitems : ∀ obj ∈ items, ShmItem obj)
    (hcreate : ∀ obj ∈ items, ∀ size ∈ shmSizeOf obj, ∀ p,
      ∃ id, shmCreate filename p size = some id) :
    ∃ r, initShmLoop shmCreate filename p items = .ok r := by
  induction items generalizing p with
  | nil => exact ⟨_, rfl⟩
  | cons obj items ih =>
      obtain ⟨⟨name, hname, hlt⟩, ⟨size, hsize, -⟩⟩ := hitems obj List.mem_cons_self
      obtain ⟨id, hid⟩ := hcreate obj List.mem_cons_self size hsize (p + 1)
      obtain ⟨r', hrest⟩ := ih (p := p + 1) (fun obj h => hitems obj (List.mem_cons_of_mem _ h))
        fun obj h => hcreate obj (List.mem_cons_of_mem _ h)
      exact ⟨_, initShmLoop_cons_iff.mpr ⟨⟨name, id, size⟩, r', ⟨hname, hsize⟩, hlt, hid, hrest, rfl⟩⟩

/-- **What `init_shm` leaves.** -/
theorem initShm_ok {node node' : ConfNode} {json : CJson}
    (h : initShm shmCreate node json = .ok node') :
    ∃ r, initShmLoop shmCreate (namePrefix ++ node.name) 0 json.child = .ok r ∧
      List.Forall₂ Configures json.child r.1 ∧
      node' = { node with
        shmNodePtr := some r.1, shmNodeNum := (json.child.length % 256 : Nat) } := by
  obtain ⟨r, hloop, hr⟩ := Load.bind_eq_ok.mp h
  obtain ⟨htable, hcount⟩ := initShmLoop_ok hloop
  refine ⟨r, hloop, htable, ?_⟩
  rw [← Load.ok.inj hr, hcount, UInt8.zero_add, UInt8.toNat_ofNat']

theorem initShm_total {node : ConfNode} {json : CJson} (hitems : ∀ obj ∈ json.child, ShmItem obj)
    (hcreate : ∀ obj ∈ json.child, ∀ size ∈ shmSizeOf obj, ∀ p,
      ∃ id, shmCreate (namePrefix ++ node.name) p size = some id) :
    ∃ node', initShm shmCreate node json = .ok node' := by
  obtain ⟨r, hloop⟩ := initShmLoop_total (p := 0) hitems hcreate
  exact ⟨_, Load.bind_eq_ok.mpr ⟨r, hloop, rfl⟩⟩

end Loop

/-! ## Segments -/

/-- `shm_create` of System V, with the id that `shmget` gives for a key and a
size; `none` where it fails or the segment cannot be mapped. -/
def shmCreate (ftok : Bytes → UInt8 → Int) (shmget : Int → Int → Option Int) (filename : Bytes)
    (projId : UInt8) (size : Int) : Option Int :=
  let projId := if 0 < projId then projId else 1
  shmget (ftok filename projId) size

/-- The segments for these elements can be had: `ftok` tells the project ids on
this file apart, and no two keys lead to one segment. -/
structure Segments (ftok : Bytes → UInt8 → Int) (shmget : Int → Int → Option Int)
    (filename : Bytes) (items : List CJson) : Prop where
  keys : ∀ p q : UInt8, 0 < p → 0 < q → ftok filename p = ftok filename q → p = q
  get : ∀ obj ∈ items, ∀ size ∈ shmSizeOf obj, ∀ p : UInt8, 0 < p →
    ∃ id, shmget (ftok filename p) size = some id
  own : ∀ key key' size size' id, shmget key size = some id → shmget key' size' = some id →
    key = key'

section Segments

variable {ftok : Bytes → UInt8 → Int} {shmget : Int → Int → Option Int} {filename : Bytes}
  {items all : List CJson}

theorem Segments.create (h : Segments ftok shmget filename items) :
    ∀ obj ∈ items, ∀ size ∈ shmSizeOf obj, ∀ p,
      ∃ id, shmCreate ftok shmget filename p size = some id := by
  intro obj hobj size hsize p
  refine h.get obj hobj size hsize _ ?_
  split
  · assumption
  · decide

/-- **Distinct segments**, as long as the counter does not come round: the
entries are made with project ids that only grow. -/
theorem initShmLoop_segments (hseg : Segments ftok shmget filename all) {p : UInt8}
    {r : List ShmNode × UInt8}
    (h : initShmLoop (shmCreate ftok shmget) filename p items = .ok r)
    (hle : p.toNat + items.length ≤ 255) :
    (r.1.map ShmNode.shmId).Nodup ∧
      ∀ n ∈ r.1, ∃ q size, p < q ∧ shmget (ftok filename q) size = some n.shmId := by
  induction items generalizing p r with
  | nil =>
      obtain rfl := Load.ok.inj h
      exact ⟨List.nodup_nil, fun n hn => absurd hn List.not_mem_nil⟩
  | cons obj items ih =>
      obtain ⟨n, r', -, -, hid, hrest, rfl⟩ := initShmLoop_cons_iff.mp h
      rw [List.length_cons] at hle
      have hzero : (0 : UInt8).toNat = 0 := rfl
      have hnext : (p + 1).toNat = p.toNat + 1 := by
        rw [UInt8.toNat_add]
        exact Nat.mod_eq_of_lt (show p.toNat + 1 < 256 by omega)
      have hlt : p < p + 1 := UInt8.lt_iff_toNat_lt.mpr (by omega)
      have hpos : 0 < p + 1 := UInt8.lt_iff_toNat_lt.mpr (by omega)
      rw [shmCreate] at hid
      simp only [if_pos hpos] at hid
      obtain ⟨hnodup, hown⟩ := ih hrest (by omega)
      refine ⟨?_, fun m hm => ?_⟩
      · rw [List.map_cons, List.nodup_cons]
        refine ⟨fun hmem => ?_, hnodup⟩
        obtain ⟨m, hm, hsame⟩ := List.mem_map.mp hmem
        obtain ⟨q, size, hq, hget⟩ := hown m hm
        rw [hsame] at hget
        have hkey := hseg.keys _ _ hpos (UInt8.lt_trans hpos hq) (hseg.own _ _ _ _ _ hid hget)
        rw [hkey] at hq
        exact absurd hq (UInt8.lt_irrefl q)
      · rcases List.mem_cons.mp hm with rfl | hm
        · exact ⟨p + 1, _, hlt, hid⟩
        · obtain ⟨q, size, hq, hget⟩ := hown m hm
          exact ⟨q, size, UInt8.lt_trans hlt hq, hget⟩

end Segments

/-- **The table of an `ih-shm` array**: it is complete, counted, and made of
distinct segments exactly when the counter can hold the number of elements. -/
theorem initShm_table_iff (ftok : Bytes → UInt8 → Int) (shmget : Int → Int → Option Int)
    (node : ConfNode) (json : CJson) (hitems : ∀ obj ∈ json.child, ShmItem obj)
    (hseg : Segments ftok shmget (namePrefix ++ node.name) json.child) :
    (∃ node' table, initShm (shmCreate ftok shmget) node json = .ok node' ∧
        node'.shmNodePtr = some table ∧ node'.shmNodeNum = json.child.length ∧
        List.Forall₂ Configures json.child table ∧ (table.map ShmNode.shmId).Nodup) ↔
      json.child.length ≤ 255 := by
  constructor
  · rintro ⟨node', table, hok, -, hnum, -⟩
    obtain ⟨r, -, -, rfl⟩ := initShm_ok hok
    have hmod : ((json.child.length % 256 : Nat) : Int) = json.child.length := hnum
    omega
  · intro hle
    obtain ⟨node', hok⟩ := initShm_total hitems hseg.create
    obtain ⟨r, hloop, htable, rfl⟩ := initShm_ok hok
    refine ⟨_, r.1, hok, rfl, ?_, htable, (initShmLoop_segments hseg hloop (by simpa)).1⟩
    show ((json.child.length % 256 : Nat) : Int) = json.child.length
    omega

/-- An `ih-shm` array, and an element of one. -/
def shmArray (items : List CJson) : CJson := ⟨some keyShm, none, 0, items⟩

def shmElement (name : Bytes) (size : Int) : CJson :=
  CJson.object [.stringItem keyShmName name, .numberItem keyShmSize size]

theorem shmItem_element {name : Bytes} {size : Int} (hlt : name.length < maxFileName)
    (hpos : 0 < size) : ShmItem (shmElement name size) :=
  ⟨⟨name, rfl, hlt⟩, ⟨size, rfl, hpos⟩⟩

/-- Keys that are project ids, and segments that are keys. -/
theorem segments_plain (filename : Bytes) (items : List CJson) :
    Segments (fun _ projId => projId.toNat) (fun key _ => some key) filename items where
  keys _ _ _ _ h := UInt8.toNat_inj.mp (Int.ofNat.inj h)
  get _ _ _ _ _ _ := ⟨_, rfl⟩
  own _ _ _ _ _ h h' := (Option.some.inj h).trans (Option.some.inj h').symm

/-- Two elements. -/
theorem initShm_table_two :
    let json := shmArray [shmElement [109] 64, shmElement [110] 128]
    ∃ node' table, initShm (shmCreate (fun _ projId => projId.toNat) fun key _ => some key)
        { name := [104], id := 0 } json = .ok node' ∧
      node'.shmNodePtr = some table ∧ node'.shmNodeNum = json.child.length ∧
      List.Forall₂ Configures json.child table ∧ (table.map ShmNode.shmId).Nodup := by
  intro json
  have hitems : ∀ obj ∈ json.child, ShmItem obj := by
    intro obj hobj
    rcases List.mem_pair.mp hobj with rfl | rfl
    · exact shmItem_element (by decide) (by decide)
    · exact shmItem_element (by decide) (by decide)
  exact (initShm_table_iff (fun _ projId => projId.toNat) (fun key _ => some key)
    { name := [104], id := 0 } json hitems (segments_plain _ _)).mpr (by decide)

/-- **256 elements**: all of them are loaded, and the number is 0. -/
theorem initShm_comes_round :
    let json := shmArray (List.replicate 256 (shmElement [109] 64))
    let node : ConfNode := { name := [104], id := 0 }
    let create := shmCreate (fun _ projId => projId.toNat) fun key _ => some key
    (∀ obj ∈ json.child, ShmItem obj) ∧
      Segments (fun _ projId => projId.toNat) (fun key _ => some key) (namePrefix ++ node.name)
        json.child ∧
      (∃ node' table, initShm create node json = .ok node' ∧ node'.shmNodePtr = some table ∧
        List.Forall₂ Configures json.child table ∧ node'.shmNodeNum = 0) ∧
      ¬ ∃ node' table, initShm create node json = .ok node' ∧
        node'.shmNodePtr = some table ∧ node'.shmNodeNum = json.child.length ∧
        List.Forall₂ Configures json.child table ∧ (table.map ShmNode.shmId).Nodup := by
  intro json node create
  have hitems : ∀ obj ∈ json.child, ShmItem obj := by
    intro obj hobj
    rw [List.eq_of_mem_replicate hobj]
    exact shmItem_element (by decide) (by decide)
  have hseg := segments_plain (namePrefix ++ node.name) json.child
  have hlen : json.child.length = 256 := List.length_replicate ..
  refine ⟨hitems, hseg, ?_, ?_⟩
  · obtain ⟨node', hok⟩ := initShm_total hitems hseg.create
    obtain ⟨r, -, htable, rfl⟩ := initShm_ok hok
    refine ⟨_, r.1, hok, rfl, htable, ?_⟩
    show ((json.child.length % 256 : Nat) : Int) = 0
    rw [hlen]
    rfl
  · rintro ⟨node', table, hok, -, hnum, -⟩
    obtain ⟨r, -, -, rfl⟩ := initShm_ok hok
    have hmod : ((json.child.length % 256 : Nat) : Int) = json.child.length := hnum
    omega

/-! ## The table of a value -/

/-- The elements of the array that is loaded: that of the item which the lookup
finds, if it is spelled `ih-shm`. -/
def shmItems (json : CJson) : Option (List CJson) :=
  ((cJSONGetObjectItem json keyShm).filter fun object =>
    object.string = some keyShm).map CJson.child

section Value

variable {shmCreate : Bytes → UInt8 → Int → Option Int} {json : CJson}

/-- The pointer and the number, which only `init_shm` sets. -/
def PubSubNode.shmTable (n : PubSubNode) : Option (List ShmNode) × Int := (n.shmNodePtr, n.shmNodeNum)

theorem loadItem_shm {obj node : ConfNode} {object : CJson}
    (h : loadItem shmCreate obj object = .ok node) :
    ∃ obj', obj'.shmTable = obj.shmTable ∧ loadShm shmCreate obj' object = .ok node := by
  obtain ⟨obj₁, hname, hshm⟩ := Load.bind_eq_ok.mp h
  obtain ⟨name, rfl⟩ := loadName_eq hname
  refine ⟨_, ?_, hshm⟩
  unfold loadCpuBind loadPid
  split <;> split <;> rfl

/-- The other keys do not lead to a table. -/
theorem loadKey_shm_of_ne {obj node : ConfNode} {key : Bytes}
    (h : loadKey shmCreate json obj key = .ok node)
    (hne : key.map tolower ≠ keyShm.map tolower) : node.shmTable = obj.shmTable := by
  unfold loadKey at h
  split at h
  · rw [← Load.ok.inj h]
  · rename_i object hobject
    obtain ⟨obj', hsame, hshm⟩ := loadItem_shm h
    rw [loadShm, if_neg (cJSONGetObjectItem_string_ne hobject hne)] at hshm
    rw [← hsame, ← Load.ok.inj hshm]

/-- What a node has of the elements, if there are any to be had. -/
inductive Tabled : Option (List CJson) → Option (List ShmNode) × Int → Prop
  | none : Tabled none (none, 0)
  | some {items : List CJson} {table : List ShmNode} (h : List.Forall₂ Configures items table) :
      Tabled (some items) (some table, (items.length % 256 : Nat))

theorem Tabled.ptr_of_none {items : Option (List CJson)} {t : Option (List ShmNode) × Int}
    (h : Tabled items t) (hitems : items = Option.none) : t.1 = Option.none := by
  cases h with
  | none => rfl
  | some => cases hitems

theorem loadKey_shm {obj node : ConfNode} (h : loadKey shmCreate json obj keyShm = .ok node)
    (hobj : obj.shmTable = (none, 0)) : Tabled (shmItems json) node.shmTable := by
  unfold loadKey at h
  split at h
  · rename_i hnone
    rw [← Load.ok.inj h, hobj, shmItems, hnone]
    exact .none
  · rename_i object hobject
    obtain ⟨obj', hsame, hshm⟩ := loadItem_shm h
    rw [shmItems, hobject, Option.filter_some]
    by_cases hkey : object.string = some keyShm
    · rw [loadShm, if_pos hkey] at hshm
      obtain ⟨r, -, htable, rfl⟩ := initShm_ok hshm
      simp only [hkey, decide_true, if_true]
      exact .some htable
    · rw [loadShm, if_neg hkey] at hshm
      obtain rfl := Load.ok.inj hshm
      simp only [hkey, decide_false, Bool.false_eq_true, if_false]
      rw [hsame, hobj]
      exact .none

/-- **The table a value loads with.** -/
theorem LoadsAs.tabled {n : PubSubNode} (h : LoadsAs shmCreate json n) :
    Tabled (shmItems json) n.shmTable := by
  obtain ⟨node, hnode, rfl⟩ := h
  obtain ⟨n₁, n₂, n₃, h₁, h₂, h₃, h₄⟩ := getIcehydraJsonNode_ok hnode
  refine loadKey_shm h₄ ?_
  rw [loadKey_shm_of_ne h₃ (by decide), loadKey_shm_of_ne h₂ (by decide),
    loadKey_shm_of_ne h₁ (by decide)]
  rfl

end Value

end Icehydra
