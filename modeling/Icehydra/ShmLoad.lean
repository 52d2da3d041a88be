import Icehydra.Keys
import Icehydra.ShmManager

/-!
# ShmLoad — get_node_start on a machine with segments

`get_node_start` once more, with `shm_create` on the segments that the machine
has instead of a question to it, in builds with assertions and without. As long
as segments are made, the two come out alike when the question is put to the
segments that are there in the end.
-/

namespace Icehydra

/-- A step of loading that changes segments. They stay as they are when it ends
the process. -/
def Loading (α : Type) := Shms → Load α × Shms

namespace Loading

def bind {α β : Type} (x : Loading α) (f : α → Loading β) : Loading β := fun s =>
  match x s with
  | (.ok a, s) => f a s
  | (.ended, s) => (.ended, s)
  | (.overrun, s) => (.overrun, s)

instance : Monad Loading where
  pure a := fun s => (.ok a, s)
  bind := bind

def lift {α : Type} (x : Load α) : Loading α := fun s => (x, s)

/-! ## conf.c -/

section Conf

-- Whether the program was built with assertions; the default build is without.
variable (asserts : Bool) (a : ShmAlloc) (stat : Bytes → Option (Nat × Nat))

/-- `shm_create(&shm); assert(shm.mem_ptr != NULL);`. Without the assertion an
entry that has got no segment is kept, with the 0 that its id is initialized to. -/
def create (filename : Bytes) (projId : UInt8) (size : Int) : Loading IcehydraShm := fun s =>
  let r := ShmManager.shmCreate a stat
    { filename := some filename, projId := projId.toNat, size := size } s
  match r.1.memPtr with
  | none => if asserts then (.ended, r.2) else (.ok r.1, r.2)
  | some _ => (.ok r.1, r.2)

/-- `cJSON_ArrayForEach(shm_json_obj, json)`. -/
def initShmLoop (filename : Bytes) (shmProjId : UInt8) :
    List CJson → Loading (List ShmNode × UInt8)
  | [] => pure ([], shmProjId)
  | obj :: rest =>
      let shmProjId := shmProjId + 1
      match cJSONGetObjectItemCaseSensitive obj keyShmSize with
      | none => lift .ended
      | some shmSize => do
          let shm ← create asserts a stat filename shmProjId shmSize.valueint
          let shmName ← lift (strcpyFileName
            ((cJSONGetObjectItemCaseSensitive obj keyShmName).bind CJson.valuestring))
          let r ← initShmLoop filename shmProjId rest
          pure (⟨shmName, shm.id, shm.size⟩ :: r.1, r.2)

def initShm (node : ConfNode) (json : CJson) : Loading ConfNode := do
  let r ← initShmLoop asserts a stat (namePrefix ++ node.name) 0 json.child
  pure { node with shmNodePtr := some r.1, shmNodeNum := r.2.toNat }

def loadShm (obj : ConfNode) (object : CJson) : Loading ConfNode :=
  if object.string = some keyShm then initShm asserts a stat obj object else pure obj

def loadItem (obj : ConfNode) (object : CJson) : Loading ConfNode := do
  let obj ← lift (loadName obj object)
  loadShm asserts a stat (loadCpuBind (loadPid obj object) object) object

def loadKey (json : CJson) (obj : ConfNode) (key : Bytes) : Loading ConfNode :=
  match cJSONGetObjectItem json key with
  | none => pure obj
  | some object => loadItem asserts a stat obj object

def getIcehydraJsonNode (json : CJson) : Loading ConfNode :=
  itemList.foldlM (loadKey asserts a stat json) { name := [], id := 0 }

/-- What a round of `while(json)` does with its node. -/
def hang (st : Building) (node : ConfNode) : Load Building :=
  let i := st.heap.length
  if st.nodeCount = 0 ∧ node.id ≠ 0 then .ended
  else if node.id = 0 then
    pure ⟨st.heap ++ [⟨node, []⟩], st.nodeCount + 1, some i, some i⟩
  else
    match st.headNode with
    | none => .ended
    | some head =>
        let heap := st.heap.modify head fun h => { h with nodeList := h.nodeList ++ [i] }
        pure { st with heap := heap ++ [⟨node, []⟩], nodeCount := st.nodeCount + 1 }

def add (st : Building) (json : CJson) : Loading Building := do
  let node ← getIcehydraJsonNode asserts a stat json
  lift (hang st node)

def addAll (st : Building) : List CJson → Loading Building
  | [] => pure st
  | json :: rest => do
      let st ← add asserts a stat st json
      addAll st rest

def getNodeStart (values : List CJson) : Loading NodeStart := do
  let st ← addAll asserts a stat ⟨[], 0, none, none⟩ values
  match st.resultNode with
  | none => lift .ended
  | some result => pure (st.linked result)

/-- Every `shm_create` gives a segment: the assertions of a build that has them
all hold. -/
def Succeeds (values : List CJson) (s : Shms) : Prop :=
  ∃ r, (getNodeStart true a stat values s).1 = .ok r

end Conf

/-! ### The rounds -/

section Rounds

variable {α β : Type} {x : Loading α} {f : α → Loading β} {v : Load α} {s s₁ : Shms} {b : α}

theorem bind_ok (h : x s = (.ok b, s₁)) : (x >>= f) s = f b s₁ := by
  show Loading.bind x f s = _
  rw [Loading.bind, h]

theorem bind_ended (h : x s = (.ended, s₁)) : (x >>= f) s = (.ended, s₁) := by
  show Loading.bind x f s = _
  rw [Loading.bind, h]

theorem bind_overrun (h : x s = (.overrun, s₁)) : (x >>= f) s = (.overrun, s₁) := by
  show Loading.bind x f s = _
  rw [Loading.bind, h]

theorem bind_pure (x : Loading α) : (x >>= fun b => pure b) = x := by
  funext s
  rcases hxs : x s with ⟨_ | _ | _, s₁⟩
  · rw [bind_ok hxs]
    rfl
  · rw [bind_ended hxs]
  · rw [bind_overrun hxs]

theorem lift_bind_lift {g : α → Load β} : (lift v >>= fun b => lift (g b)) = lift (v >>= g) := by
  cases v <;> rfl

variable {asserts : Bool} {a : ShmAlloc} {stat : Bytes → Option (Nat × Nat)} {json object : CJson}
  {obj : ConfNode} {key : Bytes} (create : Bytes → UInt8 → Int → Option Int)

/-- Segments are made for one spelling only. -/
theorem loadItem_plain (h : object.string ≠ some keyShm) :
    loadItem asserts a stat obj object = lift (Icehydra.loadItem create obj object) := by
  have hshm : ∀ obj, Loading.loadShm asserts a stat obj object
      = lift (Icehydra.loadShm create obj object) := by
    intro obj
    rw [Loading.loadShm, if_neg h, Icehydra.loadShm, if_neg h]
    rfl
  simp only [loadItem, hshm]
  exact lift_bind_lift

theorem loadKey_plain (hkey : key ∈ itemList) (hne : key ≠ keyShm) :
    loadKey asserts a stat json obj key = lift ((confBranches create).key json obj key) := by
  unfold loadKey Branches.key
  cases hfound : cJSONGetObjectItem json key with
  | none => rfl
  | some object =>
      have hstring := cJSONGetObjectItem_string_ne hfound
        (itemList_tolower key hkey keyShm (by decide) hne.symm)
      exact loadItem_plain create hstring

theorem loadKey_shm : loadKey asserts a stat json obj keyShm
    = (itemOf json keyShm).elim (pure obj) (initShm asserts a stat obj) := by
  unfold loadKey itemOf
  cases hfound : cJSONGetObjectItem json keyShm with
  | none => rfl
  | some object =>
      dsimp only
      by_cases hsame : object.string = some keyShm
      · have hname : object.string ≠ some keyName := by rw [hsame]; decide
        have hpid : object.string ≠ some keyPid := by rw [hsame]; decide
        have hcpu : object.string ≠ some keyCpuBind := by rw [hsame]; decide
        rw [Option.filter_some, if_pos (by simp [hsame]), Option.elim_some]
        unfold loadItem loadName loadCpuBind loadPid loadShm
        simp only [if_neg hname, if_neg hpid, if_neg hcpu, if_pos hsame]
        rfl
      · have hother : ∀ k ∈ itemList, object.string ≠ some k := by
          intro k hk
          by_cases heq : k = keyShm
          · rwa [heq]
          · exact cJSONGetObjectItem_string_ne hfound (itemList_tolower _ (by decide) k hk heq)
        have hitem : (confBranches fun _ _ _ => none).item obj object = .ok obj :=
          Branches.item_other hother
        rw [Option.filter_some, if_neg (by simp [hsame]), Option.elim_none,
          loadItem_plain (fun _ _ _ => none) hsame]
        exact congrArg lift hitem

/-- **A value, loaded**, in the two parts that the name and the table come in. -/
theorem getIcehydraJsonNode_eq : getIcehydraJsonNode asserts a stat json
    = lift ((itemOf json keyName).elim (.ok []) fun object => strcpyFileName object.valuestring)
      >>= fun name => (itemOf json keyShm).elim (pure (plainNode json name))
        (initShm asserts a stat (plainNode json name)) := by
  let b := confBranches fun _ _ _ => none
  have hrounds : ∀ obj : ConfNode, [keyPid, keyCpuBind, keyShm].foldlM (loadKey asserts a stat json) obj
      = (itemOf json keyShm).elim (pure (b.numbers json obj))
        (initShm asserts a stat (b.numbers json obj)) := by
    intro obj
    rw [List.foldlM_cons, loadKey_plain (fun _ _ _ => none) (by decide) (by decide),
      Branches.key_pid]
    show [keyCpuBind, keyShm].foldlM (loadKey asserts a stat json)
      ((itemOf json keyPid).elim obj (b.pid obj)) = _
    rw [List.foldlM_cons, loadKey_plain (fun _ _ _ => none) (by decide) (by decide),
      Branches.key_cpuBind]
    show (loadKey asserts a stat json (b.numbers json obj) keyShm >>= fun obj => pure obj) = _
    rw [bind_pure, loadKey_shm]
  rw [getIcehydraJsonNode, itemList, List.foldlM_cons,
    loadKey_plain (fun _ _ _ => none) (by decide) (by decide), Branches.key_name]
  simp only [hrounds]
  cases itemOf json keyName with
  | none =>
      show (itemOf json keyShm).elim (pure (b.numbers json { name := [], id := 0 }) : Loading ConfNode)
        (initShm asserts a stat _) = _
      rw [confBranches_numbers]
      rfl
  | some object =>
      show (lift (strcpyFileName object.valuestring >>= fun name =>
        .ok ({ name := name, id := 0 } : ConfNode)) >>= _) = lift (strcpyFileName object.valuestring) >>= _
      cases strcpyFileName object.valuestring with
      | ok name =>
          show (itemOf json keyShm).elim (pure (b.numbers json { name := name, id := 0 }) : Loading ConfNode)
            (initShm asserts a stat _) = _
          rw [confBranches_numbers]
          rfl
      | ended | overrun => rfl

end Rounds

end Loading

/-! ## Questions and answers -/

section Answers

variable {stat : Bytes → Option (Nat × Nat)} {s s' : Shms} {filename : Bytes} {p : UInt8}
  {size : Int} {id : Int}

theorem shmCreateOf_eq : shmCreateOf stat s filename p size =
    (s.idOf (projKey stat filename p)).bind fun i =>
      if toSizeT size ≤ shmSegsz s i then some (i.val : Int) else none := by
  show shmgetOf s (projKey stat filename p) size = _
  rw [shmgetOf, shmLookup, if_neg projKey_ne_private]

theorem shmCreateOf_eq_some : shmCreateOf stat s filename p size = some id ↔
    ∃ i, s.idOf (projKey stat filename p) = some i ∧ toSizeT size ≤ shmSegsz s i ∧
      (i.val : Int) = id := by
  rw [shmCreateOf_eq, Option.bind_eq_some_iff]
  simp [Option.ite_none_right_eq_some]

theorem shmSegsz_persists {i : ShmId} {key : Int} (h : s.Persists s') (hid : s.idOf key = some i) :
    shmSegsz s' i = shmSegsz s i := by
  obtain ⟨mem, hmem⟩ := s.backed key i hid
  obtain ⟨mem', hmem', hlen⟩ := h.memOf i mem hmem
  rw [shmSegsz_of hmem, shmSegsz_of hmem', hlen]

/-- What has been answered once is answered again. -/
theorem shmCreateOf_persists (h : s.Persists s') (hid : shmCreateOf stat s filename p size = some id) :
    shmCreateOf stat s' filename p size = some id := by
  obtain ⟨i, hi, hle, rfl⟩ := shmCreateOf_eq_some.mp hid
  refine shmCreateOf_eq_some.mpr ⟨i, h.idOf _ i hi, ?_, rfl⟩
  rwa [shmSegsz_persists h hi]

theorem shmCreateOf_congr (h : s.Persists s') (h' : s'.Persists s) :
    shmCreateOf stat s = shmCreateOf stat s' := by
  funext filename p size
  refine Option.ext fun id => ⟨shmCreateOf_persists h, shmCreateOf_persists h'⟩

end Answers

/-! ## Both loaders -/

/-- The loader on the machine, in both builds, beside the one that asks. With
assertions the two come out alike when the machine is asked afterwards, or when
all segments were there before. Without them nothing is different as long as no
assertion fails. -/
structure Served {α : Type} (stat : Bytes → Option (Nat × Nat)) (x : Bool → Loading α)
    (y : (Bytes → UInt8 → Int → Option Int) → Load α) : Prop where
  clears : ∀ s, Clears s (x true s).2
  out : ∀ s, (x true s).1 = y (shmCreateOf stat (x true s).2)
  lasts : ∀ s a s', (x true s).1 = .ok a → (x true s).2.Persists s' →
    y (shmCreateOf stat s') = .ok a
  again : ∀ s a, y (shmCreateOf stat s) = .ok a → (x true s).1 = .ok a ∧ (x true s).2.Persists s
  relaxed : ∀ asserts s a, (x true s).1 = .ok a → x asserts s = x true s

/-- `icehydra_shm_t` behind `shm_create`. -/
def shmOf (filename : Bytes) (p : UInt8) (size : Int) (id : Int) : IcehydraShm where
  filename := some filename
  projId := p.toNat
  size := size
  id := id
  memPtr := some (Fin.ofNat _ id.toNat)

/-- Behind one that has failed. -/
def noShmOf (filename : Bytes) (p : UInt8) (size : Int) : IcehydraShm where
  filename := some filename
  projId := p.toNat
  size := size

/-- **`shm_create` in a loader**: a segment, or nothing and perhaps the end. -/
theorem Loading.create_cases (a : ShmAlloc) (stat : Bytes → Option (Nat × Nat)) (filename : Bytes)
    (p : UInt8) (size : Int) (s : Shms) :
    ((∀ asserts, Loading.create asserts a stat filename p size s
          = (if asserts then .ended else .ok (noShmOf filename p size), s)) ∧
        shmCreateOf stat s filename p size = none) ∨
      ∃ id s', (∀ asserts, Loading.create asserts a stat filename p size s
          = (.ok (shmOf filename p size id.val), s')) ∧
        Created (projKey stat filename p) (toSizeT size) id s s' := by
  have hshm : ∀ id : ShmId, Fin.ofNat shmIdEnd (id.val : Int).toNat = id := fun id =>
    Fin.ext (Nat.mod_eq_of_lt id.isLt)
  rcases shmCreate_cases a stat filename p size s with ⟨hnone, hsmall⟩ | ⟨id, s', hsome, hcreated⟩
  · refine .inl ⟨fun asserts => ?_, ?_⟩
    · rw [Loading.create, hnone]
      cases asserts <;> rfl
    · rw [shmCreateOf_eq]
      cases hid : s.idOf (projKey stat filename p) with
      | none => rfl
      | some i => exact if_neg (hsmall i hid)
  · exact .inr ⟨id, s', fun asserts => by rw [Loading.create, hsome, shmOf, hshm], hcreated⟩

namespace Served

variable {α β : Type} {stat : Bytes → Option (Nat × Nat)} {x : Bool → Loading α}
  {y : (Bytes → UInt8 → Int → Option Int) → Load α} {f : Bool → α → Loading β}
  {g : (Bytes → UInt8 → Int → Option Int) → α → Load β}

theorem lift (v : Load α) : Served stat (fun _ => .lift v) fun _ => v where
  clears s := .refl s
  out _ := rfl
  lasts _ _ _ h _ := h
  again s _ h := ⟨h, .refl s⟩
  relaxed _ _ _ _ := rfl

theorem pure (a : α) : Served stat (fun _ => Pure.pure a) fun _ => Pure.pure a := lift (.ok a)

theorem of_eq {y' : (Bytes → UInt8 → Int → Option Int) → Load α} (h : Served stat x y)
    (heq : ∀ create, y create = y' create) : Served stat x y' := by
  rwa [show y' = y from (funext heq).symm]

/-- **One step after another.** -/
theorem bind (hx : Served stat x y)
    (hf : ∀ a, Served stat (fun asserts => f asserts a) fun create => g create a) :
    Served stat (fun asserts => x asserts >>= f asserts) fun create => y create >>= g create := by
  refine ⟨fun s => ?_, fun s => ?_, fun s b s' hok hpers => ?_, fun s b hok => ?_,
    fun asserts s b hok => ?_⟩
  · have hclears := hx.clears s
    rcases hxs : x true s with ⟨a | _ | _, s₁⟩
    · rw [hxs] at hclears
      rw [Loading.bind_ok hxs]
      exact hclears.trans ((hf a).clears s₁)
    · rw [hxs] at hclears
      rw [Loading.bind_ended hxs]
      exact hclears
    · rw [hxs] at hclears
      rw [Loading.bind_overrun hxs]
      exact hclears
  · have hout := hx.out s
    rcases hxs : x true s with ⟨a | _ | _, s₁⟩
    · have hok : y (shmCreateOf stat (f true a s₁).2) = .ok a :=
        hx.lasts s a _ (by rw [hxs]) (by rw [hxs]; exact ((hf a).clears s₁).persists)
      rw [Loading.bind_ok hxs, hok]
      exact (hf a).out s₁
    · rw [hxs] at hout
      rw [Loading.bind_ended hxs, ← hout]
      rfl
    · rw [hxs] at hout
      rw [Loading.bind_overrun hxs, ← hout]
      rfl
  · rcases hxs : x true s with ⟨a | _ | _, s₁⟩
    · rw [Loading.bind_ok hxs] at hok hpers
      rw [hx.lasts s a s' (by rw [hxs]) (by rw [hxs]; exact ((hf a).clears s₁).persists.trans hpers)]
      exact (hf a).lasts s₁ b s' hok hpers
    · rw [Loading.bind_ended hxs] at hok
      cases hok
    · rw [Loading.bind_overrun hxs] at hok
      cases hok
  · obtain ⟨a, hy, hg⟩ := Load.bind_eq_ok.mp hok
    obtain ⟨hxa, hback⟩ := hx.again s a hy
    have hfor := (hx.clears s).persists
    rcases hxs : x true s with ⟨v, s₁⟩
    rw [hxs] at hxa hback hfor
    dsimp only at hxa hback hfor
    subst hxa
    rw [shmCreateOf_congr hfor hback] at hg
    obtain ⟨hfb, hback'⟩ := (hf a).again s₁ b hg
    rw [Loading.bind_ok hxs]
    exact ⟨hfb, hback'.trans hback⟩
  · rcases hxs : x true s with ⟨a | _ | _, s₁⟩
    · have hsame : x asserts s = (.ok a, s₁) := (hx.relaxed asserts s a (by rw [hxs])).trans hxs
      rw [Loading.bind_ok hxs] at hok ⊢
      rw [Loading.bind_ok hsame]
      exact (hf a).relaxed asserts s₁ b hok
    · rw [Loading.bind_ended hxs] at hok
      cases hok
    · rw [Loading.bind_overrun hxs] at hok
      cases hok

/-- **`shm_create`**, made and asked. -/
theorem create (a : ShmAlloc) (stat : Bytes → Option (Nat × Nat)) (filename : Bytes) (p : UInt8)
    (size : Int) :
    Served stat (fun asserts => Loading.create asserts a stat filename p size) fun create =>
      (create filename p size).elim .ended fun id => .ok (shmOf filename p size id) := by
  have hcases := Loading.create_cases a stat filename p size
  have hanswer : ∀ {s s' s'' : Shms} {id : ShmId},
      Created (projKey stat filename p) (toSizeT size) id s s' → s'.Persists s'' →
        shmCreateOf stat s'' filename p size = some (id.val : Int) := by
    intro s s' s'' id hcreated hpers
    obtain ⟨mem, hmem, hle, -⟩ := hcreated.zero
    refine shmCreateOf_persists hpers (shmCreateOf_eq_some.mpr ⟨id, hcreated.found, ?_, rfl⟩)
    rwa [shmSegsz_of hmem]
  refine ⟨fun s => ?_, fun s => ?_, fun s b s' hok hpers => ?_, fun s b hok => ?_,
    fun asserts s b hok => ?_⟩
  · rcases hcases s with ⟨h, -⟩ | ⟨id, s', h, hcreated⟩
    · rw [h]
      exact .refl s
    · rw [h]
      exact hcreated.clears
  · rcases hcases s with ⟨h, hnone⟩ | ⟨id, s', h, hcreated⟩
    · rw [h, hnone]
      rfl
    · rw [h, hanswer hcreated (.refl s'), Option.elim_some]
  · rcases hcases s with ⟨h, -⟩ | ⟨id, s₁, h, hcreated⟩
    · rw [h] at hok
      cases hok
    · rw [h] at hok hpers
      rw [hanswer hcreated hpers, Option.elim_some]
      exact hok
  · rcases hcases s with ⟨h, hnone⟩ | ⟨id, s', h, hcreated⟩
    · rw [hnone] at hok
      cases hok
    · cases hanswered : shmCreateOf stat s filename p size with
      | none =>
          rw [hanswered] at hok
          cases hok
      | some id' =>
          have hlater := hanswer hcreated (.refl s')
          obtain rfl := Option.some.inj
            (hlater.symm.trans (shmCreateOf_persists hcreated.clears.persists hanswered))
          obtain ⟨i, hi, hle, -⟩ := shmCreateOf_eq_some.mp hanswered
          rw [hanswered, Option.elim_some] at hok
          rw [h]
          exact ⟨hok, hcreated.again i hi hle⟩
  · rcases hcases s with ⟨h, -⟩ | ⟨id, s', h, hcreated⟩
    · rw [h] at hok
      cases hok
    · rw [h, h]

section Functions

variable {a : ShmAlloc}

theorem initShmLoop {filename : Bytes} {p : UInt8} {items : List CJson} :
    Served stat (fun asserts => Loading.initShmLoop asserts a stat filename p items)
      fun create => Icehydra.initShmLoop create filename p items := by
  induction items generalizing p with
  | nil => exact pure _
  | cons obj items ih =>
      simp only [Loading.initShmLoop, Icehydra.initShmLoop]
      cases cJSONGetObjectItemCaseSensitive obj keyShmSize with
      | none => exact lift .ended
      | some shmSize =>
          refine ((create a stat filename (p + 1) shmSize.valueint).bind fun shm =>
            (lift _).bind fun shmName => ih.bind fun r => pure _).of_eq fun create => ?_
          dsimp only
          cases create filename (p + 1) shmSize.valueint <;> rfl

theorem initShm {node : ConfNode} {json : CJson} :
    Served stat (fun asserts => Loading.initShm asserts a stat node json)
      fun create => Icehydra.initShm create node json :=
  initShmLoop.bind fun _ => pure _

theorem getIcehydraJsonNode {json : CJson} :
    Served stat (fun asserts => Loading.getIcehydraJsonNode asserts a stat json)
      fun create => Icehydra.getIcehydraJsonNode create json := by
  simp only [Loading.getIcehydraJsonNode_eq, Icehydra.getIcehydraJsonNode_eq]
  refine (lift _).bind fun name => ?_
  cases itemOf json keyShm with
  | none => exact pure _
  | some object => exact initShm

theorem add {st : Building} {json : CJson} :
    Served stat (fun asserts => Loading.add asserts a stat st json)
      fun create => Building.add create st json :=
  getIcehydraJsonNode.bind fun _ => lift _

theorem addAll {st : Building} {values : List CJson} :
    Served stat (fun asserts => Loading.addAll asserts a stat st values)
      fun create => Building.addAll create st values := by
  induction values generalizing st with
  | nil => exact pure _
  | cons json rest ih => exact add.bind fun _ => ih

theorem getNodeStart {values : List CJson} :
    Served stat (fun asserts => Loading.getNodeStart asserts a stat values)
      fun create => Icehydra.getNodeStart create values := by
  refine addAll.bind fun st => ?_
  cases hresult : st.resultNode with
  | none => exact lift .ended
  | some result => exact pure _

end Functions

/-- The file name of the segments of a value. -/
def shmFile (json : CJson) : Bytes := namePrefix ++ (nameOf json).getD []

end Served

end Icehydra
