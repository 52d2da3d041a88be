import Icehydra.ShmLoad

/-!
# ShmMade — what a start makes

The tables that `get_node_start` gives on a machine, and what it does to the
segments, in builds with assertions and without. Without them the tables are the
same but for the ids: an entry has the segment of its key, or it is one that
`shm_create` failed for.
-/

namespace Icehydra

/-! ## Tables without ids -/

def ShmNode.withoutId (e : ShmNode) : ShmNode := { e with shmId := 0 }

def PubSubNode.withoutIds (n : PubSubNode) : PubSubNode :=
  { n with shmNodePtr := n.shmNodePtr.map fun table => table.map ShmNode.withoutId }

def ConfNode.withoutIds (node : ConfNode) : ConfNode :=
  { node with toPubSubNode := node.toPubSubNode.withoutIds }

def HeapNode.withoutIds (h : HeapNode) : HeapNode := { h with node := h.node.withoutIds }

def Building.withoutIds (st : Building) : Building :=
  { st with heap := st.heap.map HeapNode.withoutIds }

def NodeStart.withoutIds (r : NodeStart) : NodeStart :=
  { r with heap := r.heap.map HeapNode.withoutIds }

/-- Whatever the segments, the loader comes out like this but for what `e` erases. -/
def Erases {α : Type} (x : Loading α) (e : α → α) (y : Load α) : Prop :=
  ∀ s, e <$> (x s).1 = y

namespace Erases

variable {α β : Type} {x : Loading α} {e : α → α} {y : Load α} {f : α → Loading β} {e' : β → β}
  {g : α → Load β} {a : ShmAlloc} {stat : Bytes → Option (Nat × Nat)}

/-- Every `shm_create` answers 0. -/
def zeroId : Bytes → UInt8 → Int → Option Int := fun _ _ _ => some 0

theorem lift {v : Load α} : Erases (.lift v) e (e <$> v) := fun _ => rfl

theorem lift_id {v : Load α} : Erases (.lift v) id v := fun _ => by cases v <;> rfl

theorem pure {b : α} : Erases (Pure.pure b) e (Pure.pure (e b)) := fun _ => rfl

theorem bind (hx : Erases x e y) (hf : ∀ b, Erases (f b) e' (g (e b))) :
    Erases (x >>= f) e' (y >>= g) := by
  intro s
  have hy := hx s
  rcases hxs : x s with ⟨b | _ | _, s₁⟩
  · rw [hxs] at hy
    rw [Loading.bind_ok hxs, ← hy]
    exact hf b s₁
  · rw [hxs] at hy
    rw [Loading.bind_ended hxs, ← hy]
    rfl
  · rw [hxs] at hy
    rw [Loading.bind_overrun hxs, ← hy]
    rfl

/-- Without the assertion, an entry is kept in any case. -/
theorem create_ok (a : ShmAlloc) (stat : Bytes → Option (Nat × Nat)) (filename : Bytes) (p : UInt8)
    (size : Int) (s : Shms) : ∃ shm s', Loading.create false a stat filename p size s = (.ok shm, s') ∧
      shm.size = size := by
  rcases Loading.create_cases a stat filename p size s with ⟨h, -⟩ | ⟨id, s', h, -⟩
  · exact ⟨_, _, h false, rfl⟩
  · exact ⟨_, _, h false, rfl⟩

theorem initShmLoop {filename : Bytes} {p : UInt8} {items : List CJson} :
    Erases (Loading.initShmLoop false a stat filename p items)
      (Prod.map (List.map ShmNode.withoutId) id) (Icehydra.initShmLoop zeroId filename p items) := by
  induction items generalizing p with
  | nil => exact pure
  | cons obj items ih =>
      simp only [Loading.initShmLoop, Icehydra.initShmLoop, zeroId]
      cases cJSONGetObjectItemCaseSensitive obj keyShmSize with
      | none => exact fun _ => rfl
      | some shmSize =>
          intro s
          obtain ⟨shm, s', hcreate, hsize⟩ :=
            create_ok a stat filename (p + 1) shmSize.valueint s
          dsimp only
          rw [Loading.bind_ok hcreate, ← hsize]
          have hrest : ∀ shmName, Erases
              (Loading.initShmLoop false a stat filename (p + 1) items >>= fun r =>
                Pure.pure (⟨shmName, shm.id, shm.size⟩ :: r.1, r.2))
              (Prod.map (List.map ShmNode.withoutId) id)
              (Icehydra.initShmLoop zeroId filename (p + 1) items >>= fun r =>
                .ok (⟨shmName, 0, shm.size⟩ :: r.1, r.2)) := fun shmName =>
            ih.bind (g := fun r => .ok (⟨shmName, 0, shm.size⟩ :: r.1, r.2)) fun _ _ => rfl
          exact lift_id.bind hrest s'

theorem initShm {node : ConfNode} {json : CJson} :
    Erases (Loading.initShm false a stat node json) ConfNode.withoutIds
      (Icehydra.initShm zeroId node json) :=
  initShmLoop.bind fun _ => pure

theorem getIcehydraJsonNode {json : CJson} :
    Erases (Loading.getIcehydraJsonNode false a stat json) ConfNode.withoutIds
      (Icehydra.getIcehydraJsonNode zeroId json) := by
  rw [Loading.getIcehydraJsonNode_eq, Icehydra.getIcehydraJsonNode_eq]
  refine lift_id.bind fun name => ?_
  cases itemOf json keyShm with
  | none => exact pure
  | some object => exact initShm

theorem map_modify {γ δ : Type} {l : List γ} {k : Nat} {f : γ → γ} {f' : δ → δ} {g : γ → δ}
    (h : ∀ x, g (f x) = f' (g x)) : (l.modify k f).map g = (l.map g).modify k f' := by
  refine List.ext_getElem? fun i => ?_
  rw [List.getElem?_map, List.getElem?_modify, List.getElem?_modify, List.getElem?_map]
  cases l[i]? with
  | none => rfl
  | some x =>
      by_cases hk : k = i
      · simp [hk, h]
      · simp [hk]

theorem hang {st : Building} {node : ConfNode} :
    Loading.hang st.withoutIds node.withoutIds = Building.withoutIds <$> Loading.hang st node := by
  obtain ⟨heap, nodeCount, headNode, resultNode⟩ := st
  have hlen : (heap.map HeapNode.withoutIds).length = heap.length := List.length_map ..
  unfold Loading.hang
  simp only [Building.withoutIds, hlen]
  show (if nodeCount = 0 ∧ node.id ≠ 0 then _ else if node.id = 0 then _ else _) = _
  by_cases hfirst : nodeCount = 0 ∧ node.id ≠ 0
  · rw [if_pos hfirst, if_pos hfirst]
    rfl
  rw [if_neg hfirst, if_neg hfirst]
  by_cases hzero : node.id = 0
  · rw [if_pos hzero, if_pos hzero]
    show Load.ok _ = Load.ok _
    simp [Building.withoutIds, HeapNode.withoutIds]
  rw [if_neg hzero, if_neg hzero]
  cases headNode with
  | none => rfl
  | some head =>
      show Load.ok _ = Load.ok _
      rw [Load.ok.injEq, Building.mk.injEq]
      refine ⟨?_, rfl, rfl, rfl⟩
      show _ = (heap.modify head _ ++ [_]).map HeapNode.withoutIds
      rw [List.map_append]
      refine congrArg (· ++ [_]) (map_modify ?_).symm
      exact fun _ => rfl

theorem add {st : Building} {json : CJson} :
    Erases (Loading.add false a stat st json) Building.withoutIds
      (Building.add zeroId st.withoutIds json) :=
  getIcehydraJsonNode.bind (g := Loading.hang st.withoutIds) fun node => by
    rw [hang]
    exact lift

theorem addAll {st : Building} {values : List CJson} :
    Erases (Loading.addAll false a stat st values) Building.withoutIds
      (Building.addAll zeroId st.withoutIds values) := by
  induction values generalizing st with
  | nil => exact pure
  | cons json rest ih => exact add.bind (g := fun st => Building.addAll zeroId st rest) fun _ => ih

theorem getNodeStart {values : List CJson} :
    Erases (Loading.getNodeStart false a stat values) NodeStart.withoutIds
      (Icehydra.getNodeStart zeroId values) := by
  refine addAll.bind fun st => ?_
  have hlinked : ∀ result, st.withoutIds.linked result = (st.linked result).withoutIds := by
    intro result
    show NodeStart.mk _ _ = NodeStart.mk _ _
    rw [NodeStart.mk.injEq]
    refine ⟨Eq.symm ?_, rfl⟩
    show (st.heap.modify result _).map HeapNode.withoutIds
      = (st.heap.map HeapNode.withoutIds).modify result _
    refine map_modify ?_
    exact fun _ => rfl
  obtain ⟨heap, nodeCount, headNode, resultNode⟩ := st
  cases resultNode with
  | none => exact fun _ => rfl
  | some result =>
      have hpure : Erases (Pure.pure (Building.linked ⟨heap, nodeCount, headNode, some result⟩ result))
          NodeStart.withoutIds _ := pure
      rwa [← hlinked] at hpure

end Erases

/-! ## The segments of the entries -/

/-- The segment of the key has this id, and it starts with that many zeros. -/
def Backed (s : Shms) (key id size : Int) : Prop :=
  ∃ i : ShmId, id = i.val ∧ s.idOf key = some i ∧ ZeroTo s i (toSizeT size)

/-- Without assertions, an entry may have no segment but the id 0. -/
def ShmNode.Laid (asserts : Bool) (s : Shms) (key : Int) (e : ShmNode) : Prop :=
  Backed s key e.shmId e.shmSize ∨ asserts = false ∧ e.shmId = 0

/-- So is every entry of a table, of which the first has the project id behind `p`. -/
def TableLaid (asserts : Bool) (stat : Bytes → Option (Nat × Nat)) (filename : Bytes) (p : UInt8)
    (table : List ShmNode) (s : Shms) : Prop :=
  ∀ (i : Nat) (e : ShmNode), table[i]? = some e →
    e.Laid asserts s (projKey stat filename (p + UInt8.ofNat (i + 1)))

def ConfNode.Laid (asserts : Bool) (stat : Bytes → Option (Nat × Nat)) (s : Shms)
    (node : ConfNode) : Prop :=
  ∀ table, node.shmNodePtr = some table →
    TableLaid asserts stat (namePrefix ++ node.name) 0 table s

section Laid

variable {asserts : Bool} {stat : Bytes → Option (Nat × Nat)} {s s' : Shms} {key id size : Int}

theorem Backed.clears (h : Backed s key id size) (hc : Clears s s') : Backed s' key id size := by
  obtain ⟨i, hid, hkey, hzero⟩ := h
  exact ⟨i, hid, hc.idOf key i hkey, hc.zeroTo hzero⟩

theorem ShmNode.Laid.clears {e : ShmNode} (h : e.Laid asserts s key) (hc : Clears s s') :
    e.Laid asserts s' key :=
  h.imp_left fun hb => hb.clears hc

theorem ConfNode.Laid.clears {node : ConfNode} (h : node.Laid asserts stat s) (hc : Clears s s') :
    node.Laid asserts stat s' :=
  fun table ht i e hi => (h table ht i e hi).clears hc

end Laid

/-- The keys of a table with so many entries, the first of which has the project
id behind `p`. -/
def entryKeys (stat : Bytes → Option (Nat × Nat)) (filename : Bytes) (p : UInt8) (n : Nat)
    (key : Int) : Prop :=
  ∃ i < n, key = projKey stat filename (p + UInt8.ofNat (i + 1))

/-- The loader touches the segments of certain keys only, and these from their
start on; of what it gives, `Q` holds at its end and later. -/
structure Gives {α : Type} (keys : Int → Prop) (x : Loading α) (Q : α → Shms → Prop) : Prop where
  clears : ∀ s, Clears s (x s).2
  others : ∀ s i mem, s.memOf i = some mem →
    (∀ key, keys key → (x s).2.idOf key ≠ some i) → (x s).2.memOf i = some mem
  holds : ∀ s b, (x s).1 = .ok b → ∀ s', Clears (x s).2 s' → Q b s'

namespace Gives

variable {α β : Type} {keys keys' : Int → Prop} {x : Loading α} {f : α → Loading β}
  {Q Q' : α → Shms → Prop} {R : α → β → Shms → Prop} {a : ShmAlloc}
  {stat : Bytes → Option (Nat × Nat)} {asserts : Bool}

theorem lift {v : Load α} : Gives keys (.lift v) fun b _ => v = .ok b where
  clears s := .refl s
  others _ _ _ h _ := h
  holds _ _ h _ _ := h

theorem pure {b : α} : Gives keys (Pure.pure b) fun b' _ => b' = b where
  clears s := .refl s
  others _ _ _ h _ := h
  holds _ _ h _ _ := (Load.ok.inj h).symm

theorem mono (h : Gives keys x Q) (hkeys : ∀ key, keys key → keys' key)
    (hQ : ∀ b s, Q b s → Q' b s) : Gives keys' x Q' where
  clears := h.clears
  others s i mem hm hne := h.others s i mem hm fun key hk => hne key (hkeys key hk)
  holds s b hok s' hc := hQ b s' (h.holds s b hok s' hc)

/-- **One step after another**: in the end there is what either of them gives. -/
theorem bind (hx : Gives keys x Q) (hf : ∀ b, Gives keys (f b) (R b)) :
    Gives keys (x >>= f) fun c s => ∃ b, Q b s ∧ R b c s := by
  refine ⟨fun s => ?_, fun s i mem hm hne => ?_, fun s c hok s' hc => ?_⟩
  · have hclears := hx.clears s
    rcases hxs : x s with ⟨b | _ | _, s₁⟩
    · rw [hxs] at hclears
      rw [Loading.bind_ok hxs]
      exact hclears.trans ((hf b).clears s₁)
    · rw [hxs] at hclears
      rw [Loading.bind_ended hxs]
      exact hclears
    · rw [hxs] at hclears
      rw [Loading.bind_overrun hxs]
      exact hclears
  · have hothers := hx.others s i mem hm
    rcases hxs : x s with ⟨b | _ | _, s₁⟩
    · rw [Loading.bind_ok hxs] at hne ⊢
      rw [hxs] at hothers
      refine (hf b).others s₁ i mem (hothers fun key hk hid => ?_) hne
      exact hne key hk (((hf b).clears s₁).idOf key i hid)
    · rw [Loading.bind_ended hxs] at hne ⊢
      rw [hxs] at hothers
      exact hothers hne
    · rw [Loading.bind_overrun hxs] at hne ⊢
      rw [hxs] at hothers
      exact hothers hne
  · have hholds := hx.holds s
    rcases hxs : x s with ⟨b | _ | _, s₁⟩
    · rw [hxs] at hholds
      rw [Loading.bind_ok hxs] at hok hc
      exact ⟨b, hholds b rfl s' (((hf b).clears s₁).trans hc), (hf b).holds s₁ c hok s' hc⟩
    · rw [Loading.bind_ended hxs] at hok
      cases hok
    · rw [Loading.bind_overrun hxs] at hok
      cases hok

/-- What a pure step has given is known to the next. -/
theorem lift_bind {v : Load α} {R : β → Shms → Prop} (hf : ∀ b, v = .ok b → Gives keys (f b) R) :
    Gives keys (.lift v >>= f) R := by
  cases v with
  | ok b => exact hf b rfl
  | ended => exact ⟨fun s => .refl s, fun _ _ _ h _ => h, fun _ _ h => by cases h⟩
  | overrun => exact ⟨fun s => .refl s, fun _ _ _ h _ => h, fun _ _ h => by cases h⟩

/-- **`shm_create`** makes a segment for its key, and no other. -/
theorem create {filename : Bytes} {p : UInt8} {size : Int} :
    Gives (fun key => key = projKey stat filename p)
      (Loading.create asserts a stat filename p size) fun shm s =>
        Backed s (projKey stat filename p) shm.id shm.size ∨ asserts = false ∧ shm.id = 0 := by
  refine ⟨fun s => ?_, fun s i mem hm hne => ?_, fun s shm hok s' hc => ?_⟩
  · rcases Loading.create_cases a stat filename p size s with ⟨h, -⟩ | ⟨id, s₁, h, hcreated⟩
    · rw [h]
      exact .refl s
    · rw [h]
      exact hcreated.clears
  · rcases Loading.create_cases a stat filename p size s with ⟨h, -⟩ | ⟨id, s₁, h, hcreated⟩
    · rwa [h]
    · rw [h] at hne ⊢
      refine hcreated.others i mem hm fun heq => hne _ rfl ?_
      rw [heq]
      exact hcreated.found
  · rcases Loading.create_cases a stat filename p size s with ⟨h, -⟩ | ⟨id, s₁, h, hcreated⟩
    · rw [h] at hok
      cases asserts with
      | true => cases hok
      | false =>
          rw [← Load.ok.inj hok]
          exact .inr ⟨rfl, rfl⟩
    · rw [h] at hok hc
      rw [← Load.ok.inj hok]
      exact .inl (Backed.clears ⟨id, rfl, hcreated.found, hcreated.zero⟩ hc)

theorem initShmLoop {filename : Bytes} {p : UInt8} {items : List CJson} :
    Gives (entryKeys stat filename p items.length)
      (Loading.initShmLoop asserts a stat filename p items) fun r s =>
        TableLaid asserts stat filename p r.1 s := by
  induction items generalizing p with
  | nil =>
      refine pure.mono (fun _ hk => hk) fun r s hr i e hi => ?_
      rw [hr] at hi
      cases hi
  | cons obj items ih =>
      have hnext : ∀ i : Nat, p + 1 + UInt8.ofNat (i + 1) = p + UInt8.ofNat (i + 1 + 1) := by
        intro i
        rw [UInt8.ofNat_add (i + 1) 1, UInt8.add_comm (UInt8.ofNat (i + 1)), UInt8.add_assoc]
        rfl
      unfold Loading.initShmLoop
      cases cJSONGetObjectItemCaseSensitive obj keyShmSize with
      | none => exact lift.mono (fun _ hk => hk) fun _ _ h => by cases h
      | some shmSize =>
          have hfirst : Gives (entryKeys stat filename p (obj :: items).length)
              (Loading.create asserts a stat filename (p + 1) shmSize.valueint) _ :=
            create.mono (fun key hk => ⟨0, Nat.zero_lt_succ _, hk⟩) fun _ _ h => h
          have hrest : Gives (entryKeys stat filename p (obj :: items).length)
              (Loading.initShmLoop asserts a stat filename (p + 1) items)
              fun r s => TableLaid asserts stat filename (p + 1) r.1 s := by
            refine ih.mono (fun key hk => ?_) fun _ _ h => h
            obtain ⟨i, hi, rfl⟩ := hk
            exact ⟨i + 1, Nat.succ_lt_succ hi, by rw [hnext]⟩
          refine (hfirst.bind fun shm => lift.bind fun shmName => hrest.bind fun r => pure).mono
            (fun _ hk => hk) fun r s hr i e hi => ?_
          obtain ⟨shm, hshm, shmName, -, r', hr', rfl⟩ := hr
          cases i with
          | zero =>
              obtain rfl := Option.some.inj hi
              exact hshm
          | succ i =>
              rw [← hnext]
              exact hr' i e hi

theorem initShm {node : ConfNode} {json : CJson} :
    Gives (entryKeys stat (namePrefix ++ node.name) 0 json.child.length)
      (Loading.initShm asserts a stat node json) fun node' s => node'.Laid asserts stat s := by
  have hloop : Gives (entryKeys stat (namePrefix ++ node.name) 0 json.child.length)
      (Loading.initShmLoop asserts a stat (namePrefix ++ node.name) 0 json.child) _ := initShmLoop
  refine (hloop.bind fun r => pure).mono (fun _ hk => hk) fun node' s hnode => ?_
  obtain ⟨r, hr, rfl⟩ := hnode
  intro table htable i e hi
  obtain rfl := Option.some.inj htable
  exact hr i e hi

end Gives

/-- The keys of the entries that a value has in its table. -/
def Served.valueKeys (stat : Bytes → Option (Nat × Nat)) (json : CJson) (key : Int) : Prop :=
  ∃ items, shmItems json = some items ∧ entryKeys stat (Served.shmFile json) 0 items.length key

/-- The keys of the entries of a file. -/
def Served.confKeys (stat : Bytes → Option (Nat × Nat)) (values : List CJson) (key : Int) : Prop :=
  ∃ json ∈ values, Served.valueKeys stat json key

/-- What has been copied is what the key says. -/
theorem nameOf_getD {json : CJson} {name : Bytes}
    (h : (itemOf json keyName).elim (Load.ok []) (fun object => strcpyFileName object.valuestring)
      = .ok name) : (nameOf json).getD [] = name := by
  rw [nameOf]
  cases hitem : itemOf json keyName with
  | none =>
      rw [hitem] at h
      exact Load.ok.inj h
  | some object =>
      rw [hitem] at h
      rw [Option.bind_some, (strcpyFileName_eq_ok.mp h).1, Option.getD_some]

namespace Gives

variable {a : ShmAlloc} {stat : Bytes → Option (Nat × Nat)} {asserts : Bool}

theorem getIcehydraJsonNode {json : CJson} :
    Gives (Served.valueKeys stat json) (Loading.getIcehydraJsonNode asserts a stat json)
      fun node s => node.Laid asserts stat s := by
  rw [Loading.getIcehydraJsonNode_eq]
  refine lift_bind fun name hname => ?_
  cases hshm : itemOf json keyShm with
  | none =>
      refine pure.mono (fun _ hk => hk) fun node s hnode => ?_
      rw [hnode]
      intro table htable
      cases htable
  | some object =>
      refine initShm.mono (fun key hk => ⟨object.child, ?_, ?_⟩) fun _ _ h => h
      · rw [shmItems, ← itemOf, hshm]
        rfl
      · rwa [Served.shmFile, nameOf_getD hname]

/-- The nodes that were there, and those that have been loaded. -/
def Hung (asserts : Bool) (stat : Bytes → Option (Nat × Nat)) (st st' : Building) (s : Shms) : Prop :=
  ∀ h ∈ st'.heap, (∃ g ∈ st.heap, g.node = h.node) ∨ h.node.Laid asserts stat s

theorem add {st : Building} {json : CJson} :
    Gives (Served.valueKeys stat json) (Loading.add asserts a stat st json)
      fun st' s => Hung asserts stat st st' s := by
  refine (getIcehydraJsonNode.bind fun node => lift).mono (fun _ hk => hk) fun st' s hst' => ?_
  obtain ⟨node, hnode, hhang⟩ := hst'
  have hkeep : ∀ (heap : List HeapNode) (l : List Nat),
      (∀ h ∈ heap, ∃ g ∈ st.heap, g.node = h.node) → ∀ h ∈ heap ++ [⟨node, l⟩],
        (∃ g ∈ st.heap, g.node = h.node) ∨ h.node.Laid asserts stat s := by
    intro heap l hold h hh
    rcases List.mem_append.mp hh with hh | hh
    · exact .inl (hold h hh)
    · rw [List.mem_singleton.mp hh]
      exact .inr hnode
  unfold Loading.hang at hhang
  simp only at hhang
  split at hhang
  · cases hhang
  split at hhang
  · rw [← Load.ok.inj hhang]
    exact hkeep _ _ fun h hh => ⟨h, hh, rfl⟩
  split at hhang
  · cases hhang
  · rw [← Load.ok.inj hhang]
    refine hkeep _ _ fun h hh => ?_
    obtain ⟨g, hg, rfl | rfl⟩ := Building.exists_of_mem_modify hh
    · exact ⟨h, hg, rfl⟩
    · exact ⟨g, hg, rfl⟩

theorem addAll {st : Building} {values : List CJson} :
    Gives (Served.confKeys stat values) (Loading.addAll asserts a stat st values)
      fun st' s => Hung asserts stat st st' s := by
  induction values generalizing st with
  | nil =>
      refine pure.mono (fun _ hk => hk) fun st' s hst' h hh => ?_
      rw [hst'] at hh
      exact .inl ⟨h, hh, rfl⟩
  | cons json rest ih =>
      have hadd : Gives (Served.confKeys stat (json :: rest)) (Loading.add asserts a stat st json) _ :=
        add.mono (fun key hk => ⟨json, List.mem_cons_self, hk⟩) fun _ _ h => h
      have hrest : ∀ st', Gives (Served.confKeys stat (json :: rest))
          (Loading.addAll asserts a stat st' rest) _ := fun st' =>
        ih.mono (fun key hk => hk.imp fun json hj => ⟨List.mem_cons_of_mem _ hj.1, hj.2⟩)
          fun _ _ h => h
      refine (hadd.bind hrest).mono (fun _ hk => hk) fun st' s hst' h hh => ?_
      obtain ⟨st₁, h₁, h₂⟩ := hst'
      rcases h₂ h hh with ⟨g, hg, hsame⟩ | hlaid
      · exact hsame ▸ h₁ g hg
      · exact .inr hlaid

/-- **Everything that the tables list** is laid when the broker starts. -/
theorem getNodeStart {values : List CJson} :
    Gives (Served.confKeys stat values) (Loading.getNodeStart asserts a stat values)
      fun r s => ∀ h ∈ r.heap, h.node.Laid asserts stat s := by
  refine (Gives.bind (R := fun st r _ => ∃ result, r = Building.linked st result) addAll
    fun st => ?_).mono (fun _ hk => hk) fun r s hr h hh => ?_
  · cases st.resultNode with
    | none => exact lift.mono (fun _ hk => hk) fun _ _ h => by cases h
    | some result => exact pure.mono (fun _ hk => hk) fun _ _ h => ⟨result, h⟩
  obtain ⟨st, hhung, result, rfl⟩ := hr
  have hlaid : ∀ g ∈ st.heap, g.node.Laid asserts stat s := fun g hg =>
    (hhung g hg).resolve_left fun hold => by
      obtain ⟨g', hg', -⟩ := hold
      cases hg'
  obtain ⟨g, hg, rfl | rfl⟩ := Building.exists_of_mem_modify hh
  · exact hlaid h hg
  · exact hlaid g hg

end Gives

/-! ## The question and the segments -/

/-- **Loading on a machine**, in builds with and without assertions. While
`shm_create` gives segments, it comes out as the loader that asks does with the
answers of that machine; without assertions it always comes out so but for the
ids, where an entry that has got no segment has 0. Any other entry has the
segment of its key, zeroed. All it does to segments that were there is to zero
those of the entries' keys from their start. -/
theorem loading_answers (asserts : Bool) (a : ShmAlloc) (stat : Bytes → Option (Nat × Nat))
    (values : List CJson) (s : Shms) :
    let r := Loading.getNodeStart asserts a stat values s
    (asserts = true ∨ Loading.Succeeds a stat values s →
        r.1 = getNodeStart (shmCreateOf stat r.2) values) ∧
      (asserts = false →
        NodeStart.withoutIds <$> r.1 = getNodeStart (fun _ _ _ => some 0) values) ∧
      (∀ n, r.1 = .ok n → ∀ h ∈ n.heap, h.node.Laid asserts stat r.2) ∧
      Clears s r.2 ∧
      ∀ id mem, s.memOf id = some mem →
        (∀ key, Served.confKeys stat values key → r.2.idOf key ≠ some id) →
          r.2.memOf id = some mem := by
  intro r
  have hserved := @Served.getNodeStart stat a values
  have hgives := @Gives.getNodeStart a stat asserts values
  refine ⟨fun h => ?_, fun h => ?_, fun n hn => hgives.holds s n hn r.2 (.refl _), hgives.clears s,
    hgives.others s⟩
  · rcases h with rfl | ⟨n, hn⟩
    · exact hserved.out s
    · have hsame : r = Loading.getNodeStart true a stat values s := hserved.relaxed asserts s n hn
      rw [hsame]
      exact hserved.out s
  · subst h
    exact Erases.getNodeStart s

end Icehydra
