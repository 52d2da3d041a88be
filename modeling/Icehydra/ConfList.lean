import Icehydra.ConfFile

/-!
# ConfList — which values make up the list

A value with id 0 becomes the head and the list starts anew behind it, so what
`get_node_start` hands over comes from the last such value and from those that
follow it.
-/

namespace Icehydra

/-! ## The values that count -/

/-- The value whose node is the head, and those whose nodes hang on it, when
`head` and `subs` were so before the given values. -/
def listed (head : CJson) (subs : List CJson) : List CJson → CJson × List CJson
  | [] => (head, subs)
  | json :: rest =>
      if pidOf json = 0 then listed json [] rest else listed head (subs ++ [json]) rest

/-- The value whose node comes back. -/
def headValue : List CJson → Option CJson
  | [] => none
  | value :: values => some (listed value [] values).1

/-- The values whose nodes `main` goes through. -/
def subscribers : List CJson → List CJson
  | [] => []
  | value :: values => (listed value [] values).2

/-! ## The loop -/

/-- A node of the heap as `main` sees it. -/
def HeapNode.pub (h : HeapNode) : PubSubNode := h.node.toPubSubNode

variable {shmCreate : Bytes → UInt8 → Int → Option Int}

/-- The node is the one the value loads as. -/
def LoadsAs (shmCreate : Bytes → UInt8 → Int → Option Int) (json : CJson) (n : PubSubNode) : Prop :=
  ∃ node, getIcehydraJsonNode shmCreate json = .ok node ∧ n = node.toPubSubNode

theorem LoadsAs.id {json : CJson} {n : PubSubNode} (h : LoadsAs shmCreate json n) :
    n.id = pidOf json := by
  obtain ⟨node, hnode, rfl⟩ := h
  exact getIcehydraJsonNode_pid hnode

theorem LoadsAs.map_id {subs : List CJson} {nodes : List PubSubNode}
    (h : List.Forall₂ (LoadsAs shmCreate) subs nodes) :
    nodes.map PubSubNode.id = subs.map pidOf := by
  induction h with
  | nil => rfl
  | cons hload _ ih => rw [List.map_cons, List.map_cons, hload.id, ih]

/-- The node at position `i` is the one of `json`. -/
def NodeOf (shmCreate : Bytes → UInt8 → Int → Option Int) (heap : List HeapNode) (json : CJson)
    (i : Nat) : Prop :=
  ∃ h, heap[i]? = some h ∧ LoadsAs shmCreate json h.pub

/-- What the loop does to the nodes it has already allocated. -/
theorem NodeOf.modify {heap l : List HeapNode} {json : CJson} {i k : Nat}
    {f : HeapNode → HeapNode} (hf : ∀ h, (f h).pub = h.pub) (h : NodeOf shmCreate heap json i) :
    NodeOf shmCreate (heap.modify k f ++ l) json i := by
  obtain ⟨g, hg, hload⟩ := h
  have hlt : i < (heap.modify k f).length := by
    rw [List.length_modify]
    exact (List.getElem?_eq_some_iff.mp hg).1
  rw [NodeOf, List.getElem?_append_left hlt, List.getElem?_modify, hg]
  refine ⟨_, rfl, ?_⟩
  split
  · rw [hf]
    exact hload
  · exact hload

namespace Building

/-- The present head is the node of `head`, and on it hang those of `subs`, in
this order. -/
structure Holds (shmCreate : Bytes → UInt8 → Int → Option Int) (st : Building) (i : Nat)
    (head : CJson) (subs : List CJson) : Prop where
  headNode : st.headNode = some i
  resultNode : st.resultNode = some i
  node : NodeOf shmCreate st.heap head i
  list : ∃ h, st.heap[i]? = some h ∧
    List.Forall₂ (fun json j => NodeOf shmCreate st.heap json j) subs h.nodeList

variable {st st' : Building} {head json : CJson} {subs values : List CJson} {node : ConfNode}
  {i : Nat}

theorem Holds.addHead (hnode : getIcehydraJsonNode shmCreate json = .ok node) :
    (st.addHead node).Holds shmCreate st.heap.length json [] := by
  have hself : (st.addHead node).heap[st.heap.length]? = some ⟨node, []⟩ :=
    List.getElem?_concat_length ..
  exact ⟨rfl, rfl, ⟨_, hself, node, hnode, rfl⟩, _, hself, .nil⟩

theorem Holds.addTail (h : st.Holds shmCreate i head subs)
    (hnode : getIcehydraJsonNode shmCreate json = .ok node) :
    (st.addTail i node).Holds shmCreate i head (subs ++ [json]) := by
  obtain ⟨hhead, hresult, hnodeOf, g, hg, hlist⟩ := h
  have hkeep : ∀ {json j}, NodeOf shmCreate st.heap json j →
      NodeOf shmCreate (st.addTail i node).heap json j := fun h => h.modify fun _ => rfl
  have hlen : (st.heap.modify i fun h =>
      { h with nodeList := h.nodeList ++ [st.heap.length] }).length = st.heap.length :=
    List.length_modify ..
  have hself : (st.addTail i node).heap[st.heap.length]? = some ⟨node, []⟩ := by
    rw [Building.addTail, List.getElem?_append_right (by rw [hlen]), hlen, Nat.sub_self]
    rfl
  have hlt := (List.getElem?_eq_some_iff.mp hg).1
  refine ⟨hhead, hresult, hkeep hnodeOf,
    { g with nodeList := g.nodeList ++ [st.heap.length] }, ?_, ?_⟩
  · rw [Building.addTail, List.getElem?_append_left (by rw [hlen]; exact hlt),
      List.getElem?_modify, hg]
    simp
  · exact List.rel_append (hlist.imp fun _ _ => hkeep) (.cons ⟨_, hself, node, hnode, rfl⟩ .nil)

/-- **One round** restarts the list or makes it longer. -/
theorem Holds.add (h : st.Holds shmCreate i head subs) (hadd : st.add shmCreate json = .ok st') :
    (pidOf json = 0 ∧ st'.Holds shmCreate st.heap.length json []) ∨
      (pidOf json ≠ 0 ∧ st'.Holds shmCreate i head (subs ++ [json])) := by
  obtain ⟨node, hnode, ⟨hzero, rfl⟩ | ⟨hne, k, hk, rfl⟩⟩ := add_cases hadd
  · exact .inl ⟨(getIcehydraJsonNode_pid hnode).symm.trans hzero, .addHead hnode⟩
  · obtain rfl := Option.some.inj (h.headNode.symm.trans hk)
    exact .inr ⟨fun hzero => hne ((getIcehydraJsonNode_pid hnode).trans hzero), h.addTail hnode⟩

theorem Holds.addAll (h : st.Holds shmCreate i head subs)
    (hadd : st.addAll shmCreate values = .ok st') :
    ∃ i', st'.Holds shmCreate i' (listed head subs values).1 (listed head subs values).2 := by
  induction values generalizing st i head subs with
  | nil =>
      obtain rfl := Load.ok.inj hadd
      exact ⟨i, h⟩
  | cons json rest ih =>
      obtain ⟨st₁, hround, hrest⟩ := Load.bind_eq_ok.mp hadd
      rw [listed]
      rcases h.add hround with ⟨hzero, h₁⟩ | ⟨hne, h₁⟩
      · rw [if_pos hzero]
        exact ih h₁ hrest
      · rw [if_neg hne]
        exact ih h₁ hrest

end Building

/-! ## What comes back -/

/-- The node that `get_node_start` returns. -/
def NodeStart.head (r : NodeStart) : Option PubSubNode := (r.heap[r.result]?).map HeapNode.pub

theorem filterMap_of_nodeOf {heap : List HeapNode} {subs : List CJson} {list : List Nat}
    (h : List.Forall₂ (fun json j => NodeOf shmCreate heap json j) subs list) :
    List.Forall₂ (LoadsAs shmCreate) subs
      (list.filterMap fun i => (heap[i]?).map HeapNode.pub) := by
  induction h with
  | nil => exact .nil
  | cons hj _ ih =>
      obtain ⟨g, hg, hload⟩ := hj
      rw [List.filterMap_cons, hg]
      exact .cons hload ih

/-- **The list is that of the values**: the head comes from the last value with
id 0, and the nodes from those behind it, in file order. -/
theorem getNodeStart_listed {values : List CJson} {r : NodeStart}
    (h : getNodeStart shmCreate values = .ok r) :
    (∃ json n, headValue values = some json ∧ r.head = some n ∧ LoadsAs shmCreate json n) ∧
      List.Forall₂ (LoadsAs shmCreate) (subscribers values) r.nodes := by
  obtain ⟨st, hst, result, hresult, rfl⟩ := getNodeStart_ok_iff.mp h
  cases values with
  | nil =>
      obtain rfl := Load.ok.inj hst
      cases hresult
  | cons value values =>
      obtain ⟨st₁, hadd, hrest⟩ := Load.bind_eq_ok.mp hst
      obtain ⟨node, hnode, ⟨-, rfl⟩ | ⟨-, k, hk, -⟩⟩ := Building.add_cases hadd
      · obtain ⟨i, hi⟩ := (Building.Holds.addHead hnode).addAll hrest
        obtain rfl := Option.some.inj (hi.resultNode.symm.trans hresult)
        obtain ⟨-, -, hnodeOf, g, hg, hlist⟩ := hi
        have hkeep : ∀ {json j}, NodeOf shmCreate st.heap json j →
            NodeOf shmCreate (st.linked i).heap json j := by
          intro json j hj
          have hmod := hj.modify (k := i) (l := []) (f := fun h =>
            { h with node := { h.node with pubLinksNum := st.nodeCount - 1 } }) fun _ => rfl
          rwa [List.append_nil] at hmod
        have hself : (st.linked i).heap[(st.linked i).result]?
            = some { g with node := { g.node with pubLinksNum := st.nodeCount - 1 } } := by
          show (st.heap.modify i _)[i]? = _
          rw [List.getElem?_modify, hg]
          simp
        obtain ⟨g', hg', hload⟩ := hkeep hnodeOf
        refine ⟨⟨_, g'.pub, rfl, ?_, hload⟩, ?_⟩
        · rw [NodeStart.head]
          exact congrArg (Option.map HeapNode.pub) hg'
        · rw [NodeStart.nodes, hself, Option.elim_some]
          exact filterMap_of_nodeOf (hlist.imp fun _ _ => hkeep)
      · cases hk

end Icehydra
