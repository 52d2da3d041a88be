import Icehydra.ConfList
import Icehydra.Names
import Icehydra.Lib.Ring
import Mathlib.Data.List.Perm.Subperm

/-!
# NodeList — list.h under get_node_start

The list of nodes as the links in the nodes make it. `get_node_start` over the
links builds rings that hold what the rows of `Building` hold, and what walks
over a ring walks over the list.
-/

namespace Icehydra

/-! ## list.h -/

/-- `INIT_LIST_HEAD`. -/
def initListHead (list : Nat) (m : Links Nat) : Links Nat :=
  (m.setNext list (some list)).setPrev list (some list)

/-- `__list_add`. -/
def listAddBetween (node prev next : Nat) (m : Links Nat) : Links Nat :=
  (((m.setPrev next (some node)).setNext node (some next)).setPrev node (some prev)).setNext prev
    (some node)

/-- `none` where `head->prev` is a null pointer. -/
def listAddTail (node head : Nat) (m : Links Nat) : Option (Links Nat) :=
  (m.prev head).map fun prev => listAddBetween node prev head m

/-! ## get_node_start -/

/-- Where the loop stands; the links of the `i`-th node are those of `i`. -/
structure Linking where
  nodes : List ConfNode
  links : Links Nat
  nodeCount : Nat
  headNode : Option Nat
  resultNode : Option Nat

/-- The nodes that are allocated, their links, and the node that comes back. -/
structure LinkedStart where
  nodes : List ConfNode
  links : Links Nat
  result : Nat

section Shm

variable (shmCreate : Bytes → UInt8 → Int → Option Int)

/-- One round of `while(json)`. -/
def Linking.add (st : Linking) (json : CJson) : Load Linking := do
  let node ← getIcehydraJsonNode shmCreate json
  let i := st.nodes.length
  -- `calloc`
  let links := (st.links.setNext i none).setPrev i none
  if st.nodeCount = 0 ∧ node.id ≠ 0 then .ended
  else if node.id = 0 then
    pure ⟨st.nodes ++ [node], initListHead i links, st.nodeCount + 1, some i, some i⟩
  else
    match st.headNode with
    | none => .ended
    | some head =>
        match listAddTail i head links with
        | none => .ended
        | some links =>
            pure { st with nodes := st.nodes ++ [node], links := links, nodeCount := st.nodeCount + 1 }

def Linking.addAll (st : Linking) : List CJson → Load Linking
  | [] => .ok st
  | json :: rest => do
      let st ← st.add shmCreate json
      st.addAll rest

def Linking.linked (st : Linking) (result : Nat) : LinkedStart where
  nodes := st.nodes.modify result fun n => { n with pubLinksNum := st.nodeCount - 1 }
  links := st.links
  result := result

/-- `get_node_start`, with the memory as it finds it. -/
def getNodeStartLinked (links : Links Nat) (values : List CJson) : Load LinkedStart := do
  let st ← Linking.addAll shmCreate ⟨[], links, 0, none, none⟩ values
  match st.resultNode with
  | none => .ended
  | some result => pure (st.linked result)

end Shm

/-- `list_for_each(current_node_list,head)` with `list_entry` at every place;
the body may leave the loop with a result. -/
def LinkedStart.forEach {σ ρ : Type} (ls : LinkedStart) (body : σ → PubSubNode → Except ρ σ)
    (s : σ) : Option (Except ρ σ) :=
  ls.links.forEach ls.result
    (fun s pos => (ls.nodes[pos]?).elim (.ok s) fun node => body s node.toPubSubNode)
    (ls.nodes.length + 1) (ls.links.next ls.result) s

/-- `find_node_by_id` and `find_node_by_name`: the walk to the first node that
the comparison takes. -/
def LinkedStart.find (ls : LinkedStart) (same : PubSubNode → Bool) :
    Option (Except PubSubNode Unit) :=
  ls.forEach (fun _ node => if same node then .error node else .ok ()) ()

/-! ## Rings and rows -/

/-- Two computations come out alike. -/
inductive Load.Rel {α β : Type} (R : α → β → Prop) : Load α → Load β → Prop where
  | ok {a b} : R a b → Rel R (.ok a) (.ok b)
  | ended : Rel R .ended .ended
  | overrun : Rel R .overrun .overrun

theorem Load.Rel.imp {α β : Type} {R S : α → β → Prop} {x : Load α} {y : Load β}
    (h : Rel R x y) (hRS : ∀ a b, R a b → S a b) : Rel S x y := by
  cases h with
  | ok hab => exact .ok (hRS _ _ hab)
  | ended => exact .ended
  | overrun => exact .overrun

theorem Load.Rel.bind {α β γ δ : Type} {R : α → β → Prop} {S : γ → δ → Prop} {x : Load α}
    {y : Load β} {f : α → Load γ} {g : β → Load δ} (h : Rel R x y)
    (hf : ∀ a b, R a b → Rel S (f a) (g b)) : Rel S (x >>= f) (y >>= g) := by
  cases h with
  | ok hab => exact hf _ _ hab
  | ended => exact .ended
  | overrun => exact .overrun

/-- The heads of the rows are the heads of rings with the same nodes; a node is
in one row at most. -/
structure HoldsRings (links : Links Nat) (heap : List HeapNode) : Prop where
  ring : ∀ (i : Nat) (h : HeapNode), heap[i]? = some h → h.node.id = 0 → links.Ring i h.nodeList
  hung : ∀ (i : Nat) (h : HeapNode), heap[i]? = some h → ∀ j ∈ h.nodeList,
    ∃ g : HeapNode, heap[j]? = some g ∧ g.node.id ≠ 0
  apart : ∀ (i i' : Nat) (h h' : HeapNode) (j : Nat), heap[i]? = some h → heap[i']? = some h' →
    j ∈ h.nodeList → j ∈ h'.nodeList → i = i'

structure Linking.Refines (st : Linking) (b : Building) : Prop where
  nodes : st.nodes = b.heap.map HeapNode.node
  nodeCount : st.nodeCount = b.nodeCount
  headNode : st.headNode = b.headNode
  resultNode : st.resultNode = b.resultNode
  same : b.resultNode = b.headNode
  head : ∀ k, b.headNode = some k → ∃ h : HeapNode, b.heap[k]? = some h ∧ h.node.id = 0
  rings : HoldsRings st.links b.heap

/-- The same nodes, and rings for the rows. -/
structure LinkedStart.Refines (ls : LinkedStart) (r : NodeStart) : Prop where
  nodes : ls.nodes = r.heap.map HeapNode.node
  result : ls.result = r.result
  head : ∃ h : HeapNode, r.heap[r.result]? = some h ∧ h.node.id = 0
  rings : HoldsRings ls.links r.heap

section Rings

variable {links : Links Nat} {heap : List HeapNode} {node : ConfNode} {i k : Nat} {h : HeapNode}

/-- Every cell of a row is allocated. -/
theorem HoldsRings.lt_length (hr : HoldsRings links heap) (hi : heap[i]? = some h) :
    ∀ j ∈ i :: h.nodeList, j < heap.length := by
  intro j hj
  rcases List.mem_cons.mp hj with rfl | hj
  · exact (List.getElem?_eq_some_iff.mp hi).1
  · obtain ⟨g, hg, -⟩ := hr.hung i h hi j hj
    exact (List.getElem?_eq_some_iff.mp hg).1

/-- A freshly allocated node is in no ring. -/
theorem HoldsRings.fresh (hr : HoldsRings links heap) (hi : heap[i]? = some h) :
    heap.length ∉ i :: h.nodeList := fun hmem =>
  Nat.lt_irrefl _ (hr.lt_length hi _ hmem)

theorem getElem?_concat {α : Type} {l : List α} {x y : α} (hy : (l ++ [x])[i]? = some y) :
    l[i]? = some y ∨ (i = l.length ∧ y = x) := by
  rcases Nat.lt_trichotomy i l.length with hlt | rfl | hgt
  · rw [List.getElem?_append_left hlt] at hy
    exact .inl hy
  · rw [List.getElem?_append_right (Nat.le_refl _), Nat.sub_self] at hy
    exact .inr ⟨rfl, (Option.some.inj hy).symm⟩
  · rw [List.getElem?_append_right (Nat.le_of_lt hgt), List.getElem?_eq_none] at hy
    · cases hy
    · rw [List.length_singleton]
      omega

theorem getElem?_concat_of {α : Type} {l : List α} {x y : α} (hy : l[i]? = some y) :
    (l ++ [x])[i]? = some y := by
  rw [List.getElem?_append_left (List.getElem?_eq_some_iff.mp hy).1, hy]

/-- A further head is a ring of its own. -/
theorem HoldsRings.addHead (hr : HoldsRings links heap) :
    HoldsRings (initListHead heap.length ((links.setNext heap.length none).setPrev heap.length none))
      (heap ++ [⟨node, []⟩]) where
  ring i h hi hid := by
    rcases getElem?_concat hi with hi | ⟨rfl, rfl⟩
    · have hfresh := hr.fresh hi
      exact ((hr.ring i h hi hid).set_other hfresh).set_other hfresh
    · exact Links.Ring.single _ _
  hung i h hi j hj := by
    rcases getElem?_concat hi with hi | ⟨rfl, rfl⟩
    · obtain ⟨g, hg, hid⟩ := hr.hung i h hi j hj
      exact ⟨g, getElem?_concat_of hg, hid⟩
    · exact absurd hj List.not_mem_nil
  apart i i' h h' j hi hi' hj hj' := by
    rcases getElem?_concat hi with hi | ⟨rfl, rfl⟩
    · rcases getElem?_concat hi' with hi' | ⟨rfl, rfl⟩
      · exact hr.apart i i' h h' j hi hi' hj hj'
      · exact absurd hj' List.not_mem_nil
    · exact absurd hj List.not_mem_nil

/-- A node of the heap behind a change at `k` and a further node. -/
theorem getElem?_modify_concat {f : HeapNode → HeapNode} {x g : HeapNode}
    (hg : (heap.modify k f ++ [x])[i]? = some g) :
    (∃ g₀, heap[i]? = some g₀ ∧ g = if k = i then f g₀ else g₀) ∨ (i = heap.length ∧ g = x) := by
  rcases getElem?_concat hg with hg | ⟨hi, rfl⟩
  · rw [List.getElem?_modify] at hg
    obtain ⟨g₀, hg₀, hfg⟩ := Option.map_eq_some_iff.mp hg
    refine .inl ⟨g₀, hg₀, ?_⟩
    rw [← hfg]
  · rw [List.length_modify] at hi
    exact .inr ⟨hi, rfl⟩

/-- **A node on the tail** of the ring of the head, and on the end of its row. -/
theorem HoldsRings.addTail (hr : HoldsRings links heap) (hk : heap[k]? = some h)
    (hid : h.node.id = 0) (hne : node.id ≠ 0) :
    ∃ links', listAddTail heap.length k ((links.setNext heap.length none).setPrev heap.length none)
        = some links' ∧
      HoldsRings links' ((heap.modify k fun h => { h with nodeList := h.nodeList ++ [heap.length] })
        ++ [⟨node, []⟩]) := by
  have hfresh := hr.fresh hk
  have hring : ((links.setNext heap.length none).setPrev heap.length none).Ring k h.nodeList :=
    (hr.ring k h hk hid).set_other hfresh
  obtain ⟨front, p, hfront, hp⟩ := hring.exists_last
  have hpmem : p ∈ k :: h.nodeList := hfront ▸ List.mem_append_right _ (List.mem_singleton_self p)
  -- A node of another ring is neither the head nor one of its nodes.
  have hother : ∀ (i : Nat) (g : HeapNode), heap[i]? = some g → g.node.id = 0 → i ≠ k →
      ∀ j ∈ k :: h.nodeList, j ∉ i :: g.nodeList := by
    intro i g hi hgid hik j hj hj'
    rcases List.mem_cons.mp hj with rfl | hj
    · rcases List.mem_cons.mp hj' with rfl | hj'
      · exact hik rfl
      · obtain ⟨g', hg', hid'⟩ := hr.hung i g hi j hj'
        obtain rfl := Option.some.inj (hk.symm.trans hg')
        exact hid' hid
    · rcases List.mem_cons.mp hj' with rfl | hj'
      · obtain ⟨g', hg', hid'⟩ := hr.hung k h hk j hj
        obtain rfl := Option.some.inj (hi.symm.trans hg')
        exact hid' hgid
      · exact hik (hr.apart i k g h j hi hk hj' hj)
  refine ⟨_, by rw [listAddTail, hp]; rfl, ?_, ?_, ?_⟩
  · intro i g hg hgid
    rcases getElem?_modify_concat hg with ⟨g₀, hg₀, rfl⟩ | ⟨rfl, rfl⟩
    · by_cases hki : k = i
      · subst hki
        obtain rfl := Option.some.inj (hk.symm.trans hg₀)
        rw [if_pos rfl]
        exact hring.insert_tail hfresh hp
      · rw [if_neg hki] at hgid ⊢
        have hapart := hother i g₀ hg₀ hgid (Ne.symm hki)
        have hg₀ring : ((links.setNext heap.length none).setPrev heap.length none).Ring i
            g₀.nodeList := (hr.ring i g₀ hg₀ hgid).set_other (hr.fresh hg₀)
        exact hg₀ring.insert_other (hr.fresh hg₀) (hapart p hpmem) (hapart k List.mem_cons_self)
    · exact absurd hgid hne
  · have hkeep : ∀ (j : Nat) (g : HeapNode), heap[j]? = some g → g.node.id ≠ 0 →
        ∃ g' : HeapNode, ((heap.modify k fun h => { h with nodeList := h.nodeList ++ [heap.length] })
          ++ [⟨node, []⟩])[j]? = some g' ∧ g'.node.id ≠ 0 := by
      intro j g hg hgid
      have hmod : (heap.modify k fun h => { h with nodeList := h.nodeList ++ [heap.length] })[j]?
          = some (if k = j then { g with nodeList := g.nodeList ++ [heap.length] } else g) := by
        rw [List.getElem?_modify, hg]
        rfl
      refine ⟨_, getElem?_concat_of hmod, ?_⟩
      split <;> exact hgid
    intro i g hg j hj
    rcases getElem?_modify_concat hg with ⟨g₀, hg₀, rfl⟩ | ⟨rfl, rfl⟩
    · by_cases hki : k = i
      · rw [if_pos hki] at hj
        rcases List.mem_append.mp hj with hj | hj
        · obtain ⟨g', hg', hid'⟩ := hr.hung i g₀ hg₀ j hj
          exact hkeep j g' hg' hid'
        · obtain rfl := List.mem_singleton.mp hj
          refine ⟨⟨node, []⟩, ?_, hne⟩
          rw [List.getElem?_append_right (by rw [List.length_modify]), List.length_modify,
            Nat.sub_self]
          rfl
      · rw [if_neg hki] at hj
        obtain ⟨g', hg', hid'⟩ := hr.hung i g₀ hg₀ j hj
        exact hkeep j g' hg' hid'
    · exact absurd hj List.not_mem_nil
  · -- The new node is in the row of `k` only.
    have hrow : ∀ (i : Nat) (g : HeapNode), ((heap.modify k fun h => { h with nodeList := h.nodeList ++ [heap.length] })
        ++ [⟨node, []⟩])[i]? = some g → ∀ j ∈ g.nodeList,
          (j = heap.length ∧ i = k) ∨ ∃ g₀, heap[i]? = some g₀ ∧ j ∈ g₀.nodeList := by
      intro i g hg j hj
      rcases getElem?_modify_concat hg with ⟨g₀, hg₀, rfl⟩ | ⟨rfl, rfl⟩
      · by_cases hki : k = i
        · rw [if_pos hki] at hj
          rcases List.mem_append.mp hj with hj | hj
          · exact .inr ⟨g₀, hg₀, hj⟩
          · exact .inl ⟨List.mem_singleton.mp hj, hki.symm⟩
        · rw [if_neg hki] at hj
          exact .inr ⟨g₀, hg₀, hj⟩
      · exact absurd hj List.not_mem_nil
    intro i i' g g' j hg hg' hj hj'
    rcases hrow i g hg j hj with ⟨rfl, rfl⟩ | ⟨g₀, hg₀, hj₀⟩
    · rcases hrow i' g' hg' _ hj' with ⟨-, rfl⟩ | ⟨g₀', hg₀', hj₀'⟩
      · rfl
      · exact absurd (List.mem_cons_of_mem _ hj₀') (hr.fresh hg₀')
    · rcases hrow i' g' hg' j hj' with ⟨rfl, rfl⟩ | ⟨g₀', hg₀', hj₀'⟩
      · exact absurd (List.mem_cons_of_mem _ hj₀) (hr.fresh hg₀)
      · exact hr.apart i i' g₀ g₀' j hg₀ hg₀' hj₀ hj₀'

end Rings

section Refines

variable {shmCreate : Bytes → UInt8 → Int → Option Int} {st : Linking} {b : Building}

/-- Neither the nodes nor the head are touched by a link. -/
theorem map_node_modify {heap : List HeapNode} {k : Nat} {f : HeapNode → HeapNode}
    (hf : ∀ h, (f h).node = h.node) :
    (heap.modify k f).map HeapNode.node = heap.map HeapNode.node := by
  refine List.ext_getElem? fun j => ?_
  rw [List.getElem?_map, List.getElem?_map, List.getElem?_modify]
  cases heap[j]? with
  | none => rfl
  | some h =>
      show some (if k = j then f h else h).node = some h.node
      split
      · rw [hf]
      · rfl

/-- **One round** over the links does what it does over the rows. -/
theorem Linking.Refines.add (h : st.Refines b) (json : CJson) :
    Load.Rel Linking.Refines (st.add shmCreate json) (b.add shmCreate json) := by
  obtain ⟨nodes, links, nodeCount, headNode, resultNode⟩ := st
  obtain ⟨heap, nodeCount', headNode', resultNode'⟩ := b
  obtain ⟨hnodes, hcount, hheadNode, hresult, hsame, hhead, hrings⟩ := h
  dsimp only at hnodes hcount hheadNode hresult hsame hhead hrings
  subst hnodes hcount hheadNode hresult hsame
  have hlen : (heap.map HeapNode.node).length = heap.length := List.length_map _
  unfold Linking.add Building.add
  cases hnode : getIcehydraJsonNode shmCreate json with
  | ended => exact .ended
  | overrun => exact .overrun
  | ok node =>
      show Load.Rel Linking.Refines (if _ then _ else _) (if _ then _ else _)
      simp only [hlen]
      by_cases hfirst : nodeCount = 0 ∧ node.id ≠ 0
      · rw [if_pos hfirst, if_pos hfirst]
        exact .ended
      rw [if_neg hfirst, if_neg hfirst]
      by_cases hid : node.id = 0
      · rw [if_pos hid, if_pos hid]
        refine .ok ⟨by simp, rfl, rfl, rfl, rfl, ?_, hrings.addHead⟩
        rintro k ⟨⟩
        exact ⟨⟨node, []⟩, List.getElem?_concat_length, hid⟩
      rw [if_neg hid, if_neg hid]
      cases resultNode with
      | none => exact .ended
      | some k =>
          obtain ⟨g, hg, hgid⟩ := hhead k rfl
          obtain ⟨links', hlinks, hrings'⟩ := hrings.addTail hg hgid hid
          simp only [hlinks]
          refine .ok ⟨?_, rfl, rfl, rfl, rfl, ?_, hrings'⟩
          · show _ = List.map HeapNode.node (heap.modify k _ ++ _)
            rw [List.map_append, map_node_modify]
            · rfl
            · exact fun _ => rfl
          · rintro k' ⟨⟩
            refine ⟨{ g with nodeList := g.nodeList ++ [heap.length] }, ?_, hgid⟩
            refine getElem?_concat_of ?_
            rw [List.getElem?_modify, hg]
            simp

theorem Linking.Refines.addAll (h : st.Refines b) (values : List CJson) :
    Load.Rel Linking.Refines (st.addAll shmCreate values) (b.addAll shmCreate values) := by
  induction values generalizing st b with
  | nil => exact .ok h
  | cons json rest ih => exact (h.add json).bind fun _ _ => ih

/-- The count of links is no link. -/
theorem HoldsRings.modify {links : Links Nat} {heap : List HeapNode} {k : Nat}
    {f : HeapNode → HeapNode} (hr : HoldsRings links heap)
    (hf : ∀ h, (f h).node.id = h.node.id ∧ (f h).nodeList = h.nodeList) :
    HoldsRings links (heap.modify k f) := by
  have hback : ∀ (i : Nat) (g : HeapNode), (heap.modify k f)[i]? = some g →
      ∃ g₀, heap[i]? = some g₀ ∧ g.node.id = g₀.node.id ∧ g.nodeList = g₀.nodeList := by
    intro i g hg
    rw [List.getElem?_modify] at hg
    obtain ⟨g₀, hg₀, rfl⟩ := Option.map_eq_some_iff.mp hg
    refine ⟨g₀, hg₀, ?_⟩
    split
    · exact hf g₀
    · exact ⟨rfl, rfl⟩
  refine ⟨fun i g hg hid => ?_, fun i g hg j hj => ?_, fun i i' g g' j hg hg' hj hj' => ?_⟩
  · obtain ⟨g₀, hg₀, hid₀, hlist⟩ := hback i g hg
    rw [hlist]
    exact hr.ring i g₀ hg₀ (hid₀ ▸ hid)
  · obtain ⟨g₀, hg₀, -, hlist⟩ := hback i g hg
    obtain ⟨n, hn, hid⟩ := hr.hung i g₀ hg₀ j (hlist ▸ hj)
    refine ⟨if k = j then f n else n, ?_, ?_⟩
    · rw [List.getElem?_modify, hn]
      rfl
    · split
      · rw [(hf n).1]
        exact hid
      · exact hid
  · obtain ⟨g₀, hg₀, -, hlist⟩ := hback i g hg
    obtain ⟨g₀', hg₀', -, hlist'⟩ := hback i' g' hg'
    exact hr.apart i i' g₀ g₀' j hg₀ hg₀' (hlist ▸ hj) (hlist' ▸ hj')

theorem Linking.Refines.linked (h : st.Refines b) {result : Nat}
    (hres : b.resultNode = some result) : (st.linked result).Refines (b.linked result) where
  nodes := by
    show st.nodes.modify result _ = (b.heap.modify result _).map HeapNode.node
    rw [h.nodes, h.nodeCount]
    refine List.ext_getElem? fun j => ?_
    rw [List.getElem?_modify, List.getElem?_map, List.getElem?_map, List.getElem?_modify]
    cases b.heap[j]? with
    | none => rfl
    | some g =>
        show some _ = some _
        split <;> rfl
  result := rfl
  head := by
    obtain ⟨g, hg, hid⟩ := h.head result (h.same ▸ hres)
    refine ⟨{ g with node := { g.node with pubLinksNum := b.nodeCount - 1 } }, ?_, hid⟩
    show (b.heap.modify result _)[result]? = _
    rw [List.getElem?_modify, hg]
    simp
  rings := h.rings.modify fun _ => ⟨rfl, rfl⟩

/-- **Links and rows agree** on every file, whatever the memory was before. -/
theorem getNodeStartLinked_refines (links : Links Nat) (values : List CJson) :
    Load.Rel LinkedStart.Refines (getNodeStartLinked shmCreate links values)
      (getNodeStart shmCreate values) := by
  have hempty : Linking.Refines ⟨[], links, 0, none, none⟩ ⟨[], 0, none, none⟩ := by
    refine ⟨rfl, rfl, rfl, rfl, rfl, ?_, ?_, ?_, ?_⟩
    · rintro k ⟨⟩
    · rintro i h ⟨⟩
    · rintro i h ⟨⟩
    · rintro i i' h h' j ⟨⟩
  refine (hempty.addAll values).bind fun st b h => ?_
  cases hres : b.resultNode with
  | none =>
      rw [h.resultNode, hres]
      exact .ended
  | some result =>
      rw [h.resultNode, hres]
      exact .ok (h.linked hres)

end Refines

/-! ## list_for_each -/

section Walk

variable {σ ρ : Type} {ls : LinkedStart} {r : NodeStart}

/-- The nodes at these places are all there. -/
theorem foldlM_nodes {heap : List HeapNode} {body : σ → PubSubNode → Except ρ σ} {row : List Nat}
    (hrow : ∀ j ∈ row, j < heap.length) (s : σ) :
    row.foldlM (fun s pos => ((heap.map HeapNode.node)[pos]?).elim (.ok s)
        fun node => body s node.toPubSubNode) s
      = (row.filterMap fun i => (heap[i]?).map fun h => h.node.toPubSubNode).foldlM body s := by
  induction row generalizing s with
  | nil => rfl
  | cons j row ih =>
      obtain ⟨g, hj⟩ : ∃ g, heap[j]? = some g :=
        ⟨_, List.getElem?_eq_getElem (hrow j List.mem_cons_self)⟩
      have hmap : (heap.map HeapNode.node)[j]? = some g.node := by
        rw [List.getElem?_map, hj]
        rfl
      rw [List.foldlM_cons, List.filterMap_cons, hj, hmap, Option.map_some, List.foldlM_cons]
      exact bind_congr fun s => ih (fun k hk => hrow k (List.mem_cons_of_mem _ hk)) s

/-- **The walk over the links** is the walk over the nodes, and comes to an end. -/
theorem LinkedStart.Refines.forEach (h : ls.Refines r) (body : σ → PubSubNode → Except ρ σ)
    (s : σ) : ls.forEach body s = some (r.nodes.foldlM body s) := by
  obtain ⟨head, hhead, hid⟩ := h.head
  have hring := h.rings.ring r.result head hhead hid
  have hlt := h.rings.lt_length hhead
  have hlen : head.nodeList.length < ls.nodes.length + 1 := by
    have hsub : head.nodeList ⊆ List.range r.heap.length := fun j hj =>
      List.mem_range.mpr (hlt j (List.mem_cons_of_mem _ hj))
    have hle := (List.Nodup.subperm (List.nodup_cons.mp hring.nodup).2 hsub).length_le
    rw [List.length_range] at hle
    rw [h.nodes, List.length_map]
    exact Nat.lt_succ_of_le hle
  rw [LinkedStart.forEach, h.result, hring.forEach hlen, h.nodes,
    foldlM_nodes fun j hj => hlt j (List.mem_cons_of_mem _ hj), NodeStart.nodes, hhead]
  rfl

/-- `find_node_by_id` and `find_node_by_name` find what a search of the nodes does. -/
theorem LinkedStart.Refines.find (h : ls.Refines r) (same : PubSubNode → Bool) :
    ls.find same = some ((r.nodes.find? same).elim (.ok ()) .error) := by
  rw [LinkedStart.find, h.forEach]
  congr 1
  induction r.nodes with
  | nil => rfl
  | cons node nodes ih =>
      rw [List.foldlM_cons, List.find?_cons]
      cases same node with
      | true => rfl
      | false => exact ih

/-- The pointer that comes back leads to the head, and from there every loop of
the program goes through the nodes of the list. -/
structure LinkedStart.Walks (ls : LinkedStart) (r : NodeStart) : Prop where
  head : (ls.nodes[ls.result]?).map ConfNode.toPubSubNode = r.head
  forEach : ∀ {σ ρ : Type} (body : σ → PubSubNode → Except ρ σ) (s : σ),
    ls.forEach body s = some (r.nodes.foldlM body s)
  find : ∀ same : PubSubNode → Bool,
    ls.find same = some ((r.nodes.find? same).elim (.ok ()) .error)

theorem LinkedStart.Refines.walks (h : ls.Refines r) : ls.Walks r where
  head := by
    rw [h.nodes, h.result, NodeStart.head, List.getElem?_map, Option.map_map]
    rfl
  forEach := h.forEach
  find := h.find

end Walk

/-- **The list as the program has it**: for every file and whatever the memory
held, `get_node_start` comes out alike over the links and over the rows, with
the same head and the same walks. -/
theorem getNodeStartLinked_walks (shmCreate : Bytes → UInt8 → Int → Option Int)
    (links : Links Nat) (values : List CJson) :
    Load.Rel LinkedStart.Walks (getNodeStartLinked shmCreate links values)
      (getNodeStart shmCreate values) :=
  (getNodeStartLinked_refines links values).imp fun _ _ h => h.walks

end Icehydra
