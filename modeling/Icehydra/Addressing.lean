import Icehydra.ConfList
import Icehydra.Interference

/-!
# Addressing — ids as bytes, ids as names

The wire carries recipients as bytes, the configuration has them as `int`s, and
the broker takes the first node with an id for the node. What that means for
reaching a node, for closing the right one after a failed send, and for a list
in which an id occurs twice.
-/

namespace Icehydra

open Block NonBlock

/-! ## Frames for a list of recipients -/

/-- A well-formed PARALLEL frame for these recipients. -/
structure Frame.Parallel (f : Frame) (ids : List UInt8) : Prop where
  magic : f.head.take 2 = protocolMagic
  type_eq : getProtocolCmdType f.head = ihCmdTypeSendParallel
  ids_eq : f.ids = ids
  room : getProtocolBroadcastLen f.head ≤ f.body.length

/-- One for a single recipient, with nothing to say. -/
def Frame.sole (b : UInt8) : Frame :=
  Frame.ofFields ihCmdTypeSendParallel ihCmdIdDefault 1 0 [b, 0, 0, 0]
    (show 4 < 65536 by decide)

theorem Frame.sole_parallel (b : UInt8) : (Frame.sole b).Parallel [b] where
  magic := rfl
  type_eq := rfl
  ids_eq := rfl
  room := by
    show getProtocolBroadcastLen (headBytes 4 ihCmdTypeSendParallel ihCmdIdDefault 1 0) ≤ 4
    decide

/-- `broadcast_cmd` on this frame, in a buffer that held `rbuf` before it came in. -/
def relayOf (k : Kernel) (nodes : List PubSubNode) (rbuf : Bytes) (f : Frame) : Outgoing :=
  (broadcastCmd k nodes (storeFrame rbuf f.head f.body)).2

theorem addressed_singleton {b : UInt8} {n : PubSubNode} :
    Addressed [b] n ↔ (b.toNat : Int) = n.id := by
  simp [Addressed]

section Relay

variable {k : Kernel} {nodes : List PubSubNode} {rbuf : Bytes} {f : Frame}

/-- A call is for an addressed node, on that node's descriptor. -/
theorem relayOf_call {c : Call} (hc : c ∈ (relayOf k nodes rbuf f).calls) :
    ∃ n, nodes[c.node]? = some n ∧ Addressed f.ids n ∧ c.fd = n.connfd := by
  obtain ⟨n, hn, haddr, -, hfd, -⟩ :=
    mem_broadcastCmd_calls k nodes (le_storeFrame_length rbuf f) hc
  rw [frameIds_storeFrame] at haddr
  exact ⟨n, hn, haddr, hfd⟩

/-- A node that is the only addressed one that is not closed is sent to. -/
theorem exists_relayOf_call {j : Nat} {n : PubSubNode} (hn : nodes[j]? = some n)
    (haddr : Addressed f.ids n) (hopen : 0 ≤ n.connfd)
    (honly : ∀ i m, nodes[i]? = some m → Addressed f.ids m → 0 ≤ m.connfd → i = j) :
    ∃ c ∈ (relayOf k nodes rbuf f).calls, c.node = j := by
  have hlen := le_storeFrame_length rbuf f
  -- what is made of an attempt for the node
  have hmade : ∀ a ∈ upToFailure (relayAttempts k nodes (storeFrame rbuf f.head f.body)),
      a.target.2 = j → 0 ≤ a.target.1.connfd → ∃ c ∈ (relayOf k nodes rbuf f).calls, c.node = j := by
    intro a ha hj hfd
    obtain ⟨c, hc, hnode, -⟩ := exists_attempt_call k nodes hlen (mem_of_mem_upToFailure ha) hfd
    refine ⟨c, ?_, hnode.trans hj⟩
    rw [relayOf, broadcastCmd_calls k nodes hlen]
    exact List.mem_flatMap.mpr ⟨a, ha, hc⟩
  rcases upToFailure_split (relayAttempts k nodes (storeFrame rbuf f.head f.body)) with
    hall | ⟨pre, a, post, heq, -, hfail, hup, -⟩
  · obtain ⟨a, ha, htarget⟩ := exists_relayAttempt k nodes hn
      (show Addressed (frameIds (storeFrame rbuf f.head f.body)) n by rwa [frameIds_storeFrame])
    exact hmade a (by rwa [upToFailure_eq_self hall]) (by rw [htarget]) (by rwa [htarget])
  · -- what fails is not closed
    have ha : a ∈ relayAttempts k nodes (storeFrame rbuf f.head f.body) := by simp [heq]
    obtain ⟨hnode, haddr', -⟩ := mem_relayAttempts k nodes hlen ha
    rw [frameIds_storeFrame] at haddr'
    have hfd := open_of_failed k nodes hlen ha hfail
    exact hmade a (by rw [hup]; simp) (honly _ _ hnode haddr' hfd) hfd

end Relay

/-! ## Reaching one node -/

/-- Some id byte leads to the node at this position and to no other, whichever
of the nodes are connected. -/
def Addressable (nodes : List PubSubNode) (j : Nat) : Prop :=
  ∃ b : UInt8, ∀ f : Frame, f.Parallel [b] → ∀ (k : Kernel) (now : List PubSubNode) (rbuf : Bytes),
    staticOf now = staticOf nodes →
      (∀ c ∈ (relayOf k now rbuf f).calls, c.node = j) ∧
        ∀ n, now[j]? = some n → Connected k n → ∃ c ∈ (relayOf k now rbuf f).calls,
          c.node = j ∧ c.fd = n.connfd

/-- Only the node at `j` is open, on descriptor 5. -/
def onlyOpen (nodes : List PubSubNode) (j : Nat) : List PubSubNode :=
  nodes.mapIdx fun i n => { n with connfd := if i = j then 5 else -1 }

theorem getElem?_onlyOpen (nodes : List PubSubNode) (j i : Nat) :
    (onlyOpen nodes j)[i]?
      = (nodes[i]?).map fun n => { n with connfd := if i = j then 5 else -1 } :=
  List.getElem?_mapIdx

theorem staticOf_onlyOpen (nodes : List PubSubNode) (j : Nat) :
    staticOf (onlyOpen nodes j) = staticOf nodes := by
  apply List.ext_getElem?
  intro i
  rw [staticOf, staticOf, List.getElem?_map, List.getElem?_map, getElem?_onlyOpen, Option.map_map]
  rfl

theorem exists_onlyOpen_call {nodes : List PubSubNode} {j : Nat} {n : PubSubNode} {f : Frame}
    (k : Kernel) (hn : nodes[j]? = some n) (haddr : Addressed f.ids n) :
    ∃ c ∈ (relayOf k (onlyOpen nodes j) [] f).calls, c.node = j := by
  refine exists_relayOf_call (n := { n with connfd := 5 }) ?_ haddr
    (show (0 : Int) ≤ 5 by decide) ?_
  · rw [getElem?_onlyOpen, hn]
    simp
  · intro i m hm _ hopen
    rw [getElem?_onlyOpen] at hm
    obtain ⟨g, -, rfl⟩ := Option.map_eq_some_iff.mp hm
    by_contra hne
    simp only [if_neg hne] at hopen
    exact absurd hopen (by decide)

/-- A node that can be reached has a byte for an id, and has it alone. -/
theorem Addressable.own_id {nodes : List PubSubNode} {j : Nat} {n : PubSubNode}
    (h : Addressable nodes j) (hn : nodes[j]? = some n) :
    (0 ≤ n.id ∧ n.id ≤ 255) ∧ ∀ i m, nodes[i]? = some m → m.id = n.id → i = j := by
  obtain ⟨b, hb⟩ := h
  have hstatic : ∀ i, staticOf (onlyOpen nodes i) = staticOf nodes := staticOf_onlyOpen nodes
  have hsole := Frame.sole_parallel b
  -- the node itself gets the frame when it is connected, so the byte is its id
  let k : Kernel := ⟨fun _ => some ⟨0, [], Sock.dead⟩, 1⟩
  obtain ⟨c, hc, hcj, -⟩ := (hb _ hsole k _ [] (hstatic j)).2 { n with connfd := 5 }
    (by rw [getElem?_onlyOpen, hn]; simp) ⟨show (0 : Int) < 5 by decide, _, rfl⟩
  obtain ⟨m, hm, haddr, -⟩ := relayOf_call hc
  rw [hcj, getElem?_onlyOpen, hn] at hm
  obtain rfl := Option.some.inj hm
  rw [hsole.ids_eq] at haddr
  have hid : (b.toNat : Int) = n.id := addressed_singleton.mp haddr
  have hlt := b.toNat_lt
  refine ⟨by omega, fun i m hm hsame => ?_⟩
  -- and so would any other node with that id
  have haddr' : Addressed (Frame.sole b).ids m := by
    rw [hsole.ids_eq]
    exact addressed_singleton.mpr (hid.trans hsame.symm)
  obtain ⟨c, hc, hci⟩ := exists_onlyOpen_call k hm haddr'
  exact hci.symm.trans ((hb _ hsole k _ [] (hstatic i)).1 c hc)

theorem Addressable.of_own_id {nodes : List PubSubNode} {j : Nat} {n : PubSubNode}
    (hn : nodes[j]? = some n) (hlo : 0 ≤ n.id) (hhi : n.id ≤ 255)
    (honly : ∀ i m, nodes[i]? = some m → m.id = n.id → i = j) : Addressable nodes j := by
  obtain ⟨m, hm⟩ := Int.eq_ofNat_of_zero_le hlo
  have hb : ((UInt8.ofNat m).toNat : Int) = n.id := by
    rw [UInt8.toNat_ofNat']
    omega
  refine ⟨UInt8.ofNat m, fun f hf k now rbuf hstatic => ?_⟩
  have haddr : ∀ g : PubSubNode, Addressed f.ids g ↔ g.id = n.id := by
    intro g
    rw [hf.ids_eq, addressed_singleton, hb]
    exact eq_comm
  have hpos : ∀ i g, now[i]? = some g → Addressed f.ids g → i = j := by
    intro i g hg hga
    obtain ⟨g', hg', hid⟩ := exists_of_staticOf hstatic hg
    exact honly i g' hg' (hid.trans ((haddr g).mp hga))
  refine ⟨fun c hc => ?_, fun g hg hconn => ?_⟩
  · obtain ⟨g, hg, hga, -⟩ := relayOf_call hc
    exact hpos _ g hg hga
  · obtain ⟨g', hg', hid⟩ := exists_of_staticOf hstatic hg
    rw [hn] at hg'
    obtain rfl := Option.some.inj hg'
    obtain ⟨c, hc, hcj⟩ := exists_relayOf_call hg ((haddr g).mpr hid.symm)
      (Int.le_of_lt hconn.1) fun i m hm hma _ => hpos i m hm hma
    obtain ⟨g', hg', -, hfd⟩ := relayOf_call hc
    rw [hcj, hg] at hg'
    obtain rfl := Option.some.inj hg'
    exact ⟨c, hc, hcj, hfd⟩

/-- **Reaching one node**: its id is a byte, and no other node has it. -/
theorem addressable_iff {nodes : List PubSubNode} {j : Nat} {n : PubSubNode}
    (hn : nodes[j]? = some n) :
    Addressable nodes j ↔ (0 ≤ n.id ∧ n.id ≤ 255) ∧
      ∀ i m, nodes[i]? = some m → m.id = n.id → i = j :=
  ⟨fun h => h.own_id hn, fun ⟨⟨hlo, hhi⟩, honly⟩ => .of_own_id hn hlo hhi honly⟩

theorem all_addressable_iff {nodes : List PubSubNode} :
    (∀ j < nodes.length, Addressable nodes j) ↔
      (∀ id ∈ nodes.map PubSubNode.id, 0 ≤ id ∧ id ≤ 255) ∧ (nodes.map PubSubNode.id).Nodup := by
  rw [List.forall_mem_map]
  constructor
  · intro h
    have hone : ∀ j n, nodes[j]? = some n → _ := fun j n hn =>
      (addressable_iff hn).mp (h j (List.getElem?_eq_some_iff.mp hn).1)
    refine ⟨fun n hn => ?_, List.pairwise_iff_getElem.mpr fun i j hi hj hij heq => ?_⟩
    · obtain ⟨j, hj⟩ := List.getElem?_of_mem hn
      exact (hone j n hj).1
    · rw [List.length_map] at hi hj
      rw [List.getElem_map, List.getElem_map] at heq
      have hsame := (hone j _ (List.getElem?_eq_getElem hj)).2 i _ (List.getElem?_eq_getElem hi) heq
      exact absurd hsame (Nat.ne_of_lt hij)
  · rintro ⟨hrange, hnodup⟩ j hj
    refine (addressable_iff (List.getElem?_eq_getElem hj)).mpr
      ⟨hrange _ (List.getElem_mem hj), fun i m hm hid => ?_⟩
    have hi := (List.getElem?_eq_some_iff.mp hm).1
    refine (List.getElem?_inj (by rwa [List.length_map]) hnodup).mp ?_
    rw [List.getElem?_map, List.getElem?_map, hm, List.getElem?_eq_getElem hj]
    exact congrArg some hid

/-- **Every subscriber of a configuration** can be reached on its own exactly
when the ids of the list are different bytes. -/
theorem subscribers_addressable_iff (shmCreate : Bytes → UInt8 → Int → Option Int)
    (values : List CJson) (r : NodeStart) (h : getNodeStart shmCreate values = .ok r) :
    (∀ j < r.nodes.length, Addressable r.nodes j) ↔
      (∀ json ∈ subscribers values, 0 ≤ pidOf json ∧ pidOf json ≤ 255) ∧
        ((subscribers values).map pidOf).Nodup := by
  rw [all_addressable_iff, LoadsAs.map_id (getNodeStart_listed h).2, List.forall_mem_map]

/-- A publisher with these subscribers. -/
def confOf (ids : List Int) : List CJson :=
  CJson.object [.numberItem keyPid 0] :: ids.map fun id => CJson.object [.numberItem keyPid id]

/-- Two subscribers with the ids 100 and 101. -/
theorem subscribers_addressable_two :
    ∃ r, getNodeStart (fun _ _ _ => none) (confOf [100, 101]) = .ok r ∧
      ∀ j < r.nodes.length, Addressable r.nodes j :=
  ⟨_, rfl, (subscribers_addressable_iff (fun _ _ _ => none) (confOf [100, 101]) _ rfl).mpr
    ⟨by decide, by decide⟩⟩

/-- **Accepted and out of reach**: an id that is no byte, and an id that two
nodes have. -/
theorem subscribers_out_of_reach :
    (∃ r, getNodeStart (fun _ _ _ => none) (confOf [300]) = .ok r ∧
        ¬ ∀ j < r.nodes.length, Addressable r.nodes j) ∧
      ∃ r, getNodeStart (fun _ _ _ => none) (confOf [7, 7]) = .ok r ∧
        ¬ ∀ j < r.nodes.length, Addressable r.nodes j := by
  refine ⟨⟨_, rfl, fun h => ?_⟩, _, rfl, fun h => ?_⟩
  · exact absurd ((all_addressable_iff.mp h).1 300 (List.mem_singleton_self _)).2 (by decide)
  · exact absurd (all_addressable_iff.mp h).2 (by decide)

/-! ## Closing the right one -/

namespace Broker

/-- Of all nodes only the one at `j` is closed, and of the descriptors in `k`
only its own. -/
structure ClosesOnly (s s' : Broker) (k : Kernel) (j : Nat) : Prop where
  closed : ∃ n, s.nodes[j]? = some n ∧ s'.nodes[j]? = some { n with connfd := -1 } ∧
    s'.kernel = closeFd k n.connfd
  others : ∀ m ≠ j, s'.nodes[m]? = s.nodes[m]?

theorem ClosesOnly.eq {s s' : Broker} {k : Kernel} {i j : Nat} (h : s.ClosesOnly s' k i)
    (h' : s.ClosesOnly s' k j) {n : PubSubNode} (hn : s.nodes[j]? = some n) (hopen : 0 ≤ n.connfd) :
    i = j := by
  by_contra hne
  obtain ⟨m, hm, hclosed, -⟩ := h'.closed
  rw [h.others j (Ne.symm hne), hm] at hclosed
  rw [hm] at hn
  have hfd : m.connfd = -1 := congrArg PubSubNode.connfd (Option.some.inj hclosed)
  rw [← Option.some.inj hn] at hopen
  omega

theorem findNodeById_isSome {nodes : List PubSubNode} {n : PubSubNode} (h : n ∈ nodes) :
    ∃ j, findNodeById nodes n.id = some j := by
  refine Option.isSome_iff_exists.mp ?_
  rw [findNodeById, List.findIdx?_isSome, List.any_eq_true]
  exact ⟨n, h, by simp⟩

/-- What is closed after a send has failed: the first node with the id of the
one that was sent to. -/
theorem handleFrame_closesOnly {s : Broker} (hid : ∀ n ∈ s.nodes, n.id ≠ 0) {i : Nat}
    {cur : PubSubNode} (hcur : s.nodes[i]? = some cur) (rset : Int → Bool) (hrel : Relays s.rbuf)
    (hlen : protocolCmdHeadLen ≤ s.rbuf.length) {a : Attempt} (hfail : s.firstFailure = some a)
    (hret : a.ret = .val (-1)) :
    ∃ j n, s.nodes[j]? = some n ∧ n.id = a.target.1.id ∧
      (∀ m g, m < j → s.nodes[m]? = some g → g.id ≠ a.target.1.id) ∧
      s.ClosesOnly (s.handleFrame i rset) (s.outgoing i cur).kernel j := by
  obtain ⟨hmem, -⟩ := firstFailure_mem hfail
  obtain ⟨htarget, -⟩ := mem_relayAttempts _ _ hlen hmem
  obtain ⟨j, hj⟩ := findNodeById_isSome (List.mem_of_getElem? htarget)
  obtain ⟨n, hn, hsame, hbefore⟩ := findNodeById_eq_some hj
  have hkilled : a.ret ≠ .killed := by
    rw [hret]
    exact Ret.noConfusion
  have hout : (s.outgoing i cur).ret ≠ .killed := by
    rw [outgoing_ret hrel hlen, hfail]
    simp only [Option.map_some, Option.getD_some, Attempt.exit, if_neg hkilled]
    exact Ret.noConfusion
  have herr : s.errnode = some j := by
    rw [errnode_eq hrel hlen hid, hfail]
    simp only [if_neg hkilled]
    exact hj
  refine ⟨j, n, hn, hsame, hbefore, ?_⟩
  have hsent : (s.sent i cur).nodes[j]? = some n := hn
  obtain ⟨hlt, -⟩ := List.getElem?_eq_some_iff.mp hn
  rw [handleFrame_eq hcur, if_neg hout, herr]
  simp only [closeS_eq hsent]
  exact ⟨⟨n, hn, List.getElem?_set_self hlt, rfl⟩,
    fun m hm => List.getElem?_set_ne (Ne.symm hm)⟩

end Broker

/-- **The failed connection is the one that is closed** exactly when no node in
front of it has its id. -/
theorem failed_send_closes_iff (shmCreate : Bytes → UInt8 → Int → Option Int)
    (values : List CJson) (r : NodeStart) (h : getNodeStart shmCreate values = .ok r) (s : Broker)
    (hstatic : staticOf s.nodes = staticOf r.nodes) (i : Nat) (cur : PubSubNode)
    (hcur : s.nodes[i]? = some cur) (rset : Int → Bool)
    (hlen : protocolCmdHeadLen ≤ s.rbuf.length) (hrel : Broker.Relays s.rbuf) (a : Attempt)
    (hfail : s.firstFailure = some a) (hret : a.ret = .val (-1)) :
    s.ClosesOnly (s.handleFrame i rset) (s.outgoing i cur).kernel a.target.2 ↔
      ∀ m n, m < a.target.2 → s.nodes[m]? = some n → n.id ≠ a.target.1.id := by
  have hid := id_ne_zero_of_staticOf hstatic fun n hn => (nodes_of_ok h n hn).1
  obtain ⟨hmem, hnot⟩ := Broker.firstFailure_mem hfail
  obtain ⟨htarget, -⟩ := mem_relayAttempts _ _ hlen hmem
  have hopen := open_of_failed _ _ hlen hmem hnot
  obtain ⟨j, n, hn, hsame, hbefore, hcloses⟩ :=
    Broker.handleFrame_closesOnly hid hcur rset hrel hlen hfail hret
  constructor
  · intro hright
    rw [hcloses.eq hright htarget hopen] at hbefore
    exact hbefore
  · intro hfirst
    have hj : j = a.target.2 := by
      rcases Nat.lt_trichotomy j a.target.2 with hlt | heq | hgt
      · exact absurd hsame (hfirst j n hlt hn)
      · exact heq
      · exact absurd rfl (hbefore _ _ hgt htarget)
    rwa [hj] at hcloses

/-- A publisher with these subscribers, by name and id. -/
def confNamed (subs : List (Bytes × Int)) : List CJson :=
  CJson.object [.numberItem keyPid 0] ::
    subs.map fun p => CJson.object [.stringItem keyName p.1, .numberItem keyPid p.2]

/-- A connection on which every send fails. -/
def Sock.refusing (input : Bytes) : Sock :=
  { Sock.eager input with sends := Stream'.const (.stop .error) }

/-- A frame is to be handled, of which the send to the node at `j` is the first
to fail. -/
def Broker.failsAt (s : Broker) (j : Nat) : Bool :=
  s.pc.handled.any fun p => (s.nodes[p.1]?).isSome &&
    decide (protocolCmdHeadLen ≤ s.rbuf.length) && decide (Broker.Relays s.rbuf) &&
    s.firstFailure.any fun a => decide (a.ret = .val (-1)) && decide (a.target.2 = j)

theorem Broker.of_failsAt {s : Broker} {j : Nat} (h : s.failsAt j = true) :
    ∃ i rset cur a, s.pc = .handle i rset ∧ s.nodes[i]? = some cur ∧
      protocolCmdHeadLen ≤ s.rbuf.length ∧ Broker.Relays s.rbuf ∧ s.firstFailure = some a ∧
      a.ret = .val (-1) ∧ a.target.2 = j := by
  simp only [failsAt, Option.any_eq_true, Bool.and_eq_true, decide_eq_true_eq] at h
  obtain ⟨p, hpc, ⟨⟨hcur, hlen⟩, hrel⟩, a, hfail, hret, hj⟩ := h
  obtain ⟨cur, hcur⟩ := Option.isSome_iff_exists.mp hcur
  exact ⟨p.1, p.2, cur, a, Pc.eq_handle hpc, hcur, hlen, hrel, hfail, hret, hj⟩

/-- `c` sends to `b`, which takes nothing and is closed. -/
theorem failed_send_closes_own :
    ∃ r, getNodeStart (fun _ _ _ => none) (confNamed [([97], 1), ([98], 2), ([99], 3)]) = .ok r ∧
      ∃ s i rset cur a, Reachable trio Runs.anyStep s ∧ s.pc = .handle i rset ∧
        s.firstFailure = some a ∧ a.target.2 = 1 ∧
        s.ClosesOnly (s.handleFrame i rset) (s.outgoing i cur).kernel a.target.2 := by
  let f := Frame.ofFields 1 188 1 0 [2, 0, 0, 0, 104] (by decide)
  have hrun : (Runs.run step Runs.unchecked trio.init
      [.accept (.client 5 [98] (.refusing [])), .accept (.client 6 [99] (.eager f.bytes)),
        .readyOf [6], .next, .next, .next]).any (fun s => s.failsAt 1) = true := by decide +kernel
  obtain ⟨s, hs, hP⟩ := Runs.Reaches.of_run_unchecked hrun
  obtain ⟨i, rset, cur, a, hpc, hcur, hlen, hrel, hfail, hret, hj⟩ := Broker.of_failsAt hP
  obtain ⟨r, hr, hnodes⟩ : ∃ r, getNodeStart (fun _ _ _ => none)
      (confNamed [([97], 1), ([98], 2), ([99], 3)]) = .ok r ∧
        staticOf r.nodes = staticOf trio.nodes := ⟨_, rfl, rfl⟩
  have hstatic : staticOf s.nodes = staticOf trio.nodes := (inv_of_reachable hs).static
  refine ⟨r, hr, s, i, rset, cur, a, hs, hpc, hfail, hj, ?_⟩
  refine (failed_send_closes_iff (fun _ _ _ => none) _ r hr s (hstatic.trans hnodes.symm) i cur
    hcur rset hlen hrel a hfail hret).mpr fun m n hm hn => ?_
  -- the ids in front are those of the configuration
  obtain ⟨htarget, -⟩ := mem_relayAttempts _ _ hlen (Broker.firstFailure_mem hfail).1
  obtain ⟨n', hn', hid⟩ := exists_of_staticOf hstatic hn
  obtain ⟨t, ht, hid'⟩ := exists_of_staticOf hstatic htarget
  rw [hj] at hm ht
  obtain rfl : m = 0 := by omega
  obtain rfl : _ = n' := Option.some.inj hn'
  obtain rfl : _ = t := Option.some.inj ht
  rw [← hid, ← hid']
  decide

/-- Two nodes with the id 7. -/
def twins : Config where
  nodeStart := { name := [], id := 0 }
  nodes := [{ name := [97], id := 7 }, { name := [98], id := 7 }]
  id_ne_zero := by decide
  connfd_zero := by decide
  sockfd := 3
  sockfd_pos := by decide

/-- **The wrong connection is closed.** `a` sends to 7; the send to `b` fails,
and `a` is closed for it. -/
theorem failed_send_closes_twin :
    ∃ r, getNodeStart (fun _ _ _ => none) (confNamed [([97], 7), ([98], 7)]) = .ok r ∧
      r.nodes = twins.nodes ∧
      ∃ s i rset cur a, Reachable twins Runs.anyStep s ∧ s.pc = .handle i rset ∧
        s.nodes[i]? = some cur ∧ s.firstFailure = some a ∧ a.ret = .val (-1) ∧ a.target.2 = 1 ∧
        (s.handleFrame i rset).nodes.map PubSubNode.connfd = [-1, 6] ∧
        ¬ s.ClosesOnly (s.handleFrame i rset) (s.outgoing i cur).kernel a.target.2 := by
  let f := Frame.ofFields 1 188 1 0 [7, 0, 0, 0, 104] (by decide)
  let P : Broker → Bool := fun s => s.failsAt 1 && s.pc.handled.any fun p =>
    decide ((s.handleFrame p.1 p.2).nodes.map PubSubNode.connfd = [-1, 6])
  have hrun : (Runs.run step Runs.unchecked twins.init
      [.accept (.client 5 [97] (.eager f.bytes)), .accept (.client 6 [98] (.refusing [])),
        .readyOf [5], .next]).any P = true := by decide +kernel
  obtain ⟨s, hs, hP⟩ := Runs.Reaches.of_run_unchecked hrun
  simp only [P, Option.any_eq_true, Bool.and_eq_true, decide_eq_true_eq] at hP
  obtain ⟨hfails, p, hpc', hconnfds⟩ := hP
  obtain ⟨i, rset, cur, a, hpc, hcur, -, -, hfail, hret, hj⟩ := Broker.of_failsAt hfails
  obtain rfl : (i, rset) = p := by
    rw [hpc] at hpc'
    exact Option.some.inj hpc'
  refine ⟨_, rfl, rfl, s, i, rset, cur, a, hs, hpc, hcur, hfail, hret, hj, hconnfds, fun h => ?_⟩
  obtain ⟨n, -, hn, -⟩ := h.closed
  have hsix : ((s.handleFrame i rset).nodes.map PubSubNode.connfd)[1]? = some 6 := by
    rw [hconnfds]
    rfl
  rw [List.getElem?_map, ← hj, hn] at hsix
  exact absurd (Option.some.inj hsix) (show (-1 : Int) ≠ 6 by decide)

/-! ## An id that is listed twice -/

/-- What is written to the node at `j`. -/
def Outgoing.bytesTo (o : Outgoing) (j : Nat) : Bytes :=
  (o.calls.filter fun c => c.node = j).flatMap Call.bytes

/-- How often the id is listed. -/
def listings (id : Int) (ids : List UInt8) : Nat := ids.countP fun b => (b.toNat : Int) = id

/-- The frames differ in their recipients only. -/
structure Frame.SaysSame (f f' : Frame) : Prop where
  cmdid : getProtocolCmdId f.head = getProtocolCmdId f'.head
  pad : byteAt f.head 7 = byteAt f'.head 7
  payload : f.payload = f'.payload

theorem Frame.SaysSame.relayed {f f' : Frame} (h : f.SaysSame f')
    (hroom : getProtocolBroadcastLen f.head ≤ f.body.length)
    (hroom' : getProtocolBroadcastLen f'.head ≤ f'.body.length) : f.relayed = f'.relayed := by
  have hbody : peek f.body (getProtocolBroadcastLen f.head) f.relayLen = f.payload :=
    Frame.relayed_body hroom
  have hbody' : peek f'.body (getProtocolBroadcastLen f'.head) f'.relayLen = f'.payload :=
    Frame.relayed_body hroom'
  simp only [Frame.relayed, hbody, hbody', h.cmdid, h.pad, h.payload]

theorem copies_eq (id : Int) (f : Frame) :
    copies id f = (List.replicate (listings id f.ids) f.relayed.bytes).flatten := by
  rw [copies, listings, List.countP_eq_length_filter, ← List.map_const', List.flatMap_def]

theorem flatten_replicate_inj {m n : Nat} (f : Frame) :
    (List.replicate m f.bytes).flatten = (List.replicate n f.bytes).flatten ↔ m = n := by
  constructor
  · intro h
    have hlen := congrArg List.length h
    simp only [List.length_flatten, List.map_replicate, List.sum_replicate_nat] at hlen
    exact Nat.eq_of_mul_eq_mul_right (List.length_pos_iff.mpr f.bytes_ne_nil) hlen
  · exact fun h => by rw [h]

theorem relayOf_bytesTo {k : Kernel} {nodes : List PubSubNode} {rbuf : Bytes} {f : Frame}
    {ids : List UInt8} (hf : f.Parallel ids)
    (hall : ∀ c ∈ (relayOf k nodes rbuf f).calls, c.Complete) {j : Nat} {n : PubSubNode}
    (hj : nodes[j]? = some n) :
    (relayOf k nodes rbuf f).bytesTo j =
      if 0 ≤ n.connfd then (List.replicate (listings n.id ids) f.relayed.bytes).flatten else [] := by
  have hbytes := Broker.broadcastCmd_bytes hall hj
  rwa [copies_eq, hf.ids_eq] at hbytes

/-- **What a list of recipients means**: each node that is not closed gets the
payload once for each time its id is listed. Two lists mean the same when they
have the id of each such node equally often. -/
theorem relay_same_iff (k k' : Kernel) (nodes : List PubSubNode) (rbuf rbuf' : Bytes)
    (f f' : Frame) (ids ids' : List UInt8) (hf : f.Parallel ids) (hf' : f'.Parallel ids')
    (hsame : f.SaysSame f') (hall : ∀ c ∈ (relayOf k nodes rbuf f).calls, c.Complete)
    (hall' : ∀ c ∈ (relayOf k' nodes rbuf' f').calls, c.Complete) :
    f.relayed.body = f.payload ∧
      (∀ j n, nodes[j]? = some n → (relayOf k nodes rbuf f).bytesTo j =
        if 0 ≤ n.connfd then (List.replicate (listings n.id ids) f.relayed.bytes).flatten else []) ∧
      ((∀ j n, nodes[j]? = some n →
          (relayOf k nodes rbuf f).bytesTo j = (relayOf k' nodes rbuf' f').bytesTo j) ↔
        ∀ n ∈ nodes, 0 ≤ n.connfd → listings n.id ids = listings n.id ids') := by
  refine ⟨Frame.relayed_body hf.room, fun j n hj => relayOf_bytesTo hf hall hj, ?_⟩
  have hone : ∀ j n, nodes[j]? = some n →
      ((relayOf k nodes rbuf f).bytesTo j = (relayOf k' nodes rbuf' f').bytesTo j ↔
        (0 ≤ n.connfd → listings n.id ids = listings n.id ids')) := by
    intro j n hj
    rw [relayOf_bytesTo hf hall hj, relayOf_bytesTo hf' hall' hj,
      ← hsame.relayed hf.room hf'.room]
    by_cases hopen : 0 ≤ n.connfd
    · rw [if_pos hopen, if_pos hopen, flatten_replicate_inj]
      exact ⟨fun h _ => h, fun h => h hopen⟩
    · rw [if_neg hopen, if_neg hopen]
      exact iff_of_true rfl fun h => absurd h hopen
  constructor
  · intro h n hn
    obtain ⟨j, hj⟩ := List.getElem?_of_mem hn
    exact (hone j n hj).mp (h j n hj)
  · exact fun h j n hj => (hone j n hj).mpr (h n (List.mem_of_getElem? hj))

/-- The order makes no difference. -/
theorem listings_perm {ids ids' : List UInt8} (h : ids.Perm ids') (id : Int) :
    listings id ids = listings id ids' :=
  h.countP_eq _

/-- Two bytes for 1 and 2, and for 2 and 1. -/
theorem relay_same_swapped :
    let f := Frame.ofFields 1 188 2 0 [1, 2, 0, 0, 104, 105] (by decide)
    let f' := Frame.ofFields 1 188 2 0 [2, 1, 0, 0, 104, 105] (by decide)
    let nodes : List PubSubNode :=
      [{ name := [97], id := 1, connfd := 5 }, { name := [98], id := 2, connfd := 6 }]
    let k := Kernel.ofSocks [(5, [], Sock.eager []), (6, [], Sock.eager [])]
    ∀ j n, nodes[j]? = some n →
      (relayOf k nodes [] f).bytesTo j = (relayOf k nodes [] f').bytesTo j := by
  intro f f' nodes k
  refine (relay_same_iff k k nodes [] [] f f' [1, 2] [2, 1] ⟨by decide, by decide, by decide, by decide⟩
    ⟨by decide, by decide, by decide, by decide⟩ ⟨by decide, by decide, by decide⟩
    (by decide +kernel) (by decide +kernel)).2.2.mpr ?_
  exact fun n _ _ => listings_perm (List.Perm.swap 2 1 []) n.id

/-- **Once for each time it is listed**: 1, and 1 and 1, are the same set of
recipients, and not the same bytes. -/
theorem relay_twice :
    let f := Frame.ofFields 1 188 1 0 [1, 0, 0, 0, 104, 105] (by decide)
    let f' := Frame.ofFields 1 188 2 0 [1, 1, 0, 0, 104, 105] (by decide)
    let nodes : List PubSubNode := [{ name := [97], id := 1, connfd := 5 }]
    let k := Kernel.ofSocks [(5, [], Sock.eager [])]
    f.Parallel [1] ∧ f'.Parallel [1, 1] ∧ (∀ b : UInt8, b ∈ [1] ↔ b ∈ [1, 1]) ∧ f.SaysSame f' ∧
      (∀ c ∈ (relayOf k nodes [] f).calls, c.Complete) ∧
      (∀ c ∈ (relayOf k nodes [] f').calls, c.Complete) ∧
      (relayOf k nodes [] f').bytesTo 0
        = (relayOf k nodes [] f).bytesTo 0 ++ (relayOf k nodes [] f).bytesTo 0 ∧
      (relayOf k nodes [] f').bytesTo 0 ≠ (relayOf k nodes [] f).bytesTo 0 := by
  intro f f' nodes k
  refine ⟨⟨by decide, by decide, by decide, by decide⟩,
    ⟨by decide, by decide, by decide, by decide⟩, fun b => by simp,
    ⟨by decide, by decide, by decide⟩, by decide +kernel, by decide +kernel, by decide +kernel,
    by decide +kernel⟩

end Icehydra
