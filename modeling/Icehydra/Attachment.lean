import Icehydra.Bounds

/-!
# Attachment — nodes, descriptors and disconnects

A node's `connfd` is 0 until its client connects, positive while the client is
attached, and -1 after `close_s`. `Change` is all that a step can do to the
nodes and to what their descriptors stand for, and with it goes where the
broker's sends end up.
-/

namespace Icehydra

open Block NonBlock

namespace Kernel

theorem ident_eq {k : Kernel} {fd : Int} {c : Conn} (h : k.conns fd = some c) :
    k.ident fd = some (c.cid, c.un) := by
  rw [ident, h]
  rfl

theorem conns_of_ident {k : Kernel} {fd : Int} {cid : Nat} {un : Bytes}
    (h : k.ident fd = some (cid, un)) : ∃ c, k.conns fd = some c ∧ c.cid = cid ∧ c.un = un := by
  obtain ⟨c, hc, heq⟩ := Option.map_eq_some_iff.mp h
  cases heq
  exact ⟨c, hc, rfl, rfl⟩

theorem ident_close (k : Kernel) (fd fd' : Int) :
    (k.close fd).ident fd' = if fd' = fd then none else k.ident fd' := by
  unfold ident
  split
  · rename_i h
    rw [h, k.conns_close_self]
    rfl
  · rename_i h
    rw [k.conns_close_of_ne h]

theorem ident_accept (k : Kernel) (a : Accepted) (fd : Int) :
    (k.accept a).ident fd = if fd = a.fd then some (k.nextCid, a.un) else k.ident fd := by
  unfold ident
  split
  · rename_i h
    rw [h, k.conns_accept_self]
    rfl
  · rename_i h
    rw [k.conns_accept_of_ne h]

end Kernel

namespace Broker

/-! ## What a step does to the nodes -/

/-- The step from `s` closes the node at `j`: a receive from it falls short, or
it is the first node with the id of a recipient whose send failed. -/
def Closes (s : Broker) (j : Nat) : Prop :=
  (∃ rset cur, s.Receives j rset cur ∧
    ¬ Through (s.kernel.sock cur.connfd).recvs maxTimes
      [protocolCmdHeadLen, nextLen (s.kernel.sock cur.connfd)]) ∨
  ∃ i rset a, s.pc = .handle i rset ∧ Relays s.rbuf ∧ s.firstFailure = some a ∧
    a.ret ≠ .killed ∧ findNodeById s.nodes a.target.1.id = some j

/-- Nodes and descriptors over one step. -/
inductive Change (s : Broker) : Event → Broker → Prop
  | same {e s'} : s'.nodes = s.nodes → Kernel.SameConns s.kernel s'.kernel → Change s e s'
  | closed {e s' j n} : s.Closes j → s.nodes[j]? = some n →
      s'.nodes = s.nodes.set j { n with connfd := -1 } →
      (∀ fd, s'.kernel.ident fd
        = if 0 < n.connfd ∧ fd = n.connfd then none else s.kernel.ident fd) → Change s e s'
  | accepted {a} : s.pc = .select → a.Valid s → Change s (.accept a) (s.acceptBranch a)

theorem ident_closeFd (k : Kernel) (fd fd' : Int) :
    (closeFd k fd).ident fd' = if 0 < fd ∧ fd' = fd then none else k.ident fd' := by
  unfold closeFd
  split
  · rename_i hpos
    rw [k.ident_close]
    simp [hpos]
  · rename_i hneg
    simp [hneg]

theorem not_through_of_ret {s : Sock} {sockfd : Int} (hfd : 0 ≤ sockfd)
    (hret : (tcpRecvProtocolCmd s sockfd true).ret = -1) :
    ¬ Through s.recvs maxTimes [protocolCmdHeadLen, nextLen s] := by
  intro hthrough
  have hmoved : (recvTransfer s).moved = protocolCmdHeadLen + nextLen s := by
    rw [recvTransfer, hthrough]
    simp
  rw [tcpRecvProtocolCmd_eq s hfd] at hret
  simp only [hmoved, if_true] at hret
  exact absurd hret (by decide)

theorem id_ne_zero {cfg : Config} {s : Broker} (h : Inv cfg s) : ∀ n ∈ s.nodes, n.id ≠ 0 :=
  id_ne_zero_of_staticOf h.static cfg.id_ne_zero

/-- The node that is closed after a relay. -/
theorem errnode_closes {cfg : Config} {s : Broker} (hinv : Inv cfg s) {i : Nat}
    {rset : Int → Bool} (hpc : s.pc = .handle i rset) {j : Nat} (h : s.errnode = some j) :
    s.Closes j := by
  have hrel : Relays s.rbuf := by
    by_contra hnot
    rw [errnode, if_neg hnot] at h
    cases h
  rw [errnode_eq hrel (hinv.holding i rset hpc).rbuf_length (id_ne_zero hinv)] at h
  cases hf : s.firstFailure with
  | none =>
      rw [hf] at h
      cases h
  | some a =>
      rw [hf] at h
      simp only at h
      split at h
      · cases h
      · rename_i hkill
        exact .inr ⟨i, rset, a, hpc, hrel, hf, hkill, h⟩

theorem ident_received (s : Broker) (cur : PubSubNode) (fd : Int) :
    (s.received cur).kernel.ident fd = s.kernel.ident fd :=
  (s.kernel.setSock_sameConns _ _).2 fd

/-- **Every step is one of these changes.** -/
theorem step_change {cfg : Config} {s s' : Broker} {e : Event} (hinv : Inv cfg s)
    (hs : step s e = some s') : s.Change e s' := by
  cases step_cases hs with
  | dangling | selectError | timeout | ready => exact .same rfl (Kernel.SameConns.refl _)
  | accept hpc _ ha => exact .accepted hpc ha
  | @scan i rset hpc =>
      have hscan := s.scanned i rset
      generalize s.scanNode i rset = t at hscan ⊢
      cases hscan with
      | done | skip => exact .same rfl (Kernel.SameConns.refl _)
      | got => exact .same rfl (s.kernel.setSock_sameConns _ _)
      | @failed cur hcur hfd hset hret =>
          refine .closed (j := i) (n := cur)
            (.inl ⟨rset, cur, ⟨hpc, hcur, hfd, hset⟩, not_through_of_ret hfd hret⟩) hcur ?_ ?_
          · rw [closeS_received hcur]
          · intro fd
            rw [closeS_received hcur]
            show (closeFd _ _).ident fd = _
            rw [ident_closeFd, ident_received]
  | @handle i rset hpc =>
      obtain ⟨cur, hcur⟩ := (hinv.holding i rset hpc).node
      have hsame := (hinv.wrote hpc cur).sameConns
      rw [handleFrame_eq hcur]
      split
      · exact .same rfl hsame
      · split
        · exact .same rfl hsame
        · rename_i j herr
          obtain ⟨n, hn⟩ := errnode_some herr
          rw [closeS_eq (show (s.sent i cur).nodes[j]? = some n from hn)]
          refine .closed (j := j) (n := n) (errnode_closes hinv hpc herr) hn rfl fun fd => ?_
          show (closeFd _ _).ident fd = _
          rw [ident_closeFd]
          have hid : (s.sent i cur).kernel.ident fd = s.kernel.ident fd := hsame.2 fd
          rw [hid]

/-! ## Attached nodes -/

/-- Every node with a positive descriptor is attached: the descriptor is an open
connection from a peer of the node's name. -/
def Attached (s : Broker) : Prop :=
  ∀ (j : Nat) (n : PubSubNode), s.nodes[j]? = some n → 0 < n.connfd →
    ∃ cid un, s.kernel.ident n.connfd = some (cid, un) ∧ isPeer n.name un = true

/-- No other node holds the descriptor of the node at `j`. -/
def Alone (s : Broker) (j : Nat) : Prop :=
  ∀ (j' : Nat) (n n' : PubSubNode), s.nodes[j]? = some n → s.nodes[j']? = some n' →
    0 < n.connfd → n'.connfd = n.connfd → j' = j

/-- An accept leaves the connections of the nodes alone: its descriptor is new. -/
theorem Attached.conns_acceptBranch {s : Broker} (h : s.Attached) {a : Accepted} (ha : a.Valid s)
    {n : PubSubNode} (hn : n ∈ s.nodes) :
    (s.acceptBranch a).kernel.conns n.connfd = s.kernel.conns n.connfd := by
  by_cases hfd : 0 ≤ a.fd
  · obtain ⟨hpos, hfree⟩ := ha.free hfd
    apply conns_acceptBranch_of_ne
    intro heq
    obtain ⟨j, hj⟩ := List.mem_iff_getElem?.mp hn
    obtain ⟨cid, un, hid, -⟩ := h j n hj (by omega)
    obtain ⟨c, hc, -⟩ := Kernel.conns_of_ident hid
    rw [heq, hfree] at hc
    cases hc
  · rw [s.acceptBranch_eq]
    simp only [if_neg hfd]

theorem attached_init (cfg : Config) : cfg.init.Attached := by
  intro j n hn hpos
  have hzero := cfg.connfd_zero n (List.mem_of_getElem? hn)
  omega

/-- A node with a positive descriptor is not the one that has been closed. -/
theorem getElem?_of_closed {nodes : List PubSubNode} {j k : Nat} {m n : PubSubNode}
    (hk : nodes[k]? = some m) (hn : (nodes.set k { m with connfd := -1 })[j]? = some n)
    (hpos : 0 < n.connfd) : j ≠ k ∧ nodes[j]? = some n := by
  by_cases hjk : j = k
  · subst hjk
    rw [List.getElem?_set_self (List.getElem?_eq_some_iff.mp hk).1] at hn
    obtain rfl := Option.some.inj hn
    cases hpos
  · rw [List.getElem?_set_ne (Ne.symm hjk)] at hn
    exact ⟨hjk, hn⟩

theorem Attached.step {s s' : Broker} {e : Event} (h : s.Attached)
    (halone : ∀ j, s.Closes j → s.Alone j) (hc : s.Change e s') : s'.Attached := by
  cases hc with
  | same hnodes hsame =>
      intro j n hn hpos
      rw [hnodes] at hn
      rw [hsame.2]
      exact h j n hn hpos
  | @closed _ _ k m hclose hk hnodes hident =>
      intro j n hn hpos
      rw [hnodes] at hn
      obtain ⟨hjk, hn⟩ := getElem?_of_closed hk hn hpos
      have hother : ¬ (0 < m.connfd ∧ n.connfd = m.connfd) := by
        rintro ⟨hm, heq⟩
        exact hjk (halone k hclose j m n hk hn hm heq)
      rw [hident, if_neg hother]
      exact h j n hn hpos
  | @accepted a hpc ha =>
      intro j n hn hpos
      rcases mem_acceptBranch (List.mem_of_getElem? hn) with hold | ⟨ht, m, -, hpeer, rfl⟩
      · obtain ⟨k, hk⟩ := List.mem_iff_getElem?.mp hold
        obtain ⟨cid, un, hid, hpeer⟩ := h k n hk hpos
        refine ⟨cid, un, ?_, hpeer⟩
        rw [Kernel.ident, h.conns_acceptBranch ha hold]
        exact hid
      · exact ⟨s.kernel.nextCid, a.un, Kernel.ident_eq (conns_acceptBranch_self ht), hpeer⟩

/-! ## On which descriptors the broker sends -/

/-- The call went to the connection that the addressed, or the requesting, node
is attached to. -/
def SentAttached (s : Broker) (v : Visit) (c : Call) : Prop :=
  ∃ n conn, s.nodes[c.node]? = some n ∧ n.connfd = c.fd ∧ s.kernel.conns c.fd = some conn ∧
    c.conn = some conn.cid ∧ isPeer n.name conn.un = true ∧
    (c.node = v.src ∨ Addressed v.frame.ids n)

/-- No node that the relay reaches has never been connected, and a descriptor
is closed only when one node holds it. -/
structure SendsSafe (s : Broker) (_ : Event) : Prop where
  closes_alone : ∀ j, s.Closes j → s.Alone j
  reached_connected : ∀ i rset, s.pc = .handle i rset → Relays s.rbuf →
    ∀ a ∈ upToFailure (relayAttempts s.kernel s.nodes s.rbuf), a.target.1.connfd ≠ 0

/-- Where the calls of a handled frame come from. -/
theorem outgoing_calls_cases {s : Broker} {i : Nat} {cur : PubSubNode} {c : Call}
    (hc : c ∈ (s.outgoing i cur).calls) :
    (c.node = i ∧ c.fd = cur.connfd ∧ c.conn = (s.kernel.conns c.fd).map Conn.cid) ∨
      (Relays s.rbuf ∧ c ∈ (broadcastCmd s.kernel s.nodes s.rbuf).2.calls) := by
  by_cases hrel : Relays s.rbuf
  · rw [outgoing_relay hrel] at hc
    exact .inr ⟨hrel, hc⟩
  · obtain ⟨buf, data, -, hout⟩ := outgoing_reply hrel hc
    rw [hout] at hc
    obtain ⟨-, -, -, hnode, hfd, hconn, -⟩ := Kernel.send_calls hc
    exact .inl ⟨hnode, hfd, by rw [hconn, hfd]⟩

/-- Every call is for a node, on its descriptor. -/
theorem outgoing_node {s : Broker} {i : Nat} {cur : PubSubNode} {c : Call}
    (hlen : protocolCmdHeadLen ≤ s.rbuf.length) (hcur : s.nodes[i]? = some cur)
    (hc : c ∈ (s.outgoing i cur).calls) : ∃ n, s.nodes[c.node]? = some n ∧ c.fd = n.connfd := by
  rcases outgoing_calls_cases hc with ⟨hnode, hfd, -⟩ | ⟨-, hc⟩
  · exact ⟨cur, by rw [hnode, hcur], hfd⟩
  · obtain ⟨n, hn, -, -, hfd, -⟩ := mem_broadcastCmd_calls _ _ hlen hc
    exact ⟨n, hn, hfd⟩

theorem visit_sentAttached {cfg : Config} {s : Broker} (hinv : Inv cfg s) (hatt : s.Attached)
    {i : Nat} {rset : Int → Bool} (hpc : s.pc = .handle i rset) {cur : PubSubNode}
    (hcur : s.nodes[i]? = some cur) {e : Event} (hok : s.SendsSafe e) :
    let v := s.visitOf i cur (s.outgoing i cur).calls
    ∀ c ∈ v.calls, s.SentAttached v c := by
  intro v c hc
  obtain ⟨cur', conn, rbuf, f, hcur', hpos, hconn, hbuf⟩ := hinv.holding i rset hpc
  have hlen := rbuf_length_of_store hbuf
  rw [hcur] at hcur'
  obtain rfl := Option.some.inj hcur'
  have hattached : ∀ (j : Nat) (n : PubSubNode), s.nodes[j]? = some n → 0 < n.connfd →
      ∃ conn, s.kernel.conns n.connfd = some conn ∧ isPeer n.name conn.un = true := by
    intro j n hn hnpos
    obtain ⟨cid, un, hid, hpeer⟩ := hatt j n hn hnpos
    obtain ⟨conn, hconn, -, rfl⟩ := Kernel.conns_of_ident hid
    exact ⟨conn, hconn, hpeer⟩
  rcases outgoing_calls_cases hc with ⟨hnode, hfd, hcid⟩ | ⟨hrel, hc⟩
  · obtain ⟨conn', hconn', hpeer⟩ := hattached i cur hcur hpos
    refine ⟨cur, conn', by rw [hnode, hcur], hfd.symm, by rw [hfd, hconn'], ?_, hpeer, .inl hnode⟩
    rw [hcid, hfd, hconn']
    rfl
  · rw [broadcastCmd_calls _ _ hlen] at hc
    obtain ⟨a, ha, hca⟩ := List.mem_flatMap.mp hc
    obtain ⟨hn, haddr, -, -, hspec⟩ :=
      mem_relayAttempts _ _ hlen (mem_of_mem_upToFailure ha)
    obtain ⟨hnonneg, hnode, hfd, hcid, -⟩ := hspec c hca
    have hne := hok.reached_connected i rset hpc hrel a ha
    obtain ⟨conn', hconn', hpeer⟩ := hattached _ _ hn (by omega)
    refine ⟨a.target.1, conn', by rw [hnode, hn], hfd.symm, by rw [hfd, hconn'], ?_, hpeer, .inr ?_⟩
    · rw [hcid, hfd, hconn']
      rfl
    · have hframe : v.frame = f := by
        show frameIn s.rbuf = f
        rw [hbuf, frameIn_storeFrame]
      rw [hframe, ← frameIds_storeFrame rbuf f, ← hbuf]
      exact haddr

/-- **The descriptors of all sends.** In a run in which the relay never reaches
a node that has not connected and no shared descriptor is closed, every send is
on the connection of the node it is for. -/
theorem sends_attached (cfg : Config) (s : Broker) (h : Reachable cfg SendsSafe s) :
    (∀ v ∈ s.log, ∀ c ∈ v.calls, c.conn ≠ none) ∧
      ∀ i rset, s.pc = .handle i rset → s.SendsSafe .next →
        ∃ v, (s.handleFrame i rset).log = s.log ++ [v] ∧ v.src = i ∧
          ∀ c ∈ v.calls, s.SentAttached v c := by
  have hrun : s.Attached ∧ ∀ v ∈ s.log, ∀ c ∈ v.calls, c.conn ≠ none := by
    refine Runs.Reaches.invariant_of (J := Inv cfg)
      (I := fun s => s.Attached ∧ ∀ v ∈ s.log, ∀ c ∈ v.calls, c.conn ≠ none) h
      (fun t ht => inv_of_reachable ht) ⟨attached_init cfg, fun v hv => by cases hv⟩ ?_
    rintro s e s' hinv ⟨hatt, hlog⟩ hok hstep
    refine ⟨hatt.step hok.closes_alone (step_change hinv hstep), ?_⟩
    rcases step_log hinv hstep with heq | ⟨i, rset, cur, hpc, hcur, heq⟩
    · rw [heq]
      exact hlog
    · rw [heq]
      intro v hv c hc
      rcases List.mem_append.mp hv with hold | hnew
      · exact hlog v hold c hc
      · obtain rfl := List.mem_singleton.mp hnew
        obtain ⟨n, conn, -, -, -, hcid, -⟩ := visit_sentAttached hinv hatt hpc hcur hok c hc
        simp [hcid]
  refine ⟨hrun.2, fun i rset hpc hok => ?_⟩
  have hinv := inv_of_reachable h
  obtain ⟨cur, hcur⟩ := (hinv.holding i rset hpc).node
  exact ⟨_, handleFrame_log hcur rset, rfl, visit_sentAttached hinv hrun.1 hpc hcur hok⟩

/-- A check that is enough for `SendsSafe`: no descriptor is held twice. -/
def checkSends (s : Broker) (_ : Event) : Bool :=
  decide (s.nodes.Pairwise fun n m => 0 < n.connfd → m.connfd ≠ n.connfd) &&
    decide (s.nodes.Pairwise fun n m => 0 < m.connfd → m.connfd ≠ n.connfd) &&
    decide (∀ a ∈ upToFailure (relayAttempts s.kernel s.nodes s.rbuf), a.target.1.connfd ≠ 0)

theorem sendsSafe_of_check (s : Broker) (e : Event) (h : s.checkSends e = true) :
    s.SendsSafe e := by
  simp only [checkSends, Bool.and_eq_true, decide_eq_true_eq] at h
  obtain ⟨⟨hleft, hright⟩, hreached⟩ := h
  refine ⟨fun j _ j' n n' hn hn' hpos heq => ?_, fun _ _ _ _ => hreached⟩
  obtain ⟨hj, rfl⟩ := List.getElem?_eq_some_iff.mp hn
  obtain ⟨hj', rfl⟩ := List.getElem?_eq_some_iff.mp hn'
  rcases Nat.lt_trichotomy j j' with hlt | heq' | hlt
  · exact absurd heq (List.pairwise_iff_getElem.mp hleft j j' hj hj' hlt hpos)
  · exact heq'.symm
  · exact absurd heq.symm (List.pairwise_iff_getElem.mp hright j' j hj' hj hlt hpos)

/-- `b` and `c` connect, and `c` sends to `b`. -/
theorem sends_attached_pair :
    ∃ (s : Broker) (i : Nat) (rset : Int → Bool) (v : Visit), s.pc = .handle i rset ∧
      (s.handleFrame i rset).log = s.log ++ [v] ∧ v.calls ≠ [] ∧
      ∀ c ∈ v.calls, s.SentAttached v c := by
  let f := Frame.ofFields 1 188 1 0 [2, 0, 0, 0, 104] (by decide)
  let P : Broker → Bool := fun s =>
    s.pc.handled.any fun p : Nat × (Int → Bool) =>
      s.checkSends .next && decide (∀ v ∈ (s.handleFrame p.1 p.2).log, v.calls ≠ [])
  have hrun : (Runs.run step checkSends trio.init
      [.accept (.client 5 [98] (.eager [])), .accept (.client 6 [99] (.eager f.bytes)),
        .readyOf [6], .next, .next, .next]).any P = true := by decide +kernel
  obtain ⟨s, hs, hP⟩ := Runs.Reaches.of_run sendsSafe_of_check hrun
  simp only [P, Option.any_eq_true, Bool.and_eq_true, decide_eq_true_eq] at hP
  obtain ⟨p, hhandled, hcheck, hsome⟩ := hP
  have hpc := Pc.eq_handle hhandled
  obtain ⟨v, hlog, -, hsent⟩ :=
    (sends_attached trio s hs).2 p.1 p.2 hpc (sendsSafe_of_check s .next hcheck)
  exact ⟨s, p.1, p.2, v, hpc, hlog, hsome v (by simp [hlog]), hsent⟩

/-- **A send on descriptor 0.** `a` has never connected; `c` sends to it, and
the broker calls `send` on 0. -/
theorem send_to_unconnected :
    ∃ s i rset, Reachable trio Runs.anyStep s ∧ s.pc = .handle i rset ∧
      (∃ n, s.nodes[0]? = some n ∧ n.connfd = 0) ∧
      ∃ v ∈ (s.handleFrame i rset).log, ∃ c ∈ v.calls, c.node = 0 ∧ c.fd = 0 ∧
        ¬ s.SentAttached v c := by
  let f := Frame.ofFields 1 188 1 0 [1, 0, 0, 0, 104] (by decide)
  let P : Broker → Bool := fun s =>
    s.pc.handled.any fun p : Nat × (Int → Bool) => s.nodes[0]?.any fun n =>
      decide (n.connfd = 0) &&
        decide (∃ v ∈ (s.handleFrame p.1 p.2).log, ∃ c ∈ v.calls,
          c.node = 0 ∧ c.fd = 0 ∧ c.conn = none)
  have hrun : (Runs.run step Runs.unchecked trio.init
      [.accept (.client 6 [99] (.eager f.bytes)), .readyOf [6], .next, .next, .next]).any P
        = true := by decide +kernel
  obtain ⟨s, hs, hP⟩ := Runs.Reaches.of_run_unchecked hrun
  simp only [P, Option.any_eq_true, Bool.and_eq_true, decide_eq_true_eq] at hP
  obtain ⟨p, hpc, n, hn, hzero, v, hv, c, hc, hnode, hfd, hconn⟩ := hP
  refine ⟨s, p.1, p.2, hs, Pc.eq_handle hpc, ⟨n, hn, hzero⟩, v, hv, c, hc, hnode, hfd, ?_⟩
  rintro ⟨m, conn, -, -, -, hcid, -⟩
  rw [hconn] at hcid
  cases hcid

end Broker

end Icehydra
