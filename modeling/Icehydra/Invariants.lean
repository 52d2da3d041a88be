import Icehydra.Broadcast

/-!
# Invariants — what holds in every run

`Ledger` ties the table of open connections to the log: connections are
numbered apart, and on each of them exactly the recorded bytes were read and
written. `Inv` is what every reachable state satisfies, whatever the
environment does.
-/

namespace Icehydra

open Block NonBlock

/-! ## Reading the log -/

/-- The calls made on the `cid`-th connection, in order. -/
def callsOn (log : List Visit) (cid : Nat) : List Call :=
  (log.flatMap Visit.calls).filter fun c => c.conn = some cid

/-- The frames read from the `cid`-th connection and handled, in order. -/
def framesFrom (log : List Visit) (cid : Nat) : List Frame :=
  (log.filter fun v => v.conn = some cid).map Visit.frame

theorem callsOn_concat (log : List Visit) (v : Visit) (cid : Nat) :
    callsOn (log ++ [v]) cid = callsOn log cid ++ v.calls.filter fun c => c.conn = some cid := by
  simp [callsOn]

theorem framesFrom_concat (log : List Visit) (v : Visit) (cid : Nat) :
    framesFrom (log ++ [v]) cid
      = framesFrom log cid ++ if v.conn = some cid then [v.frame] else [] := by
  simp only [framesFrom, List.filter_append, List.map_append, List.filter_cons, List.filter_nil,
    decide_eq_true_eq]
  split <;> rfl

/-! ## The table and the log -/

/-- The table agrees with the log. `held` is the frame that has been read from
a connection and is not in the log yet. -/
structure Ledger (k : Kernel) (log : List Visit) (held : Nat → List Frame) : Prop where
  conns_pos : ∀ {fd c}, k.conns fd = some c → 0 < fd
  cid_lt : ∀ {fd c}, k.conns fd = some c → c.cid < k.nextCid
  cid_inj : ∀ {fd fd' c c'}, k.conns fd = some c → k.conns fd' = some c' → c.cid = c'.cid →
    fd = fd'
  visits_lt : ∀ v ∈ log, ∀ cid, v.conn = some cid → cid < k.nextCid
  calls_lt : ∀ v ∈ log, ∀ c ∈ v.calls, ∀ cid, c.conn = some cid → cid < k.nextCid
  output : ∀ {fd c}, k.conns fd = some c → c.sock.output = (callsOn log c.cid).flatMap Call.bytes
  consumed : ∀ {fd c}, k.conns fd = some c →
    c.sock.consumed = (framesFrom log c.cid ++ held c.cid).flatMap Frame.bytes

/-- Nothing is held. -/
def noFrame : Nat → List Frame := fun _ => []

namespace Ledger

variable {k k' : Kernel} {log : List Visit} {held : Nat → List Frame}

theorem callsOn_fresh (h : Ledger k log held) : callsOn log k.nextCid = [] := by
  apply List.filter_eq_nil_iff.mpr
  intro c hc
  obtain ⟨v, hv, hcv⟩ := List.mem_flatMap.mp hc
  simp only [decide_eq_true_eq]
  intro heq
  exact absurd (h.calls_lt v hv c hcv _ heq) (Nat.lt_irrefl _)

theorem framesFrom_fresh (h : Ledger k log held) : framesFrom log k.nextCid = [] := by
  apply List.map_eq_nil_iff.mpr
  apply List.filter_eq_nil_iff.mpr
  intro v hv
  simp only [decide_eq_true_eq]
  intro heq
  exact absurd (h.visits_lt v hv _ heq) (Nat.lt_irrefl _)

theorem accept (h : Ledger k log noFrame) {a : Accepted} (ha : 0 < a.fd) :
    Ledger (k.accept a) log noFrame := by
  -- a connection is the accepted one, with the next number, or an old one
  have hcases : ∀ {fd c}, (k.accept a).conns fd = some c →
      (fd = a.fd ∧ c.cid = k.nextCid ∧ c.sock.output = [] ∧ c.sock.consumed = []) ∨
        k.conns fd = some c := by
    intro fd c hc
    by_cases hfd : fd = a.fd
    · subst hfd
      rw [k.conns_accept_self] at hc
      obtain rfl := Option.some.inj hc
      exact .inl ⟨rfl, rfl, rfl, rfl⟩
    · rw [k.conns_accept_of_ne hfd] at hc
      exact .inr hc
  have hlt : ∀ {n}, n < k.nextCid → n < (k.accept a).nextCid := fun hn => Nat.lt_succ_of_lt hn
  constructor
  case conns_pos =>
    intro fd c hc
    rcases hcases hc with ⟨rfl, -⟩ | hold
    · exact ha
    · exact h.conns_pos hold
  case cid_lt =>
    intro fd c hc
    rcases hcases hc with ⟨-, hcid, -⟩ | hold
    · rw [hcid]
      exact Nat.lt_succ_self _
    · exact hlt (h.cid_lt hold)
  case cid_inj =>
    intro fd fd' c c' hc hc' heq
    rcases hcases hc with ⟨rfl, hcid, -⟩ | hold <;> rcases hcases hc' with ⟨rfl, hcid', -⟩ | hold'
    · rfl
    · have := h.cid_lt hold'
      omega
    · have := h.cid_lt hold
      omega
    · exact h.cid_inj hold hold' heq
  case visits_lt => exact fun v hv cid hcid => hlt (h.visits_lt v hv cid hcid)
  case calls_lt => exact fun v hv c hc cid hcid => hlt (h.calls_lt v hv c hc cid hcid)
  case output =>
    intro fd c hc
    rcases hcases hc with ⟨-, hcid, hout, -⟩ | hold
    · rw [hout, hcid, h.callsOn_fresh]
      rfl
    · exact h.output hold
  case consumed =>
    intro fd c hc
    rcases hcases hc with ⟨-, hcid, -, hcons⟩ | hold
    · rw [hcons, hcid, h.framesFrom_fresh]
      rfl
    · exact h.consumed hold

theorem close (h : Ledger k log held) (fd : Int) : Ledger (k.close fd) log held := by
  have hold : ∀ {fd' c}, (k.close fd).conns fd' = some c → k.conns fd' = some c := by
    intro fd' c hc
    by_cases hfd : fd' = fd
    · rw [hfd, k.conns_close_self] at hc
      cases hc
    · rwa [k.conns_close_of_ne hfd] at hc
  constructor
  case conns_pos => exact fun hc => h.conns_pos (hold hc)
  case cid_lt => exact fun hc => h.cid_lt (hold hc)
  case cid_inj => exact fun hc hc' => h.cid_inj (hold hc) (hold hc')
  case visits_lt => exact h.visits_lt
  case calls_lt => exact h.calls_lt
  case output => exact fun hc => h.output (hold hc)
  case consumed => exact fun hc => h.consumed (hold hc)

/-- A connection of the new table is one of the old table. -/
theorem conn_of_same (hsame : Kernel.SameConns k k') {fd : Int} {c' : Conn}
    (hc' : k'.conns fd = some c') : ∃ c, k.conns fd = some c ∧ c.cid = c'.cid := by
  have hcid := hsame.cid fd
  rw [hc', Option.map_some] at hcid
  exact Option.map_eq_some_iff.mp hcid.symm

/-- Connections that are the same are numbered the same. -/
theorem numbered_of_same (h : Ledger k log held) (hsame : Kernel.SameConns k k') :
    (∀ {fd c}, k'.conns fd = some c → 0 < fd) ∧
      (∀ {fd c}, k'.conns fd = some c → c.cid < k'.nextCid) ∧
      ∀ {fd fd' c c'}, k'.conns fd = some c → k'.conns fd' = some c' → c.cid = c'.cid →
        fd = fd' := by
  refine ⟨?_, ?_, ?_⟩
  · intro fd c' hc'
    obtain ⟨c, hc, -⟩ := conn_of_same hsame hc'
    exact h.conns_pos hc
  · intro fd c' hc'
    obtain ⟨c, hc, hcid⟩ := conn_of_same hsame hc'
    rw [hsame.1, ← hcid]
    exact h.cid_lt hc
  · intro fd1 fd2 c1 c2 hc1 hc2 heq
    obtain ⟨c1', hc1', hcid1⟩ := conn_of_same hsame hc1
    obtain ⟨c2', hc2', hcid2⟩ := conn_of_same hsame hc2
    exact h.cid_inj hc1' hc2' (by omega)

/-- A receive on an open connection. -/
theorem recv (h : Ledger k log noFrame) {fd : Int} {c : Conn} (hc : k.conns fd = some c)
    {s : Sock} (hout : s.output = c.sock.output) {f : Frame}
    (hcons : s.consumed = c.sock.consumed ++ f.bytes) :
    Ledger (k.setSock fd s) log fun cid => if cid = c.cid then [f] else [] := by
  have hsame := k.setSock_sameConns fd s
  -- the connection that was read from, or another one, unchanged
  have hcases : ∀ {fd' c'}, (k.setSock fd s).conns fd' = some c' →
      (c' = { c with sock := s }) ∨ (k.conns fd' = some c' ∧ c'.cid ≠ c.cid) := by
    intro fd' c' hc'
    by_cases hfd : fd' = fd
    · subst hfd
      rw [Kernel.conns_setSock_self s hc] at hc'
      exact .inl (Option.some.inj hc').symm
    · rw [k.conns_setSock_of_ne s hfd] at hc'
      exact .inr ⟨hc', fun heq => hfd (h.cid_inj hc' hc heq)⟩
  obtain ⟨hpos, hlt, hinj⟩ := h.numbered_of_same hsame
  constructor
  case conns_pos => exact hpos
  case cid_lt => exact hlt
  case cid_inj => exact hinj
  case visits_lt =>
    rw [hsame.1]
    exact h.visits_lt
  case calls_lt =>
    rw [hsame.1]
    exact h.calls_lt
  case output =>
    intro fd' c' hc'
    rcases hcases hc' with rfl | ⟨hold, -⟩
    · exact hout.trans (h.output hc)
    · exact h.output hold
  case consumed =>
    intro fd' c' hc'
    rcases hcases hc' with rfl | ⟨hold, hne⟩
    · simp only [if_true]
      rw [hcons, h.consumed hc]
      simp [noFrame]
    · simp only [if_neg hne]
      exact h.consumed hold

/-- **One handled frame**: what was held is in the log, and so are the calls. -/
theorem visit (h : Ledger k log held) {v : Visit} (hw : Kernel.Wrote k k' v.calls)
    (hconn : ∀ cid, v.conn = some cid → cid < k.nextCid)
    (hheld : ∀ fd c, k.conns fd = some c →
      held c.cid = if v.conn = some c.cid then [v.frame] else []) :
    Ledger k' (log ++ [v]) noFrame := by
  have hsame := hw.sameConns
  have hsock : ∀ {fd c}, k.conns fd = some c → (k.sock fd).output = c.sock.output ∧
      (k.sock fd).consumed = c.sock.consumed := by
    intro fd c hc
    rw [Kernel.sock_eq hc]
    exact ⟨rfl, rfl⟩
  obtain ⟨hpos, hlt, hinj⟩ := h.numbered_of_same hsame
  constructor
  case conns_pos => exact hpos
  case cid_lt => exact hlt
  case cid_inj => exact hinj
  case visits_lt =>
    intro w hwmem cid hcid
    rw [hsame.1]
    rcases List.mem_append.mp hwmem with hold | hnew
    · exact h.visits_lt w hold cid hcid
    · obtain rfl := List.mem_singleton.mp hnew
      exact hconn cid hcid
  case calls_lt =>
    intro w hwmem x hx cid hcid
    rw [hsame.1]
    rcases List.mem_append.mp hwmem with hold | hnew
    · exact h.calls_lt w hold x hx cid hcid
    · obtain rfl := List.mem_singleton.mp hnew
      obtain ⟨c, hc, rfl⟩ := hw.conn_of_mem hx hcid
      exact h.cid_lt hc
  case output =>
    intro fd c' hc'
    obtain ⟨c, hc, hcid⟩ := conn_of_same hsame hc'
    -- the calls on this descriptor are the calls on this connection
    have hfilter : (v.calls.filter fun x => x.fd = fd)
        = v.calls.filter fun x => x.conn = some c'.cid := by
      apply List.filter_congr
      intro x hx
      by_cases hfd : x.fd = fd
      · simp [hw.conn x hx, hfd, hc, hcid]
      · have hne : x.conn ≠ some c'.cid := by
          intro heq
          obtain ⟨c0, hc0, hcid0⟩ := hw.conn_of_mem hx heq
          exact hfd (h.cid_inj hc0 hc (by omega))
        simp [hfd, hne]
    have hout := hw.output fd
    rw [Kernel.sock_eq hc', (hsock hc).1, h.output hc, hcid, Kernel.bytesOn, hfilter] at hout
    rw [hout, callsOn_concat, List.flatMap_append]
  case consumed =>
    intro fd c' hc'
    obtain ⟨c, hc, hcid⟩ := conn_of_same hsame hc'
    have hcons := hw.consumed fd
    rw [Kernel.sock_eq hc', (hsock hc).2, h.consumed hc, hheld fd c hc, hcid] at hcons
    rw [hcons, framesFrom_concat]
    simp [noFrame]

end Ledger

/-! ## The broker -/

namespace Broker

/-- The frame in `rbuf`, as long as it is not in the log. -/
def held (s : Broker) (cid : Nat) : List Frame :=
  match s.pc with
  | .handle i _ =>
      match s.nodes[i]? with
      | some cur =>
          if (s.kernel.conns cur.connfd).map Conn.cid = some cid then [frameIn s.rbuf] else []
      | none => []
  | _ => []

/-- A whole frame from node `i` stands in `rbuf`; the node is connected. -/
def Holding (s : Broker) (i : Nat) : Prop :=
  ∃ (cur : PubSubNode) (c : Conn) (rbuf : Bytes) (f : Frame), s.nodes[i]? = some cur ∧
    0 < cur.connfd ∧ s.kernel.conns cur.connfd = some c ∧ s.rbuf = storeFrame rbuf f.head f.body

theorem Holding.node {s : Broker} {i : Nat} (h : s.Holding i) : ∃ cur, s.nodes[i]? = some cur := by
  obtain ⟨cur, -, -, -, hcur, -⟩ := h
  exact ⟨cur, hcur⟩

theorem Holding.rbuf_length {s : Broker} {i : Nat} (h : s.Holding i) :
    protocolCmdHeadLen ≤ s.rbuf.length := by
  obtain ⟨-, -, rbuf, f, -, -, -, hbuf⟩ := h
  exact rbuf_length_of_store hbuf

end Broker

/-- What holds in every run. -/
structure Inv (cfg : Config) (s : Broker) : Prop where
  nodeStart : s.nodeStart = cfg.nodeStart
  sockfd : s.sockfd = cfg.sockfd
  static : staticOf s.nodes = staticOf cfg.nodes
  rset_pos : ∀ i rset, s.pc = .scan i rset ∨ s.pc = .handle i rset → ∀ fd, rset fd = true → 0 < fd
  holding : ∀ i rset, s.pc = .handle i rset → s.Holding i
  ledger : Ledger s.kernel s.log s.held

namespace Inv

variable {cfg : Config} {s s' : Broker}

theorem init (cfg : Config) : Inv cfg cfg.init where
  nodeStart := rfl
  sockfd := rfl
  static := rfl
  rset_pos i rset h := by rcases h with h | h <;> cases h
  holding i rset h := by cases h
  ledger :=
    { conns_pos := fun hc => by cases hc
      cid_lt := fun hc => by cases hc
      cid_inj := fun hc => by cases hc
      visits_lt := fun v hv => by cases hv
      calls_lt := fun v hv => by cases hv
      output := fun hc => by cases hc
      consumed := fun hc => by cases hc }

theorem held_of_pc (h : ∀ i rset, s.pc ≠ .handle i rset) : s.held = noFrame := by
  funext cid
  unfold Broker.held noFrame
  split
  · exact absurd ‹_› (h _ _)
  · rfl

/-- The ledger outside the handling of a frame. -/
theorem ledger_of_pc (h : Inv cfg s) (hpc : ∀ i rset, s.pc ≠ .handle i rset) :
    Ledger s.kernel s.log noFrame := by
  rw [← held_of_pc hpc]
  exact h.ledger

/-- What is left to show of a step that does not end at a frame. -/
theorem after (h : Inv cfg s) {t : Broker} (hstart : t.nodeStart = s.nodeStart)
    (hsock : t.sockfd = s.sockfd) (hstatic : staticOf t.nodes = staticOf s.nodes)
    (hpc : ∀ i rset, t.pc ≠ .handle i rset)
    (hrset : ∀ i rset, t.pc = .scan i rset → ∀ fd, rset fd = true → 0 < fd)
    (hl : Ledger t.kernel t.log noFrame) : Inv cfg t where
  nodeStart := hstart.trans h.nodeStart
  sockfd := hsock.trans h.sockfd
  static := hstatic.trans h.static
  rset_pos i rset hp := by
    rcases hp with hp | hp
    · exact hrset i rset hp
    · exact absurd hp (hpc i rset)
  holding i rset hp := absurd hp (hpc i rset)
  ledger := by
    rw [held_of_pc hpc]
    exact hl

theorem accept (h : Inv cfg s) (hpc : s.pc = .select) {a : Accepted} (ha : a.Valid s) :
    Inv cfg (s.acceptBranch a) := by
  have hl := h.ledger_of_pc (by simp [hpc])
  rw [s.acceptBranch_eq a]
  refine h.after rfl rfl ?_ (by simp [hpc]) (by simp [hpc]) ?_
  · simp only
    split
    · exact staticOf_attach _ _ _
    · rfl
  · simp only
    split
    · rename_i hfd
      exact hl.accept (ha.free hfd).1
    · exact hl

theorem fdSet_pos {fd : Int} (h : s.fdSet fd = true) : 0 < fd := by
  obtain ⟨n, -, hn⟩ := List.any_eq_true.mp h
  simp only [Bool.and_eq_true, decide_eq_true_eq, beq_iff_eq] at hn
  omega

/-- A receive that returns 0 was made on an open connection. -/
theorem conn_of_recv {k : Kernel} {fd : Int} (hfd : 0 ≤ fd)
    (hret : (tcpRecvProtocolCmd (k.sock fd) fd true).ret = 0) : ∃ c, k.conns fd = some c := by
  cases hc : k.conns fd with
  | some c => exact ⟨c, rfl⟩
  | none =>
      have hdead : k.sock fd = Sock.dead := by simp [Kernel.sock, hc]
      have hmoved : (recvTransfer Sock.dead).moved = 0 :=
        transferSeq_stop _ _ (Nat.ne_of_gt protocolCmdHeadLen_pos) rfl
      have hne : 0 ≠ protocolCmdHeadLen + nextLen Sock.dead :=
        Nat.ne_of_lt (Nat.add_pos_left protocolCmdHeadLen_pos _)
      rw [hdead, tcpRecvProtocolCmd_eq _ hfd] at hret
      simp only [hmoved, if_neg hne] at hret
      exact absurd hret (by decide)

/-- A receive that brought a whole frame. -/
theorem got (h : Inv cfg s) {i : Nat} {rset : Int → Bool} (hpc : s.pc = .scan i rset)
    {cur : PubSubNode} (hcur : s.nodes[i]? = some cur) (hfd : 0 ≤ cur.connfd)
    (hset : rset cur.connfd = true)
    (hret : (tcpRecvProtocolCmd (s.kernel.sock cur.connfd) cur.connfd true).ret = 0) :
    Inv cfg { s.received cur with pc := .handle i rset } := by
  have hrset := h.rset_pos i rset (.inl hpc)
  have hl := h.ledger_of_pc (by simp [hpc])
  obtain ⟨c, hc⟩ := conn_of_recv hfd hret
  have hok := tcpRecvProtocolCmd_ok hfd hret
  rw [Kernel.sock_eq hc] at hok
  have hrecv : s.received cur = { s with
      kernel := s.kernel.setSock cur.connfd { c.sock with
        recvs := (recvTransfer c.sock).rest
        input := c.sock.input.drop (nextFrame c.sock).bytes.length
        consumed := c.sock.consumed ++ (nextFrame c.sock).bytes }
      rbuf := storeFrame s.rbuf (nextFrame c.sock).head (nextFrame c.sock).body } := by
    rw [Broker.received, Kernel.sock_eq hc, hok]
  rw [hrecv]
  have hself := fun sock => Kernel.conns_setSock_self (k := s.kernel) sock hc
  constructor
  case nodeStart => exact h.nodeStart
  case sockfd => exact h.sockfd
  case static => exact h.static
  case rset_pos =>
    intro j r hp
    rcases hp with hp | hp <;> cases hp
    exact hrset
  case holding =>
    intro j r hp
    cases hp
    exact ⟨cur, _, s.rbuf, nextFrame c.sock, hcur, hrset _ hset, hself _, rfl⟩
  case ledger =>
    have hheld : ∀ sock : Sock, Broker.held { s with
        kernel := s.kernel.setSock cur.connfd sock
        rbuf := storeFrame s.rbuf (nextFrame c.sock).head (nextFrame c.sock).body
        pc := .handle i rset } = fun cid => if cid = c.cid then [nextFrame c.sock] else [] := by
      intro sock
      funext cid
      simp only [Broker.held, hcur, hself, Option.map_some, frameIn_storeFrame,
        Option.some.injEq, eq_comm (a := c.cid)]
    rw [hheld]
    refine hl.recv hc ?_ ?_
    · rfl
    · rfl

theorem scan (h : Inv cfg s) {i : Nat} {rset : Int → Bool} (hpc : s.pc = .scan i rset) :
    Inv cfg (s.scanNode i rset) := by
  have hrset := h.rset_pos i rset (.inl hpc)
  have hl := h.ledger_of_pc (by simp [hpc])
  have hscan := s.scanned i rset
  generalize s.scanNode i rset = t at hscan ⊢
  cases hscan with
  | done hcur => exact h.after rfl rfl rfl (by simp) (by simp) hl
  | skip hcur _ =>
      refine h.after rfl rfl rfl (by simp) (fun j r hp => ?_) hl
      cases hp
      exact hrset
  | @failed cur hcur hfd hset hret =>
      rw [Broker.closeS_received hcur]
      refine h.after rfl rfl (staticOf_set (-1) hcur) (by simp) (fun j r hp => ?_) ?_
      · cases hp
        exact hrset
      · show Ledger (Broker.closeFd (s.received cur).kernel cur.connfd) s.log noFrame
        rw [Broker.closeFd, if_pos (hrset _ hset), Broker.received, Kernel.close_setSock]
        exact hl.close cur.connfd
  | got hcur hfd hset hret => exact h.got hpc hcur hfd hset hret

/-- The sends of a handled frame write what their calls say. -/
theorem wrote (h : Inv cfg s) {i : Nat} {rset : Int → Bool} (hpc : s.pc = .handle i rset)
    (cur : PubSubNode) :
    Kernel.Wrote s.kernel (s.outgoing i cur).kernel (s.outgoing i cur).calls :=
  Broker.outgoing_wrote (h.holding i rset hpc).rbuf_length i cur

/-- The sends of a handled frame, in the table and in the log. -/
theorem ledger_sent (h : Inv cfg s) {i : Nat} {rset : Int → Bool} (hpc : s.pc = .handle i rset)
    {cur : PubSubNode} (hcur : s.nodes[i]? = some cur) :
    Ledger (s.sent i cur).kernel (s.sent i cur).log noFrame := by
  refine h.ledger.visit (h.wrote hpc cur) ?_ ?_
  · intro cid hcid
    obtain ⟨c, hc, rfl⟩ := Option.map_eq_some_iff.mp hcid
    exact h.ledger.cid_lt hc
  · intro fd c hc
    simp only [Broker.held, hpc, hcur]
    rfl

theorem handle (h : Inv cfg s) {i : Nat} {rset : Int → Bool} (hpc : s.pc = .handle i rset) :
    Inv cfg (s.handleFrame i rset) := by
  have hrset := h.rset_pos i rset (.inr hpc)
  obtain ⟨cur, hcur⟩ := (h.holding i rset hpc).node
  have hl := h.ledger_sent hpc hcur
  rw [Broker.handleFrame_eq hcur]
  split
  · exact h.after rfl rfl rfl (by simp) (by simp) hl
  · have hnext : ∀ j r, Pc.scan (i + 1) rset = .scan j r → ∀ fd, r fd = true → 0 < fd := by
      intro j r hp
      cases hp
      exact hrset
    split
    · exact h.after rfl rfl rfl (by simp) hnext hl
    · -- a failed relay: one node is closed
      rename_i j herr
      obtain ⟨n, hn⟩ := Broker.errnode_some herr
      rw [Broker.closeS_eq (show (s.sent i cur).nodes[j]? = some n from hn)]
      refine h.after rfl rfl (staticOf_set (-1) hn) (by simp) hnext ?_
      show Ledger (Broker.closeFd _ _) _ _
      unfold Broker.closeFd
      split
      · exact hl.close n.connfd
      · exact hl

/-- **Every step keeps the invariant.** -/
theorem step (h : Inv cfg s) {e : Event} (hs : step s e = some s') : Inv cfg s' := by
  cases step_cases hs with
  | dangling hpc _ | selectError hpc _ =>
      exact h.after rfl rfl rfl (by simp) (by simp) (h.ledger_of_pc (by simp [hpc]))
  | timeout => exact h
  | accept hpc _ ha => exact h.accept hpc ha
  | ready hpc _ =>
      refine h.after rfl rfl rfl (by simp) (fun j r hp => ?_) (h.ledger_of_pc (by simp [hpc]))
      cases hp
      intro fd hfd
      simp only [Bool.and_eq_true] at hfd
      exact fdSet_pos hfd.2
  | scan hpc => exact h.scan hpc
  | handle hpc => exact h.handle hpc

end Inv

/-- The log grows by the handling of a frame and in no other way. -/
theorem step_log {cfg : Config} {s s' : Broker} {e : Event} (h : Inv cfg s)
    (hs : step s e = some s') :
    s'.log = s.log ∨ ∃ i rset cur, s.pc = .handle i rset ∧ s.nodes[i]? = some cur ∧
      s'.log = s.log ++ [s.visitOf i cur (s.outgoing i cur).calls] := by
  cases step_cases hs with
  | dangling | selectError | timeout | ready => exact .inl rfl
  | accept =>
      rw [s.acceptBranch_eq]
      exact .inl rfl
  | @scan i rset hpc =>
      have hscan := s.scanned i rset
      generalize s.scanNode i rset = t at hscan ⊢
      cases hscan with
      | done | skip | got => exact .inl rfl
      | failed => exact .inl (Broker.closeS_log _ i)
  | @handle i rset hpc =>
      obtain ⟨cur, hcur⟩ := (h.holding i rset hpc).node
      exact .inr ⟨i, rset, cur, hpc, hcur, Broker.handleFrame_log hcur rset⟩

/-- **Every reachable state satisfies the invariant.** -/
theorem inv_of_reachable {cfg : Config} {ok : Broker → Event → Prop} {s : Broker}
    (h : Reachable cfg ok s) : Inv cfg s :=
  Runs.Reaches.invariant h (Inv.init cfg) fun _ _ _ hinv _ hstep => hinv.step hstep

end Icehydra
