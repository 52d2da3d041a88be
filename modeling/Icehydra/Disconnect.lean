import Icehydra.Attachment

/-!
# Disconnect — clients that go away

A client that has closed its end is noticed by the next receive from it, which
removes its node, or by the next send to it, which raises SIGPIPE. The first is
harmless; nothing keeps the broker from the second.
-/

namespace Icehydra

open Block NonBlock

namespace Broker

/-! ## What a disconnect can do -/

/-- The node's own connection failed in the step from `s`: a receive from it
fell short, or it is the first recipient whose send failed. -/
def Failed (s : Broker) (j : Nat) : Prop :=
  (∃ rset cur, s.Receives j rset cur ∧
    ¬ Through (s.kernel.sock cur.connfd).recvs maxTimes
      [protocolCmdHeadLen, nextLen (s.kernel.sock cur.connfd)]) ∨
  ∃ i rset a, s.pc = .handle i rset ∧ Relays s.rbuf ∧ s.firstFailure = some a ∧ a.target.2 = j

/-- No send of the step meets EPIPE, and a recipient whose send fails otherwise
is the first node with its id. -/
structure NoBrokenPipe (s : Broker) (_ : Event) : Prop where
  relay : ∀ i rset a, s.pc = .handle i rset → Relays s.rbuf → s.firstFailure = some a →
    a.ret ≠ .killed ∧ findNodeById s.nodes a.target.1.id = some a.target.2
  reply : ∀ i rset cur buf data, s.pc = .handle i rset → s.nodes[i]? = some cur →
    getProtocolCmdType s.rbuf = ihCmdTypeSendReserve →
    replyBuf s.nodeStart s.rbuf = some (buf, some data) →
      (s.kernel.sendTransfer cur.connfd buf).why ≠ some .sigpipe

theorem NoBrokenPipe.not_killed {s : Broker} {e : Event} (hok : s.NoBrokenPipe e) {i : Nat}
    {rset : Int → Bool} (hpc : s.pc = .handle i rset) {cur : PubSubNode}
    (hcur : s.nodes[i]? = some cur) (hlen : protocolCmdHeadLen ≤ s.rbuf.length) :
    (s.outgoing i cur).ret ≠ .killed := by
  intro hkilled
  by_cases hrel : Relays s.rbuf
  · rw [outgoing_ret hrel hlen] at hkilled
    cases hf : s.firstFailure with
    | none =>
        rw [hf] at hkilled
        cases hkilled
    | some a =>
        rw [hf] at hkilled
        simp only [Option.map_some, Option.getD_some, Attempt.exit] at hkilled
        rw [if_neg (hok.relay i rset a hpc hrel hf).1] at hkilled
        cases hkilled
  · unfold outgoing at hkilled
    split at hkilled
    · rename_i hr
      rw [parserReserveCmd_eq] at hkilled
      split at hkilled
      · cases hkilled
      · rename_i buf data hreply
        obtain ⟨d, rfl, -, hwhy⟩ := Kernel.send_killed hkilled
        exact hok.reply i rset cur buf d hpc hcur hr hreply hwhy
    · rename_i hr
      split at hkilled
      · cases hkilled
      · rename_i hs
        exact hrel ⟨hr, hs⟩

theorem isPeer_inj {name name' un : Bytes} (h : isPeer name un = true) (h' : isPeer name' un = true) :
    name = name' := by
  simp only [isPeer, Bool.and_eq_true, beq_iff_eq] at h h'
  rw [← h.1, ← h'.1, h.2, h'.2]

/-- The nodes of one descriptor have one name. -/
theorem Attached.name_eq {s : Broker} (h : s.Attached) {n n' : PubSubNode} (hn : n ∈ s.nodes)
    (hn' : n' ∈ s.nodes) (hpos : 0 < n.connfd) (heq : n'.connfd = n.connfd) : n'.name = n.name := by
  obtain ⟨j, hj⟩ := List.mem_iff_getElem?.mp hn
  obtain ⟨j', hj'⟩ := List.mem_iff_getElem?.mp hn'
  obtain ⟨cid, un, hid, hpeer⟩ := h j n hj hpos
  obtain ⟨cid', un', hid', hpeer'⟩ := h j' n' hj' (by omega)
  rw [heq, hid] at hid'
  obtain ⟨-, rfl⟩ := Prod.mk.inj (Option.some.inj hid')
  exact isPeer_inj hpeer' hpeer

/-- With distinct names a descriptor belongs to one node. -/
theorem Attached.alone {s : Broker} (h : s.Attached)
    (hnames : (s.nodes.map PubSubNode.name).Nodup) (j : Nat) : s.Alone j := by
  intro j' n n' hn hn' hpos heq
  have hname : (s.nodes.map PubSubNode.name)[j']? = (s.nodes.map PubSubNode.name)[j]? := by
    rw [List.getElem?_map, List.getElem?_map, hn, hn']
    exact congrArg some (h.name_eq (List.mem_of_getElem? hn) (List.mem_of_getElem? hn') hpos heq)
  obtain ⟨hlt, -⟩ := List.getElem?_eq_some_iff.mp hn'
  exact (List.getElem?_inj (by rwa [List.length_map]) hnames).mp hname

theorem Attached.not_dangling {s : Broker} (h : s.Attached) : s.dangling = false := by
  rw [dangling, List.any_eq_false]
  intro n hn hbad
  simp only [Bool.and_eq_true, decide_eq_true_eq] at hbad
  obtain ⟨j, hj⟩ := List.mem_iff_getElem?.mp hn
  obtain ⟨cid, un, hid, -⟩ := h j n hj hbad.1
  obtain ⟨c, hc, -⟩ := Kernel.conns_of_ident hid
  rw [hc] at hbad
  cases hbad.2

theorem names_nodup {cfg : Config} {s : Broker} (hinv : Inv cfg s)
    (hnames : (cfg.nodes.map PubSubNode.name).Nodup) : (s.nodes.map PubSubNode.name).Nodup := by
  have hmap : ∀ nodes : List PubSubNode,
      nodes.map PubSubNode.name = (staticOf nodes).map Prod.fst := by
    intro nodes
    rw [staticOf, List.map_map]
    rfl
  rwa [hmap, hinv.static, ← hmap]

/-- The broker has not been ended by a client. -/
structure Alive (s : Broker) : Prop where
  not_sigpipe : s.pc ≠ .exited .sigpipe
  not_badDescriptor : s.pc ≠ .exited .badDescriptor

theorem Alive.step {cfg : Config} {s s' : Broker} {e : Event} (hinv : Inv cfg s)
    (hatt : s.Attached) (hok : s.NoBrokenPipe e) (hs : Icehydra.step s e = some s') : s'.Alive := by
  cases step_cases hs with
  | dangling _ hd =>
      rw [hatt.not_dangling] at hd
      cases hd
  | selectError => exact ⟨by simp, by simp⟩
  | timeout hpc => exact ⟨by simp [hpc], by simp [hpc]⟩
  | ready => exact ⟨by simp, by simp⟩
  | accept hpc =>
      rw [s.acceptBranch_eq]
      exact ⟨by simp [hpc], by simp [hpc]⟩
  | @scan i rset hpc =>
      have hscan := s.scanned i rset
      generalize s.scanNode i rset = t at hscan ⊢
      cases hscan with
      | done | skip | failed | got => exact ⟨by simp, by simp⟩
  | @handle i rset hpc =>
      have hhold := hinv.holding i rset hpc
      obtain ⟨cur, hcur⟩ := hhold.node
      rw [handleFrame_eq hcur, if_neg (hok.not_killed hpc hcur hhold.rbuf_length)]
      split <;> exact ⟨by simp, by simp⟩

/-- **What a disconnect can do.** With distinct names, in a run in which no send
meets EPIPE, the broker is never ended by a client, and a step that is no accept
changes no node but the one whose own connection failed, to -1. -/
theorem disconnect_contained (cfg : Config) (hnames : (cfg.nodes.map PubSubNode.name).Nodup)
    (s : Broker) (h : Reachable cfg NoBrokenPipe s) :
    s.Alive ∧ ∀ e s', s.NoBrokenPipe e → step s e = some s' → (∀ a, e ≠ .accept a) →
      ∀ (j : Nat) (n : PubSubNode), s.nodes[j]? = some n →
        ∃ n', s'.nodes[j]? = some n' ∧
          (n'.connfd = n.connfd ∨ (n'.connfd = -1 ∧ s.Failed j)) := by
  have hrun : s.Attached ∧ s.Alive := by
    refine Runs.Reaches.invariant_of (J := Inv cfg) (I := fun s => s.Attached ∧ s.Alive) h
      (fun t ht => inv_of_reachable ht)
      ⟨attached_init cfg, ⟨by simp [Config.init], by simp [Config.init]⟩⟩ ?_
    rintro s e s' hinv ⟨hatt, -⟩ hok hstep
    refine ⟨hatt.step (fun j _ => hatt.alone (names_nodup hinv hnames) j)
      (step_change hinv hstep), Alive.step hinv hatt hok hstep⟩
  refine ⟨hrun.2, fun e s' hok hstep hacc j n hn => ?_⟩
  have hinv := inv_of_reachable h
  cases step_change hinv hstep with
  | same hnodes => exact ⟨n, by rw [hnodes, hn], .inl rfl⟩
  | @closed _ _ k m hclose hk hnodes hident =>
      by_cases hjk : j = k
      · subst hjk
        obtain ⟨hlt, -⟩ := List.getElem?_eq_some_iff.mp hk
        refine ⟨{ m with connfd := -1 }, by rw [hnodes, List.getElem?_set_self hlt], .inr ⟨rfl, ?_⟩⟩
        rcases hclose with hrecv | ⟨i, rset, a, hpc, hrel, hf, -, hfind⟩
        · exact .inl hrecv
        · rw [(hok.relay i rset a hpc hrel hf).2] at hfind
          exact .inr ⟨i, rset, a, hpc, hrel, hf, Option.some.inj hfind⟩
      · exact ⟨n, by rw [hnodes, List.getElem?_set_ne (Ne.symm hjk), hn], .inl rfl⟩
  | accepted => exact absurd rfl (hacc _)

/-- A check that is enough for `NoBrokenPipe`: a frame is relayed, and no send of
the relay fails. -/
def checkPipe (s : Broker) (_ : Event) : Bool :=
  match s.pc with
  | .handle _ _ =>
      decide (getProtocolCmdType s.rbuf ≠ ihCmdTypeSendReserve) &&
        decide (∀ a ∈ relayAttempts s.kernel s.nodes s.rbuf, a.Ok)
  | _ => true

theorem noBrokenPipe_of_check (s : Broker) (e : Event) (h : s.checkPipe e = true) :
    s.NoBrokenPipe e := by
  constructor
  · intro i rset a hpc _ hf
    simp only [checkPipe, hpc, Bool.and_eq_true, decide_eq_true_eq] at h
    obtain ⟨hmem, hfail⟩ := firstFailure_mem hf
    exact absurd (h.2 a hmem) hfail
  · intro i rset cur buf data hpc _ htype _
    simp only [checkPipe, hpc, Bool.and_eq_true, decide_eq_true_eq] at h
    exact absurd htype h.1

/-- `c` sends to `b` and disconnects; in the step in which the broker sees it, only
`c` is set to -1. -/
theorem disconnect_contained_pair :
    ∃ s s', Reachable trio NoBrokenPipe s ∧ s.Alive ∧ step s .next = some s' ∧
      s.nodes.map PubSubNode.connfd = [0, 5, 6] ∧ s'.nodes.map PubSubNode.connfd = [0, 5, -1] ∧
      ∀ (j : Nat) (n : PubSubNode), s.nodes[j]? = some n →
        ∃ n', s'.nodes[j]? = some n' ∧
          (n'.connfd = n.connfd ∨ (n'.connfd = -1 ∧ s.Failed j)) := by
  let f := Frame.ofFields 1 188 1 0 [2, 0, 0, 0, 104] (by decide)
  let leaving : Sock := { Sock.eager f.bytes with
    recvs := [.moved 7, .moved 4] ++ₛ Stream'.const (.stop .zero) }
  have hrun : (Runs.run step checkPipe trio.init
      [.accept (.client 5 [98] (.eager [])), .accept (.client 6 [99] leaving),
        .readyOf [6], .next, .next, .next, .next, .next,
        .readyOf [6], .next, .next]).any
      (fun s => s.checkPipe .next && decide (s.nodes.map PubSubNode.connfd = [0, 5, 6]) &&
        (step s .next).any fun s' => decide (s'.nodes.map PubSubNode.connfd = [0, 5, -1])) = true := by
    decide +kernel
  obtain ⟨s, hs, hP⟩ := Runs.Reaches.of_run noBrokenPipe_of_check hrun
  simp only [Bool.and_eq_true, decide_eq_true_eq, Option.any_eq_true] at hP
  obtain ⟨⟨hcheck, hbefore⟩, s', hstep, hafter⟩ := hP
  obtain ⟨halive, hcontained⟩ := disconnect_contained trio (by decide) s hs
  exact ⟨s, s', hs, halive, hstep, hbefore, hafter,
    hcontained .next s' (noBrokenPipe_of_check s .next hcheck) hstep fun _ h => nomatch h⟩

/-- **A disconnect ends the broker.** `a` has gone; before its node is scanned
again, `c` sends to it, and SIGPIPE ends the process. -/
theorem disconnect_kills :
    (trio.nodes.map PubSubNode.name).Nodup ∧
      ∃ s, Reachable trio Runs.anyStep s ∧ s.pc = .exited .sigpipe := by
  let f := Frame.ofFields 1 188 1 0 [1, 0, 0, 0, 104] (by decide)
  let gone : Sock := { Sock.eager [] with
    recvs := Stream'.const (.stop .zero)
    sends := Stream'.const (.stop .sigpipe) }
  have hrun : (Runs.run step Runs.unchecked trio.init
      [.accept (.client 5 [97] gone), .accept (.client 6 [99] (.eager f.bytes)),
        .readyOf [6], .next, .next, .next, .next]).any
      (fun s => decide (s.pc.exit = some .sigpipe)) = true := by decide +kernel
  obtain ⟨s, hs, hP⟩ := Runs.Reaches.of_run_unchecked hrun
  exact ⟨by decide, s, hs, Pc.eq_exited (of_decide_eq_true hP)⟩

end Broker

end Icehydra
