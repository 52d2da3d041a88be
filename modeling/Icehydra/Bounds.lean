import Icehydra.Inbound
import Icehydra.Invariants

/-!
# Bounds — the receive buffer

`rbuf` has MAX_CMD_LEN bytes; the header of an incoming frame says how many
bytes are stored behind it. A receive stays inside the buffer exactly when the
header announces no more than fits, or the peer stops before it is too late.
-/

namespace Icehydra

open Block NonBlock

/-! ## Offsets -/

/-- Where a receive into `rbuf` and `rbuf + PROTOCOL_CMD_HEAD_LEN` stores. -/
def Recvd.offsets (r : Recvd) : List Nat :=
  List.range r.head.length ++ (List.range r.body.length).map (protocolCmdHeadLen + ·)

/-- The next frame on the stream fits behind its header, or does not come in as
far as that. -/
def Contained (s : Sock) : Prop :=
  nextLen s ≤ maxCmdLen - protocolCmdHeadLen ∨
    ¬ Through s.recvs maxTimes [protocolCmdHeadLen, maxCmdLen - protocolCmdHeadLen + 1]

theorem contained_iff (s : Sock) : Contained s ↔ (recvTransfer s).moved ≤ maxCmdLen := by
  have hmax : protocolCmdHeadLen + (maxCmdLen - protocolCmdHeadLen) = maxCmdLen := rfl
  rw [← hmax]
  exact s.room_iff _

/-- A receive stores within `n` bytes behind the header exactly when that is
enough for the next frame. -/
theorem offsets_lt_iff_room {s : Sock} {sockfd : Int} (hfd : 0 ≤ sockfd) (n : Nat) :
    (∀ off ∈ (tcpRecvProtocolCmd s sockfd true).offsets, off < protocolCmdHeadLen + n) ↔
      s.Room n := by
  have hhead : protocolCmdHeadLen = 8 := rfl
  rw [Sock.room_iff, tcpRecvProtocolCmd_eq s hfd]
  simp only [Recvd.offsets, List.mem_append, List.mem_range, List.mem_map, Stream'.length_take]
  constructor
  · intro h
    by_contra hlong
    -- the last byte that came in was stored too far out
    have hlast := h ((recvTransfer s).moved - 1)
      (.inr ⟨(recvTransfer s).moved - 1 - protocolCmdHeadLen, by omega, by omega⟩)
    omega
  · rintro h off (hoff | ⟨j, hj, rfl⟩) <;> omega

theorem offsets_lt_iff {s : Sock} {sockfd : Int} (hfd : 0 ≤ sockfd) :
    (∀ off ∈ (tcpRecvProtocolCmd s sockfd true).offsets, off < maxCmdLen) ↔ Contained s :=
  offsets_lt_iff_room hfd (maxCmdLen - protocolCmdHeadLen)

theorem storeFrame_length {rbuf head body : Bytes} (hlen : rbuf.length = maxCmdLen)
    (hhead : head.length ≤ protocolCmdHeadLen) :
    (storeFrame rbuf head body).length = max maxCmdLen (protocolCmdHeadLen + body.length) := by
  have hz := memzero_length rbuf maxCmdLen
  have h8 := protocolCmdHeadLen_le
  have hb := store_length (memzero rbuf maxCmdLen) 0 head (Nat.zero_le _)
  rw [storeFrame, store_length _ _ _ (by omega)]
  omega

theorem broadcastHead_length {rbuf : Bytes} (h : protocolCmdHeadLen ≤ rbuf.length) :
    (broadcastHead rbuf).length = rbuf.length := by
  rw [broadcastHead_eq h, List.length_append, headBytes_length, List.length_drop]
  omega

namespace Broker

/-! ## One receive -/

/-- The scan at `i` comes to a receive from `cur`. -/
def Receives (s : Broker) (i : Nat) (rset : Int → Bool) (cur : PubSubNode) : Prop :=
  s.pc = .scan i rset ∧ s.nodes[i]? = some cur ∧ 0 ≤ cur.connfd ∧ rset cur.connfd = true

/-- The receive stays inside the buffer, and the frame is either whole or
rejected, in which case the node is removed. -/
structure RecvSafe (s : Broker) (i : Nat) (rset : Int → Bool) (cur : PubSubNode) : Prop where
  bounds : ∀ off ∈ (tcpRecvProtocolCmd (s.kernel.sock cur.connfd) cur.connfd true).offsets,
    off < maxCmdLen
  whole_or_removed :
    ((s.scanNode i rset).pc = .handle i rset ∧
      (tcpRecvProtocolCmd (s.kernel.sock cur.connfd) cur.connfd true).ret = 0) ∨
    ((tcpRecvProtocolCmd (s.kernel.sock cur.connfd) cur.connfd true).ret = -1 ∧
      ∃ n, (s.scanNode i rset).nodes[i]? = some n ∧ n.connfd = -1)

theorem Receives.scanned {s : Broker} {i : Nat} {rset : Int → Bool} {cur : PubSubNode}
    (h : s.Receives i rset cur) :
    (s.scanNode i rset = { s.received cur with pc := .handle i rset } ∧
      (tcpRecvProtocolCmd (s.kernel.sock cur.connfd) cur.connfd true).ret = 0) ∨
    (s.scanNode i rset = { (s.received cur).closeS i with pc := .scan (i + 1) rset } ∧
      (tcpRecvProtocolCmd (s.kernel.sock cur.connfd) cur.connfd true).ret = -1) := by
  obtain ⟨-, hcur, hfd, hset⟩ := h
  have hscan := s.scanned i rset
  generalize s.scanNode i rset = t at hscan ⊢
  cases hscan with
  | done hnone =>
      rw [hcur] at hnone
      cases hnone
  | skip hcur' hskip =>
      rw [hcur] at hcur'
      obtain rfl := Option.some.inj hcur'
      rcases hskip with hneg | hunset
      · exact absurd hfd (Int.not_le.mpr hneg)
      · rw [hset] at hunset
        cases hunset
  | failed hcur' _ _ hret =>
      rw [hcur] at hcur'
      obtain rfl := Option.some.inj hcur'
      exact .inr ⟨rfl, hret⟩
  | got hcur' _ _ hret =>
      rw [hcur] at hcur'
      obtain rfl := Option.some.inj hcur'
      exact .inl ⟨rfl, hret⟩

/-- **One receive** is safe exactly when the frame is contained. -/
theorem Receives.safe_iff {s : Broker} {i : Nat} {rset : Int → Bool} {cur : PubSubNode}
    (h : s.Receives i rset cur) :
    s.RecvSafe i rset cur ↔ Contained (s.kernel.sock cur.connfd) := by
  obtain ⟨-, hcur, hfd, -⟩ := id h
  rw [← offsets_lt_iff hfd]
  refine ⟨RecvSafe.bounds, fun hbounds => ⟨hbounds, ?_⟩⟩
  rcases h.scanned with ⟨hstep, hret⟩ | ⟨hstep, hret⟩
  · exact .inl ⟨by rw [hstep], hret⟩
  · refine .inr ⟨hret, { cur with connfd := -1 }, ?_, rfl⟩
    obtain ⟨hi, -⟩ := List.getElem?_eq_some_iff.mp hcur
    rw [hstep, closeS_received hcur]
    exact List.getElem?_set_self hi

/-! ## Runs -/

/-- Every frame the broker sets out to receive is contained. -/
def ReceivesContained (s : Broker) (_ : Event) : Prop :=
  ∀ i rset cur, s.Receives i rset cur → Contained (s.kernel.sock cur.connfd)

theorem received_rbuf_length {s : Broker} {cur : PubSubNode} (hlen : s.rbuf.length = maxCmdLen)
    (hfd : 0 ≤ cur.connfd) (hc : Contained (s.kernel.sock cur.connfd)) :
    (s.received cur).rbuf.length = maxCmdLen := by
  have hmax : maxCmdLen = 4096 := rfl
  have hhead : protocolCmdHeadLen = 8 := rfl
  rw [contained_iff] at hc
  show (storeFrame s.rbuf _ _).length = _
  rw [tcpRecvProtocolCmd_eq _ hfd]
  simp only
  rw [storeFrame_length hlen (by rw [Stream'.length_take]; omega), Stream'.length_take]
  omega

theorem rbuf_length_step {s s' : Broker} {e : Event} (hlen : s.rbuf.length = maxCmdLen)
    (hok : s.ReceivesContained e) (hs : step s e = some s') : s'.rbuf.length = maxCmdLen := by
  cases step_cases hs with
  | dangling | selectError | timeout | ready => exact hlen
  | accept =>
      rw [s.acceptBranch_eq]
      exact hlen
  | @scan i rset hpc =>
      have hscan := s.scanned i rset
      generalize s.scanNode i rset = t at hscan ⊢
      cases hscan with
      | done | skip => exact hlen
      | failed hcur hfd hset _ =>
          have hgot := received_rbuf_length hlen hfd (hok i rset _ ⟨hpc, hcur, hfd, hset⟩)
          rw [closeS_rbuf]
          exact hgot
      | got hcur hfd hset _ =>
          have hgot := received_rbuf_length hlen hfd (hok i rset _ ⟨hpc, hcur, hfd, hset⟩)
          exact hgot
  | @handle i rset hpc =>
      have h8 : protocolCmdHeadLen ≤ s.rbuf.length := by
        rw [hlen]
        exact protocolCmdHeadLen_le
      have hsent : ∀ cur, (s.sent i cur).rbuf.length = maxCmdLen := by
        intro cur
        show (if Relays s.rbuf then broadcastHead s.rbuf else s.rbuf).length = _
        split
        · rw [broadcastHead_length h8, hlen]
        · exact hlen
      cases hcur : s.nodes[i]? with
      | none =>
          unfold handleFrame
          rw [hcur]
          exact hlen
      | some cur =>
          rw [handleFrame_eq hcur]
          split
          · exact hsent cur
          · split
            · exact hsent cur
            · rw [closeS_rbuf]
              exact hsent cur

/-- **The receive buffer.** In every reachable state a receive is safe exactly
when the frame is contained; in a run of contained frames `rbuf` is never
written past its end. -/
theorem recv_safe_iff_contained (cfg : Config) :
    (∀ s, Reachable cfg Runs.anyStep s → ∀ i rset cur, s.Receives i rset cur →
      (s.RecvSafe i rset cur ↔ Contained (s.kernel.sock cur.connfd))) ∧
    ∀ s, Reachable cfg ReceivesContained s → s.rbuf.length = maxCmdLen := by
  refine ⟨fun s _ i rset cur h => h.safe_iff, fun s hs => ?_⟩
  refine Runs.Reaches.invariant (I := fun s => s.rbuf.length = maxCmdLen) hs ?_ ?_
  · exact List.length_replicate
  · exact fun s e s' hlen hok hstep => rbuf_length_step hlen hok hstep

instance (s : Sock) : Decidable (Contained s) := inferInstanceAs (Decidable (_ ∨ _))

/-- The state in which the broker is about to receive what `a` sends. -/
theorem exists_receives (input : Bytes) {P : Sock → Bool}
    (h : (Runs.run step Runs.unchecked trio.init [.accept (.client 5 [97] (.eager input)), .readyOf [5]]).any
      (fun s => s.pc.scanned.any fun p : Nat × (Int → Bool) => s.nodes[0]?.any fun cur =>
        decide (p.1 = 0) && decide (0 ≤ cur.connfd) && p.2 cur.connfd &&
          P (s.kernel.sock cur.connfd)) = true) :
    ∃ s, Reachable trio Runs.anyStep s ∧ ∃ rset cur, s.Receives 0 rset cur ∧
      P (s.kernel.sock cur.connfd) = true := by
  obtain ⟨s, hs, hP⟩ := Runs.Reaches.of_run_unchecked h
  simp only [Option.any_eq_true, Bool.and_eq_true, decide_eq_true_eq] at hP
  obtain ⟨⟨i, rset⟩, hpc, cur, hcur, ⟨⟨rfl, hfd⟩, hset⟩, hsock⟩ := hP
  exact ⟨s, hs, rset, cur, ⟨Pc.eq_scan hpc, hcur, hfd, hset⟩, hsock⟩

/-- A frame of two bytes is received safely. -/
theorem recv_safe_two :
    ∃ s, Reachable trio Runs.anyStep s ∧ ∃ rset cur, s.Receives 0 rset cur ∧
      s.RecvSafe 0 rset cur := by
  obtain ⟨s, hs, rset, cur, hrecv, hc⟩ := exists_receives [73, 72, 2, 0, 1, 188, 0, 0, 104, 105]
    (P := fun sock => decide (Contained sock)) (by decide +kernel)
  exact ⟨s, hs, rset, cur, hrecv,
    ((recv_safe_iff_contained trio).1 s hs 0 rset cur hrecv).mpr (by simpa using hc)⟩

/-- **A header that announces 4089 bytes**, one more than fits: the last of them
is stored behind the buffer. -/
theorem recv_overruns :
    ∃ s, Reachable trio Runs.anyStep s ∧ ∃ rset cur, s.Receives 0 rset cur ∧
      (∃ off ∈ (tcpRecvProtocolCmd (s.kernel.sock cur.connfd) cur.connfd true).offsets,
        maxCmdLen ≤ off) ∧ ¬ s.RecvSafe 0 rset cur := by
  obtain ⟨s, hs, rset, cur, hrecv, hc⟩ := exists_receives [73, 72, 249, 15, 1, 188, 0, 0]
    (P := fun sock => decide (¬ Contained sock)) (by decide +kernel)
  have hout : ¬ Contained (s.kernel.sock cur.connfd) := by simpa using hc
  refine ⟨s, hs, rset, cur, hrecv, ?_, fun hsafe => hout (hrecv.safe_iff.mp hsafe)⟩
  have hbounds := mt (offsets_lt_iff hrecv.2.2.1).mp hout
  simpa using hbounds

end Broker

end Icehydra
