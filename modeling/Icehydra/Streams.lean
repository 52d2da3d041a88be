import Icehydra.Attachment

/-!
# Streams — what the broker's output streams look like

Every send is given one frame, and may leave it incomplete. The relay closes
the node whose send failed; the result of `parser_reserve_cmd` is looked at by
nobody, and a reply that was cut off stays open for more.
-/

namespace Icehydra

open Block NonBlock

/-! ## Frames on a stream -/

/-- The frame a send is given. -/
def frameGiven (cmdHead data : Bytes) : Frame where
  head := peek cmdHead 0 protocolCmdHeadLen
  body := peek data 0 (getProtocolBodyLen cmdHead)
  head_length := head_peek_length cmdHead
  body_length := by
    rw [peek_length, getProtocolBodyLen_peek]

/-- The call was given one frame and wrote a prefix of it. -/
def Call.OfFrame (c : Call) : Prop := (∃ f : Frame, c.frame = f.bytes) ∧ c.bytes <+: c.frame

/-- What these calls wrote is the frames of those that completed, in order, and
behind them at most the part that the last call got out. -/
def Framed (calls : List Call) : Prop :=
  ∃ (fs : List Frame) (rest : Bytes),
    calls.flatMap Call.bytes = fs.flatMap Frame.bytes ++ rest ∧
      fs.map Frame.bytes = (calls.filter fun c => c.Complete).map Call.frame ∧
      (rest = [] ∨ ∃ c, calls.getLast? = some c ∧ c.Cut ∧ rest = c.bytes)

/-- A cut call has no call behind it. -/
def CutLast (calls : List Call) : Prop := calls.Pairwise fun c _ => ¬ c.Cut

theorem Call.not_cut_iff {c : Call} : ¬ c.Cut ↔ c.bytes = [] ∨ c.Complete := by
  unfold Call.Cut Call.Complete
  tauto

theorem CutLast.of_not_cut {calls : List Call} (h : ∀ c ∈ calls, ¬ c.Cut) : CutLast calls :=
  List.pairwise_of_forall_mem_list fun c hc _ _ => h c hc

theorem cutLast_append {old new : List Call} (h : ∀ c ∈ old, ¬ c.Cut) (hnew : CutLast new) :
    CutLast (old ++ new) :=
  List.pairwise_append.mpr ⟨CutLast.of_not_cut h, hnew, fun c hc _ _ => h c hc⟩

theorem CutLast.eq_nil {pre post : List Call} {c : Call} (h : CutLast (pre ++ c :: post))
    (hcut : c.Cut) : post = [] := by
  obtain ⟨-, hpost, -⟩ := List.pairwise_append.mp h
  apply List.eq_nil_iff_forall_not_mem.mpr
  intro d hd
  exact (List.pairwise_cons.mp hpost).1 d hd hcut

theorem CutLast.framed {calls : List Call} (hframe : ∀ c ∈ calls, c.OfFrame)
    (h : CutLast calls) : Framed calls := by
  induction calls with
  | nil => exact ⟨[], [], rfl, rfl, .inl rfl⟩
  | cons c calls ih =>
      obtain ⟨⟨f, hf⟩, -⟩ := hframe c List.mem_cons_self
      by_cases hcut : c.Cut
      · -- the end of the stream
        obtain rfl : calls = [] := CutLast.eq_nil (show CutLast ([] ++ c :: calls) from h) hcut
        have hnot : ¬ c.Complete := hcut.2
        refine ⟨[], c.bytes, by simp, by simp [hnot], .inr ⟨c, rfl, hcut, rfl⟩⟩
      · obtain ⟨fs, rest, hbytes, hfs, hrest⟩ :=
          ih (fun d hd => hframe d (List.mem_cons_of_mem _ hd)) (List.pairwise_cons.mp h).2
        have hlast : rest = [] ∨ ∃ d, (c :: calls).getLast? = some d ∧ d.Cut ∧ rest = d.bytes := by
          rcases hrest with hnil | ⟨d, hd, hdcut, heq⟩
          · exact .inl hnil
          · refine .inr ⟨d, ?_, hdcut, heq⟩
            rw [List.getLast?_cons, hd]
            rfl
        by_cases hall : c.Complete
        · refine ⟨f :: fs, rest, ?_, ?_, hlast⟩
          · rw [List.flatMap_cons, List.flatMap_cons, hbytes, show c.bytes = f.bytes from
              hall.trans hf, List.append_assoc]
          · rw [List.filter_cons_of_pos (by simpa using hall), List.map_cons, List.map_cons, hfs,
              hf]
        · have hnil : c.bytes = [] := (Call.not_cut_iff.mp hcut).resolve_right hall
          refine ⟨fs, rest, ?_, ?_, hlast⟩
          · rw [List.flatMap_cons, hnil, List.nil_append, hbytes]
          · rw [List.filter_cons_of_neg (by simpa using hall), hfs]

/-! ## The calls of one handled frame -/

theorem Kernel.send_calls_eq {k : Kernel} {node : Nat} {fd : Int} {cmdHead data : Bytes} {c : Call}
    (hc : c ∈ (k.send node fd cmdHead (some data)).calls) :
    (k.send node fd cmdHead (some data)).calls = [c] ∧
      c.bytes = (frameOf cmdHead data).take (k.sendTransfer fd cmdHead).moved := by
  by_cases hfd : fd < 0
  · rw [k.send_closed node cmdHead (some data) hfd] at hc
    cases hc
  · rw [k.send_eq node cmdHead data (Int.not_lt.mp hfd)] at hc ⊢
    obtain rfl := List.mem_singleton.mp hc
    exact ⟨rfl, rfl⟩

namespace Broker

/-- **A call that falls short ends the sends of its frame**: it is the reply, or
it belongs to the first recipient whose send fails. -/
theorem outgoing_cut {s : Broker} (hlen : protocolCmdHeadLen ≤ s.rbuf.length) (i : Nat)
    (cur : PubSubNode) :
    (∀ c ∈ (s.outgoing i cur).calls, c.Complete) ∨
      ∃ pre c, (s.outgoing i cur).calls = pre ++ [c] ∧ (∀ x ∈ pre, x.Complete) ∧
        ((∃ buf data, s.Replies buf data ∧
            s.outgoing i cur = s.kernel.send i cur.connfd buf (some data)) ∨
          (Relays s.rbuf ∧ ∃ a, s.firstFailure = some a ∧ c ∈ a.calls)) := by
  by_cases hrel : Relays s.rbuf
  · rw [outgoing_calls hrel hlen]
    have hspec := fun a => mem_relayAttempts (a := a) s.kernel s.nodes hlen
    rcases upToFailure_split (relayAttempts s.kernel s.nodes s.rbuf) with
      hall | ⟨pre, a, post, heq, hpre, hfail, hup, hfind⟩
    · left
      intro c hc
      obtain ⟨a, ha, hca⟩ := List.mem_flatMap.mp hc
      have ha' := mem_of_mem_upToFailure ha
      exact (hspec a ha').2.2.1.mp (hall a ha') c hca
    · have ha : a ∈ relayAttempts s.kernel s.nodes s.rbuf := by simp [heq]
      obtain ⟨-, k', -, hcalls, -⟩ := mem_attempts ha
      -- a failed attempt made a call, and no second one
      obtain ⟨c, hca⟩ : ∃ c, c ∈ a.calls := by
        apply List.exists_mem_of_ne_nil
        intro hnil
        refine hfail ((hspec a ha).2.2.1.mpr fun c hc => ?_)
        rw [hnil] at hc
        cases hc
      have hone : a.calls = [c] := by
        rw [hcalls] at hca ⊢
        exact (Kernel.send_calls_eq hca).1
      refine .inr ⟨pre.flatMap Attempt.calls, c, ?_, fun x hx => ?_, .inr ⟨hrel, a, hfind, hca⟩⟩
      · rw [hup, List.flatMap_append, List.flatMap_singleton, hone]
      · obtain ⟨b, hb, hxb⟩ := List.mem_flatMap.mp hx
        have hb' : b ∈ relayAttempts s.kernel s.nodes s.rbuf := by simp [heq, hb]
        exact (hspec b hb').2.2.1.mp (hpre b hb) x hxb
  · cases hcs : (s.outgoing i cur).calls with
    | nil => exact .inl (by simp)
    | cons c cs =>
        have hc : c ∈ (s.outgoing i cur).calls := by simp [hcs]
        obtain ⟨buf, data, hreply, hout⟩ := outgoing_reply hrel hc
        have hone : (s.outgoing i cur).calls = [c] := by
          rw [hout] at hc ⊢
          exact (Kernel.send_calls_eq hc).1
        refine .inr ⟨[], c, by rw [← hcs, hone]; rfl, by simp, .inl ⟨buf, data, hreply, hout⟩⟩

theorem outgoing_cutLast {s : Broker} (hlen : protocolCmdHeadLen ≤ s.rbuf.length) (i : Nat)
    (cur : PubSubNode) : CutLast (s.outgoing i cur).calls := by
  rcases outgoing_cut hlen i cur with hall | ⟨pre, c, heq, hpre, -⟩
  · exact CutLast.of_not_cut fun c hc hcut => hcut.2 (hall c hc)
  · rw [heq]
    exact cutLast_append (fun x hx hcut => hcut.2 (hpre x hx)) (List.pairwise_singleton ..)

theorem outgoing_ofFrame {s : Broker} (hlen : protocolCmdHeadLen ≤ s.rbuf.length) {i : Nat}
    {cur : PubSubNode} {c : Call} (hc : c ∈ (s.outgoing i cur).calls) : c.OfFrame := by
  by_cases hrel : Relays s.rbuf
  · rw [outgoing_relay hrel] at hc
    obtain ⟨-, -, -, -, -, hframe, hpre⟩ := mem_broadcastCmd_calls _ _ hlen hc
    exact ⟨⟨_, hframe⟩, hpre⟩
  · obtain ⟨buf, data, -, hout⟩ := outgoing_reply hrel hc
    rw [hout] at hc
    obtain ⟨d, -, -, -, -, -, hframe, hpre⟩ := Kernel.send_calls hc
    exact ⟨⟨frameGiven buf d, hframe⟩, hpre⟩

end Broker

/-! ## Open connections -/

/-- Some descriptor stands for the connection. -/
def Kernel.Open (k : Kernel) (cid : Nat) : Prop := ∃ fd c, k.conns fd = some c ∧ c.cid = cid

theorem Kernel.open_iff {k : Kernel} {cid : Nat} :
    k.Open cid ↔ ∃ fd un, k.ident fd = some (cid, un) := by
  constructor
  · rintro ⟨fd, c, hc, rfl⟩
    exact ⟨fd, c.un, Kernel.ident_eq hc⟩
  · rintro ⟨fd, un, hid⟩
    obtain ⟨c, hc, hcid, -⟩ := Kernel.conns_of_ident hid
    exact ⟨fd, c, hc, hcid⟩

namespace Broker

/-- A closed connection is never open again. -/
theorem Change.open_of {s s' : Broker} {e : Event} (h : s.Change e s') {cid : Nat}
    (hlt : cid < s.kernel.nextCid) (ho : s'.kernel.Open cid) : s.kernel.Open cid := by
  rw [Kernel.open_iff] at ho ⊢
  obtain ⟨fd, un, hid⟩ := ho
  cases h with
  | same _ hsame => exact ⟨fd, un, by rw [← hsame.2 fd, hid]⟩
  | closed _ _ _ hident =>
      rw [hident] at hid
      split at hid
      · cases hid
      · exact ⟨fd, un, hid⟩
  | @accepted a =>
      rw [s.acceptBranch_eq a] at hid
      simp only at hid
      split at hid
      · rw [Kernel.ident_accept] at hid
        split at hid
        · cases hid
          exact absurd hlt (Nat.lt_irrefl _)
        · exact ⟨fd, un, hid⟩
      · exact ⟨fd, un, hid⟩

theorem not_exited_of_step {s s' : Broker} {e : Event} (h : step s e = some s') (why : Exit) :
    s.pc ≠ .exited why := by
  intro hpc
  simp [step, hpc] at h

/-- Every send that leaves a frame incomplete ends the process or is noticed: a
reply goes out as a whole or not at all, and where a recipient's frame is cut
the first node with its id holds its descriptor. -/
structure KeepsFraming (s : Broker) (_ : Event) : Prop where
  reply : ∀ i rset cur buf data, s.pc = .handle i rset → s.nodes[i]? = some cur →
    s.Replies buf data →
      let t := s.kernel.sendTransfer cur.connfd buf
      t.moved = 0 ∨ t.moved = protocolCmdHeadLen + getProtocolBodyLen buf ∨ t.why = some .sigpipe
  relay : ∀ i rset a, s.pc = .handle i rset → Relays s.rbuf → s.firstFailure = some a →
    a.ret ≠ .killed → (∃ c ∈ a.calls, c.bytes ≠ []) →
      ∃ j n, findNodeById s.nodes a.target.1.id = some j ∧ s.nodes[j]? = some n ∧
        n.connfd = a.target.1.connfd

section Handled

variable {cfg : Config} {s : Broker} (hinv : Inv cfg s) {i : Nat} {rset : Int → Bool}
  (hpc : s.pc = .handle i rset) {cur : PubSubNode} (hcur : s.nodes[i]? = some cur)

include hinv hpc hcur

/-- After a relay that closed the node, its connection is closed. -/
theorem not_open_of_errnode (hret : (s.outgoing i cur).ret ≠ .killed) {j : Nat}
    (herr : s.errnode = some j) {n : PubSubNode} (hn : s.nodes[j]? = some n) {c : Conn}
    (hc : s.kernel.conns n.connfd = some c) : ¬ (s.handleFrame i rset).kernel.Open c.cid := by
  have hsame := (hinv.wrote hpc cur).sameConns
  rw [handleFrame_eq hcur, if_neg hret, herr]
  show ¬ ((s.sent i cur).closeS j).kernel.Open c.cid
  rw [closeS_eq (show (s.sent i cur).nodes[j]? = some n from hn)]
  show ¬ (closeFd (s.outgoing i cur).kernel n.connfd).Open c.cid
  rw [closeFd, if_pos (hinv.ledger.conns_pos hc)]
  rintro ⟨fd, c', hc', hcid⟩
  by_cases hfd : fd = n.connfd
  · rw [hfd, Kernel.conns_close_self] at hc'
    cases hc'
  · rw [Kernel.conns_close_of_ne _ hfd] at hc'
    obtain ⟨c0, hc0, hcid0⟩ := Ledger.conn_of_same hsame hc'
    exact hfd (hinv.ledger.cid_inj hc0 hc (hcid0.trans hcid))

omit hinv in
/-- A reply that is cut ends the process. -/
theorem killed_of_cut_reply {e : Event} (hok : s.KeepsFraming e) {buf data : Bytes}
    (hreply : s.Replies buf data)
    (hout : s.outgoing i cur = s.kernel.send i cur.connfd buf (some data)) {c : Call}
    (hc : c ∈ (s.outgoing i cur).calls) (hcut : c.Cut) : (s.outgoing i cur).ret = .killed := by
  rw [hout] at hc ⊢
  obtain ⟨d, hd, hfd, -, -, -, hframe, -⟩ := Kernel.send_calls hc
  obtain rfl := Option.some.inj hd
  have hbytes := (Kernel.send_calls_eq hc).2
  rw [s.kernel.send_eq i buf data hfd]
  rcases hok.reply i rset cur buf data hpc hcur hreply with hz | hfull | hwhy
  · -- nothing was written
    rw [hz, List.take_zero] at hbytes
    exact absurd hbytes hcut.1
  · -- all of it was
    rw [hfull, ← frameOf_length buf data, List.take_length] at hbytes
    exact absurd (hbytes.trans hframe.symm) hcut.2
  · exact if_pos hwhy

/-- A relay that is cut ends the process, or the connection is closed. -/
theorem closed_of_cut_relay {e : Event} (hok : s.KeepsFraming e) (hrel : Relays s.rbuf)
    {a : Attempt} (hf : s.firstFailure = some a) {c : Call} (hca : c ∈ a.calls) (hcut : c.Cut)
    {cid : Nat} (hconn : c.conn = some cid) :
    ¬ (s.handleFrame i rset).kernel.Open cid ∨ (s.outgoing i cur).ret = .killed := by
  have hlen := (hinv.holding i rset hpc).rbuf_length
  have hexit := outgoing_ret hrel hlen i cur
  rw [hf, Option.map_some, Option.getD_some, Attempt.exit] at hexit
  by_cases hret : a.ret = .killed
  · rw [if_pos hret] at hexit
    exact .inr hexit
  · left
    rw [if_neg hret] at hexit
    obtain ⟨j, n, hfind, hn, hfd⟩ := hok.relay i rset a hpc hrel hf hret ⟨c, hca, hcut.1⟩
    have herr : s.errnode = some j := by
      rw [errnode_eq hrel hlen (id_ne_zero hinv), hf]
      simp only [if_neg hret, hfind]
    have hnot : (s.outgoing i cur).ret ≠ .killed := by
      rw [hexit]
      simp
    obtain ⟨-, -, -, -, hspec⟩ := mem_relayAttempts _ _ hlen (firstFailure_mem hf).1
    obtain ⟨-, -, hcfd, hcconn, -⟩ := hspec c hca
    rw [hconn, hcfd, ← hfd] at hcconn
    obtain ⟨conn, hconn', rfl⟩ := Option.map_eq_some_iff.mp hcconn.symm
    exact not_open_of_errnode hinv hpc hcur hnot herr hn hconn'

/-- **A cut is the end of its connection.** -/
theorem closed_of_cut {e : Event} (hok : s.KeepsFraming e) {c : Call}
    (hc : c ∈ (s.outgoing i cur).calls) (hcut : c.Cut) {cid : Nat} (hconn : c.conn = some cid) :
    ¬ (s.handleFrame i rset).kernel.Open cid ∨
      (s.handleFrame i rset).pc = .exited .sigpipe := by
  have hkilled : (s.outgoing i cur).ret = .killed →
      (s.handleFrame i rset).pc = .exited .sigpipe := by
    intro h
    rw [handleFrame_eq hcur, if_pos h]
  rcases outgoing_cut (hinv.holding i rset hpc).rbuf_length i cur with
    hall | ⟨pre, c', heq, hpre, hsrc⟩
  · exact absurd (hall c hc) hcut.2
  · obtain rfl : c = c' := by
      rw [heq] at hc
      rcases List.mem_append.mp hc with hmem | hmem
      · exact absurd (hpre c hmem) hcut.2
      · exact List.mem_singleton.mp hmem
    rcases hsrc with ⟨buf, data, hreply, hout⟩ | ⟨hrel, a, hf, hca⟩
    · exact .inr (hkilled (killed_of_cut_reply hpc hcur hok hreply hout hc hcut))
    · exact (closed_of_cut_relay hinv hpc hcur hok hrel hf hca hcut hconn).imp_right hkilled

end Handled

/-! ## Every run -/

/-- The calls on the `cid`-th connection: whole frames, and behind a cut one
nothing more, the connection closed. -/
structure Streaming (s : Broker) (cid : Nat) : Prop where
  ofFrame : ∀ c ∈ callsOn s.log cid, c.OfFrame
  cutLast : CutLast (callsOn s.log cid)
  closed : ∀ c ∈ callsOn s.log cid, c.Cut → ¬ s.kernel.Open cid ∨ s.pc = .exited .sigpipe

theorem cid_lt_of_mem_callsOn {k : Kernel} {log : List Visit} {held : Nat → List Frame}
    (h : Ledger k log held) {cid : Nat} {c : Call} (hc : c ∈ callsOn log cid) :
    cid < k.nextCid := by
  obtain ⟨hmem, hconn⟩ := List.mem_filter.mp hc
  obtain ⟨v, hv, hcv⟩ := List.mem_flatMap.mp hmem
  exact h.calls_lt v hv c hcv cid (by simpa using hconn)

/-- A step that makes no call on the connection. -/
theorem Streaming.of_callsOn_eq {s s' : Broker} {cid : Nat} (h : s.Streaming cid)
    (heq : callsOn s'.log cid = callsOn s.log cid)
    (hclosed : ∀ c ∈ callsOn s.log cid, c.Cut → ¬ s'.kernel.Open cid) : s'.Streaming cid := by
  constructor
  · rw [heq]
    exact h.ofFrame
  · rw [heq]
    exact h.cutLast
  · rw [heq]
    exact fun c hc hcut => .inl (hclosed c hc hcut)

theorem Streaming.step {cfg : Config} {s s' : Broker} {e : Event} {cid : Nat} (hinv : Inv cfg s)
    (h : s.Streaming cid) (hok : s.KeepsFraming e) (hs : Icehydra.step s e = some s') :
    s'.Streaming cid := by
  have hchange := step_change hinv hs
  -- what has been closed is still closed
  have hstays : ∀ c ∈ callsOn s.log cid, c.Cut → ¬ s.kernel.Open cid ∧ ¬ s'.kernel.Open cid := by
    intro c hc hcut
    have hclosed := (h.closed c hc hcut).resolve_right (not_exited_of_step hs .sigpipe)
    exact ⟨hclosed, fun ho =>
      hclosed (hchange.open_of (cid_lt_of_mem_callsOn hinv.ledger hc) ho)⟩
  rcases step_log hinv hs with hlog | ⟨i, rset, cur, hpc, hcur, hlog⟩
  · exact h.of_callsOn_eq (by rw [hlog]) fun c hc hcut => (hstays c hc hcut).2
  · have hlen := (hinv.holding i rset hpc).rbuf_length
    have hcalls : callsOn s'.log cid
        = callsOn s.log cid ++ (s.outgoing i cur).calls.filter fun c => c.conn = some cid := by
      rw [hlog, callsOn_concat]
      rfl
    have hnew : ∀ c ∈ (s.outgoing i cur).calls.filter fun c => c.conn = some cid,
        c ∈ (s.outgoing i cur).calls ∧ c.conn = some cid := by
      intro c hc
      simpa using hc
    by_cases hany : ∃ c ∈ callsOn s.log cid, c.Cut
    · -- closed before: none of the new calls is on this connection
      obtain ⟨c, hc, hcut⟩ := hany
      have hnone : (s.outgoing i cur).calls.filter (fun c => c.conn = some cid) = [] := by
        apply List.eq_nil_iff_forall_not_mem.mpr
        intro d hd
        obtain ⟨hdmem, hdconn⟩ := hnew d hd
        obtain ⟨conn, hconn, hcid⟩ := (hinv.wrote hpc cur).conn_of_mem hdmem hdconn
        exact (hstays c hc hcut).1 ⟨d.fd, conn, hconn, hcid⟩
      rw [hnone, List.append_nil] at hcalls
      exact h.of_callsOn_eq hcalls fun c hc hcut => (hstays c hc hcut).2
    · have hold : ∀ c ∈ callsOn s.log cid, ¬ c.Cut := fun c hc hcut => hany ⟨c, hc, hcut⟩
      constructor
      · rw [hcalls]
        intro c hc
        rcases List.mem_append.mp hc with hc | hc
        · exact h.ofFrame c hc
        · exact outgoing_ofFrame hlen (hnew c hc).1
      · rw [hcalls]
        exact cutLast_append hold ((outgoing_cutLast hlen i cur).filter _)
      · rw [hcalls]
        intro c hc hcut
        rcases List.mem_append.mp hc with hc | hc
        · exact absurd hcut (hold c hc)
        · obtain ⟨hmem, hconn⟩ := hnew c hc
          rw [step_handle hs hpc]
          exact closed_of_cut hinv hpc hcur hok hmem hcut hconn

/-- **The output streams stay framed.** In a run in which every cut is noticed,
what has been written on each connection is whole frames and at most one part
of a frame behind them; after a part nothing more is written, and the
connection is closed or the process has ended. -/
theorem streams_framed (cfg : Config) (s : Broker) (h : Reachable cfg KeepsFraming s) :
    (∀ fd c, s.kernel.conns fd = some c →
      c.sock.output = (callsOn s.log c.cid).flatMap Call.bytes) ∧
    ∀ cid, (∀ c ∈ callsOn s.log cid, c.OfFrame) ∧ Framed (callsOn s.log cid) ∧
      ∀ pre c post, callsOn s.log cid = pre ++ c :: post → c.Cut →
        post = [] ∧ (¬ s.kernel.Open cid ∨ s.pc = .exited .sigpipe) := by
  have hrun : ∀ cid, s.Streaming cid := by
    refine Runs.Reaches.invariant_of (J := Inv cfg) (I := fun s => ∀ cid, s.Streaming cid) h
      (fun t ht => inv_of_reachable ht) (fun cid => ?_) ?_
    · have hnil : callsOn cfg.init.log cid = [] := rfl
      constructor
      · simp [hnil]
      · rw [hnil]
        exact List.Pairwise.nil
      · simp [hnil]
    · exact fun s e s' hinv hstr hok hstep cid => (hstr cid).step hinv hok hstep
  refine ⟨fun fd c hc => (inv_of_reachable h).ledger.output hc, fun cid => ?_⟩
  have hstr := hrun cid
  refine ⟨hstr.ofFrame, hstr.cutLast.framed hstr.ofFrame, fun pre c post heq hcut => ?_⟩
  have hlast := hstr.cutLast
  rw [heq] at hlast
  exact ⟨hlast.eq_nil hcut, hstr.closed c (by simp [heq]) hcut⟩

/-- A check that is enough for `KeepsFraming`: no reply, and where a relay fails
the first node with the recipient's id holds its descriptor. -/
def checkFraming (s : Broker) (_ : Event) : Bool :=
  match s.pc with
  | .handle _ _ =>
      decide (getProtocolCmdType s.rbuf ≠ ihCmdTypeSendReserve) &&
        match s.firstFailure with
        | none => true
        | some a => (findNodeById s.nodes a.target.1.id).any fun j =>
            s.nodes[j]?.any fun n => n.connfd = a.target.1.connfd
  | _ => true

theorem keepsFraming_of_check (s : Broker) (e : Event) (h : s.checkFraming e = true) :
    s.KeepsFraming e := by
  constructor
  · intro i rset cur buf data hpc _ hreply
    simp only [checkFraming, hpc, Bool.and_eq_true, decide_eq_true_eq] at h
    exact absurd hreply.1 h.1
  · intro i rset a hpc _ hf _ _
    simp only [checkFraming, hpc, hf, Bool.and_eq_true, Option.any_eq_true,
      decide_eq_true_eq] at h
    obtain ⟨-, j, hj, n, hn, hfd⟩ := h
    exact ⟨j, n, hj, hn, hfd⟩

/-- `c` sends to `b`, which takes three bytes; `b` is closed. -/
theorem streams_framed_cut :
    ∃ s, Reachable trio KeepsFraming s ∧ Framed (callsOn s.log 0) ∧
      ∃ c, callsOn s.log 0 = [c] ∧ c.Cut ∧ ¬ s.kernel.Open 0 := by
  let f := Frame.ofFields 1 188 1 0 [2, 0, 0, 0, 104] (by decide)
  let full : Sock := { Sock.eager [] with
    sends := [.moved 2] ++ₛ Stream'.const (.stop .error) }
  let P : Broker → Bool := fun s =>
    s.pc.scanned.isSome && decide ((callsOn s.log 0).length = 1) &&
      decide (∀ c ∈ callsOn s.log 0, c.Cut)
  have hrun : (Runs.run step checkFraming trio.init
      [.accept (.client 5 [98] full), .accept (.client 6 [99] (.eager f.bytes)),
        .readyOf [6], .next, .next, .next, .next]).any P = true := by decide +kernel
  obtain ⟨s, hs, hP⟩ := Runs.Reaches.of_run keepsFraming_of_check hrun
  simp only [P, Bool.and_eq_true, decide_eq_true_eq] at hP
  obtain ⟨⟨hscan, hone⟩, hcuts⟩ := hP
  obtain ⟨c, hcalls⟩ := List.length_eq_one_iff.mp hone
  have hcut : c.Cut := hcuts c (by simp [hcalls])
  obtain ⟨-, hstreams⟩ := streams_framed trio s hs
  obtain ⟨-, hframed, hlast⟩ := hstreams 0
  obtain ⟨-, hclosed | hexit⟩ := hlast [] c [] hcalls hcut
  · exact ⟨s, hs, hframed, c, hcalls, hcut, hclosed⟩
  · rw [hexit] at hscan
    cases hscan

/-- **A reply cut off and written over.** `a` asks for the table size twice. Its
socket takes two bytes of the first reply and then, after an error, all of the
second; the connection stays open throughout. -/
theorem cut_reply_stays_open :
    ∃ s, Reachable trio Runs.anyStep s ∧ ¬ Framed (callsOn s.log 0) ∧
      ∃ c d, callsOn s.log 0 = [c, d] ∧ c.Cut ∧ d.Complete ∧ s.kernel.Open 0 := by
  let f := Frame.ofFields 0 3 0 0 [] (by decide)
  let asking : Sock := { Sock.eager (f.bytes ++ f.bytes) with
    sends := [.moved 1, .stop .error] ++ₛ Stream'.const (.moved 4095) }
  let P : Broker → Bool := fun s =>
    decide ((callsOn s.log 0).map (fun c => (decide c.Cut, decide c.Complete))
        = [(true, false), (false, true)]) &&
      (s.kernel.conns 5).any fun conn => decide (conn.cid = 0)
  have hrun : (Runs.run step Runs.unchecked trio.init
      [.accept (.client 5 [97] asking), .readyOf [5], .next, .next, .next, .next, .next,
        .readyOf [5], .next, .next]).any P = true := by decide +kernel
  obtain ⟨s, hs, hP⟩ := Runs.Reaches.of_run_unchecked hrun
  simp only [P, Bool.and_eq_true, Option.any_eq_true, decide_eq_true_eq] at hP
  obtain ⟨hmap, conn, hconn, hcid⟩ := hP
  obtain ⟨c, d, hcalls⟩ := List.length_eq_two.mp (by simpa using congrArg List.length hmap)
  rw [hcalls] at hmap
  obtain ⟨⟨hcut, -⟩, -, hall⟩ : (c.Cut ∧ ¬ c.Complete) ∧ ¬ d.Cut ∧ d.Complete := by
    simpa using hmap
  refine ⟨s, hs, ?_, c, d, hcalls, hcut, hall, 5, conn, hconn, hcid⟩
  rw [hcalls]
  rintro ⟨fs, rest, hbytes, hfs, hrest⟩
  have hnot : ¬ c.Complete := hcut.2
  have hfs' : fs.flatMap Frame.bytes = d.bytes := by
    rw [List.flatMap_def, hfs]
    simp [hnot, hall, show d.frame = d.bytes from hall.symm]
  have hnil : rest = [] := by
    rcases hrest with hnil | ⟨x, hx, hxcut, -⟩
    · exact hnil
    · cases hx
      exact absurd hall hxcut.2
  rw [hfs', hnil] at hbytes
  have hlen := congrArg List.length hbytes
  simp only [List.flatMap_cons, List.flatMap_nil, List.append_nil, List.length_append] at hlen
  have hpos := List.length_pos_of_ne_nil hcut.1
  omega

end Broker

end Icehydra
