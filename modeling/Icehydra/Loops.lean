import Icehydra.Inbound
import Icehydra.Kernel

/-!
# Loops — how a frame loop ends, and after how many calls

`tcp_recv_protocol_cmd` and `tcp_send_protocol_cmd` on an open descriptor, over
every row of outcomes that their `recv()` and `send()` calls can meet. The two
loops of a function share one retry budget, and the length of the second is
known only behind the first.
-/

namespace Icehydra

open Block NonBlock

/-! ## A header and a body on one budget -/

/-- The two transfers of a frame. -/
def row (os : Stream' (Outcome Stop)) (bodylen : Nat) : Transfer Stop :=
  transferSeq os maxTimes [protocolCmdHeadLen, bodylen]

/-- The length of the body that comes into play when `moved` units have gone
through: none before the header is complete. -/
def bodyInPlay (moved bodylen : Nat) : Nat := if protocolCmdHeadLen ≤ moved then bodylen else 0

section Row

variable (os : Stream' (Outcome Stop)) (bodylen : Nat)

theorem row_moved_le : (row os bodylen).moved ≤ protocolCmdHeadLen + bodylen :=
  transferSeq_moved_le os maxTimes [protocolCmdHeadLen, bodylen]

/-- A row ends complete, or before the end of what is in play. -/
theorem row_end :
    ((row os bodylen).moved = protocolCmdHeadLen + bodylen ∧
        bodyInPlay (row os bodylen).moved bodylen = bodylen) ∨
      ((row os bodylen).moved ≠ protocolCmdHeadLen + bodylen ∧
        (row os bodylen).moved < protocolCmdHeadLen + bodyInPlay (row os bodylen).moved bodylen) := by
  have hle := row_moved_le os bodylen
  unfold bodyInPlay
  split <;> omega

/-- The calls a row makes, and that nothing behind them matters. -/
theorem row_calls :
    ∃ m ≤ protocolCmdHeadLen + bodyInPlay (row os bodylen).moved bodylen + 2001,
      ∀ more, row (os.take m ++ₛ more) bodylen = { row os bodylen with rest := more } := by
  obtain ⟨m, huse, hm⟩ := transferSeq_uses os maxTimes [protocolCmdHeadLen, bodylen]
  have hend := row_end os bodylen
  have hmax : maxTimes = 2000 := rfl
  refine ⟨m, ?_, huse⟩
  rw [← row] at hm
  split at hm <;> omega

/-- A row is complete when the header and the body in play come in time. -/
theorem row_complete_iff :
    (row os bodylen).moved = protocolCmdHeadLen + bodylen ↔
      InTime os maxTimes [protocolCmdHeadLen, bodyInPlay (row os bodylen).moved bodylen] := by
  rw [← through_iff_inTime]
  unfold bodyInPlay
  split
  · rfl
  · rename_i hshort
    rw [through_pair_iff (Nat.zero_le bodylen), ← row]
    omega

/-- What a send makes of its row. -/
theorem sendRet_row_eq_zero_iff :
    sendRet (row os bodylen) (protocolCmdHeadLen + bodylen) = .val 0 ↔
      (row os bodylen).moved = protocolCmdHeadLen + bodylen := by
  refine sendRet_eq_zero_iff fun hstop => ?_
  obtain ⟨e, he⟩ := Option.ne_none_iff_exists'.mp hstop
  exact Nat.ne_of_lt (transferSeq_moved_lt_of_why he)

end Row

/-! ## Receiving -/

/-- The `bodylen` of the header that came in; 0 if it did not. -/
def Recvd.bodylen (r : Recvd) : Nat :=
  if r.head.length = protocolCmdHeadLen then getProtocolBodyLen r.head else 0

/-- What `tcp_recv_protocol_cmd` makes of the outcomes of its calls: how many of
them it waits for, when it returns 0, and what it has taken from the stream. -/
structure RecvOutcome (s : Sock) (sockfd : Int) (r : Recvd) : Prop where
  calls : ∃ m ≤ protocolCmdHeadLen + r.bodylen + 2001, ∀ more,
    tcpRecvProtocolCmd { s with recvs := s.recvs.take m ++ₛ more } sockfd true
      = { r with sock := { r.sock with recvs := more } }
  zero_iff : r.ret = 0 ↔ InTime s.recvs maxTimes [protocolCmdHeadLen, r.bodylen]
  moved : ∃ k, r.head ++ r.body = s.input.take k ∧ r.sock.input = s.input.drop k ∧
    r.sock.consumed = s.consumed ++ s.input.take k ∧
    (r.ret = 0 ∧ k = protocolCmdHeadLen + r.bodylen ∨
      r.ret = -1 ∧ k < protocolCmdHeadLen + r.bodylen)

theorem recvTransfer_eq (s : Sock) : recvTransfer s = row s.recvs (nextLen s) := rfl

theorem recv_bodylen (s : Sock) {sockfd : Int} (hfd : 0 ≤ sockfd) :
    (tcpRecvProtocolCmd s sockfd true).bodylen
      = bodyInPlay (recvTransfer s).moved (nextLen s) := by
  rw [tcpRecvProtocolCmd_eq s hfd]
  simp only [Recvd.bodylen, Stream'.length_take, bodyInPlay]
  by_cases h : protocolCmdHeadLen ≤ (recvTransfer s).moved
  · rw [if_pos (Nat.min_eq_right h), if_pos h, Nat.min_eq_right h]
    rfl
  · rw [if_neg (by omega), if_neg h]

theorem recv_bytes (s : Sock) {sockfd : Int} (hfd : 0 ≤ sockfd) :
    (tcpRecvProtocolCmd s sockfd true).head ++ (tcpRecvProtocolCmd s sockfd true).body
      = s.input.take (recvTransfer s).moved := by
  rw [tcpRecvProtocolCmd_eq s hfd]
  simp only
  rcases Nat.le_total protocolCmdHeadLen (recvTransfer s).moved with hle | hle
  · rw [Nat.min_eq_right hle, ← Stream'.take_add, Nat.add_sub_cancel' hle]
  · rw [Nat.min_eq_left hle, Nat.sub_eq_zero_of_le hle, Stream'.take_zero, List.append_nil]

theorem recvOutcome (s : Sock) {sockfd : Int} (hfd : 0 ≤ sockfd) :
    RecvOutcome s sockfd (tcpRecvProtocolCmd s sockfd true) := by
  obtain ⟨m, hm, huse⟩ := row_calls s.recvs (nextLen s)
  have hret : (tcpRecvProtocolCmd s sockfd true).ret
      = if (row s.recvs (nextLen s)).moved = protocolCmdHeadLen + nextLen s then 0 else -1 := by
    rw [tcpRecvProtocolCmd_eq s hfd]
    rfl
  rw [← recvTransfer_eq, ← recv_bodylen s hfd] at hm
  refine ⟨⟨m, hm, fun more => ?_⟩, ?_, (recvTransfer s).moved, recv_bytes s hfd, ?_, ?_, ?_⟩
  · have huse' : recvTransfer { s with recvs := s.recvs.take m ++ₛ more }
        = { recvTransfer s with rest := more } := huse more
    rw [tcpRecvProtocolCmd_eq _ hfd, tcpRecvProtocolCmd_eq s hfd, huse']
    rfl
  · rw [recv_bodylen s hfd, recvTransfer_eq, ← row_complete_iff, hret]
    split <;> simp_all
  · rw [tcpRecvProtocolCmd_eq s hfd]
  · rw [tcpRecvProtocolCmd_eq s hfd]
  · rw [recv_bodylen s hfd, recvTransfer_eq, hret]
    rcases row_end s.recvs (nextLen s) with ⟨hfull, hplay⟩ | ⟨hshort, hlt⟩
    · exact .inl ⟨if_pos hfull, by rw [hplay, hfull]⟩
    · exact .inr ⟨if_neg hshort, hlt⟩

/-! ## Sending -/

/-- The `bodylen` of a header that went out; 0 if it did not. -/
def Sent.bodylen (s : Sock) (cmdHead : Bytes) (r : Sent) : Nat :=
  bodyInPlay (r.sock.output.length - s.output.length) (getProtocolBodyLen cmdHead)

/-- What `tcp_send_protocol_cmd` makes of the outcomes of its calls. Only a
`send()` that raises SIGPIPE keeps it from returning. -/
structure SendOutcome (s : Sock) (sockfd : Int) (cmdHead data : Bytes) (r : Sent) : Prop where
  calls : ∃ m ≤ protocolCmdHeadLen + r.bodylen s cmdHead + 2001, ∀ more,
    tcpSendProtocolCmd { s with sends := s.sends.take m ++ₛ more } sockfd cmdHead (some data)
      = { r with sock := { r.sock with sends := more } }
  zero_iff : r.ret = .val 0 ↔ InTime s.sends maxTimes [protocolCmdHeadLen, r.bodylen s cmdHead]
  moved : ∃ k, r.sock.output = s.output ++ (frameOf cmdHead data).take k ∧
    (r.ret = .val 0 ∧ k = protocolCmdHeadLen + r.bodylen s cmdHead ∨
      (r.ret = .val (-1) ∨ r.ret = .killed ∧ ∃ i, s.sends.get i = .stop .sigpipe) ∧
        k < protocolCmdHeadLen + r.bodylen s cmdHead)

section Send

variable (s : Sock) {sockfd : Int} (cmdHead data : Bytes) (hfd : 0 ≤ sockfd)

include hfd

theorem tcpSendProtocolCmd_row :
    tcpSendProtocolCmd s sockfd cmdHead (some data) =
      ⟨{ s with
          sends := (row s.sends (getProtocolBodyLen cmdHead)).rest
          output := s.output ++
            (frameOf cmdHead data).take (row s.sends (getProtocolBodyLen cmdHead)).moved },
        sendRet (row s.sends (getProtocolBodyLen cmdHead))
          (protocolCmdHeadLen + getProtocolBodyLen cmdHead)⟩ :=
  tcpSendProtocolCmd_eq s cmdHead data hfd

theorem send_bodylen :
    (tcpSendProtocolCmd s sockfd cmdHead (some data)).bodylen s cmdHead
      = bodyInPlay (row s.sends (getProtocolBodyLen cmdHead)).moved (getProtocolBodyLen cmdHead) := by
  have hle := row_moved_le s.sends (getProtocolBodyLen cmdHead)
  rw [Sent.bodylen, tcpSendProtocolCmd_row s cmdHead data hfd]
  simp only [List.length_append, Nat.add_sub_cancel_left, List.length_take, frameOf_length,
    Nat.min_eq_left hle]

theorem sendOutcome :
    SendOutcome s sockfd cmdHead data (tcpSendProtocolCmd s sockfd cmdHead (some data)) := by
  have hzero := sendRet_row_eq_zero_iff s.sends (getProtocolBodyLen cmdHead)
  obtain ⟨m, hm, huse⟩ := row_calls s.sends (getProtocolBodyLen cmdHead)
  rw [← send_bodylen s cmdHead data hfd] at hm
  refine ⟨⟨m, hm, fun more => ?_⟩, ?_, (row s.sends (getProtocolBodyLen cmdHead)).moved, ?_, ?_⟩
  · rw [tcpSendProtocolCmd_row _ cmdHead data hfd, tcpSendProtocolCmd_row s cmdHead data hfd, huse]
    rfl
  · rw [send_bodylen s cmdHead data hfd, ← row_complete_iff, ← hzero,
      tcpSendProtocolCmd_row s cmdHead data hfd]
  · rw [tcpSendProtocolCmd_row s cmdHead data hfd]
  · rw [send_bodylen s cmdHead data hfd, tcpSendProtocolCmd_row s cmdHead data hfd]
    rcases row_end s.sends (getProtocolBodyLen cmdHead) with ⟨hfull, hplay⟩ | ⟨hshort, hlt⟩
    · exact .inl ⟨hzero.mpr hfull, by rw [hplay, hfull]⟩
    · refine .inr ⟨?_, hlt⟩
      rcases sendRet_cases with hkilled | hok | hfail
      · exact .inr ⟨hkilled, exists_get_of_seq_why (why_of_sendRet hkilled)⟩
      · exact absurd (hzero.mp hok) hshort
      · exact .inl hfail

end Send

/-- **The frame loops**, whatever their calls meet: the number of calls, when
the result is 0, and how far into the frame they get. -/
theorem frame_loops_exact (s : Sock) (sockfd : Int) (cmdHead data : Bytes) (hfd : 0 ≤ sockfd) :
    RecvOutcome s sockfd (tcpRecvProtocolCmd s sockfd true) ∧
      SendOutcome s sockfd cmdHead data (tcpSendProtocolCmd s sockfd cmdHead (some data)) :=
  ⟨recvOutcome s hfd, sendOutcome s cmdHead data hfd⟩

/-- A frame of two bytes, one retry, and a peer that closes inside the body. -/
theorem frame_loops_exact_cut :
    let head : Bytes := headBytes 2 ihCmdTypeSendParallel ihCmdIdDefault 0 0
    let os : Stream' (Outcome Stop) := [.again, .moved 7, .moved 0] ++ₛ Stream'.const (.stop .zero)
    let s : Sock := ⟨head ++ [104, 105] ++ₛ Stream'.const 0, os, os, [], []⟩
    RecvOutcome s 3 (tcpRecvProtocolCmd s 3 true) ∧
      SendOutcome s 3 head [104, 105] (tcpSendProtocolCmd s 3 head (some [104, 105])) :=
  frame_loops_exact _ 3 _ _ (by decide)

end Icehydra
