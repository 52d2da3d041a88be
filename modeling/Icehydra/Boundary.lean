import Icehydra.Broadcast
import Icehydra.ShmInfos

/-!
# Boundary — where a call leaves the connection

The calls of the library send and receive several times each, and every one of
these can fall short. A call is good for the next one if it leaves the
connection between two frames, or closed. Which calls do is a condition on what
they are given and on what the socket will do; a run of calls that meet it
stays between frames.
-/

namespace Icehydra

open Block NonBlock Runs

/-! ## Calls -/

/-- Both directions stand between two frames. -/
structure Client.AtBoundary (c : Client) : Prop where
  output : WholeFrames c.sock.output
  consumed : WholeFrames c.sock.consumed

def Client.Settled (c : Client) : Prop := c.connfd = -1 ∨ c.AtBoundary

/-- The calls that use the connection. `data` says whether the pointer is
non-null; the memory behind it is large enough. -/
inductive ApiCall where
  | sendBroadcastData (cmd : IhBroadcastCmd)
  | sendGetShmIDsCmd
  | recvData (data : Bool)
  | getShmInfos (buffer : Bytes) (buffersize : Int)

/-- A call comes back and leaves the client like this. Behind a write past the
end of a buffer C promises nothing, so there any client may come out. -/
inductive Returns (c : Client) : ApiCall → Client → Prop
  | sendBroadcastData {cmd ret} : (ihSendBroadcastData c cmd).2 = .val ret →
      Returns c (.sendBroadcastData cmd) (ihSendBroadcastData c cmd).1
  | overrunCmdHead {cmd c'} : 0 ≤ c.connfd → 56 < cmd.brNum →
      Returns c (.sendBroadcastData cmd) c'
  | sendGetShmIDsCmd {ret} : (ihSendGetShmIDsCmd c).2 = .val ret →
      Returns c .sendGetShmIDsCmd (ihSendGetShmIDsCmd c).1
  | recvData {data} : Returns c (.recvData data) (ihRecvData c data).client
  | getShmInfos {buffer buffersize q ret} :
      Reaches Query.step anyStep (ihGetShmInfos c buffer buffersize) q → q.pc = .returned ret →
      Returns c (.getShmInfos buffer buffersize) q.client
  | overrunShmInfos {buffer buffersize q c'} :
      Reaches Query.step anyStep (ihGetShmInfos c buffer buffersize) q →
      ¬ q.WritesInside buffersize → Returns c (.getShmInfos buffer buffersize) c'

/-- The header has a byte for the number of ids and 16 bits for the length. -/
structure IhBroadcastCmd.Representable (cmd : IhBroadcastCmd) : Prop where
  num_nonneg : 0 ≤ cmd.brNum
  num_le : cmd.brNum ≤ 255
  datalen_nonneg : 0 ≤ cmd.datalen
  total_le : cmd.datalen + round4 cmd.brNum ≤ 65535

def ApiCall.Representable : ApiCall → Prop
  | .sendBroadcastData cmd => cmd.Representable
  | _ => True

/-! ## What keeps the boundary -/

/-- Of two requests, `k1` and `k2` bytes go out. Each is whole or not there at
all; or the second fills up the first, both beginning with `I`, `H`, 0, 0. -/
def RequestsEven (k1 k2 : Nat) : Prop :=
  ((k1 = 0 ∨ k1 = 8) ∧ (k2 = 0 ∨ k2 = 8)) ∨ (4 ≤ k1 ∧ k1 + k2 = 8)

instance (k1 k2 : Nat) : Decidable (RequestsEven k1 k2) := inferInstanceAs (Decidable (_ ∨ _))

/-- The ids fit into `cmd_head[64]`, and a null pointer goes with no length,
unless the header does not get out. -/
def BroadcastKept (c : Client) (cmd : IhBroadcastCmd) : Prop :=
  let n := protocolCmdHeadLen + (round4 cmd.brNum).toNat
  cmd.brNum ≤ 56 ∧
    (cmd.data = none → cmd.datalen = 0 ∨ sendRet (transfer c.sock.sends n maxTimes) n ≠ .val 0)

/-- There is room for all frames, a receive of the first loop that falls short
brings nothing, and wherever the call ends its requests are even. -/
structure InfosKept (c : Client) (buffersize : Int) : Prop where
  room : RoomForAll c buffersize
  cutOff : ∀ k, c.sock.Passes ihReserveCmdIdGetShmNum 0 k → ¬ (c.sock.nth k).Whole →
    (recvTransfer (c.sock.nth k)).moved = 0 ∧ RequestsEven (firstAsk c).moved 0
  refused : ∀ k, NumAt c k → ¬ Wanted c buffersize k → RequestsEven (firstAsk c).moved 0
  unsent : ∀ k, NumAt c k → Wanted c buffersize k →
    sendRet (secondAsk c) protocolCmdHeadLen = .val (-1) →
    RequestsEven (firstAsk c).moved (secondAsk c).moved
  found : ∀ k m, Asks c buffersize k →
    c.sock.FirstAt ihReserveCmdIdGetShmInfo (k + 1) m → RequestsEven (firstAsk c).moved 8

def Kept (c : Client) : ApiCall → Prop
  | .sendBroadcastData cmd => c.connfd < 0 ∨ BroadcastKept c cmd
  | .sendGetShmIDsCmd =>
      c.connfd < 0 ∨ sendRet (firstAsk c) protocolCmdHeadLen = .killed ∨
        (firstAsk c).moved = 0 ∨ (firstAsk c).moved = 8
  | .recvData _ => True
  | .getShmInfos _ buffersize =>
      c.connfd < 0 ∨ sendRet (firstAsk c) protocolCmdHeadLen = .killed ∨ InfosKept c buffersize

/-! ## The requests -/

theorem asked_moved_le (sends : Stream' (Outcome Stop)) :
    (asked sends).moved ≤ protocolCmdHeadLen := by
  have h := transferSeq_moved_le sends maxTimes [protocolCmdHeadLen, 0]
  simp only [List.sum_cons, List.sum_nil, Nat.add_zero] at h
  exact h

theorem wholeFrames_requests_iff {k1 k2 : Nat} (h1 : k1 ≤ protocolCmdHeadLen)
    (h2 : k2 ≤ protocolCmdHeadLen) :
    WholeFrames ((requestFrame ihReserveCmdIdGetShmNum).bytes.take k1
        ++ (requestFrame ihReserveCmdIdGetShmInfo).bytes.take k2) ↔ RequestsEven k1 k2 := by
  -- the two frames are constants, which leaves 81 cases
  have hall : ∀ k1, k1 ≤ protocolCmdHeadLen → ∀ k2, k2 ≤ protocolCmdHeadLen →
      (WholeFrames ((requestFrame ihReserveCmdIdGetShmNum).bytes.take k1
        ++ (requestFrame ihReserveCmdIdGetShmInfo).bytes.take k2) ↔ RequestsEven k1 k2) := by
    decide +kernel
  exact hall k1 h1 k2 h2

section Requests

variable {c : Client} (hb : c.AtBoundary)

include hb

theorem wholeFrames_secondOutput_iff :
    WholeFrames (secondOutput c) ↔ RequestsEven (firstAsk c).moved (secondAsk c).moved := by
  have h1 : (firstAsk c).moved ≤ protocolCmdHeadLen := asked_moved_le _
  have h2 : (secondAsk c).moved ≤ protocolCmdHeadLen := asked_moved_le _
  rw [secondOutput, firstOutput, List.append_assoc, hb.output.append_iff,
    wholeFrames_requests_iff h1 h2]

theorem wholeFrames_firstOutput_iff :
    WholeFrames (firstOutput c) ↔ RequestsEven (firstAsk c).moved 0 := by
  have h1 : (firstAsk c).moved ≤ protocolCmdHeadLen := asked_moved_le _
  rw [firstOutput, hb.output.append_iff, ← wholeFrames_requests_iff h1 (Nat.zero_le _),
    List.take_zero, List.append_nil]

theorem wholeFrames_nth_consumed (k : Nat) : WholeFrames (c.sock.nth k).consumed := by
  rw [Sock.nth_consumed]
  exact hb.consumed.append (wholeFrames_flatMap _)

end Requests

/-! ## Where ih_get_shm_infos leaves the connection -/

section Infos

variable {c : Client} (hb : c.AtBoundary) (hfd : 0 ≤ c.connfd)

omit hb hfd in
theorem Client.settled_iff {c : Client} (hfd : 0 ≤ c.connfd) : c.Settled ↔ c.AtBoundary := by
  refine or_iff_right fun h => ?_
  rw [h] at hfd
  exact absurd hfd (by decide)

include hb hfd

theorem afterNum_settled_iff (k : Nat) :
    (afterNum c k).Settled ↔ RequestsEven (firstAsk c).moved 0 := by
  rw [Client.settled_iff (c := afterNum c k) hfd, ← wholeFrames_firstOutput_iff hb]
  exact ⟨Client.AtBoundary.output, fun h => ⟨h, wholeFrames_nth_consumed hb k⟩⟩

theorem afterInfo_settled_iff (k : Nat) :
    (afterInfo c k).Settled ↔ RequestsEven (firstAsk c).moved (secondAsk c).moved := by
  rw [Client.settled_iff (c := afterInfo c k) hfd, ← wholeFrames_secondOutput_iff hb]
  exact ⟨Client.AtBoundary.output, fun h => ⟨h, wholeFrames_nth_consumed hb k⟩⟩

/-- A receive that falls short leaves a boundary only where it brings nothing. -/
theorem cut_settled_iff {k : Nat} (hshort : ¬ (c.sock.nth k).Whole) :
    Client.Settled { c with sock := (afterNum c k).sock.cut } ↔
      (recvTransfer (c.sock.nth k)).moved = 0 ∧ RequestsEven (firstAsk c).moved 0 := by
  have hle := (c.sock.nth k).moved_le
  have hne : (recvTransfer (c.sock.nth k)).moved ≠ (nextFrame (c.sock.nth k)).bytes.length := by
    rw [nextFrame_bytes_length]
    exact fun h => hshort ((c.sock.nth k).whole_iff.mpr h)
  have htake : (c.sock.nth k).input.take (recvTransfer (c.sock.nth k)).moved
      = (nextFrame (c.sock.nth k)).bytes.take (recvTransfer (c.sock.nth k)).moved := by
    rw [nextFrame_bytes, Stream'.take_take, Nat.min_eq_right hle]
  have hconsumed : WholeFrames (afterNum c k).sock.cut.consumed ↔
      (recvTransfer (c.sock.nth k)).moved = 0 := by
    show WholeFrames ((c.sock.nth k).consumed
      ++ (c.sock.nth k).input.take (recvTransfer (c.sock.nth k)).moved) ↔ _
    rw [(wholeFrames_nth_consumed hb k).append_iff, htake, Frame.wholeFrames_take_iff _ hle,
      or_iff_left hne]
  rw [Client.settled_iff (c := { c with sock := (afterNum c k).sock.cut }) hfd,
    ← wholeFrames_firstOutput_iff hb, ← hconsumed]
  exact ⟨fun h => ⟨h.consumed, h.output⟩, fun h => ⟨h.2, h.1⟩⟩

omit hb hfd in
theorem exists_not_settled : ∃ c : Client, ¬ c.Settled := by
  refine ⟨⟨0, { Sock.dead with output := [0] }⟩, ?_⟩
  rw [Client.settled_iff (Int.le_refl 0)]
  exact fun h => absurd h.output (by decide)

theorem InfosKept.of_settled {buffer : Bytes} {buffersize : Int}
    (hkilled : sendRet (firstAsk c) protocolCmdHeadLen ≠ .killed)
    (hall : ∀ c', Returns c (.getShmInfos buffer buffersize) c' → c'.Settled) :
    InfosKept c buffersize := by
  -- a state that the run leads to and that has returned is a way to come back
  have hback : ∀ {q es es' ret}, Leads Query.step (ihGetShmInfos c buffer buffersize, es) (q, es') →
      q.pc = .returned ret → q.client.Settled :=
    fun hlead hpc => hall _ (.getShmInfos hlead.reaches hpc)
  have hin : ∀ q, Reaches Query.step anyStep (ihGetShmInfos c buffer buffersize) q →
      q.WritesInside buffersize := by
    intro q hrun
    by_contra hout
    obtain ⟨c', hc'⟩ := exists_not_settled
    exact hc' (hall c' (.overrunShmInfos hrun hout))
  refine ⟨.of_inside hfd hkilled hin, fun k hpass hshort => ?_, fun k hk hw => ?_,
    fun k hk hw hret => ?_, fun k m hask hm => ?_⟩
  · obtain ⟨q, es', hlead, hpc, hclient⟩ :=
      Query.leads_cutOff hfd buffer hkilled buffersize hpass hshort (Stream'.const true)
    rw [← cut_settled_iff hb hfd hshort, ← hclient]
    exact hback hlead hpc
  · rw [← afterNum_settled_iff hb hfd (k + 1)]
    by_cases hsmall : toSizeT buffersize < sizeofShmNode * shmNumAt c k
    · obtain ⟨q, es', hlead, hpc, hclient⟩ :=
        Query.leads_tooSmall hfd buffer hkilled hk hsmall (Stream'.const true)
      rw [← hclient]
      exact hback hlead hpc
    · have hzero : shmNumAt c k = 0 := by
        by_contra hne
        exact hw ⟨hne, Nat.le_of_not_lt hsmall⟩
      obtain ⟨q, es', hlead, hpc, hclient⟩ :=
        Query.leads_empty hfd buffer hkilled buffersize hk hzero (Stream'.const true)
      rw [← hclient]
      exact hback hlead hpc
  · obtain ⟨q, es', hlead, hpc, hclient⟩ :=
      Query.leads_unsent hfd buffer hkilled hk hw hret (Stream'.const true)
    rw [← afterInfo_settled_iff hb hfd (k + 1), ← hclient]
    exact hback hlead hpc
  · obtain ⟨q, es', hlead, hpc, hclient, -⟩ :=
      Query.leads_done hfd buffer hkilled hask hm (recurs_const true)
    have hset := hback hlead hpc
    rw [hclient, afterInfo_settled_iff hb hfd (m + 1)] at hset
    rwa [moved_of_sendRet hask.sent] at hset

theorem InfosKept.settled {buffer : Bytes} {buffersize : Int} {c' : Client}
    (h : InfosKept c buffersize) (hret : Returns c (.getShmInfos buffer buffersize) c') :
    c'.Settled := by
  cases hret with
  | overrunShmInfos hrun hout => exact absurd (h.room.writesInside hfd hrun) hout
  | @getShmInfos _ _ q ret hrun hpc =>
      cases Query.stage_of_reaches hfd hrun with
      | killed hpc' | lost _ _ _ _ hpc' =>
          rw [hpc'] at hpc
          cases hpc
      | num _ hq | info _ _ _ hq =>
          rw [hq.pc] at hpc
          cases hpc
      | cutOff hpass hshort _ hclient =>
          rw [hclient]
          exact (cut_settled_iff hb hfd hshort).mpr (h.cutOff _ hpass hshort)
      | @tooSmall k hk hsmall _ hclient =>
          rw [hclient]
          exact (afterNum_settled_iff hb hfd (k + 1)).mpr
            (h.refused k hk fun hw => Nat.not_lt.mpr hw.2 hsmall)
      | @empty k hk hzero _ hclient =>
          rw [hclient]
          exact (afterNum_settled_iff hb hfd (k + 1)).mpr (h.refused k hk fun hw => hw.1 hzero)
      | @unsent k hk hw hunsent _ hclient =>
          rw [hclient]
          exact (afterInfo_settled_iff hb hfd (k + 1)).mpr (h.unsent k hk hw hunsent)
      | @done k m b hask hm _ hclient =>
          have heven := h.found k m hask hm
          rw [hclient, afterInfo_settled_iff hb hfd (m + 1)]
          rwa [moved_of_sendRet hask.sent]

end Infos

/-! ## Where a broadcast leaves it -/

namespace IhBroadcastCmd

variable {cmd : IhBroadcastCmd}

theorem Representable.sized (h : cmd.Representable) (hnum : cmd.brNum ≤ 56) : cmd.Sized where
  num_nonneg := h.num_nonneg
  num_le := hnum
  datalen_nonneg := h.datalen_nonneg
  datalen_int := by
    have htotal := h.total_le
    have hr4 := round4_nonneg h.num_nonneg
    omega

/-- A broadcast is a whole frame unless it announces data that is not there. -/
theorem Representable.wholeFrames_wire_iff (h : cmd.Representable) :
    WholeFrames cmd.wire ↔ (cmd.data = none → cmd.datalen = 0) := by
  have htotal := h.total_le
  have hr4 := round4_nonneg h.num_nonneg
  have hdatalen := h.datalen_nonneg
  have hlen := cmd.wire_length
  have hbody : getProtocolBodyLen cmd.wire = (cmd.datalen + round4 cmd.brNum).toNat := by
    rw [getProtocolBodyLen_wire, total, toInt32_eq (by omega) (by omega),
      Nat.mod_eq_of_lt (by omega)]
  have hne : cmd.wire ≠ [] := fun hnil => by
    rw [hnil, List.length_nil] at hlen
    exact absurd hlen (by have := protocolCmdHeadLen_pos; omega)
  rw [wholeFrames_iff_drop hne, hbody]
  constructor
  · rintro ⟨hle, -⟩ hdata
    have hpay : cmd.payload.length = 0 := by
      rw [payload, hdata]
      rfl
    omega
  · intro hdata
    have hpay : cmd.payload.length = cmd.datalen.toNat := behind_length hdata
    refine ⟨by omega, ?_⟩
    rw [List.drop_eq_nil_of_le (by omega)]
    exact .nil

end IhBroadcastCmd

section Broadcast

variable {c : Client} {cmd : IhBroadcastCmd} (hfd : 0 ≤ c.connfd) (hrep : cmd.Representable)

include hfd hrep

theorem cmdHead_ret :
    (tcpSendNoblock c.sock c.connfd (some (cmdHeadOf cmd)) (protocolCmdHeadLen + round4 cmd.brNum)).ret
      = sendRet (transfer c.sock.sends (protocolCmdHeadLen + (round4 cmd.brNum).toNat) maxTimes)
          (protocolCmdHeadLen + (round4 cmd.brNum).toNat) := by
  have hr4 := round4_nonneg hrep.num_nonneg
  have hpos : (0 : Int) < protocolCmdHeadLen := by decide
  have hlen : (protocolCmdHeadLen + round4 cmd.brNum : Int).toNat
      = protocolCmdHeadLen + (round4 cmd.brNum).toNat := by omega
  rw [tcpSendNoblock_eq c.sock _ hfd (by omega), hlen]

/-- What a broadcast that returns 0 leaves, stands between frames unless it
announced data that was not there. -/
theorem sent_settled_iff (hb : c.AtBoundary) (hnum : cmd.brNum ≤ 56)
    (hret : (ihSendBroadcastData c cmd).2 = .val 0) :
    (ihSendBroadcastData c cmd).1.Settled ↔ (cmd.data = none → cmd.datalen = 0) := by
  obtain ⟨-, -, heq⟩ := ihSendBroadcastData_ok hfd hret
  have hout := ihSendBroadcastData_wire (hrep.sized hnum) hfd hret
  have hconsumed : (ihSendBroadcastData c cmd).1.sock.consumed = c.sock.consumed := by
    rw [heq, tcpSendNoblock_consumed hfd, tcpSendNoblock_consumed hfd]
  have hopen : 0 ≤ (ihSendBroadcastData c cmd).1.connfd := by rwa [heq]
  rw [Client.settled_iff hopen, ← hrep.wholeFrames_wire_iff, ← hb.output.append_iff, ← hout]
  exact ⟨Client.AtBoundary.output, fun h => ⟨h, by rw [hconsumed]; exact hb.consumed⟩⟩

theorem broadcast_settled_iff (hb : c.AtBoundary) :
    (∀ c', Returns c (.sendBroadcastData cmd) c' → c'.Settled) ↔ BroadcastKept c cmd := by
  have hhead := cmdHead_ret hfd hrep
  constructor
  · intro hall
    have hnum : cmd.brNum ≤ 56 := by
      by_contra hlong
      obtain ⟨c', hc'⟩ := exists_not_settled
      exact hc' (hall c' (.overrunCmdHead hfd (Int.not_le.mp hlong)))
    refine ⟨hnum, fun hdata => or_iff_not_imp_left.mpr fun hne hsent => ?_⟩
    rw [← hhead] at hsent
    have hret : (ihSendBroadcastData c cmd).2 = .val 0 := by
      rw [ihSendBroadcastData, if_neg (Int.not_lt.mpr hfd)]
      simp only [hsent, hdata, tcpSendNoblock_null]
      rfl
    exact hne ((sent_settled_iff hfd hrep hb hnum hret).mp (hall _ (.sendBroadcastData hret)) hdata)
  · rintro ⟨hnum, hnull⟩ c' hret
    cases hret with
    | overrunCmdHead _ hlong => exact absurd hnum (Int.not_le.mpr hlong)
    | @sendBroadcastData _ ret hret =>
        have hsettled : (ihSendBroadcastData c cmd).2 = .val 0 →
            (ihSendBroadcastData c cmd).1.Settled := by
          intro hzero
          refine (sent_settled_iff hfd hrep hb hnum hzero).mpr fun hdata => ?_
          obtain ⟨hsent, -⟩ := ihSendBroadcastData_ok hfd hzero
          rcases hnull hdata with hzero | hunsent
          · exact hzero
          · exact absurd (hhead.symm.trans hsent) hunsent
        have hcases := ihSendBroadcastData_cases cmd hfd
        generalize ihSendBroadcastData c cmd = out at hcases hret hsettled ⊢
        cases hcases with
        | headKilled | dataKilled => cases hret
        | sent => exact hsettled rfl
        | failed => exact .inl rfl

end Broadcast

/-! ## Where the other calls leave it -/

section Calls

variable {c : Client} (hfd : 0 ≤ c.connfd) (hb : c.AtBoundary)

include hfd hb

theorem request_settled_iff :
    (∀ c', Returns c .sendGetShmIDsCmd c' → c'.Settled) ↔
      sendRet (firstAsk c) protocolCmdHeadLen = .killed ∨
        (firstAsk c).moved = 0 ∨ (firstAsk c).moved = 8 := by
  have heq := ihSendGetShmIDsCmd_eq hfd
  have hle : (firstAsk c).moved ≤ (requestFrame ihReserveCmdIdGetShmInfo).bytes.length :=
    asked_moved_le _
  have hset : (ihSendGetShmIDsCmd c).1.Settled ↔
      (firstAsk c).moved = 0 ∨ (firstAsk c).moved = 8 := by
    have hopen : 0 ≤ (ihSendGetShmIDsCmd c).1.connfd := by rwa [heq]
    have hwhole := (requestFrame ihReserveCmdIdGetShmInfo).wholeFrames_take_iff hle
    rw [← hb.output.append_iff] at hwhole
    rw [Client.settled_iff hopen, heq]
    exact Iff.trans ⟨Client.AtBoundary.output, fun h => ⟨h, hb.consumed⟩⟩ hwhole
  constructor
  · intro hall
    rcases sendRet_cases (t := firstAsk c) (n := protocolCmdHeadLen) with hret | hret | hret
    · exact .inl hret
    · have hback : (ihSendGetShmIDsCmd c).2 = .val 0 := by rw [heq]; exact hret
      exact .inr (hset.mp (hall _ (.sendGetShmIDsCmd hback)))
    · have hback : (ihSendGetShmIDsCmd c).2 = .val (-1) := by rw [heq]; exact hret
      exact .inr (hset.mp (hall _ (.sendGetShmIDsCmd hback)))
  · rintro hkept c' hret
    cases hret with
    | sendGetShmIDsCmd hret =>
        rcases hkept with hkilled | hmoved
        · rw [heq] at hret
          exact absurd (hkilled.symm.trans hret) Ret.noConfusion
        · exact hset.mpr hmoved

theorem recvData_settled (data : Bool) : (ihRecvData c data).client.Settled := by
  cases data with
  | false =>
      have heq : (ihRecvData c false).client = c := by
        rw [ihRecvData, if_neg (Int.not_lt.mpr hfd)]
        rfl
      rw [heq]
      exact .inr hb
  | true =>
      by_cases hw : c.sock.Whole
      · rw [ihRecvData_whole hw hfd]
        exact .inr ⟨hb.output, hb.consumed.append (nextFrame c.sock).wholeFrames⟩
      · rw [(ihRecvData_short hw hfd).2]
        exact .inl rfl

theorem infos_settled_iff (buffer : Bytes) (buffersize : Int) :
    (∀ c', Returns c (.getShmInfos buffer buffersize) c' → c'.Settled) ↔
      sendRet (firstAsk c) protocolCmdHeadLen = .killed ∨ InfosKept c buffersize := by
  constructor
  · intro hall
    by_cases hkilled : sendRet (firstAsk c) protocolCmdHeadLen = .killed
    · exact .inl hkilled
    · exact .inr (.of_settled hb hfd hkilled hall)
  · rintro (hkilled | hkept) c' hret
    · cases hret with
      | getShmInfos hrun hpc =>
          rw [Query.reaches_killed hfd hkilled hrun] at hpc
          cases hpc
      | overrunShmInfos hrun hout => exact absurd (writesInside_of_killed hfd hkilled hrun) hout
    · exact hkept.settled hb hfd hret

end Calls

/-- Without a connection no call does anything. -/
theorem Returns.of_closed {c c' : Client} {call : ApiCall} (h : Returns c call c')
    (hfd : c.connfd < 0) : c' = c := by
  have hstart : ∀ {buffer buffersize q},
      Reaches Query.step anyStep (ihGetShmInfos c buffer buffersize) q →
      q.pc = .returned (-1) ∧ q.client = c := by
    intro buffer buffersize q hrun
    have hq : q = ihGetShmInfos c buffer buffersize := hrun.eq_of_fixed fun e t hstep => by
      rw [ihGetShmInfos, if_pos hfd] at hstep
      cases hstep
    rw [hq, ihGetShmInfos, if_pos hfd]
    exact ⟨rfl, rfl⟩
  cases h with
  | sendBroadcastData => rw [ihSendBroadcastData, if_pos hfd]
  | overrunCmdHead hopen => exact absurd hfd (Int.not_lt.mpr hopen)
  | sendGetShmIDsCmd => rw [ihSendGetShmIDsCmd, if_pos hfd]
  | recvData => rw [ihRecvData, if_pos hfd]
  | getShmInfos hrun => exact (hstart hrun).2
  | overrunShmInfos hrun hout =>
      exact absurd (Query.writesInside_of_ended (.inr ⟨_, (hstart hrun).1⟩)) hout

/-- **One call.** -/
theorem Client.Settled.returns_iff {c : Client} (hc : c.Settled) {call : ApiCall}
    (hrep : call.Representable) : (∀ c', Returns c call c' → c'.Settled) ↔ Kept c call := by
  rcases Int.lt_or_le c.connfd 0 with hclosed | hfd
  · refine iff_of_true (fun c' h => by rw [h.of_closed hclosed]; exact hc) ?_
    cases call with
    | recvData => exact trivial
    | sendBroadcastData | sendGetShmIDsCmd | getShmInfos => exact .inl hclosed
  · have hb := (Client.settled_iff hfd).mp hc
    have hopen : ¬ c.connfd < 0 := Int.not_lt.mpr hfd
    cases call with
    | sendBroadcastData cmd =>
        exact (broadcast_settled_iff hfd hrep hb).trans (or_iff_right hopen).symm
    | sendGetShmIDsCmd => exact (request_settled_iff hfd hb).trans (or_iff_right hopen).symm
    | recvData data =>
        refine iff_of_true (fun c' h => ?_) trivial
        cases h
        exact recvData_settled hfd hb data
    | getShmInfos buffer buffersize =>
        exact (infos_settled_iff hfd hb buffer buffersize).trans (or_iff_right hopen).symm

/-- A call that meets its condition. -/
def KeptCall (c c' : Client) : Prop :=
  ∃ call : ApiCall, call.Representable ∧ Kept c call ∧ Returns c call c'

/-- **Calls and frame boundaries.** A call leaves the connection closed or
between two frames exactly when it meets its condition; in a row of calls that
all do, none ever starts in the middle of a frame. -/
theorem calls_settled_iff (c : Client) (hc : c.Settled) :
    (∀ call : ApiCall, call.Representable →
      ((∀ c', Returns c call c' → c'.Settled) ↔ Kept c call)) ∧
    ∀ c', Relation.ReflTransGen KeptCall c c' → c'.Settled := by
  refine ⟨fun call hrep => hc.returns_iff hrep, fun c' hrun => ?_⟩
  induction hrun with
  | refl => exact hc
  | tail _ hcall ih =>
      obtain ⟨call, hrep, hkept, hret⟩ := hcall
      exact (ih.returns_iff hrep).mpr hkept _ hret

/-- Discovery, with broadcasts in between, keeps its condition. -/
theorem crowded_kept : InfosKept crowded 64 where
  room := by
    refine ⟨fun k hpass => ?_, fun k m hask hlt hpass => ?_⟩
    · have hle := crowded_num.le_of_passes hpass
      obtain rfl | rfl : k = 0 ∨ k = 1 := by omega
      · decide +kernel
      · decide +kernel
    · obtain rfl := hask.num.unique crowded_num
      have hle := crowded_info.le_of_passes hpass
      obtain rfl | rfl : m = 2 ∨ m = 3 := by omega
      · decide +kernel
      · decide +kernel
  cutOff k hpass hshort := (crowded_num.not_short (Nat.zero_le k) hpass hshort).elim
  refused k hk hw := by
    obtain rfl := hk.unique crowded_num
    exact absurd (show Wanted crowded 64 1 by decide +kernel) hw
  unsent k _ _ hunsent := absurd hunsent (by decide +kernel)
  found _ _ _ _ := by decide +kernel

/-- Discovery, and a receive behind it. -/
theorem calls_settled_request :
    (∀ c', Returns crowded (.getShmInfos (List.replicate 64 0) 64) c' → c'.Settled) ∧
      ∃ c₁ c₂, Returns crowded (.getShmInfos (List.replicate 64 0) 64) c₁ ∧
        Returns c₁ (.recvData true) c₂ ∧ c₁.Settled ∧ c₂.Settled := by
  have hsettled : crowded.Settled := .inr ⟨.nil, .nil⟩
  have hkept : Kept crowded (.getShmInfos (List.replicate 64 0) 64) := .inr (.inr crowded_kept)
  refine ⟨((calls_settled_iff crowded hsettled).1 (.getShmInfos (List.replicate 64 0) 64) trivial).mpr
    hkept, ?_⟩
  obtain ⟨q, hq, hret⟩ := crowded_returns
  have hfirst : Returns crowded (.getShmInfos (List.replicate 64 0) 64) q.client := .getShmInfos hq hret
  have hone : Relation.ReflTransGen KeptCall crowded q.client := .tail .refl
    ⟨.getShmInfos (List.replicate 64 0) 64, trivial, hkept, hfirst⟩
  have htwo : Relation.ReflTransGen KeptCall crowded (ihRecvData q.client true).client :=
    .tail hone ⟨.recvData true, trivial, trivial, .recvData⟩
  exact ⟨_, _, hfirst, .recvData, (calls_settled_iff crowded hsettled).2 _ hone,
    (calls_settled_iff crowded hsettled).2 _ htwo⟩

/-- **Half a header**, sent in a request or received in the first loop of
discovery: the call returns -1 and leaves the connection open. -/
theorem half_header_stays_open :
    let c : Client := ⟨3, { Sock.eager [] with
      sends := [.moved 3] ++ₛ Stream'.const (.stop .error) }⟩
    let d : Client := ⟨3, { Sock.eager [73, 72, 1, 0] with
      recvs := [.moved 3] ++ₛ Stream'.const (.stop .zero) }⟩
    (c.Settled ∧ ∃ c', Returns c .sendGetShmIDsCmd c' ∧ ¬ c'.Settled) ∧
      d.Settled ∧ ∃ d', Returns d (.getShmInfos (List.replicate 64 0) 64) d' ∧ ¬ d'.Settled := by
  intro c d
  refine ⟨⟨.inr ⟨.nil, .nil⟩, (ihSendGetShmIDsCmd c).1, ?_, ?_⟩, .inr ⟨.nil, .nil⟩, ?_⟩
  · have hret : (ihSendGetShmIDsCmd c).2 = .val (-1) := by decide +kernel
    exact .sendGetShmIDsCmd hret
  · rw [Client.settled_iff (by decide +kernel)]
    exact fun h => absurd h.output (by decide +kernel)
  · have hrun : (run Query.step unchecked (ihGetShmInfos d (List.replicate 64 0) 64) [true]).any
        (fun q => decide (q.pc = .returned (-1) ∧ 0 ≤ q.client.connfd ∧
          ¬ WholeFrames q.client.sock.consumed)) = true := by decide +kernel
    obtain ⟨q, hq, hP⟩ := Reaches.of_run_unchecked hrun
    obtain ⟨hpc, hopen, hcut⟩ := of_decide_eq_true hP
    refine ⟨q.client, .getShmInfos hq hpc, ?_⟩
    rw [Client.settled_iff hopen]
    exact fun h => hcut h.consumed

end Icehydra
