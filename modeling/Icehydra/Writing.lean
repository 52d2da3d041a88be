import Icehydra.Client

/-!
# Writing — the two writes of ih_send_broadcast_data

The header with the ids goes out in one write and the data in another, which
does not ask what became of the first. The first one reads `cmd_head[64]`, into
which the ids have been copied, however many there are.
-/

namespace Icehydra

open Block NonBlock

/-! ## Behind a write that failed -/

/-- The length of the first write. -/
def IhBroadcastCmd.headLen (cmd : IhBroadcastCmd) : Nat :=
  protocolCmdHeadLen + (round4 cmd.brNum).toNat

/-- What becomes of the header and the ids on a socket with these outcomes. -/
def headWrite (sends : Stream' (Outcome Stop)) (cmd : IhBroadcastCmd) : Transfer Stop :=
  transfer sends cmd.headLen maxTimes

/-- What becomes of the data behind them. -/
def dataWrite (sends : Stream' (Outcome Stop)) (cmd : IhBroadcastCmd) : Transfer Stop :=
  transfer (headWrite sends cmd).rest cmd.payload.length maxTimes

theorem headWrite_moved_le (sends : Stream' (Outcome Stop)) (cmd : IhBroadcastCmd) :
    (headWrite sends cmd).moved ≤ cmd.headLen :=
  transfer_moved_le sends cmd.headLen maxTimes

theorem dataWrite_moved_le (sends : Stream' (Outcome Stop)) (cmd : IhBroadcastCmd) :
    (dataWrite sends cmd).moved ≤ cmd.payload.length :=
  transfer_moved_le (headWrite sends cmd).rest cmd.payload.length maxTimes

/-- What the two writes put on the stream. -/
def broadcastOut (sends : Stream' (Outcome Stop)) (cmd : IhBroadcastCmd) : Bytes :=
  cmd.wire.take (headWrite sends cmd).moved ++
    if (headWrite sends cmd).why = some .sigpipe then []
    else cmd.payload.take (dataWrite sends cmd).moved

theorem IhBroadcastCmd.wire_eq (cmd : IhBroadcastCmd) :
    cmd.wire.take cmd.headLen = cmd.head ++ cmd.idField ∧ cmd.wire.drop cmd.headLen = cmd.payload := by
  have hlen : (cmd.head ++ cmd.idField).length = cmd.headLen := by
    rw [List.length_append, cmd.head_length]
    exact congrArg _ (peek_length _ _ _)
  rw [IhBroadcastCmd.wire, ← List.append_assoc]
  exact ⟨List.take_left' hlen, List.drop_left' hlen⟩

theorem IhBroadcastCmd.length_wire (cmd : IhBroadcastCmd) :
    cmd.wire.length = cmd.headLen + cmd.payload.length := by
  rw [cmd.wire_length, IhBroadcastCmd.headLen, Nat.add_assoc]

/-- A transfer that a SIGPIPE ended is not complete, so the result tells. -/
theorem sendRet_transfer_iff (sends : Stream' (Outcome Stop)) (n : Nat) :
    sendRet (transfer sends n maxTimes) n = .val 0 ↔ (transfer sends n maxTimes).moved = n :=
  sendRet_eq_zero_iff fun hstop => by
    obtain ⟨e, he⟩ := Option.ne_none_iff_exists'.mp hstop
    exact Nat.ne_of_lt (transfer_moved_lt_of_why he)

section Sized

variable {cmd : IhBroadcastCmd} (h : cmd.Sized) {c : Client} (hfd : 0 ≤ c.connfd)

include h hfd

/-- The first write is one of the front of the frame. -/
theorem ihSendBroadcastData_head :
    tcpSendNoblock c.sock c.connfd (some (cmdHeadOf cmd)) (protocolCmdHeadLen + round4 cmd.brNum)
      = ⟨{ c.sock with
            sends := (headWrite c.sock.sends cmd).rest
            output := c.sock.output ++ cmd.wire.take (headWrite c.sock.sends cmd).moved },
          sendRet (headWrite c.sock.sends cmd) cmd.headLen⟩ := by
  have hr4 := round4_nonneg h.num_nonneg
  have hlen : (protocolCmdHeadLen + round4 cmd.brNum : Int).toNat = cmd.headLen := by
    unfold IhBroadcastCmd.headLen
    omega
  have hbehind : behind (some (cmdHeadOf cmd)) cmd.headLen = cmd.wire.take cmd.headLen := by
    rw [cmd.wire_eq.1]
    exact h.peek_cmdHeadOf
  have htake : (cmd.wire.take cmd.headLen).length = cmd.headLen := by
    rw [← hbehind]
    exact peek_length _ _ _
  rw [tcpSendNoblock_behind _ _ _ hfd, hlen, hbehind]
  simp only [htake, List.take_take, headWrite, Nat.min_eq_left (transfer_moved_le _ _ _)]

/-- The second is one of the data, from where the first left the socket. -/
theorem ihSendBroadcastData_data :
    let r := tcpSendNoblock c.sock c.connfd (some (cmdHeadOf cmd))
      (protocolCmdHeadLen + round4 cmd.brNum)
    tcpSendNoblock r.sock c.connfd cmd.data cmd.datalen
      = ⟨{ r.sock with
            sends := (dataWrite c.sock.sends cmd).rest
            output := r.sock.output ++ cmd.payload.take (dataWrite c.sock.sends cmd).moved },
          sendRet (dataWrite c.sock.sends cmd) cmd.payload.length⟩ := by
  simp only [ihSendBroadcastData_head h hfd]
  exact tcpSendNoblock_behind _ _ _ hfd

/-- **How the call goes**, in terms of the two transfers. -/
theorem ihSendBroadcastData_writes :
    Broadcasted c
      ⟨{ c.sock with
          sends := (headWrite c.sock.sends cmd).rest
          output := c.sock.output ++ cmd.wire.take (headWrite c.sock.sends cmd).moved },
        sendRet (headWrite c.sock.sends cmd) cmd.headLen⟩
      ⟨{ c.sock with
          sends := (dataWrite c.sock.sends cmd).rest
          output := c.sock.output ++ cmd.wire.take (headWrite c.sock.sends cmd).moved ++
            cmd.payload.take (dataWrite c.sock.sends cmd).moved },
        sendRet (dataWrite c.sock.sends cmd) cmd.payload.length⟩
      (ihSendBroadcastData c cmd) := by
  have hcases := ihSendBroadcastData_cases cmd hfd
  have hdata := ihSendBroadcastData_data h hfd
  simp only [ihSendBroadcastData_head h hfd] at hcases hdata
  rwa [hdata] at hcases

theorem ihSendBroadcastData_output :
    (ihSendBroadcastData c cmd).1.sock.output
      = c.sock.output ++ broadcastOut c.sock.sends cmd := by
  have hcases := ihSendBroadcastData_writes h hfd
  have hwhy : sendRet (headWrite c.sock.sends cmd) cmd.headLen = .killed ↔
      (headWrite c.sock.sends cmd).why = some .sigpipe :=
    ⟨why_of_sendRet, fun hwhy => if_pos hwhy⟩
  generalize ihSendBroadcastData c cmd = out at hcases
  rw [broadcastOut]
  cases hcases with
  | headKilled hr =>
      rw [if_pos (hwhy.mp hr), List.append_nil]
  | dataKilled hr | failed hr =>
      rw [if_neg fun h => hr (hwhy.mpr h), ← List.append_assoc]
  | sent hr =>
      have hnot : ¬ (headWrite c.sock.sends cmd).why = some .sigpipe := fun h => by
        rw [hwhy.mpr h] at hr
        cases hr
      rw [if_neg hnot, ← List.append_assoc]

theorem ihSendBroadcastData_ret :
    (ihSendBroadcastData c cmd).2 = .val 0 ↔
      (headWrite c.sock.sends cmd).moved = cmd.headLen ∧
        (dataWrite c.sock.sends cmd).moved = cmd.payload.length := by
  have hcases := ihSendBroadcastData_writes h hfd
  have hzero : sendRet (headWrite c.sock.sends cmd) cmd.headLen = .val 0 ↔
      (headWrite c.sock.sends cmd).moved = cmd.headLen := sendRet_transfer_iff _ _
  have hzero' : sendRet (dataWrite c.sock.sends cmd) cmd.payload.length = .val 0 ↔
      (dataWrite c.sock.sends cmd).moved = cmd.payload.length := sendRet_transfer_iff _ _
  rw [← hzero, ← hzero']
  generalize ihSendBroadcastData c cmd = out at hcases
  cases hcases with
  | headKilled hr =>
      refine iff_of_false Ret.noConfusion fun hboth => ?_
      rw [hboth.1] at hr
      cases hr
  | dataKilled _ hr' =>
      refine iff_of_false Ret.noConfusion fun hboth => ?_
      rw [hboth.2] at hr'
      cases hr'
  | sent hr hr' => exact iff_of_true rfl ⟨hr, hr'⟩
  | failed _ hnot hneg =>
      exact iff_of_false (fun heq => Int.ne_of_lt hneg (Ret.val.inj heq)) hnot

end Sized

/-- What the call puts on the stream is a prefix of the frame, and all of it
exactly when it returns 0. -/
def Client.PutsPrefix (c : Client) (cmd : IhBroadcastCmd) : Prop :=
  ∃ out, (ihSendBroadcastData c cmd).1.sock.output = c.sock.output ++ out ∧ out <+: cmd.wire ∧
    (out = cmd.wire ↔ (ihSendBroadcastData c cmd).2 = .val 0)

/-- A front and a piece of the rest. -/
theorem take_append_prefix_iff (bs ds : Bytes) (m : Nat) :
    bs.take m ++ ds <+: bs ↔ ds <+: bs.drop m := by
  have h : bs.take m ++ ds <+: bs.take m ++ bs.drop m ↔ ds <+: bs.drop m :=
    List.prefix_append_right_inj (bs.take m)
  rwa [List.take_append_drop] at h

section Prefix

variable (sends : Stream' (Outcome Stop)) (cmd : IhBroadcastCmd)

/-- A prefix of the frame that is as long as the frame comes from two writes
that are complete. -/
theorem broadcastOut_whole_iff (hpre : broadcastOut sends cmd <+: cmd.wire) :
    broadcastOut sends cmd = cmd.wire ↔
      (headWrite sends cmd).moved = cmd.headLen ∧
        (dataWrite sends cmd).moved = cmd.payload.length := by
  have hle := headWrite_moved_le sends cmd
  have hle' := dataWrite_moved_le sends cmd
  have hwire := cmd.length_wire
  have hwhole : broadcastOut sends cmd = cmd.wire ↔
      (broadcastOut sends cmd).length = cmd.wire.length :=
    ⟨fun h => by rw [h], hpre.eq_of_length⟩
  rw [hwhole, broadcastOut, List.length_append, List.length_take]
  split
  · rename_i hwhy
    have hlt : (headWrite sends cmd).moved < cmd.headLen := transfer_moved_lt_of_why hwhy
    rw [List.length_nil]
    omega
  · rw [List.length_take]
    omega

theorem broadcastOut_prefix_iff :
    broadcastOut sends cmd <+: cmd.wire ↔
      (headWrite sends cmd).moved = cmd.headLen ∨ (headWrite sends cmd).why = some .sigpipe ∨
        cmd.payload.take (dataWrite sends cmd).moved
          <+: cmd.wire.drop (headWrite sends cmd).moved := by
  rw [broadcastOut, take_append_prefix_iff]
  by_cases hwhy : (headWrite sends cmd).why = some .sigpipe
  · rw [if_pos hwhy]
    exact iff_of_true List.nil_prefix (.inr (.inl hwhy))
  · rw [if_neg hwhy]
    refine ⟨fun h => .inr (.inr h), ?_⟩
    rintro (hmoved | hpipe | h)
    · rw [hmoved, cmd.wire_eq.2]
      exact List.take_prefix _ _
    · exact absurd hpipe hwhy
    · exact h

end Prefix

/-- **A prefix, whatever fails.** Behind a header that a failure cut short, the
data is only in its place if its bytes happen to be those that were due. -/
theorem ihSendBroadcastData_prefix_iff (cmd : IhBroadcastCmd) (h : cmd.Sized) (c : Client) :
    c.PutsPrefix cmd ↔
      c.connfd < 0 ∨ (headWrite c.sock.sends cmd).moved = cmd.headLen ∨
        (headWrite c.sock.sends cmd).why = some .sigpipe ∨
        cmd.payload.take (dataWrite c.sock.sends cmd).moved
          <+: cmd.wire.drop (headWrite c.sock.sends cmd).moved := by
  by_cases hfd : c.connfd < 0
  · -- nothing is written, and -1 returned
    refine iff_of_true ⟨[], ?_, List.nil_prefix, ?_⟩ (.inl hfd)
    · rw [ihSendBroadcastData, if_pos hfd, List.append_nil]
    · rw [ihSendBroadcastData, if_pos hfd]
      refine iff_of_false (fun hnil => ?_) (by simp)
      have hlen := cmd.wire_length
      rw [← hnil, List.length_nil] at hlen
      exact absurd hlen (Nat.ne_of_lt (Nat.add_pos_left protocolCmdHeadLen_pos _))
  · have hopen := Int.not_lt.mp hfd
    rw [← broadcastOut_prefix_iff, or_iff_right hfd]
    constructor
    · rintro ⟨out, hout, hpre, -⟩
      rw [ihSendBroadcastData_output h hopen] at hout
      rwa [List.append_cancel_left hout]
    · intro hpre
      refine ⟨_, ihSendBroadcastData_output h hopen, hpre, ?_⟩
      rw [broadcastOut_whole_iff _ _ hpre, ihSendBroadcastData_ret h hopen]

/-- Three bytes of the header go out, and nothing after them. -/
theorem ihSendBroadcastData_prefix_cut :
    let cmd : IhBroadcastCmd := ⟨some [104, 105], some [3], 1, 2⟩
    let c : Client := ⟨3, { Sock.dead with sends := [.moved 2] ++ₛ Stream'.const (.stop .error) }⟩
    c.PutsPrefix cmd := by
  intro cmd c
  exact (ihSendBroadcastData_prefix_iff cmd ⟨by decide, by decide, by decide, by decide⟩ c).mpr
    (.inr (.inr (.inr (by decide +kernel))))

/-- **Data where the header should go on**: three bytes of the header, a failure,
and behind it the data, which every reader takes for the rest of the header. -/
theorem ihSendBroadcastData_data_in_header :
    let cmd : IhBroadcastCmd := ⟨some [104, 105], some [3], 1, 2⟩
    let c : Client := ⟨3, { Sock.dead with
      sends := [.moved 2, .stop .error] ++ₛ Stream'.const (.moved 4095) }⟩
    cmd.Sized ∧ (ihSendBroadcastData c cmd).2 = .val (-1) ∧
      (ihSendBroadcastData c cmd).1.sock.output = cmd.wire.take 3 ++ [104, 105] ∧
      ¬ c.PutsPrefix cmd := by
  intro cmd c
  have hout : (ihSendBroadcastData c cmd).1.sock.output = cmd.wire.take 3 ++ [104, 105] := by
    decide +kernel
  refine ⟨⟨by decide, by decide, by decide, by decide⟩, by decide +kernel, hout, ?_⟩
  rintro ⟨out, heq, hpre, -⟩
  have hnil : c.sock.output = [] := rfl
  rw [hnil, List.nil_append, hout] at heq
  rw [← heq] at hpre
  exact absurd hpre (by decide +kernel)

/-! ## The buffer of the header -/

/-- Every store and every byte that is offered lies in `cmd_head[64]`, and what
is encoded is the number of the ids, with the ids behind it. -/
structure IhBroadcastCmd.StaysInside (cmd : IhBroadcastCmd) (ids : Bytes) : Prop where
  writes : (cmdHeadOf cmd).length ≤ 64
  reads : protocolCmdHeadLen + round4 cmd.brNum ≤ 64
  num : (getProtocolCmdBroadcastNum (cmdHeadOf cmd)).toNat = ids.length
  ids : peek (cmdHeadOf cmd) protocolCmdHeadLen ids.length = ids

/-- A call on an open connection is not refused: one that fails closes it. -/
theorem ihSendBroadcastData_not_refused {c : Client} (cmd : IhBroadcastCmd) (hfd : 0 ≤ c.connfd) :
    ihSendBroadcastData c cmd ≠ (c, .val (-1)) := by
  intro hrefused
  have hcases := ihSendBroadcastData_cases cmd hfd
  generalize ihSendBroadcastData c cmd = out at hcases hrefused
  cases hcases with
  | headKilled | dataKilled | sent =>
      have hret := congrArg Prod.snd hrefused
      exact absurd hret (by simp)
  | failed =>
      have hclosed : -1 = c.connfd := congrArg (fun r => r.1.connfd) hrefused
      omega

section Ids

variable {cmd : IhBroadcastCmd} {ids : Bytes} (hids : cmd.brIds = some ids)
  (hnum : cmd.brNum = ids.length)

include hids hnum

theorem cmdHeadOf_ids : ∃ rest : Bytes,
    cmdHeadOf cmd = cmd.head ++ (ids ++ rest) ∧ ids.length + rest.length = max 56 ids.length := by
  have hsame : cmd.ids = ids := by
    have hread := peek_eq ids 0 ids.length (by omega)
    rw [List.drop_zero, List.take_length] at hread
    rw [IhBroadcastCmd.ids, hids, hnum]
    exact hread
  refine ⟨(List.replicate 56 (0 : UInt8)).drop ids.length, ?_, ?_⟩
  · rw [IhBroadcastCmd.cmdHeadOf_eq (by omega), hsame]
    simp [store]
  · rw [List.length_drop, List.length_replicate]
    omega

/-- It is a matter of the number of ids alone. -/
theorem IhBroadcastCmd.staysInside_iff (hle : cmd.brNum ≤ 255) :
    cmd.StaysInside ids ↔ cmd.brNum ≤ 56 := by
  obtain ⟨rest, hbuf, hlen⟩ := cmdHeadOf_ids hids hnum
  have htotal : (cmdHeadOf cmd).length = protocolCmdHeadLen + max 56 ids.length := by
    rw [hbuf, List.length_append, List.length_append, hlen, cmd.head_length]
  have h8 : protocolCmdHeadLen = 8 := rfl
  constructor
  · intro h
    have hwrites := h.writes
    omega
  · intro h56
    have hr4 : round4 cmd.brNum ≤ 4 * 14 := round4_le h56
    refine ⟨by omega, by omega, ?_, ?_⟩
    · have hbyte : getProtocolCmdBroadcastNum (cmdHeadOf cmd) = toU8 cmd.brNum := by
        rw [hbuf]
        rfl
      have htoU8 := toU8_of_nonneg (x := cmd.brNum) (by omega) (by omega)
      rw [hbyte]
      omega
    · have hbehind : (cmdHeadOf cmd).drop protocolCmdHeadLen = ids ++ rest := by
        rw [hbuf]
        exact List.drop_left' cmd.head_length
      have hread := peek_append ids rest 0
      have hdrop := peek_drop (cmdHeadOf cmd) protocolCmdHeadLen 0 ids.length
      rw [hbehind] at hdrop
      rw [peek_zero, List.append_nil, Nat.add_zero] at hread
      exact hdrop.symm.trans hread

end Ids

/-- **Inside the buffer**: the connection is closed, or there are at most 56
ids. -/
theorem ihSendBroadcastData_inside_iff (cmd : IhBroadcastCmd) (ids : Bytes) (c : Client)
    (hids : cmd.brIds = some ids) (hnum : cmd.brNum = ids.length) (hle : cmd.brNum ≤ 255) :
    (ihSendBroadcastData c cmd = (c, .val (-1)) ∨ cmd.StaysInside ids) ↔
      c.connfd < 0 ∨ cmd.brNum ≤ 56 := by
  rw [IhBroadcastCmd.staysInside_iff hids hnum hle]
  by_cases hfd : c.connfd < 0
  · exact iff_of_true (.inl (by rw [ihSendBroadcastData, if_pos hfd])) (.inl hfd)
  · rw [or_iff_right (ihSendBroadcastData_not_refused cmd (Int.not_lt.mp hfd)), or_iff_right hfd]

/-- Two ids on an open connection. -/
theorem ihSendBroadcastData_inside_two :
    let cmd : IhBroadcastCmd := ⟨none, some [3, 5], 2, 0⟩
    let c : Client := ⟨3, Sock.dead⟩
    ihSendBroadcastData c cmd = (c, .val (-1)) ∨ cmd.StaysInside [3, 5] := by
  intro cmd c
  exact (ihSendBroadcastData_inside_iff cmd [3, 5] c rfl rfl (by decide)).mpr (.inr (by decide))

/-- **57 recipients**: the last id is stored behind the buffer, and the write
reads on from there. -/
theorem ihSendBroadcastData_overruns :
    let cmd : IhBroadcastCmd := ⟨none, some (List.replicate 57 3), 57, 0⟩
    let c : Client := ⟨3, Sock.dead⟩
    (cmdHeadOf cmd).length = 65 ∧ protocolCmdHeadLen + round4 cmd.brNum = 68 ∧
      ¬ (ihSendBroadcastData c cmd = (c, .val (-1)) ∨ cmd.StaysInside (List.replicate 57 3)) := by
  intro cmd c
  have hlen : (cmdHeadOf cmd).length = 65 := by decide +kernel
  refine ⟨hlen, by decide, ?_⟩
  rintro (hrefused | hinside)
  · exact ihSendBroadcastData_not_refused cmd (by decide) hrefused
  · have hwrites := hinside.writes
    omega

end Icehydra
