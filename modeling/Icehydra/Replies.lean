import Icehydra.ShmTable
import Icehydra.ShmInfos

/-!
# Replies — what a request is answered with, and what passes for an answer

A RESERVE command is answered from the table of the head node, as the
configuration has left it. The answer comes in among the broadcasts, and the
client tells it from them by one byte of the header.
-/

namespace Icehydra

open Block NonBlock

/-! ## One reply for a request -/

/-- A frame that answers a request with this cmdid: the number of the elements,
or an entry for each of them. -/
structure Answers (items : List CJson) (cmdid : UInt8) (g : Frame) : Prop where
  magic : g.head.take 2 = protocolMagic
  type_eq : getProtocolCmdType g.head = ihCmdTypeSendReserve
  cmdid_eq : getProtocolCmdId g.head = cmdid
  body_eq : ∃ table, List.Forall₂ Configures items table ∧
    g.body = if cmdid = ihReserveCmdIdGetShmNum then [UInt8.ofNat items.length]
      else tableBytes table

theorem answers_num {items : List CJson} {table : List ShmNode}
    (htable : List.Forall₂ Configures items table) :
    Answers items ihReserveCmdIdGetShmNum (numReply items.length) :=
  ⟨rfl, rfl, rfl, table, htable, rfl⟩

theorem answers_info {items : List CJson} {table : List ShmNode}
    (htable : List.Forall₂ Configures items table) (hle : table.length ≤ 255) :
    Answers items ihReserveCmdIdGetShmInfo (infoReply table hle) :=
  ⟨rfl, rfl, rfl, table, htable, rfl⟩

/-- The answer that a head node with this table has. -/
theorem replyBuf_answers {nodeStart : PubSubNode} {json : CJson} {cmd : Bytes}
    (htabled : Tabled (shmItems json) nodeStart.shmTable)
    (hle : ∀ items ∈ shmItems json, items.length ≤ 255)
    (hid : getProtocolCmdId cmd = ihReserveCmdIdGetShmNum ∨
      (getProtocolCmdId cmd = ihReserveCmdIdGetShmInfo ∧ shmItems json ≠ none)) :
    ∃ buf data g, replyBuf nodeStart cmd = some (buf, some data) ∧
      frameOf buf data = Frame.bytes g ∧
      Answers ((shmItems json).getD []) (getProtocolCmdId cmd) g := by
  have htable : nodeStart.shmTable = (nodeStart.shmNodePtr, nodeStart.shmNodeNum) := rfl
  generalize shmItems json = items at htabled hle hid
  generalize hshm : nodeStart.shmTable = t at htabled
  rw [htable] at hshm
  cases htabled with
  | none =>
      obtain ⟨-, hnum⟩ := Prod.mk.inj hshm
      rcases hid with hid | ⟨-, hne⟩
      · obtain ⟨buf, data, hreply, hframe⟩ :=
          replyBuf_num hid (show nodeStart.shmNodeNum = ((0 : Nat) : Int) from hnum)
        rw [hid]
        exact ⟨buf, data, _, hreply, hframe, answers_num .nil⟩
      · exact absurd rfl hne
  | @some items table hforall =>
      obtain ⟨hptr, hnum⟩ := Prod.mk.inj hshm
      have hitems : items.length ≤ 255 := hle items rfl
      rw [Nat.mod_eq_of_lt (by omega)] at hnum
      rcases hid with hid | ⟨hid, -⟩
      · obtain ⟨buf, data, hreply, hframe⟩ := replyBuf_num hid hnum
        rw [hid]
        exact ⟨buf, data, _, hreply, hframe, answers_num hforall⟩
      · rw [hforall.length_eq] at hnum hitems
        obtain ⟨buf, data, hreply, hframe⟩ := replyBuf_info hid hptr hnum hitems
        rw [hid]
        exact ⟨buf, data, _, hreply, hframe, answers_info hforall hitems⟩

/-- A null pointer for the body: nothing is sent, and 0 returned. -/
theorem parserReserveCmd_null {nodeStart : PubSubNode} {cmd : Bytes} (k : Kernel)
    (cur : PubSubNode × Nat) (hid : getProtocolCmdId cmd = ihReserveCmdIdGetShmInfo)
    (hptr : nodeStart.shmNodePtr = none) : (parserReserveCmd k nodeStart cur cmd).calls = [] := by
  have hbufs : ∃ buf, replyBuf nodeStart cmd = some (buf, none) :=
    ⟨_, by rw [replyBuf, hid, if_pos rfl, hptr]; rfl⟩
  obtain ⟨buf, hbufs⟩ := hbufs
  rw [parserReserveCmd_eq, hbufs]
  simp only [Kernel.send_null]

/-- Anything else is answered, with one frame if all of it goes out. -/
theorem parserReserveCmd_answers {nodeStart : PubSubNode} {json : CJson} {cmd : Bytes} {k : Kernel}
    {cur : PubSubNode × Nat} (htabled : Tabled (shmItems json) nodeStart.shmTable)
    (hle : ∀ items ∈ shmItems json, items.length ≤ 255)
    (hid : getProtocolCmdId cmd = ihReserveCmdIdGetShmNum ∨
      (getProtocolCmdId cmd = ihReserveCmdIdGetShmInfo ∧ shmItems json ≠ none))
    (hopen : 0 ≤ cur.1.connfd)
    (hall : ∀ c ∈ (parserReserveCmd k nodeStart cur cmd).calls, c.Complete) :
    ∃ g, Answers ((shmItems json).getD []) (getProtocolCmdId cmd) g ∧
      (parserReserveCmd k nodeStart cur cmd).calls = [fullCall k (Frame.bytes g) cur] := by
  obtain ⟨buf, data, g, hbufs, hframe, hg⟩ := replyBuf_answers htabled hle hid
  refine ⟨g, hg, ?_⟩
  rw [parserReserveCmd_eq, hbufs] at hall ⊢
  rw [← hframe]
  exact Kernel.send_full hopen hall

namespace Broker

variable {s : Broker} {rbuf : Bytes} {f : Frame} {i : Nat} {cur : PubSubNode}

theorem outgoing_reserve (hbuf : s.rbuf = storeFrame rbuf f.head f.body)
    (htype : getProtocolCmdType f.head = ihCmdTypeSendReserve) :
    s.outgoing i cur = parserReserveCmd s.kernel s.nodeStart (cur, i) s.rbuf := by
  rw [outgoing, if_pos]
  rw [hbuf, getProtocolCmdType_storeFrame, htype]

/-- After a RESERVE command there is nothing to close. -/
theorem handleFrame_reserve (hbuf : s.rbuf = storeFrame rbuf f.head f.body)
    (htype : getProtocolCmdType f.head = ihCmdTypeSendReserve) (hcur : s.nodes[i]? = some cur)
    (rset : Int → Bool) : (s.handleFrame i rset).kernel = (s.outgoing i cur).kernel := by
  have hnot : ¬ Relays s.rbuf := by
    rw [Relays, hbuf, getProtocolCmdType_storeFrame, htype]
    exact fun h => h.1 rfl
  rw [handleFrame_eq hcur, errnode, if_neg hnot]
  split <;> rfl

end Broker

/-- **One reply for a request.** With a configuration of at most 255 elements, a
request is answered with one whole frame to the node that asked, and nothing to
anyone else, exactly when it is for the number, or there is an `ih-shm`. -/
theorem request_answered_iff (shmCreate : Bytes → UInt8 → Int → Option Int) (values : List CJson)
    (r : NodeStart) (h : getNodeStart shmCreate values = .ok r) (json : CJson)
    (hjson : headValue values = some json)
    (hle : ∀ items ∈ shmItems json, items.length ≤ 255) (s : Broker)
    (hstart : r.head = some s.nodeStart) (rbuf : Bytes) (f : Frame)
    (hbuf : s.rbuf = storeFrame rbuf f.head f.body)
    (htype : getProtocolCmdType f.head = ihCmdTypeSendReserve)
    (hid : getProtocolCmdId f.head = ihReserveCmdIdGetShmNum ∨
      getProtocolCmdId f.head = ihReserveCmdIdGetShmInfo)
    (i : Nat) (cur : PubSubNode) (hcur : s.nodes[i]? = some cur) (hopen : 0 ≤ cur.connfd)
    (hall : ∀ c ∈ (s.outgoing i cur).calls, c.Complete) (rset : Int → Bool) :
    ∃ v, (s.handleFrame i rset).log = s.log ++ [v] ∧
      Kernel.Wrote s.kernel (s.handleFrame i rset).kernel v.calls ∧
      ((∃ g, Answers ((shmItems json).getD []) (getProtocolCmdId f.head) g ∧
          v.calls = [fullCall s.kernel (Frame.bytes g) (cur, i)]) ↔
        getProtocolCmdId f.head = ihReserveCmdIdGetShmNum ∨ shmItems json ≠ none) := by
  obtain ⟨⟨json', nodeStart, hjson', hnode, hload⟩, -⟩ := getNodeStart_listed h
  obtain rfl := Option.some.inj (hjson.symm.trans hjson')
  obtain rfl := Option.some.inj (hstart.symm.trans hnode)
  have htabled := hload.tabled
  have hcmdid : getProtocolCmdId s.rbuf = getProtocolCmdId f.head := by
    rw [hbuf, getProtocolCmdId_storeFrame]
  have hout : s.outgoing i cur = parserReserveCmd s.kernel s.nodeStart (cur, i) s.rbuf :=
    Broker.outgoing_reserve hbuf htype
  have hwrote := Broker.outgoing_wrote (Broker.rbuf_length_of_store hbuf) i cur
  rw [← Broker.handleFrame_reserve hbuf htype hcur rset] at hwrote
  refine ⟨_, Broker.handleFrame_log hcur rset, hwrote, ?_⟩
  show (∃ g, Answers _ _ g ∧ (s.outgoing i cur).calls = _) ↔ _
  rw [hout] at hall ⊢
  constructor
  · rintro ⟨g, -, hcalls⟩
    by_contra hneither
    obtain ⟨hnum, hitems⟩ := not_or.mp hneither
    have hinfo : getProtocolCmdId s.rbuf = ihReserveCmdIdGetShmInfo :=
      hcmdid.trans (hid.resolve_left hnum)
    have hnull : s.nodeStart.shmNodePtr = none := htabled.ptr_of_none (not_not.mp hitems)
    rw [parserReserveCmd_null s.kernel (cur, i) hinfo hnull] at hcalls
    cases hcalls
  · intro hwhen
    have hreply : getProtocolCmdId s.rbuf = ihReserveCmdIdGetShmNum ∨
        (getProtocolCmdId s.rbuf = ihReserveCmdIdGetShmInfo ∧ shmItems json ≠ none) := by
      rw [hcmdid]
      rcases hid with hnum | hinfo
      · exact .inl hnum
      · rcases hwhen with hnum | hitems
        · exact .inl hnum
        · exact .inr ⟨hinfo, hitems⟩
    rw [← hcmdid]
    exact parserReserveCmd_answers htabled hle hreply hopen hall

/-- The one node of the next runs. -/
def onlyNode : PubSubNode := { name := [97], id := 1, connfd := 5 }

/-- A broker that has read this frame from it. -/
def holding (nodeStart : PubSubNode) (f : Frame) : Broker :=
  { trio.init with
    nodeStart := nodeStart
    nodes := [onlyNode]
    kernel := Kernel.ofSocks [(5, [], Sock.eager [])]
    rbuf := storeFrame [] f.head f.body }

/-- One element, and a request for the table. -/
theorem request_answered_one :
    let json := CJson.object [.numberItem keyPid 0, shmArray [shmElement [109] 64]]
    let f := requestFrame ihReserveCmdIdGetShmInfo
    ∃ r nodeStart, getNodeStart (fun _ _ _ => some 7) [json] = .ok r ∧
      r.head = some nodeStart ∧
      ∃ v, ((holding nodeStart f).handleFrame 0 fun _ => true).log = [v] ∧
        ∃ g, Answers [shmElement [109] 64] ihReserveCmdIdGetShmInfo g ∧
          v.calls = [fullCall (holding nodeStart f).kernel (Frame.bytes g) (onlyNode, 0)] := by
  intro json f
  let nodeStart : PubSubNode :=
    { name := [], id := 0, shmNodePtr := some [⟨[109], 7, 64⟩], shmNodeNum := 1 }
  obtain ⟨r, hr, hhead⟩ : ∃ r, getNodeStart (fun _ _ _ => some 7) [json] = .ok r ∧
      r.head = some nodeStart := ⟨_, rfl, rfl⟩
  have hitems : shmItems json = some [shmElement [109] 64] := rfl
  have hle : ∀ items ∈ shmItems json, items.length ≤ 255 := by
    rw [hitems]
    intro items hmem
    obtain rfl := Option.some.inj hmem
    decide
  obtain ⟨v, hlog, -, hiff⟩ := request_answered_iff (fun _ _ _ => some 7) [json] r hr json rfl hle
    (holding nodeStart f) hhead [] f rfl rfl (.inr rfl) 0 onlyNode rfl (by decide)
    (by decide +kernel) fun _ => true
  refine ⟨r, nodeStart, hr, hhead, v, hlog, ?_⟩
  exact hiff.mpr (.inr (by rw [hitems]; simp))

/-- **No answer**: a configuration without `ih-shm`, and a request for the table
of it. -/
theorem request_without_answer :
    let json := CJson.object [.numberItem keyPid 0]
    let f := requestFrame ihReserveCmdIdGetShmInfo
    ∃ r nodeStart, getNodeStart (fun _ _ _ => some 7) [json] = .ok r ∧
      r.head = some nodeStart ∧ shmItems json = none ∧
      ∃ v, ((holding nodeStart f).handleFrame 0 fun _ => true).log = [v] ∧ v.calls = [] ∧
        ¬ ∃ g, Answers [] ihReserveCmdIdGetShmInfo g ∧
          v.calls = [fullCall (holding nodeStart f).kernel (Frame.bytes g) (onlyNode, 0)] := by
  intro json f
  refine ⟨_, { name := [], id := 0 }, rfl, rfl, rfl, _, rfl, rfl, ?_⟩
  rintro ⟨g, -, hcalls⟩
  cases hcalls

/-! ## What passes for the table -/

theorem getProtocolCmdId_setPureProtocolHead {buf : Bytes} (h : protocolCmdHeadLen ≤ buf.length)
    (bodylen : Int) (c : UInt8) :
    getProtocolCmdId (setPureProtocolHead buf bodylen 0 c.toNat) = c := by
  have hc : (0 : Int) ≤ c.toNat := Int.natCast_nonneg _
  obtain ⟨b0, b1, b2, b3, b4, b5, b6, b7, rest, rfl⟩ := exists_head_bytes h
  simp only [setPureProtocolHead, Int.le_refl, hc, and_true, if_true, toU8_natCast]
  by_cases hlen : 0 ≤ bodylen
  · rw [if_pos hlen, if_pos hlen, UInt8.ofNat_toNat]
    rfl
  · rw [if_neg hlen, if_neg hlen, UInt8.ofNat_toNat]
    rfl

/-- A reply has the cmdid of its request. -/
theorem replyBuf_cmdid {nodeStart : PubSubNode} {cmd buf : Bytes} {data : Option Bytes}
    (h : replyBuf nodeStart cmd = some (buf, data)) : getProtocolCmdId buf = getProtocolCmdId cmd := by
  have hlen : protocolCmdHeadLen ≤ (List.replicate 2000 (0 : UInt8)).length := by
    rw [List.length_replicate]
    decide
  unfold replyBuf at h
  split at h
  · rename_i hid
    obtain ⟨rfl, -⟩ := Prod.mk.inj (Option.some.inj h)
    rw [getProtocolCmdId_setPureProtocolHead hlen, hid]
  · split at h
    · rename_i hid
      obtain ⟨rfl, -⟩ := Prod.mk.inj (Option.some.inj h)
      have hhead := setPureProtocolHead_reply 1 ihReserveCmdIdGetShmNum
      generalize (List.replicate 2000 (0 : UInt8)).drop protocolCmdHeadLen = rest at hhead
      rw [hid, show (1 : Int) = ((1 : Nat) : Int) from rfl, hhead]
      rfl
    · cases h

/-- What goes out has the cmdid of what came in. -/
theorem Broker.outgoing_cmdid {s : Broker} {rbuf : Bytes} {f : Frame} {i : Nat} {cur : PubSubNode}
    (hbuf : s.rbuf = storeFrame rbuf f.head f.body) {x : Call} (hx : x ∈ (s.outgoing i cur).calls) :
    ∃ g : Frame, x.frame = g.bytes ∧ getProtocolCmdId g.head = getProtocolCmdId f.head := by
  have hlen := rbuf_length_of_store hbuf
  have hcmdid : getProtocolCmdId s.rbuf = getProtocolCmdId f.head := by
    rw [hbuf, getProtocolCmdId_storeFrame]
  by_cases hrel : Relays s.rbuf
  · rw [outgoing_relay hrel] at hx
    obtain ⟨-, -, -, -, -, hframe, -⟩ := mem_broadcastCmd_calls _ _ hlen hx
    exact ⟨_, hframe, hcmdid⟩
  · obtain ⟨buf, data, ⟨-, hreply⟩, hout⟩ := outgoing_reply hrel hx
    rw [hout] at hx
    obtain ⟨d, hd, -, -, -, -, hframe, -⟩ := Kernel.send_calls hx
    obtain rfl := Option.some.inj hd
    refine ⟨frameGiven buf data, hframe, ?_⟩
    rw [← hcmdid, ← replyBuf_cmdid hreply]
    exact byteAt_peek buf (by decide)

/-- A request for the table, which `parser_reserve_cmd` answers. -/
def Frame.AsksInfo (f : Frame) : Prop :=
  getProtocolCmdType f.head = ihCmdTypeSendReserve ∧
    getProtocolCmdId f.head = ihReserveCmdIdGetShmInfo

theorem ihRecvIsShmIDs_iff {c : Client} (hfd : 0 ≤ c.connfd) {g : Frame} {rest : Stream' UInt8}
    (hin : c.sock.input = g.bytes ++ₛ rest) (hw : c.sock.Whole) :
    ihRecvIsShmIDs (ihRecvData c true).ret = true ↔
      getProtocolCmdId g.head = ihReserveCmdIdGetShmInfo := by
  rw [ihRecvData_whole hw hfd, nextFrame_eq hin, ihRecvIsShmIDs]
  by_cases hid : getProtocolCmdId g.head = ihReserveCmdIdGetShmInfo
  · simp [hid]
  · simp only [ne_eq, hid, not_false_eq_true, if_true, iff_false, decide_eq_true_eq]
    decide

/-- **What passes for the table.** For what the broker sends on behalf of a
frame, a receive reports the table just when it should, exactly when the frame
is a command, or has another cmdid than the request for it. -/
theorem ihRecvData_reports_iff (s : Broker) (rbuf : Bytes) (f : Frame)
    (hbuf : s.rbuf = storeFrame rbuf f.head f.body) (i : Nat) (cur : PubSubNode) (x : Call)
    (hx : x ∈ (s.outgoing i cur).calls) (c : Client) (rest : Stream' UInt8) (hfd : 0 ≤ c.connfd)
    (hin : c.sock.input = x.frame ++ₛ rest) (hw : c.sock.Whole) :
    (ihRecvIsShmIDs (ihRecvData c true).ret = true ↔ f.AsksInfo) ↔
      getProtocolCmdType f.head = ihCmdTypeSendReserve ∨
        getProtocolCmdId f.head ≠ ihReserveCmdIdGetShmInfo := by
  obtain ⟨g, hframe, hcmdid⟩ := Broker.outgoing_cmdid hbuf hx
  rw [hframe] at hin
  rw [ihRecvIsShmIDs_iff hfd hin hw, hcmdid, Frame.AsksInfo]
  by_cases hid : getProtocolCmdId f.head = ihReserveCmdIdGetShmInfo
  · simp [hid]
  · simp [hid]

/-- A broadcast of a library client. -/
theorem ihRecvData_reports_broadcast :
    let f := Frame.ofFields ihCmdTypeSendParallel ihCmdIdDefault 1 0 [1, 0, 0, 0, 104]
      (show 5 < 65536 by decide)
    let s := holding { name := [], id := 0 } f
    ∃ x ∈ (s.outgoing 0 onlyNode).calls,
      (ihRecvIsShmIDs (ihRecvData (.eager x.frame) true).ret = true ↔ f.AsksInfo) := by
  intro f s
  have hany : (s.outgoing 0 onlyNode).calls.any
      (fun x => decide (Client.eager x.frame).sock.Whole) = true := by decide +kernel
  obtain ⟨x, hx, hw⟩ := List.any_eq_true.mp hany
  exact ⟨x, hx, (ihRecvData_reports_iff s [] f rfl 0 onlyNode x hx (.eager x.frame)
    (Stream'.const 0) (show (0 : Int) ≤ 3 by decide) rfl (of_decide_eq_true hw)).mpr
      (.inr (by decide))⟩

/-- **A broadcast that passes for the table**: the relay keeps the cmdid. -/
theorem broadcast_passes_for_table :
    let f := Frame.ofFields ihCmdTypeSendParallel ihReserveCmdIdGetShmInfo 1 0 [1, 0, 0, 0, 104]
      (show 5 < 65536 by decide)
    let s := holding { name := [], id := 0 } f
    getProtocolCmdType f.head ≠ ihCmdTypeSendReserve ∧
      ∃ x ∈ (s.outgoing 0 onlyNode).calls,
        ihRecvIsShmIDs (ihRecvData (.eager x.frame) true).ret = true ∧
          ¬ (ihRecvIsShmIDs (ihRecvData (.eager x.frame) true).ret = true ↔ f.AsksInfo) := by
  intro f s
  have hany : (s.outgoing 0 onlyNode).calls.any
      (fun x => ihRecvIsShmIDs (ihRecvData (.eager x.frame) true).ret) = true := by decide +kernel
  obtain ⟨x, hx, hret⟩ := List.any_eq_true.mp hany
  refine ⟨by decide, x, hx, hret, fun hiff => ?_⟩
  exact absurd (hiff.mp hret).1 (by decide)

end Icehydra
