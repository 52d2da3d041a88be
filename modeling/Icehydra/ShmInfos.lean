import Icehydra.Bounds
import Icehydra.Discovery
import Icehydra.Interference

/-!
# ShmInfos — what ih_get_shm_infos gives back

A run is put together from the two loops of `Discovery`. The first half is
about a connection that lasts: the table arrives, whatever broadcasts come
before the replies. The second half is about the connections that do not, and
about what the two loops write and throw away.
-/

namespace Icehydra

open Block NonBlock Runs

/-! ## The replies -/

/-- The broker has this table, and its entries can be counted in a byte. -/
structure PubSubNode.HasTable (nodeStart : PubSubNode) (table : List ShmNode) : Prop where
  ptr : nodeStart.shmNodePtr.getD [] = table
  num : nodeStart.shmNodeNum = table.length
  le : table.length ≤ 255

/-- The table in memory. -/
def tableBytes (table : List ShmNode) : Bytes := table.flatMap ShmNode.bytes

theorem tableBytes_length (table : List ShmNode) :
    (tableBytes table).length = sizeofShmNode * table.length := by
  induction table with
  | nil => rfl
  | cons n table ih =>
      have hn : n.bytes.length = sizeofShmNode := by simp [ShmNode.bytes, intBytes, sizeofShmNode]
      rw [tableBytes, List.flatMap_cons, List.length_append, hn, ← tableBytes, ih,
        List.length_cons, Nat.mul_succ, Nat.add_comm]

theorem tableBytes_length_lt {table : List ShmNode} (h : table.length ≤ 255) :
    (tableBytes table).length < 65536 := by
  rw [tableBytes_length, sizeofShmNode]
  omega

/-- The two replies as frames. -/
def numReply (num : Nat) : Frame :=
  Frame.ofFields ihCmdTypeSendReserve ihReserveCmdIdGetShmNum 0 0 [UInt8.ofNat num]
    (Nat.one_lt_succ_succ _)

def infoReply (table : List ShmNode) (h : table.length ≤ 255) : Frame :=
  Frame.ofFields ihCmdTypeSendReserve ihReserveCmdIdGetShmInfo 0 0 (tableBytes table)
    (tableBytes_length_lt h)

theorem Frame.frameOf_ofFields {buf data : Bytes} {t c : UInt8} {body rest : Bytes}
    (hlt : body.length < 65536) (hbuf : buf = headBytes body.length t c 0 0 ++ rest)
    (hdata : data.take body.length = body) (hlen : body.length ≤ data.length) :
    frameOf buf data = (Frame.ofFields t c 0 0 body hlt).bytes := by
  rw [frameOf, hbuf, getProtocolBodyLen_headBytes, Nat.mod_eq_of_lt hlt,
    peek_eq data 0 _ (by omega), List.drop_zero, hdata]
  rfl

theorem setPureProtocolHead_reply (bodylen : Nat) (c : UInt8) :
    setPureProtocolHead (List.replicate 2000 0) bodylen 0 c.toNat
      = headBytes bodylen ihCmdTypeSendReserve c 0 0
        ++ (List.replicate 2000 0).drop protocolCmdHeadLen := by
  have hlen : protocolCmdHeadLen ≤ (List.replicate 2000 (0 : UInt8)).length := by
    rw [List.length_replicate]
    decide
  exact setPureProtocolHead_fresh hlen bodylen ihCmdTypeSendReserve c

/-- The number is answered with one byte, whatever there is of a table. -/
theorem replyBuf_num {nodeStart : PubSubNode} {cmd : Bytes} {num : Nat}
    (hid : getProtocolCmdId cmd = ihReserveCmdIdGetShmNum) (hnum : nodeStart.shmNodeNum = num) :
    ∃ buf data, replyBuf nodeStart cmd = some (buf, some data) ∧
      frameOf buf data = (numReply num).bytes := by
  have hbuf := setPureProtocolHead_reply 1 ihReserveCmdIdGetShmNum
  generalize (List.replicate 2000 (0 : UInt8)).drop protocolCmdHeadLen = rest at hbuf
  have hstore : store (headBytes 1 ihCmdTypeSendReserve ihReserveCmdIdGetShmNum 0 0 ++ rest)
      protocolCmdHeadLen [UInt8.ofNat num]
      = headBytes 1 ihCmdTypeSendReserve ihReserveCmdIdGetShmNum 0 0
        ++ store rest 0 [UInt8.ofNat num] := store_append _ rest _
  have hne : ihReserveCmdIdGetShmNum ≠ ihReserveCmdIdGetShmInfo := by decide
  have hreply : replyBuf nodeStart cmd
      = some (headBytes 1 ihCmdTypeSendReserve ihReserveCmdIdGetShmNum 0 0
          ++ store rest 0 [UInt8.ofNat num], some (store rest 0 [UInt8.ofNat num])) := by
    rw [replyBuf, hid, if_neg hne, if_pos rfl, hnum, toU8_natCast]
    simp only
    rw [show (1 : Int) = ((1 : Nat) : Int) from rfl, hbuf, hstore, List.drop_left']
    rfl
  exact ⟨_, _, hreply, Frame.frameOf_ofFields _ rfl rfl (by simp [store])⟩

/-- The table is answered with its bytes, an empty one too. -/
theorem replyBuf_info {nodeStart : PubSubNode} {cmd : Bytes} {table : List ShmNode}
    (hid : getProtocolCmdId cmd = ihReserveCmdIdGetShmInfo)
    (hptr : nodeStart.shmNodePtr = some table) (hnum : nodeStart.shmNodeNum = table.length)
    (hle : table.length ≤ 255) :
    ∃ buf data, replyBuf nodeStart cmd = some (buf, some data) ∧
      frameOf buf data = (infoReply table hle).bytes := by
  have hlen : toInt32 (sizeofShmNode * nodeStart.shmNodeNum) = (tableBytes table).length := by
    rw [hnum, tableBytes_length, sizeofShmNode, toInt32_eq (by omega) (by omega), Int.natCast_mul]
  have hreply : replyBuf nodeStart cmd
      = some (headBytes (tableBytes table).length ihCmdTypeSendReserve ihReserveCmdIdGetShmInfo 0 0
          ++ (List.replicate 2000 0).drop protocolCmdHeadLen, some (tableBytes table)) := by
    rw [replyBuf, hid, if_pos rfl, hlen, setPureProtocolHead_reply, hptr]
    rfl
  exact ⟨_, _, hreply, Frame.frameOf_ofFields _ rfl (List.take_length ..) (Nat.le_refl _)⟩

section Replies

variable {nodeStart : PubSubNode} {table : List ShmNode} (h : nodeStart.HasTable table)

include h

theorem replyBytes_num :
    replyBytes nodeStart (requestFrame ihReserveCmdIdGetShmNum)
      = (numReply table.length).bytes := by
  obtain ⟨buf, data, hreply, hframe⟩ :=
    replyBuf_num (show getProtocolCmdId (requestFrame ihReserveCmdIdGetShmNum).head = _ from rfl) h.num
  rw [replyBytes, hreply]
  exact hframe

theorem replyBytes_info (hne : table ≠ []) :
    replyBytes nodeStart (requestFrame ihReserveCmdIdGetShmInfo) = (infoReply table h.le).bytes := by
  have hptr : nodeStart.shmNodePtr = some table := by
    cases hp : nodeStart.shmNodePtr with
    | none =>
        have hnil := h.ptr
        rw [hp] at hnil
        exact absurd hnil.symm hne
    | some t => rw [← h.ptr, hp, Option.getD_some]
  obtain ⟨buf, data, hreply, hframe⟩ :=
    replyBuf_info (show getProtocolCmdId (requestFrame ihReserveCmdIdGetShmInfo).head = _ from rfl)
      hptr h.num h.le
  rw [replyBytes, hreply]
  exact hframe

end Replies

/-! ## A connection that lasts -/

/-- Broadcasts of library clients, for which a buffer of `n` bytes is enough. -/
def Broadcasts (n : Int) (fs : List Frame) : Prop :=
  ∀ f ∈ fs, getProtocolCmdId f.head = ihCmdIdDefault ∧ (f.body.length : Int) ≤ n

/-- Behind the broadcasts `bs` the broker's answer to the first request comes
in, and all of it does. -/
structure NumArrives (c : Client) (nodeStart : PubSubNode) (bs : List Frame) : Prop where
  asked : sendRet (firstAsk c) protocolCmdHeadLen = .val 0
  broadcasts : Broadcasts 56 bs
  input : ∃ more, c.sock.input
    = bs.flatMap Frame.bytes ++ replyBytes nodeStart (requestFrame ihReserveCmdIdGetShmNum) ++ₛ more
  whole : ∀ i, i ≤ bs.length → (c.sock.nth i).Whole

/-- Behind it, and behind the broadcasts `bs'`, the answer to the second. -/
structure InfoArrives (c : Client) (nodeStart : PubSubNode) (buffersize : Int)
    (bs bs' : List Frame) : Prop where
  asked : sendRet (secondAsk c) protocolCmdHeadLen = .val 0
  broadcasts : Broadcasts buffersize bs'
  input : ∃ more, c.sock.input
    = bs.flatMap Frame.bytes ++ replyBytes nodeStart (requestFrame ihReserveCmdIdGetShmNum)
      ++ (bs'.flatMap Frame.bytes
        ++ replyBytes nodeStart (requestFrame ihReserveCmdIdGetShmInfo)) ++ₛ more
  whole : ∀ i, bs.length < i → i ≤ bs.length + 1 + bs'.length → (c.sock.nth i).Whole

section Arrives

variable {c : Client} {nodeStart : PubSubNode} {table : List ShmNode} {bs bs' : List Frame}
  {buffersize : Int} (ht : nodeStart.HasTable table)

include ht

/-- The first loop ends with the reply, which says how long the table is. -/
theorem NumArrives.numAt (h : NumArrives c nodeStart bs) :
    NumAt c bs.length ∧ shmNumAt c bs.length = table.length := by
  obtain ⟨more, hin⟩ := h.input
  rw [replyBytes_num ht, ← List.flatMap_singleton Frame.bytes, ← List.flatMap_append] at hin
  have hlen : bs.length < (bs ++ [numReply table.length]).length := by simp
  have hlast : c.sock.frameAt bs.length = numReply table.length := by
    rw [Sock.frameAt_of_frames hin hlen]
    exact List.getElem_concat_length rfl hlen
  refine ⟨⟨Nat.zero_le _, fun i _ hi => ⟨h.whole i (Nat.le_of_lt hi), ?_⟩,
    h.whole _ (Nat.le_refl _), ?_⟩, ?_⟩
  · have hframe : c.sock.frameAt i = bs[i] := by
      rw [Sock.frameAt_of_frames hin (Nat.lt_trans hi hlen), List.getElem_append_left hi]
    rw [Sock.idAt, hframe, (h.broadcasts _ (List.getElem_mem hi)).1]
    decide
  · rw [Sock.idAt, hlast]
    rfl
  · rw [shmNumAt, hlast]
    show (UInt8.ofNat table.length).toNat = table.length
    rw [UInt8.toNat_ofNat', Nat.mod_eq_of_lt (Nat.lt_succ_of_le ht.le)]

/-- The second loop ends with the table. -/
theorem InfoArrives.firstAt (h : InfoArrives c nodeStart buffersize bs bs') (hne : table ≠ []) :
    c.sock.FirstAt ihReserveCmdIdGetShmInfo (bs.length + 1) (bs.length + 1 + bs'.length) ∧
      (c.sock.frameAt (bs.length + 1 + bs'.length)).body = tableBytes table := by
  obtain ⟨more, hin⟩ := h.input
  rw [replyBytes_num ht, replyBytes_info ht hne, ← List.flatMap_singleton Frame.bytes,
    ← List.flatMap_singleton Frame.bytes (infoReply table ht.le), ← List.flatMap_append,
    ← List.flatMap_append, ← List.flatMap_append] at hin
  have hlen : bs.length + 1 + bs'.length
      < (bs ++ [numReply table.length] ++ (bs' ++ [infoReply table ht.le])).length := by
    simp
    omega
  have hlast : c.sock.frameAt (bs.length + 1 + bs'.length) = infoReply table ht.le := by
    rw [Sock.frameAt_of_frames hin hlen, List.getElem_append_right (by simp)]
    simp
  refine ⟨⟨Nat.le_add_right _ _, fun i hj hi => ⟨h.whole i hj (Nat.le_of_lt hi), ?_⟩,
    h.whole _ (by omega) (Nat.le_refl _), ?_⟩, ?_⟩
  · have hi' : i - (bs.length + 1) < bs'.length := by omega
    have hframe : c.sock.frameAt i = bs'[i - (bs.length + 1)] := by
      rw [Sock.frameAt_of_frames hin (Nat.lt_trans hi hlen), List.getElem_append_right (by simpa)]
      simp only [List.length_append, List.length_singleton]
      rw [List.getElem_append_left hi']
    rw [Sock.idAt, hframe, (h.broadcasts _ (List.getElem_mem hi')).1]
    decide
  · rw [Sock.idAt, hlast]
    rfl
  · rw [hlast]
    rfl

end Arrives

theorem toSizeT_of_nonneg {x : Int} (h : 0 ≤ x) (hx : x < 2147483648) : (toSizeT x : Int) = x := by
  unfold toSizeT
  omega

/-- **Discovery under traffic.** Whatever broadcasts come in before the two
replies, and however often `select` has to be asked: the number of entries
comes back, and the buffer begins with the table. -/
theorem ihGetShmInfos_finds (c : Client) (buffer : Bytes) (buffersize : Int)
    (nodeStart : PubSubNode) (table : List ShmNode) (bs bs' : List Frame) (es : Stream' Bool)
    (hfd : 0 ≤ c.connfd) (hsize : 0 ≤ buffersize) (hint : buffersize < 2147483648)
    (ht : nodeStart.HasTable table) (hnum : NumArrives c nodeStart bs)
    (hinfo : table ≠ [] → (sizeofShmNode * table.length : Nat) ≤ buffersize →
      InfoArrives c nodeStart buffersize bs bs')
    (hes : Recurs true es) :
    ∃ q es', Leads Query.step (ihGetShmInfos c buffer buffersize, es) (q, es') ∧
      (buffersize < (sizeofShmNode * table.length : Nat) → q.pc = .returned (-1)) ∧
      (table.length = 0 → q.pc = .returned 0) ∧
      (table.length ≠ 0 → (sizeofShmNode * table.length : Nat) ≤ buffersize →
        q.pc = .returned table.length ∧
          q.buffer.take (sizeofShmNode * table.length) = tableBytes table) := by
  have hsizet := toSizeT_of_nonneg hsize hint
  obtain ⟨hk, hlen⟩ := hnum.numAt ht
  have hkilled : sendRet (firstAsk c) protocolCmdHeadLen ≠ .killed := by
    rw [hnum.asked]
    exact Ret.noConfusion
  by_cases hzero : table.length = 0
  · obtain ⟨q, es', hlead, hpc, -⟩ :=
      Query.leads_empty hfd buffer hkilled buffersize hk (hlen.trans hzero) es
    refine ⟨q, es', hlead, fun hsmall => ?_, fun _ => hpc, fun hne => absurd hzero hne⟩
    rw [hzero, Nat.mul_zero] at hsmall
    exact absurd hsize (Int.not_le.mpr hsmall)
  rcases Int.lt_or_le buffersize (sizeofShmNode * table.length : Nat) with hsmall | hfits
  · have hsmallt : toSizeT buffersize < sizeofShmNode * shmNumAt c bs.length := by
      rw [hlen]
      omega
    obtain ⟨q, es', hlead, hpc, -⟩ := Query.leads_tooSmall hfd buffer hkilled hk hsmallt es
    exact ⟨q, es', hlead, fun _ => hpc, fun hz => absurd hz hzero,
      fun _ hfits => absurd hsmall (Int.not_lt.mpr hfits)⟩
  · have hne : table ≠ [] := fun hnil => hzero (by rw [hnil]; rfl)
    have harr := hinfo hne hfits
    obtain ⟨hm, hbody⟩ := harr.firstAt ht hne
    have hw : Wanted c buffersize bs.length := ⟨by rwa [hlen], by rw [hlen]; omega⟩
    obtain ⟨q, es', hlead, hpc, -, b, hbuf⟩ :=
      Query.leads_done hfd buffer hkilled ⟨hk, hw, harr.asked⟩ hm hes
    rw [hbody] at hpc hbuf
    refine ⟨q, es', hlead, fun hsmall => absurd hsmall (Int.not_lt.mpr hfits),
      fun hz => absurd hz hzero, fun _ _ => ⟨?_, ?_⟩⟩
    · rw [hpc, tableBytes_length, Nat.mul_div_cancel_left _ (by decide)]
    · rw [hbuf, store, List.take_zero, List.nil_append, ← tableBytes_length, List.take_left]

/-- A client of a broker that sends these bytes. -/
def Client.eager (input : Bytes) : Client := ⟨3, .eager input⟩

/-- A broadcast with one byte of data, as the broker relays it. -/
def broadcastOf (b : UInt8) : Frame :=
  Frame.ofFields ihCmdTypeSendParallel ihCmdIdDefault 0 0 [b] (Nat.one_lt_succ_succ _)

/-- One entry, and a broadcast before each reply. -/
theorem ihGetShmInfos_finds_one :
    let table : List ShmNode := [⟨[109], 7, 16⟩]
    let nodeStart : PubSubNode := { name := [104], id := 0, shmNodePtr := some table, shmNodeNum := 1 }
    let c := Client.eager ((broadcastOf 120).bytes
      ++ replyBytes nodeStart (requestFrame ihReserveCmdIdGetShmNum)
      ++ ((broadcastOf 121).bytes
        ++ replyBytes nodeStart (requestFrame ihReserveCmdIdGetShmInfo)))
    ∃ q es', Leads Query.step (ihGetShmInfos c (List.replicate 64 0) 64, Stream'.const true) (q, es') ∧
      q.pc = .returned 1 ∧ q.buffer.take 40 = tableBytes table := by
  intro table nodeStart c
  have ht : nodeStart.HasTable table := ⟨rfl, rfl, by decide⟩
  have hb : ∀ b, ∀ f ∈ [broadcastOf b], getProtocolCmdId f.head = ihCmdIdDefault ∧ f.body.length = 1 := by
    intro b f hf
    obtain rfl := List.mem_singleton.mp hf
    exact ⟨rfl, rfl⟩
  have hwhole : ∀ i, i ≤ 3 → (c.sock.nth i).Whole := by decide +kernel
  have hnum : NumArrives c nodeStart [broadcastOf 120] := by
    refine ⟨by decide +kernel, fun f hf => ⟨(hb _ f hf).1, ?_⟩, ⟨_, rfl⟩,
      fun i hi => hwhole i (Nat.le_trans hi (by decide))⟩
    rw [(hb _ f hf).2]
    decide
  have hinfo : InfoArrives c nodeStart 64 [broadcastOf 120] [broadcastOf 121] := by
    refine ⟨by decide +kernel, fun f hf => ⟨(hb _ f hf).1, ?_⟩, ⟨_, rfl⟩,
      fun i _ hi => hwhole i hi⟩
    rw [(hb _ f hf).2]
    decide
  obtain ⟨q, es', hlead, -, -, hfound⟩ := ihGetShmInfos_finds c (List.replicate 64 0) 64 nodeStart
    table [broadcastOf 120] [broadcastOf 121] (Stream'.const true) (by decide) (by decide)
    (by decide) ht hnum (fun _ _ => hinfo) (recurs_const true)
  obtain ⟨hpc, hbuf⟩ := hfound (by decide) (by decide)
  exact ⟨q, es', hlead, hpc, hbuf⟩

/-! ## A connection that ends -/

/-- Discovery gives up: the broker hangs up before the number is there, the
number asks for more than the buffer, or the second request cannot be sent. -/
def EndsEarly (c : Client) (buffersize : Int) : Prop :=
  sendRet (firstAsk c) protocolCmdHeadLen ≠ .killed ∧
    ((∀ k, ¬ NumAt c k) ∨ ∃ k, NumAt c k ∧
      (toSizeT buffersize < sizeofShmNode * shmNumAt c k ∨
        Wanted c buffersize k ∧ sendRet (secondAsk c) protocolCmdHeadLen = .val (-1)))

/-- These selects lead to a negative result, in finitely many rounds. -/
def ReturnsNegative (c : Client) (buffer : Bytes) (buffersize : Int) (es : Stream' Bool) : Prop :=
  ∃ q es' ret, Leads Query.step (ihGetShmInfos c buffer buffersize, es) (q, es') ∧
    q.pc = .returned ret ∧ ret < 0

section Ends

variable {c : Client} {buffer : Bytes} {buffersize : Int} {es : Stream' Bool}

theorem ReturnsNegative.endsEarly (h : ReturnsNegative c buffer buffersize es)
    (hfd : 0 ≤ c.connfd) : EndsEarly c buffersize := by
  obtain ⟨q, es', ret, hlead, hpc, hneg⟩ := h
  have hrun := hlead.reaches
  refine ⟨fun hkilled => ?_, ?_⟩
  · rw [Query.reaches_killed hfd hkilled hrun] at hpc
    cases hpc
  · cases Query.stage_of_reaches hfd hrun with
    | killed hpc' | lost _ _ _ _ hpc' =>
        rw [hpc'] at hpc
        cases hpc
    | num _ hq | info _ _ _ hq =>
        rw [hq.pc] at hpc
        cases hpc
    | @cutOff m hpass hshort =>
        exact .inl fun k hk => hk.not_short (Nat.zero_le m) hpass hshort
    | tooSmall hk hsmall => exact .inr ⟨_, hk, .inl hsmall⟩
    | unsent hk hw hret => exact .inr ⟨_, hk, .inr ⟨hw, hret⟩⟩
    | empty _ _ hpc' =>
        rw [hpc'] at hpc
        obtain rfl := Phase.returned.inj hpc
        exact absurd hneg (Int.lt_irrefl 0)
    | done _ _ hpc' =>
        rw [hpc'] at hpc
        obtain rfl := Phase.returned.inj hpc
        exact absurd hneg (Int.not_lt.mpr (Int.natCast_nonneg _))

theorem EndsEarly.returnsNegative (h : EndsEarly c buffersize) (hfd : 0 ≤ c.connfd)
    (hup : c.sock.HangsUp) (buffer : Bytes) (es : Stream' Bool) :
    ReturnsNegative c buffer buffersize es := by
  obtain ⟨hkilled, hends⟩ := h
  rcases hends with hnone | ⟨k, hk, hsmall | ⟨hw, hret⟩⟩
  · obtain ⟨k, hwhole, hshort⟩ := hup.exists_short
    have hpass : c.sock.Passes ihReserveCmdIdGetShmNum 0 k := by
      rcases Sock.passes_or_firstAt ihReserveCmdIdGetShmNum fun i _ hi => hwhole i hi with
        hpass | ⟨i, -, hfirst⟩
      · exact hpass
      · exact absurd hfirst (hnone i)
    obtain ⟨q, es', hlead, hpc, -⟩ :=
      Query.leads_cutOff hfd buffer hkilled buffersize hpass hshort es
    exact ⟨q, es', -1, hlead, hpc, by decide⟩
  · obtain ⟨q, es', hlead, hpc, -⟩ := Query.leads_tooSmall hfd buffer hkilled hk hsmall es
    exact ⟨q, es', -1, hlead, hpc, by decide⟩
  · obtain ⟨q, es', hlead, hpc, -⟩ := Query.leads_unsent hfd buffer hkilled hk hw hret es
    exact ⟨q, es', -1, hlead, hpc, by decide⟩

/-- **A connection that is lost in the second loop** is never noticed there. -/
theorem spins_of_lost {k m : Nat} (hfd : 0 ≤ c.connfd) (buffer : Bytes)
    (hkilled : sendRet (firstAsk c) protocolCmdHeadLen ≠ .killed) (hask : Asks c buffersize k)
    (hlt : k < m) (hpass : c.sock.Passes ihReserveCmdIdGetShmInfo (k + 1) m)
    (hshort : ¬ (c.sock.nth m).Whole) (hes : Recurs true es) :
    ∃ q es', Leads Query.step (ihGetShmInfos c buffer buffersize, es) (q, es') ∧
      q.client.connfd = -1 ∧ q.pc = .recvInfo ∧
      ∀ q', Reaches Query.step anyStep q q' → q' = q := by
  obtain ⟨q, es₁, hq, hlead⟩ := Query.leads_inInfo hfd buffer hkilled hask hlt hpass hes
  obtain ⟨es₂, hlead₂⟩ := hq.leads_ready (hes.leads hlead)
  obtain ⟨hpc, hret, hclient⟩ := hq.infoStep_short hfd hshort
  have hgone : (q.infoStep true).client.connfd = -1 := by rw [hclient]
  refine ⟨q.infoStep true, es₂, hlead.trans hlead₂, hgone, hpc, fun q' hrun => ?_⟩
  refine hrun.eq_of_fixed fun ready t hstep => ?_
  rw [Query.step, hpc] at hstep
  rw [← Option.some.inj hstep]
  exact Query.infoStep_gone hret (by rw [hgone]; exact Int.negSucc_lt_zero 0)

end Ends

/-- **Discovery on a broker that hangs up** ends with a negative result exactly
when it ends early; behind the second request it does not. -/
theorem ihGetShmInfos_negative_iff (c : Client) (buffer : Bytes) (buffersize : Int)
    (es : Stream' Bool) (hfd : 0 ≤ c.connfd) (hup : c.sock.HangsUp) :
    ReturnsNegative c buffer buffersize es ↔ EndsEarly c buffersize :=
  ⟨fun h => h.endsEarly hfd, fun h => h.returnsNegative hfd hup buffer es⟩

/-- The broker is gone behind the header of the first reply. -/
theorem ihGetShmInfos_negative_gone :
    let c : Client := ⟨3, { Sock.eager ((numReply 1).bytes.take 8) with
      recvs := [.moved 4095] ++ₛ Stream'.const (.stop .zero) }⟩
    ReturnsNegative c (List.replicate 64 0) 64 (Stream'.const true) := by
  intro c
  have hshort : ¬ (c.sock.nth 0).Whole := by decide +kernel
  have hup : c.sock.HangsUp := by
    refine ⟨1, fun i hi => ⟨.zero, ?_⟩⟩
    obtain ⟨j, rfl⟩ := Nat.exists_eq_add_of_le' hi
    rfl
  exact (ihGetShmInfos_negative_iff c (List.replicate 64 0) 64 (Stream'.const true) (by decide) hup).mpr
    ⟨by decide +kernel, .inl fun k hk => hk.not_short (Nat.zero_le 0) (Sock.Passes.refl _ _ _) hshort⟩

/-- **The broker hangs up between the replies**: `client_connfd` is -1, and the
second loop goes round for ever. -/
theorem ihGetShmInfos_spins :
    let c : Client := ⟨3, { Sock.eager (numReply 1).bytes with
      recvs := [.moved 4095, .moved 4095] ++ₛ Stream'.const (.stop .zero) }⟩
    let buffer : Bytes := List.replicate 64 0
    c.sock.HangsUp ∧
      (∃ q es', Leads Query.step (ihGetShmInfos c buffer 64, Stream'.const true) (q, es') ∧
        q.client.connfd = -1 ∧ q.pc = .recvInfo ∧
        ∀ q', Reaches Query.step anyStep q q' → q' = q) ∧
      ¬ ReturnsNegative c buffer 64 (Stream'.const true) := by
  intro c buffer
  have hk : NumAt c 0 :=
    .self (by decide +kernel) (by decide +kernel)
  have hask : Asks c 64 0 := ⟨hk, by decide +kernel, by decide +kernel⟩
  refine ⟨⟨2, fun i hi => ⟨.zero, ?_⟩⟩, ?_, fun h => ?_⟩
  · obtain ⟨j, rfl⟩ := Nat.exists_eq_add_of_le' hi
    rfl
  · exact spins_of_lost (by decide) buffer (by decide +kernel) hask Nat.zero_lt_one
      (Sock.Passes.refl _ _ _) (by decide +kernel) (recurs_const true)
  · rcases (h.endsEarly (by decide)).2 with hnone | ⟨k, hk', hwhy⟩
    · exact hnone 0 hk
    · obtain rfl := hk'.unique hk
      rcases hwhy with hsmall | ⟨-, hret⟩
      · exact Nat.not_lt.mpr hask.wanted.2 hsmall
      · rw [hask.sent] at hret
        cases hret

/-! ## Where the two loops write -/

namespace Query

/-- Where a round stores in `wbuf`. -/
def wbufOffsets (q : Query) : List Nat :=
  match q.pc with
  | .recvNum =>
      List.range 64 ++ (tcpRecvProtocolCmd q.client.sock q.client.connfd true).offsets
  | _ => []

/-- Where it stores in the caller's buffer. -/
def bufferOffsets (q : Query) (ready : Bool) : List Nat :=
  match q.pc with
  | .recvInfo =>
      if ihSelectRecvReady q.client ready then
        List.range (ihRecvData q.client true).data.length
      else []
  | _ => []

structure WritesInside (q : Query) (buffersize : Int) : Prop where
  wbuf : ∀ off ∈ q.wbufOffsets, off < 64
  buffer : ∀ ready, ∀ off ∈ q.bufferOffsets ready, (off : Int) < buffersize

variable {c : Client} {buffersize : Int} {q : Query}

/-- Behind the loops nothing is written. -/
theorem writesInside_of_ended (hend : q.pc = .killed ∨ ∃ ret, q.pc = .returned ret) :
    q.WritesInside buffersize := by
  refine ⟨fun off hoff => ?_, fun ready off hoff => ?_⟩
  · rcases hend with hpc | ⟨ret, hpc⟩ <;> rw [wbufOffsets, hpc] at hoff <;>
      exact absurd hoff List.not_mem_nil
  · rcases hend with hpc | ⟨ret, hpc⟩ <;> rw [bufferOffsets, hpc] at hoff <;>
      exact absurd hoff List.not_mem_nil

theorem writesInside_of_gone (hpc : q.pc = .recvInfo) (hgone : q.client.connfd < 0) :
    q.WritesInside buffersize := by
  refine ⟨fun off hoff => ?_, fun ready off hoff => ?_⟩
  · rw [wbufOffsets, hpc] at hoff
    exact absurd hoff List.not_mem_nil
  · have hready : ihSelectRecvReady q.client ready = false := if_pos hgone
    rw [bufferOffsets, hpc, hready] at hoff
    exact absurd hoff List.not_mem_nil

theorem InNum.writesInside_iff {k : Nat} (h : InNum c buffersize k q) (hfd : 0 ≤ c.connfd) :
    q.WritesInside buffersize ↔ (c.sock.nth k).Room 56 := by
  have hroom := offsets_lt_iff_room (s := (afterNum c k).sock) hfd 56
  have hoffsets : q.wbufOffsets = List.range 64
      ++ (tcpRecvProtocolCmd (afterNum c k).sock c.connfd true).offsets := by
    rw [wbufOffsets, h.pc, h.client]
    rfl
  have hbuffer : ∀ ready, q.bufferOffsets ready = [] := by
    intro ready
    rw [bufferOffsets, h.pc]
  refine Iff.trans ⟨fun hin off hoff => ?_, fun hin => ⟨fun off hoff => ?_, fun ready off hoff => ?_⟩⟩
    hroom
  · exact hin.wbuf off (by rw [hoffsets]; exact List.mem_append_right _ hoff)
  · rw [hoffsets] at hoff
    rcases List.mem_append.mp hoff with hzero | hrecv
    · exact List.mem_range.mp hzero
    · exact hin off hrecv
  · rw [hbuffer] at hoff
    exact absurd hoff List.not_mem_nil

theorem InInfo.writesInside_iff {m : Nat} (h : InInfo c m q) (hfd : 0 ≤ c.connfd) :
    q.WritesInside buffersize ↔ (c.sock.nth m).Room buffersize.toNat := by
  have hlen := (afterInfo c m).sock.recv_body_length hfd
  have hdata : (ihRecvData (afterInfo c m) true).data.length
      = (recvTransfer (c.sock.nth m)).moved - protocolCmdHeadLen := by
    rw [ihRecvData_data (c := afterInfo c m) hfd]
    exact hlen
  have hready : q.bufferOffsets true
      = List.range ((recvTransfer (c.sock.nth m)).moved - protocolCmdHeadLen) := by
    have hsel : ihSelectRecvReady (afterInfo c m) true = true := if_neg (Int.not_lt.mpr hfd)
    rw [bufferOffsets, h.pc, h.client, hsel, ← hdata]
    rfl
  have hidle : q.bufferOffsets false = [] := by
    have hsel : ihSelectRecvReady q.client false = false := by rw [ihSelectRecvReady, ite_self]
    rw [bufferOffsets, h.pc, hsel]
    rfl
  rw [Sock.room_iff]
  constructor
  · intro hin
    by_contra hlong
    have hlast := hin.buffer true buffersize.toNat
      (by rw [hready]; exact List.mem_range.mpr (by omega))
    omega
  · intro hle
    refine ⟨fun off hoff => ?_, fun ready off hoff => ?_⟩
    · rw [wbufOffsets, h.pc] at hoff
      exact absurd hoff List.not_mem_nil
    · cases ready with
      | false =>
          rw [hidle] at hoff
          exact absurd hoff List.not_mem_nil
      | true =>
          rw [hready] at hoff
          have hlt := List.mem_range.mp hoff
          omega

end Query

/-- Every frame that either loop sets out to receive fits into what is there
for it, or does not come in as far as that. -/
structure RoomForAll (c : Client) (buffersize : Int) : Prop where
  num : ∀ k, c.sock.Passes ihReserveCmdIdGetShmNum 0 k → (c.sock.nth k).Room 56
  info : ∀ k m, Asks c buffersize k → k < m →
    c.sock.Passes ihReserveCmdIdGetShmInfo (k + 1) m → (c.sock.nth m).Room buffersize.toNat

section Inside

variable {c : Client} {buffer : Bytes} {buffersize : Int} (hfd : 0 ≤ c.connfd)

include hfd

theorem RoomForAll.of_inside (hkilled : sendRet (firstAsk c) protocolCmdHeadLen ≠ .killed)
    (hin : ∀ q, Reaches Query.step anyStep (ihGetShmInfos c buffer buffersize) q →
      q.WritesInside buffersize) : RoomForAll c buffersize := by
  refine ⟨fun k hpass => ?_, fun k m hask hlt hpass => ?_⟩
  · obtain ⟨q, es', hq, hlead⟩ := (Query.start_inNum hfd buffer buffersize
      hkilled).leads hfd (Nat.zero_le k) hpass (Stream'.const true)
    exact (hq.writesInside_iff hfd).mp (hin q hlead.reaches)
  · obtain ⟨q, es', hq, hlead⟩ := Query.leads_inInfo hfd buffer hkilled hask hlt hpass
      (recurs_const true)
    exact (hq.writesInside_iff hfd).mp (hin q hlead.reaches)

theorem RoomForAll.writesInside {q : Query} (hroom : RoomForAll c buffersize)
    (hrun : Reaches Query.step anyStep (ihGetShmInfos c buffer buffersize) q) :
    q.WritesInside buffersize := by
  cases Query.stage_of_reaches hfd hrun with
  | killed hpc => exact Query.writesInside_of_ended (.inl hpc)
  | cutOff _ _ hpc | tooSmall _ _ hpc | empty _ _ hpc | unsent _ _ _ hpc | done _ _ hpc =>
      exact Query.writesInside_of_ended (.inr ⟨_, hpc⟩)
  | num hpass hq => exact (hq.writesInside_iff hfd).mpr (hroom.num _ hpass)
  | info hask hlt hpass hq =>
      exact (hq.writesInside_iff hfd).mpr (hroom.info _ _ hask hlt hpass)
  | lost _ _ _ _ hpc _ hclient =>
      exact Query.writesInside_of_gone hpc (by rw [hclient]; exact Int.negSucc_lt_zero 0)

theorem writesInside_of_killed {q : Query}
    (hkilled : sendRet (firstAsk c) protocolCmdHeadLen = .killed)
    (hrun : Reaches Query.step anyStep (ihGetShmInfos c buffer buffersize) q) :
    q.WritesInside buffersize :=
  Query.writesInside_of_ended (.inl (Query.reaches_killed hfd hkilled hrun))

end Inside

/-- **Discovery stays inside its buffers** exactly when there is room for all
the frames it sets out to receive, unless the first request ends the process. -/
theorem ihGetShmInfos_inside_iff (c : Client) (buffer : Bytes) (buffersize : Int)
    (hfd : 0 ≤ c.connfd) :
    (∀ q, Reaches Query.step anyStep (ihGetShmInfos c buffer buffersize) q →
      q.WritesInside buffersize) ↔
    sendRet (firstAsk c) protocolCmdHeadLen = .killed ∨ RoomForAll c buffersize := by
  constructor
  · intro hin
    by_cases hkilled : sendRet (firstAsk c) protocolCmdHeadLen = .killed
    · exact .inl hkilled
    · exact .inr (.of_inside hfd hkilled hin)
  · rintro (hkilled | hroom) q hrun
    · exact writesInside_of_killed hfd hkilled hrun
    · exact hroom.writesInside hfd hrun

/-- Two replies for one entry, and nothing before them. -/
theorem ihGetShmInfos_inside_one :
    let table : List ShmNode := [⟨[109], 7, 16⟩]
    let c := Client.eager ((numReply 1).bytes ++ (infoReply table (by decide)).bytes)
    ∀ q, Reaches Query.step anyStep (ihGetShmInfos c (List.replicate 64 0) 64) q →
      q.WritesInside 64 := by
  intro table c
  have hk : NumAt c 0 :=
    .self (by decide +kernel) (by decide +kernel)
  have hm : c.sock.FirstAt ihReserveCmdIdGetShmInfo 1 1 :=
    .self (by decide +kernel) (by decide +kernel)
  refine (ihGetShmInfos_inside_iff c (List.replicate 64 0) 64 (by decide)).mpr
    (.inr ⟨fun k hpass => ?_, fun k m hask hlt hpass => ?_⟩)
  · obtain rfl : k = 0 := Nat.le_zero.mp (hk.le_of_passes hpass)
    decide +kernel
  · obtain rfl := hask.num.unique hk
    obtain rfl : m = 1 := Nat.le_antisymm (hm.le_of_passes hpass) hlt
    decide +kernel

/-- **A broadcast of 57 bytes** that comes before the number is stored past the
end of `wbuf`, and a `buffersize` of -1 passes for 2^64 - 1. -/
theorem ihGetShmInfos_overruns :
    let long := Frame.ofFields ihCmdTypeSendParallel ihCmdIdDefault 0 0 (List.replicate 57 120)
      (by decide)
    let table : List ShmNode := [⟨[109], 7, 16⟩]
    let c := Client.eager ((numReply 1).bytes ++ (infoReply table (by decide)).bytes)
    (∃ q, Reaches Query.step anyStep (ihGetShmInfos (.eager long.bytes) (List.replicate 64 0) 64) q ∧
      ∃ off ∈ q.wbufOffsets, 64 ≤ off) ∧
    ∃ q, Reaches Query.step anyStep (ihGetShmInfos c [] (-1)) q ∧
      q.bufferOffsets true ≠ [] := by
  intro long table c
  refine ⟨⟨_, Reaches.refl _, by decide +kernel⟩, ?_⟩
  have hrun : (run Query.step unchecked (ihGetShmInfos c [] (-1)) [true]).any
      (fun q => decide (q.bufferOffsets true ≠ [])) = true := by decide +kernel
  obtain ⟨q, hq, hP⟩ := Reaches.of_run_unchecked hrun
  exact ⟨q, hq, by simpa using hP⟩

/-! ## What the two loops throw away -/

/-- What `n` calls of `ih_recv_data` in a row store. -/
def ihRecvDatas (c : Client) : Nat → List Bytes
  | 0 => []
  | n + 1 =>
      let r := ihRecvData c true
      r.data :: ihRecvDatas r.client n

theorem ihRecvDatas_nth {c : Client} {s : Sock} {j n : Nat} {sends : Stream' (Outcome Stop)}
    {output : Bytes} (hfd : 0 ≤ c.connfd) (hsock : c.sock = (s.nth j).sending sends output)
    (hwhole : ∀ i, i < n → (s.nth (j + i)).Whole) :
    ihRecvDatas c n = (List.range n).map fun i => (s.frameAt (j + i)).body := by
  induction n generalizing c j with
  | zero => rfl
  | succ n ih =>
      have hw : c.sock.Whole := by
        rw [hsock]
        exact hwhole 0 (Nat.succ_pos n)
      have hnext : c.sock.past = (s.nth (j + 1)).sending sends output := by
        rw [hsock]
        rfl
      have hrest := ih (c := { c with sock := c.sock.past }) hfd hnext fun i hi => by
        rw [Nat.add_right_comm]
        exact hwhole (i + 1) (Nat.succ_lt_succ hi)
      rw [ihRecvDatas, ihRecvData_whole hw hfd]
      simp only [hrest]
      rw [List.range_succ_eq_map, List.map_cons, List.map_map, hsock]
      simp only [Function.comp_def, Nat.succ_eq_add_one, Nat.add_right_comm j 1, Nat.add_zero,
        Nat.add_assoc]
      rfl

/-- The frames that the first `j` receives bring. -/
def framesTo (c : Client) (j : Nat) : List Frame := (List.range j).map c.sock.frameAt

/-- Those of them that are not the reply at `k` and not the last. -/
def discarded (c : Client) (k j : Nat) : List Frame :=
  ((List.range j).filter fun i => i ≠ k ∧ i + 1 ≠ j).map c.sock.frameAt

def Frame.IsBroadcast (f : Frame) : Prop := getProtocolCmdId f.head = ihCmdIdDefault

instance (f : Frame) : Decidable f.IsBroadcast := inferInstanceAs (Decidable (_ = _))

/-- Discovery has taken `j` frames, the frame `k` among them being the number:
all that follows is still there, and of the broadcasts among the `j` nothing
is left. -/
structure Takes (c : Client) (buffersize : Int) (k j : Nat) (q : Query) : Prop where
  upto : (¬ Asks c buffersize k ∧ j = k + 1) ∨
    (Asks c buffersize k ∧ ∃ m, c.sock.FirstAt ihReserveCmdIdGetShmInfo (k + 1) m ∧ j = m + 1)
  consumed : q.client.sock.consumed = c.sock.consumed ++ (framesTo c j).flatMap Frame.bytes
  input : c.sock.input = (framesTo c j).flatMap Frame.bytes ++ₛ q.client.sock.input
  kept : ∀ n, (∀ i, i < n → (c.sock.nth (j + i)).Whole) →
    ihRecvDatas q.client n = (List.range n).map fun i => (c.sock.frameAt (j + i)).body
  lost : (framesTo c j).filter Frame.IsBroadcast = (discarded c k j).filter Frame.IsBroadcast

section Takes

variable {c : Client} {k j : Nat}

/-- The replies are no broadcasts. -/
theorem filter_discarded (hk : c.sock.idAt k = ihReserveCmdIdGetShmNum)
    (hj : ∀ i, i + 1 = j → c.sock.idAt i = ihReserveCmdIdGetShmNum ∨
      c.sock.idAt i = ihReserveCmdIdGetShmInfo) :
    (framesTo c j).filter Frame.IsBroadcast = (discarded c k j).filter Frame.IsBroadcast := by
  rw [framesTo, discarded, List.filter_map, List.filter_map, List.filter_filter]
  congr 1
  apply List.filter_congr
  intro i _
  have hnum : ihReserveCmdIdGetShmNum ≠ ihCmdIdDefault := by decide
  have hinfo : ihReserveCmdIdGetShmInfo ≠ ihCmdIdDefault := by decide
  by_cases hb : c.sock.idAt i = ihCmdIdDefault
  · have hik : i ≠ k := by
      rintro rfl
      exact hnum (hk.symm.trans hb)
    have hij : i + 1 ≠ j := by
      intro heq
      rcases hj i heq with h | h
      · exact hnum (h.symm.trans hb)
      · exact hinfo (h.symm.trans hb)
    simp [hik, hij]
  · have hnot : ¬ (c.sock.frameAt i).IsBroadcast := hb
    simp [hnot]

theorem Takes.of_sock {buffersize : Int} {q : Query} {sends : Stream' (Outcome Stop)}
    {output : Bytes} (hfd : 0 ≤ c.connfd)
    (hclient : q.client = { c with sock := (c.sock.nth j).sending sends output })
    (hk : NumAt c k)
    (hupto : (¬ Asks c buffersize k ∧ j = k + 1) ∨
      (Asks c buffersize k ∧ ∃ m, c.sock.FirstAt ihReserveCmdIdGetShmInfo (k + 1) m ∧ j = m + 1)) :
    Takes c buffersize k j q where
  upto := hupto
  consumed := by
    rw [hclient]
    exact c.sock.nth_consumed j
  input := by
    rw [hclient]
    exact c.sock.nth_input j
  kept := by
    intro n hwhole
    exact ihRecvDatas_nth (by rw [hclient]; exact hfd) (by rw [hclient]) hwhole
  lost := by
    refine filter_discarded hk.id_eq fun i hi => ?_
    rcases hupto with ⟨-, rfl⟩ | ⟨-, m, hm, rfl⟩
    · obtain rfl := Nat.succ.inj hi
      exact .inl hk.id_eq
    · obtain rfl := Nat.succ.inj hi
      exact .inr hm.id_eq

end Takes

/-- **What discovery takes off the stream**: the frames up to the number, and
up to the table where it gets as far. The replies apart they are thrown away;
what follows is left for the receives that come later. -/
theorem ihGetShmInfos_takes (c : Client) (buffer : Bytes) (buffersize : Int) (k : Nat) (q : Query)
    (ret : Int) (hfd : 0 ≤ c.connfd) (hk : NumAt c k)
    (hrun : Reaches Query.step anyStep (ihGetShmInfos c buffer buffersize) q)
    (hret : q.pc = .returned ret) : ∃ j, Takes c buffersize k j q := by
  cases Query.stage_of_reaches hfd hrun with
  | killed hpc | lost _ _ _ _ hpc =>
      rw [hpc] at hret
      cases hret
  | num _ hq | info _ _ _ hq =>
      rw [hq.pc] at hret
      cases hret
  | cutOff hpass hshort => exact (hk.not_short (Nat.zero_le _) hpass hshort).elim
  | tooSmall hk' hsmall _ hclient =>
      obtain rfl := hk.unique hk'
      exact ⟨k + 1, .of_sock hfd hclient hk
        (.inl ⟨fun hask => Nat.not_lt.mpr hask.wanted.2 hsmall, rfl⟩)⟩
  | empty hk' hzero _ hclient =>
      obtain rfl := hk.unique hk'
      exact ⟨k + 1, .of_sock hfd hclient hk (.inl ⟨fun hask => hask.wanted.1 hzero, rfl⟩)⟩
  | unsent hk' _ hunsent _ hclient =>
      obtain rfl := hk.unique hk'
      refine ⟨k + 1, .of_sock hfd hclient hk (.inl ⟨fun hask => ?_, rfl⟩)⟩
      rw [hask.sent] at hunsent
      cases hunsent
  | @done k' m _ hask hm _ hclient =>
      obtain rfl := hk.unique hask.num
      exact ⟨m + 1, .of_sock hfd hclient hk (.inr ⟨hask, m, hm, rfl⟩)⟩

/-- A broadcast in front of each reply, and one behind them. -/
def crowded : Client :=
  .eager ((broadcastOf 120).bytes ++ (numReply 1).bytes ++ (broadcastOf 121).bytes
    ++ (infoReply [⟨[109], 7, 16⟩] (by decide)).bytes ++ (broadcastOf 122).bytes)

theorem crowded_num : NumAt crowded 1 :=
  .behind (.self (by decide +kernel) (by decide +kernel)) (by decide +kernel) (by decide +kernel)

theorem crowded_info : crowded.sock.FirstAt ihReserveCmdIdGetShmInfo 2 3 :=
  .behind (.self (by decide +kernel) (by decide +kernel)) (by decide +kernel) (by decide +kernel)

theorem crowded_returns : ∃ q,
    Reaches Query.step anyStep (ihGetShmInfos crowded (List.replicate 64 0) 64) q ∧
      q.pc = .returned 1 := by
  have hrun : (run Query.step unchecked (ihGetShmInfos crowded (List.replicate 64 0) 64)
      [true, true, true, true]).any (fun q => decide (q.pc = .returned 1)) = true := by decide +kernel
  obtain ⟨q, hq, hP⟩ := Reaches.of_run_unchecked hrun
  exact ⟨q, hq, of_decide_eq_true hP⟩

/-- Four of the frames, two of them broadcasts. -/
theorem ihGetShmInfos_takes_one :
    ∃ q, Reaches Query.step anyStep (ihGetShmInfos crowded (List.replicate 64 0) 64) q ∧
      Takes crowded 64 1 4 q ∧ (discarded crowded 1 4).length = 2 := by
  obtain ⟨q, hq, hret⟩ := crowded_returns
  obtain ⟨j, hj⟩ := ihGetShmInfos_takes crowded (List.replicate 64 0) 64 1 q 1 (by decide) crowded_num
    hq hret
  have hask : Asks crowded 64 1 := ⟨crowded_num, by decide +kernel, by decide +kernel⟩
  rcases hj.upto with ⟨hnot, -⟩ | ⟨-, m, hm, rfl⟩
  · exact absurd hask hnot
  · obtain rfl := hm.unique crowded_info
    exact ⟨q, hq, hj, rfl⟩

/-- **A broadcast before each reply**: both have been read when discovery
returns, and the receive that follows brings the third. -/
theorem ihGetShmInfos_loses :
    let table : List ShmNode := [⟨[109], 7, 16⟩]
    let info := infoReply table (by decide)
    let c := Client.eager ((broadcastOf 120).bytes ++ (numReply 1).bytes ++ (broadcastOf 121).bytes
      ++ info.bytes ++ (broadcastOf 122).bytes)
    ∃ q, Reaches Query.step anyStep (ihGetShmInfos c (List.replicate 64 0) 64) q ∧
      q.pc = .returned 1 ∧
      q.client.sock.consumed = (broadcastOf 120).bytes ++ (numReply 1).bytes
        ++ (broadcastOf 121).bytes ++ info.bytes ∧
      ihRecvDatas q.client 1 = [[122]] := by
  intro table info c
  have hrun : (run Query.step unchecked (ihGetShmInfos c (List.replicate 64 0) 64)
      [true, true, true, true]).any
      (fun q => decide (q.pc = .returned 1 ∧
        q.client.sock.consumed = (broadcastOf 120).bytes ++ (numReply 1).bytes
          ++ (broadcastOf 121).bytes ++ info.bytes ∧
        ihRecvDatas q.client 1 = [[122]])) = true := by decide +kernel
  obtain ⟨q, hq, hP⟩ := Reaches.of_run_unchecked hrun
  exact ⟨q, hq, of_decide_eq_true hP⟩

end Icehydra
