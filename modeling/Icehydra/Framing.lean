import Icehydra.Socket

/-!
# Framing — frames across an arbitrarily fragmented stream

One end writes frames with successive `tcp_send_protocol_cmd` calls, the other
reads with successive `tcp_recv_protocol_cmd` calls. The two ends meet in the
byte stream only: how the bytes are taken from the sender and how they are
handed to the receiver are independent lists of outcomes.
-/

namespace Icehydra

open Block NonBlock

/-! ## One frame -/

theorem Frame.frameOf_eq (f : Frame) : frameOf f.head f.body = f.bytes := by
  have hb : (0 : Nat) + getProtocolBodyLen f.head ≤ f.body.length := by
    rw [f.body_length]
    omega
  rw [frameOf, peek_eq _ _ _ (by rw [f.head_length]; omega), peek_eq _ _ _ hb,
    List.drop_zero, List.drop_zero, List.take_of_length_le (by rw [f.head_length]),
    ← f.body_length, List.take_length, Frame.bytes]

theorem Frame.take_head (f : Frame) (rest : Stream' UInt8) :
    (f.bytes ++ₛ rest).take protocolCmdHeadLen = f.head := by
  rw [Frame.bytes, Stream'.append_append_stream, ← f.head_length,
    Stream'.take_append_of_le_length _ _ _ (Nat.le_refl _), List.take_length]

theorem Frame.nextLen_eq {s : Sock} (f : Frame) {rest : Stream' UInt8}
    (h : s.input = f.bytes ++ₛ rest) : nextLen s = f.body.length := by
  rw [nextLen, h, f.take_head, f.body_length]

/-- The frame that stands next on the stream. -/
def nextFrame (s : Sock) : Frame where
  head := s.input.take protocolCmdHeadLen
  body := (s.input.drop protocolCmdHeadLen).take (nextLen s)
  head_length := Stream'.length_take _ _
  body_length := Stream'.length_take _ _

theorem nextFrame_bytes_length (s : Sock) :
    (nextFrame s).bytes.length = protocolCmdHeadLen + nextLen s := by
  rw [Frame.bytes_length]
  exact congrArg _ (Stream'.length_take _ _)

theorem nextFrame_bytes (s : Sock) :
    (nextFrame s).bytes = s.input.take (nextFrame s).bytes.length := by
  rw [nextFrame_bytes_length, Stream'.take_add]
  rfl

theorem nextFrame_eq {s : Sock} {f : Frame} {rest : Stream' UInt8}
    (h : s.input = f.bytes ++ₛ rest) : nextFrame s = f := by
  apply Frame.ext
  · show s.input.take protocolCmdHeadLen = f.head
    rw [h, f.take_head]
  · show (s.input.drop protocolCmdHeadLen).take (nextLen s) = f.body
    rw [f.nextLen_eq h, h, Frame.bytes, Stream'.append_append_stream, ← f.head_length,
      Stream'.drop_append_stream, Stream'.take_append_of_le_length _ _ _ (Nat.le_refl _),
      List.take_length]

/-- **A read that returns 0** has taken exactly the next frame. -/
theorem tcpRecvProtocolCmd_ok {s : Sock} {sockfd : Int} (hfd : 0 ≤ sockfd)
    (hret : (tcpRecvProtocolCmd s sockfd true).ret = 0) :
    tcpRecvProtocolCmd s sockfd true =
      ⟨{ s with
          recvs := (recvTransfer s).rest
          input := s.input.drop (nextFrame s).bytes.length
          consumed := s.consumed ++ (nextFrame s).bytes },
        (nextFrame s).head, (nextFrame s).body, 0⟩ := by
  rw [tcpRecvProtocolCmd_eq s hfd] at hret ⊢
  have hmoved : (recvTransfer s).moved = protocolCmdHeadLen + nextLen s := by
    by_contra hne
    simp [hne] at hret
  have hmin : min (protocolCmdHeadLen + nextLen s) protocolCmdHeadLen = protocolCmdHeadLen :=
    Nat.min_eq_right (Nat.le_add_right _ _)
  have hbytes := nextFrame_bytes s
  rw [nextFrame_bytes_length] at hbytes
  simp only [hmoved, hmin, Nat.add_sub_cancel_left, if_true, hbytes, Stream'.length_take]
  rfl

/-- The outcomes one call meets while it moves the whole frame `f`: those of
the header loop and those of the body loop, within the retries that a budget
of 2000 allows. -/
structure Carried (o : List (Outcome Stop) × List (Outcome Stop)) (f : Frame) : Prop where
  head : Carries o.1 protocolCmdHeadLen
  body : Carries o.2 f.body.length
  retries : retries (o.1 ++ o.2) ≤ maxTimes

/-- The transfers of a call that carries a frame. -/
theorem Carried.transferSeq_eq {o : List (Outcome Stop) × List (Outcome Stop)} {f : Frame}
    (h : Carried o f) (os : Stream' (Outcome Stop)) :
    transferSeq (o.1 ++ o.2 ++ₛ os) maxTimes [protocolCmdHeadLen, f.body.length]
      = ⟨f.bytes.length, os, maxTimes - NonBlock.retries (o.1 ++ o.2), none⟩ := by
  have hls : CarriesSeq [o.1, o.2] [protocolCmdHeadLen, f.body.length] :=
    ⟨h.head, h.body, trivial⟩
  have hflat : [o.1, o.2].flatten = o.1 ++ o.2 := by simp
  have hret : NonBlock.retries [o.1, o.2].flatten ≤ maxTimes := by
    rw [hflat]
    exact h.retries
  rw [← hflat, transferSeq_carries hls hret os, f.bytes_length]
  simp

/-- One write of a carried frame. -/
theorem tcpSendProtocolCmd_carried {o : List (Outcome Stop) × List (Outcome Stop)} {f : Frame}
    (h : Carried o f) {s : Sock} {sockfd : Int} (hfd : 0 ≤ sockfd)
    {os : Stream' (Outcome Stop)} (hs : s.sends = o.1 ++ o.2 ++ₛ os) :
    tcpSendProtocolCmd s sockfd f.head (some f.body)
      = ⟨{ s with sends := os, output := s.output ++ f.bytes }, .val 0⟩ := by
  have hlen : protocolCmdHeadLen + f.body.length = f.bytes.length := f.bytes_length.symm
  rw [tcpSendProtocolCmd_eq s f.head f.body hfd, hs, ← f.body_length, h.transferSeq_eq,
    f.frameOf_eq]
  simp [sendRet, hlen]

/-- One read of a carried frame: it stops where the frame ends. -/
theorem tcpRecvProtocolCmd_carried {o : List (Outcome Stop) × List (Outcome Stop)} {f : Frame}
    (h : Carried o f) {s : Sock} {sockfd : Int} (hfd : 0 ≤ sockfd)
    {os : Stream' (Outcome Stop)} (hr : s.recvs = o.1 ++ o.2 ++ₛ os)
    {rest : Stream' UInt8} (hin : s.input = f.bytes ++ₛ rest) :
    tcpRecvProtocolCmd s sockfd true
      = ⟨{ s with recvs := os, input := rest, consumed := s.consumed ++ f.bytes },
          f.head, f.body, 0⟩ := by
  have htransfer : recvTransfer s
      = ⟨f.bytes.length, os, maxTimes - NonBlock.retries (o.1 ++ o.2), none⟩ := by
    rw [recvTransfer, f.nextLen_eq hin, hr, h.transferSeq_eq]
  have hret : (tcpRecvProtocolCmd s sockfd true).ret = 0 := by
    rw [tcpRecvProtocolCmd_eq s hfd, htransfer, f.nextLen_eq hin, f.bytes_length]
    exact if_pos rfl
  have hdrop : s.input.drop f.bytes.length = rest := by
    rw [hin, Stream'.drop_append_stream]
  rw [tcpRecvProtocolCmd_ok hfd hret, nextFrame_eq hin, htransfer, hdrop]

/-! ## Any number of frames -/

/-- Successive writes; the results in order. -/
def sendFrames (s : Sock) (sockfd : Int) : List Frame → Sock × List Ret
  | [] => (s, [])
  | f :: fs =>
      let r := tcpSendProtocolCmd s sockfd f.head (some f.body)
      let rs := sendFrames r.sock sockfd fs
      (rs.1, r.ret :: rs.2)

/-- Successive reads; what each stored and returned, in order. -/
def recvFrames (s : Sock) (sockfd : Int) : Nat → Sock × List (Bytes × Bytes × Int)
  | 0 => (s, [])
  | n + 1 =>
      let r := tcpRecvProtocolCmd s sockfd true
      let rs := recvFrames r.sock sockfd n
      (rs.1, (r.head, r.body, r.ret) :: rs.2)

/-- The outcomes of calls in a row. -/
def inRow (os : List (List (Outcome Stop) × List (Outcome Stop))) : List (Outcome Stop) :=
  os.flatMap fun o => o.1 ++ o.2

theorem inRow_cons (o : List (Outcome Stop) × List (Outcome Stop))
    (os : List (List (Outcome Stop) × List (Outcome Stop))) :
    inRow (o :: os) = o.1 ++ o.2 ++ inRow os := rfl

theorem sendFrames_carried {os : List (List (Outcome Stop) × List (Outcome Stop))}
    {fs : List Frame} (h : List.Forall₂ Carried os fs) {s : Sock} {sockfd : Int}
    (hfd : 0 ≤ sockfd) {rest : Stream' (Outcome Stop)} (hs : s.sends = inRow os ++ₛ rest) :
    sendFrames s sockfd fs
      = ({ s with sends := rest, output := s.output ++ fs.flatMap Frame.bytes },
          List.replicate fs.length (.val 0)) := by
  induction h generalizing s with
  | nil =>
      simp only [inRow, List.flatMap_nil, Stream'.nil_append_stream] at hs
      simp [sendFrames, ← hs]
  | cons ho _ ih =>
      rw [inRow_cons, Stream'.append_append_stream] at hs
      simp only [sendFrames, tcpSendProtocolCmd_carried ho hfd hs]
      rw [ih rfl]
      simp [List.replicate_succ]

/-- After `k` reads exactly the first `k` frames are consumed. -/
theorem recvFrames_carried {os : List (List (Outcome Stop) × List (Outcome Stop))}
    {fs : List Frame} (h : List.Forall₂ Carried os fs) {s : Sock} {sockfd : Int}
    (hfd : 0 ≤ sockfd) {rest : Stream' (Outcome Stop)} (hr : s.recvs = inRow os ++ₛ rest)
    {more : Stream' UInt8} (hin : s.input = fs.flatMap Frame.bytes ++ₛ more)
    {k : Nat} (hk : k ≤ fs.length) :
    (recvFrames s sockfd k).2 = (fs.take k).map (fun f => (f.head, f.body, 0)) ∧
      (recvFrames s sockfd k).1.consumed = s.consumed ++ (fs.take k).flatMap Frame.bytes ∧
      (recvFrames s sockfd k).1.input = (fs.drop k).flatMap Frame.bytes ++ₛ more := by
  induction h generalizing s k with
  | nil =>
      obtain rfl : k = 0 := by simpa using hk
      simp [recvFrames, hin]
  | @cons o f os fs ho _ ih =>
      cases k with
      | zero => simp [recvFrames, hin]
      | succ k =>
          rw [inRow_cons, Stream'.append_append_stream] at hr
          rw [List.flatMap_cons, Stream'.append_append_stream] at hin
          simp only [recvFrames, tcpRecvProtocolCmd_carried ho hfd hr hin]
          obtain ⟨h1, h2, h3⟩ := ih (s := { s with
            recvs := inRow os ++ₛ rest
            input := fs.flatMap Frame.bytes ++ₛ more
            consumed := s.consumed ++ f.bytes }) rfl rfl (by simpa using hk)
          rw [h1, h2, h3]
          simp

/-- **Framing round trip.** Whatever the partial writes `os` on one end, the
chunks `os'` on the other and the retries among them: every call returns 0,
the reads give back the frames that were written, in order, and after each
read exactly the frames read so far have left the stream. -/
theorem framing_round_trip (fs : List Frame)
    (os os' : List (List (Outcome Stop) × List (Outcome Stop)))
    (hos : List.Forall₂ Carried os fs) (hos' : List.Forall₂ Carried os' fs)
    (a b : Sock) (afd bfd : Int) (hafd : 0 ≤ afd) (hbfd : 0 ≤ bfd)
    (sends recvs : Stream' (Outcome Stop)) (more : Stream' UInt8)
    (ha : a.sends = inRow os ++ₛ sends) (hb : b.recvs = inRow os' ++ₛ recvs)
    (hwire : b.input = (sendFrames a afd fs).1.output.drop a.output.length ++ₛ more) :
    (sendFrames a afd fs).2 = List.replicate fs.length (.val 0) ∧
      (recvFrames b bfd fs.length).2 = fs.map (fun f => (f.head, f.body, 0)) ∧
      ∀ k, k ≤ fs.length →
        (recvFrames b bfd k).1.consumed = b.consumed ++ (fs.take k).flatMap Frame.bytes ∧
          (recvFrames b bfd k).1.input = (fs.drop k).flatMap Frame.bytes ++ₛ more := by
  rw [sendFrames_carried hos hafd ha] at hwire ⊢
  rw [List.drop_left] at hwire
  refine ⟨rfl, ?_, ?_⟩
  · have := (recvFrames_carried hos' hbfd hb hwire (Nat.le_refl _)).1
    rwa [List.take_length] at this
  · intro k hk
    exact (recvFrames_carried hos' hbfd hb hwire hk).2

/-- Two frames, the first with an empty body; neither side's chunks agree with
the frames or with the other side's. -/
theorem framing_round_trip_two :
    let fs := [Frame.ofFields 1 188 0 0 [] (by decide),
      Frame.ofFields 1 188 0 0 [104, 105, 33] (by decide)]
    let os : List (List (Outcome Stop) × List (Outcome Stop)) :=
      [([.moved 2, .again, .moved 4], []), ([.moved 9], [.again, .moved 0, .moved 1])]
    let os' : List (List (Outcome Stop) × List (Outcome Stop)) :=
      [([.moved 0, .moved 6], []), ([.again, .again, .moved 7], [.moved 9])]
    let a : Sock := ⟨Stream'.const 0, Stream'.const .again, inRow os ++ₛ Stream'.const .again,
      [], []⟩
    let b : Sock := ⟨(sendFrames a 3 fs).1.output ++ₛ Stream'.const 0,
      inRow os' ++ₛ Stream'.const .again, Stream'.const .again, [], []⟩
    (sendFrames a 3 fs).2 = List.replicate 2 (.val 0) ∧
      (recvFrames b 4 2).2 = fs.map (fun f => (f.head, f.body, 0)) ∧
      ∀ k, k ≤ 2 →
        (recvFrames b 4 k).1.consumed = (fs.take k).flatMap Frame.bytes ∧
          (recvFrames b 4 k).1.input = (fs.drop k).flatMap Frame.bytes ++ₛ Stream'.const 0 := by
  intro fs os os' a b
  have hos : List.Forall₂ Carried os fs :=
    .cons ⟨by decide, by decide, by decide⟩ (.cons ⟨by decide, by decide, by decide⟩ .nil)
  have hos' : List.Forall₂ Carried os' fs :=
    .cons ⟨by decide, by decide, by decide⟩ (.cons ⟨by decide, by decide, by decide⟩ .nil)
  exact framing_round_trip fs os os' hos hos' a b 3 4 (by decide) (by decide)
    (Stream'.const .again) (Stream'.const .again) (Stream'.const 0) rfl rfl rfl

end Icehydra
