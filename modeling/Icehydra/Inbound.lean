import Icehydra.Framing
import Mathlib.Data.Nat.Find

/-!
# Inbound — what one receive after another brings

The stream and the outcomes of `recv()` fix what a row of
`tcp_recv_protocol_cmd` calls brings, whatever is sent in between. `nth s k`
is the socket behind its first `k` frames; it means something as long as each
of them came in whole. The second half of the module is about the bytes alone:
frames are a prefix code, so a stream can be cut into them in one way only.
-/

namespace Icehydra

open Block NonBlock

namespace Sock

/-! ## One receive -/

/-- The next receive brings a whole frame. -/
def Whole (s : Sock) : Prop := Through s.recvs maxTimes [protocolCmdHeadLen, nextLen s]

instance (s : Sock) : Decidable s.Whole := inferInstanceAs (Decidable (Through _ _ _))

/-- The socket behind its next frame. -/
def past (s : Sock) : Sock :=
  { s with
    recvs := (recvTransfer s).rest
    input := s.input.drop (nextFrame s).bytes.length
    consumed := s.consumed ++ (nextFrame s).bytes }

/-- The socket behind a receive that fell short. -/
def cut (s : Sock) : Sock :=
  { s with
    recvs := (recvTransfer s).rest
    input := s.input.drop (recvTransfer s).moved
    consumed := s.consumed ++ s.input.take (recvTransfer s).moved }

theorem whole_iff (s : Sock) :
    s.Whole ↔ (recvTransfer s).moved = protocolCmdHeadLen + nextLen s := by
  rw [Whole, Through, recvTransfer]
  simp

theorem moved_le (s : Sock) : (recvTransfer s).moved ≤ (nextFrame s).bytes.length := by
  have h := transferSeq_moved_le s.recvs maxTimes [protocolCmdHeadLen, nextLen s]
  simp only [List.sum_cons, List.sum_nil, Nat.add_zero] at h
  rw [nextFrame_bytes_length]
  exact h

theorem recv_whole {s : Sock} (h : s.Whole) {sockfd : Int} (hfd : 0 ≤ sockfd) :
    tcpRecvProtocolCmd s sockfd true = ⟨s.past, (nextFrame s).head, (nextFrame s).body, 0⟩ := by
  apply tcpRecvProtocolCmd_ok hfd
  rw [tcpRecvProtocolCmd_eq s hfd]
  exact if_pos (s.whole_iff.mp h)

theorem recv_short {s : Sock} (h : ¬ s.Whole) {sockfd : Int} (hfd : 0 ≤ sockfd) :
    (tcpRecvProtocolCmd s sockfd true).ret = -1 ∧
      (tcpRecvProtocolCmd s sockfd true).sock = s.cut := by
  rw [tcpRecvProtocolCmd_eq s hfd]
  exact ⟨if_neg fun hm => h (s.whole_iff.mpr hm), rfl⟩

theorem recv_body_length (s : Sock) {sockfd : Int} (hfd : 0 ≤ sockfd) :
    (tcpRecvProtocolCmd s sockfd true).body.length
      = (recvTransfer s).moved - protocolCmdHeadLen := by
  rw [tcpRecvProtocolCmd_eq s hfd]
  exact Stream'.length_take _ _

/-- The next frame brings at most `n` bytes behind its header, because it has
no more or because they do not come in. -/
def Room (s : Sock) (n : Nat) : Prop :=
  nextLen s ≤ n ∨ ¬ Through s.recvs maxTimes [protocolCmdHeadLen, n + 1]

instance (s : Sock) (n : Nat) : Decidable (s.Room n) := inferInstanceAs (Decidable (_ ∨ _))

theorem room_iff (s : Sock) (n : Nat) :
    s.Room n ↔ (recvTransfer s).moved ≤ protocolCmdHeadLen + n := by
  unfold Room
  rcases Nat.lt_or_ge n (nextLen s) with hlong | hshort
  · rw [or_iff_right (Nat.not_le.mpr hlong), through_pair_iff (Nat.succ_le_of_lt hlong)]
    show ¬ _ ≤ (recvTransfer s).moved ↔ _
    omega
  · have hle := s.moved_le
    rw [nextFrame_bytes_length] at hle
    exact iff_of_true (.inl hshort) (by omega)

/-! ## One receive after another -/

/-- The socket behind its first `k` frames. -/
def nth (s : Sock) : Nat → Sock
  | 0 => s
  | k + 1 => (s.nth k).past

/-- The frame that the receive number `k` is to bring, counted from 0. -/
def frameAt (s : Sock) (k : Nat) : Frame := nextFrame (s.nth k)

def idAt (s : Sock) (k : Nat) : UInt8 := getProtocolCmdId (s.frameAt k).head

/-- The receives from number `j` up to number `k`, without it, bring whole
frames, and none of them has this id. -/
def Passes (s : Sock) (id : UInt8) (j k : Nat) : Prop :=
  ∀ i, j ≤ i → i < k → (s.nth i).Whole ∧ s.idAt i ≠ id

/-- The first frame with this id, from number `j` on, is number `k`. -/
structure FirstAt (s : Sock) (id : UInt8) (j k : Nat) : Prop where
  le : j ≤ k
  passes : s.Passes id j k
  whole : (s.nth k).Whole
  id_eq : s.idAt k = id

theorem Passes.refl (s : Sock) (id : UInt8) (j : Nat) : s.Passes id j j :=
  fun _ hj hi => absurd hj (by omega)

theorem Passes.succ {s : Sock} {id : UInt8} {j k : Nat} (h : s.Passes id j k)
    (hw : (s.nth k).Whole) (hid : s.idAt k ≠ id) : s.Passes id j (k + 1) := by
  intro i hj hi
  rcases Nat.lt_or_ge i k with hlt | hge
  · exact h i hj hlt
  · obtain rfl : i = k := by omega
    exact ⟨hw, hid⟩

theorem Passes.mono {s : Sock} {id : UInt8} {j k m : Nat} (h : s.Passes id j m) (hle : k ≤ m) :
    s.Passes id j k :=
  fun i hj hi => h i hj (by omega)

/-- A search that ends where it begins. -/
theorem FirstAt.self {s : Sock} {id : UInt8} {k : Nat} (hw : (s.nth k).Whole)
    (hid : s.idAt k = id) : s.FirstAt id k k :=
  ⟨Nat.le_refl k, Passes.refl s id k, hw, hid⟩

/-- A search that goes on behind a frame with another id. -/
theorem FirstAt.behind {s : Sock} {id : UInt8} {j k : Nat} (h : s.FirstAt id (j + 1) k)
    (hw : (s.nth j).Whole) (hid : s.idAt j ≠ id) : s.FirstAt id j k where
  le := Nat.le_of_succ_le h.le
  passes i hj hi := by
    rcases Nat.eq_or_lt_of_le hj with rfl | hlt
    · exact ⟨hw, hid⟩
    · exact h.passes i hlt hi
  whole := h.whole
  id_eq := h.id_eq

/-- A search that has got past `k` has not ended there. -/
theorem FirstAt.le_of_passes {s : Sock} {id : UInt8} {j k m : Nat} (h : s.FirstAt id j k)
    (hm : s.Passes id j m) : m ≤ k := by
  by_contra hlt
  exact (hm k h.le (by omega)).2 h.id_eq

theorem FirstAt.unique {s : Sock} {id : UInt8} {j k k' : Nat} (h : s.FirstAt id j k)
    (h' : s.FirstAt id j k') : k = k' :=
  Nat.le_antisymm (h'.le_of_passes h.passes) (h.le_of_passes h'.passes)

/-- A search that met a receive that fell short did not find. -/
theorem FirstAt.not_short {s : Sock} {id : UInt8} {j k m : Nat} (h : s.FirstAt id j k)
    (hj : j ≤ m) (hm : s.Passes id j m) (hshort : ¬ (s.nth m).Whole) : False := by
  rcases Nat.lt_or_ge m k with hlt | hge
  · exact hshort (h.passes m hj hlt).1
  · obtain rfl : m = k := Nat.le_antisymm (h.le_of_passes hm) hge
    exact hshort h.whole

/-- A search through frames that come in whole. -/
theorem passes_or_firstAt {s : Sock} {j k : Nat} (id : UInt8)
    (h : ∀ i, j ≤ i → i < k → (s.nth i).Whole) :
    s.Passes id j k ∨ ∃ i, i < k ∧ s.FirstAt id j i := by
  induction k with
  | zero => exact .inl fun i _ hi => absurd hi (Nat.not_lt_zero i)
  | succ k ih =>
      rcases ih fun i hj hi => h i hj (Nat.lt_succ_of_lt hi) with hpass | ⟨i, hi, hfirst⟩
      · by_cases hjk : j ≤ k
        · have hw := h k hjk (Nat.lt_succ_self k)
          by_cases hid : s.idAt k = id
          · exact .inr ⟨k, Nat.lt_succ_self k, hjk, hpass, hw, hid⟩
          · exact .inl (hpass.succ hw hid)
        · exact .inl fun i hj hi => absurd hj (by omega)
      · exact .inr ⟨i, Nat.lt_succ_of_lt hi, hfirst⟩

/-- What has been read behind `k` frames. -/
theorem nth_consumed (s : Sock) (k : Nat) :
    (s.nth k).consumed = s.consumed ++ ((List.range k).map s.frameAt).flatMap Frame.bytes := by
  induction k with
  | zero => simp [nth]
  | succ k ih =>
      rw [nth, past, ih, List.range_succ, List.map_append, List.flatMap_append, List.append_assoc]
      simp [frameAt]

theorem nth_input (s : Sock) (k : Nat) :
    s.input = ((List.range k).map s.frameAt).flatMap Frame.bytes ++ₛ (s.nth k).input := by
  induction k with
  | zero => rfl
  | succ k ih =>
      have hnext : (nextFrame (s.nth k)).bytes ++ₛ (s.nth (k + 1)).input = (s.nth k).input := by
        have hbytes := nextFrame_bytes (s.nth k)
        show (nextFrame (s.nth k)).bytes ++ₛ (s.nth k).input.drop (nextFrame (s.nth k)).bytes.length
          = _
        generalize (nextFrame (s.nth k)).bytes.length = n at hbytes ⊢
        rw [hbytes, Stream'.append_take_drop]
      rw [List.range_succ, List.map_append, List.flatMap_append, Stream'.append_append_stream]
      simp only [List.map_cons, List.map_nil, List.flatMap_singleton, frameAt, hnext]
      exact ih

/-- A stream that begins with these frames, and what is left of it. -/
theorem nth_input_of_frames {s : Sock} {fs : List Frame} {rest : Stream' UInt8}
    (h : s.input = fs.flatMap Frame.bytes ++ₛ rest) {k : Nat} (hk : k ≤ fs.length) :
    (s.nth k).input = (fs.drop k).flatMap Frame.bytes ++ₛ rest := by
  induction k with
  | zero => exact h
  | succ k ih =>
      have hin := ih (Nat.le_of_succ_le hk)
      rw [List.drop_eq_getElem_cons hk, List.flatMap_cons, Stream'.append_append_stream] at hin
      rw [nth, past, nextFrame_eq hin]
      simp only [hin]
      rw [Stream'.drop_append_stream]

theorem frameAt_of_frames {s : Sock} {fs : List Frame} {rest : Stream' UInt8}
    (h : s.input = fs.flatMap Frame.bytes ++ₛ rest) {k : Nat} (hk : k < fs.length) :
    s.frameAt k = fs[k] := by
  have hin := nth_input_of_frames h (Nat.le_of_lt hk)
  rw [List.drop_eq_getElem_cons hk, List.flatMap_cons, Stream'.append_append_stream] at hin
  exact nextFrame_eq hin

/-! ## What is sent makes no difference -/

/-- The same receiving half, with another sending half. -/
def sending (s : Sock) (sends : Stream' (Outcome Stop)) (output : Bytes) : Sock :=
  { s with sends := sends, output := output }

/-! ## A peer that hangs up -/

/-- From some call on, `recv()` returns 0 or fails for good. -/
def HangsUp (s : Sock) : Prop := ∃ n, ∀ i, n ≤ i → ∃ e, s.recvs.get i = .stop e

/-- **Only finitely many frames come in whole.** -/
theorem HangsUp.exists_short {s : Sock} (h : s.HangsUp) :
    ∃ k, (∀ i, i < k → (s.nth i).Whole) ∧ ¬ (s.nth k).Whole := by
  obtain ⟨n, hn⟩ := h
  -- every receive uses up an outcome, so after `n` of them only stops are left
  have hdrop : ∀ k, ∃ m, k ≤ m ∧ (s.nth k).recvs = s.recvs.drop m := by
    intro k
    induction k with
    | zero => exact ⟨0, Nat.le_refl 0, rfl⟩
    | succ k ih =>
        obtain ⟨m, hm, heq⟩ := ih
        obtain ⟨m', hm', hpos⟩ := transferSeq_rest (s.nth k).recvs maxTimes
          [protocolCmdHeadLen, nextLen (s.nth k)]
        have hpos' := hpos protocolCmdHeadLen rfl (Nat.ne_of_gt protocolCmdHeadLen_pos)
        refine ⟨m + m', by omega, ?_⟩
        show (recvTransfer (s.nth k)).rest = _
        rw [recvTransfer, hm', heq, Stream'.drop_drop]
  have hshort : ¬ (s.nth n).Whole := by
    obtain ⟨m, hm, heq⟩ := hdrop n
    obtain ⟨e, he⟩ := hn m hm
    have hhead : (s.nth n).recvs.head = .stop e := by rw [heq, Stream'.head_drop, he]
    rw [whole_iff, recvTransfer,
      transferSeq_stop _ _ (Nat.ne_of_gt protocolCmdHeadLen_pos) hhead]
    have := protocolCmdHeadLen_pos
    omega
  have hex : ∃ k, ¬ (s.nth k).Whole := ⟨n, hshort⟩
  refine ⟨Nat.find hex, fun i hi => ?_, Nat.find_spec hex⟩
  by_contra hnot
  exact Nat.find_min hex hi hnot

end Sock

/-! ## Frames are a prefix code -/

/-- The bytes are a row of whole frames. -/
def WholeFrames (bytes : Bytes) : Prop := ∃ fs : List Frame, bytes = fs.flatMap Frame.bytes

theorem WholeFrames.nil : WholeFrames [] := ⟨[], rfl⟩

theorem WholeFrames.append {a b : Bytes} (ha : WholeFrames a) (hb : WholeFrames b) :
    WholeFrames (a ++ b) := by
  obtain ⟨fs, rfl⟩ := ha
  obtain ⟨gs, rfl⟩ := hb
  exact ⟨fs ++ gs, List.flatMap_append.symm⟩

theorem Frame.wholeFrames (f : Frame) : WholeFrames f.bytes := ⟨[f], (List.flatMap_singleton ..).symm⟩

theorem wholeFrames_flatMap (fs : List Frame) : WholeFrames (fs.flatMap Frame.bytes) := ⟨fs, rfl⟩

/-- The first frame of a row of bytes is determined. -/
theorem Frame.bytes_append_inj {f g : Frame} {x y : Bytes} (h : f.bytes ++ x = g.bytes ++ y) :
    f = g ∧ x = y := by
  simp only [Frame.bytes, List.append_assoc] at h
  obtain ⟨hhead, htail⟩ := List.append_inj h (f.head_length.trans g.head_length.symm)
  have hlen : f.body.length = g.body.length := by rw [f.body_length, g.body_length, hhead]
  obtain ⟨hbody, hxy⟩ := List.append_inj htail hlen
  exact ⟨Frame.ext hhead hbody, hxy⟩

theorem Frame.bytes_ne_nil (f : Frame) : f.bytes ≠ [] := by
  intro h
  have hlen := f.bytes_length
  rw [h] at hlen
  have := protocolCmdHeadLen_pos
  simp only [List.length_nil] at hlen
  omega

/-- **Whole frames can be taken off the front.** -/
theorem WholeFrames.append_iff {a b : Bytes} (ha : WholeFrames a) :
    WholeFrames (a ++ b) ↔ WholeFrames b := by
  refine ⟨?_, ha.append⟩
  obtain ⟨fs, rfl⟩ := ha
  rintro ⟨gs, hgs⟩
  induction fs generalizing gs with
  | nil => exact ⟨gs, hgs⟩
  | cons f fs ih =>
      rw [List.flatMap_cons, List.append_assoc] at hgs
      cases gs with
      | nil =>
          rw [List.flatMap_nil] at hgs
          exact absurd (List.append_eq_nil_iff.mp hgs).1 f.bytes_ne_nil
      | cons g gs =>
          rw [List.flatMap_cons] at hgs
          exact ih gs (Frame.bytes_append_inj hgs).2

/-- A part of a frame is a row of frames only if it is all or nothing of it. -/
theorem Frame.wholeFrames_take_iff (f : Frame) {m : Nat} (hm : m ≤ f.bytes.length) :
    WholeFrames (f.bytes.take m) ↔ m = 0 ∨ m = f.bytes.length := by
  constructor
  · rintro ⟨gs, hgs⟩
    cases gs with
    | nil =>
        rw [List.flatMap_nil] at hgs
        rcases List.take_eq_nil_iff.mp hgs with hz | hnil
        · exact .inl hz
        · exact absurd hnil f.bytes_ne_nil
    | cons g gs =>
        right
        rw [List.flatMap_cons] at hgs
        have hwhole : f.bytes ++ [] = g.bytes ++ (gs.flatMap Frame.bytes ++ f.bytes.drop m) := by
          rw [← List.append_assoc, ← hgs, List.take_append_drop, List.append_nil]
        have hrest := (Frame.bytes_append_inj hwhole).2
        have hdrop := (List.append_eq_nil_iff.mp hrest.symm).2
        rw [List.drop_eq_nil_iff] at hdrop
        omega
  · rintro (rfl | rfl)
    · exact .nil
    · rw [List.take_length]
      exact f.wholeFrames

theorem getProtocolBodyLen_append {head : Bytes} (h : head.length = protocolCmdHeadLen)
    (rest : Bytes) : getProtocolBodyLen (head ++ rest) = getProtocolBodyLen head := by
  obtain ⟨b0, b1, b2, b3, b4, b5, b6, b7, tail, rfl⟩ := exists_head_bytes (Nat.le_of_eq h.symm)
  rfl

/-- **The first header** says where the first frame ends. -/
theorem wholeFrames_iff_drop {bs : Bytes} (hne : bs ≠ []) :
    WholeFrames bs ↔ protocolCmdHeadLen + getProtocolBodyLen bs ≤ bs.length ∧
      WholeFrames (bs.drop (protocolCmdHeadLen + getProtocolBodyLen bs)) := by
  constructor
  · rintro ⟨fs, rfl⟩
    cases fs with
    | nil => exact absurd rfl hne
    | cons f fs =>
        have hlen : protocolCmdHeadLen + getProtocolBodyLen ((f :: fs).flatMap Frame.bytes)
            = f.bytes.length := by
          rw [List.flatMap_cons, Frame.bytes, List.append_assoc,
            getProtocolBodyLen_append f.head_length, List.length_append, f.head_length,
            f.body_length]
        rw [hlen, List.flatMap_cons, List.length_append, List.drop_left]
        exact ⟨Nat.le_add_right _ _, wholeFrames_flatMap fs⟩
  · rintro ⟨hle, hrest⟩
    have hhead : (bs.take protocolCmdHeadLen).length = protocolCmdHeadLen := by
      rw [List.length_take]
      omega
    have hbody : getProtocolBodyLen bs = getProtocolBodyLen (bs.take protocolCmdHeadLen) := by
      rw [← getProtocolBodyLen_append hhead (bs.drop protocolCmdHeadLen), List.take_append_drop]
    have hframe : WholeFrames (bs.take (protocolCmdHeadLen + getProtocolBodyLen bs)) := by
      rw [List.take_add]
      refine Frame.wholeFrames ⟨bs.take protocolCmdHeadLen,
        (bs.drop protocolCmdHeadLen).take (getProtocolBodyLen bs), hhead, ?_⟩
      rw [← hbody, List.length_take, List.length_drop]
      omega
    rw [← List.take_append_drop (protocolCmdHeadLen + getProtocolBodyLen bs) bs]
    exact hframe.append hrest

/-- Cut at most `n` frames off the front, until nothing is left. -/
def cutsUp : Nat → Bytes → Bool
  | _, [] => true
  | 0, _ :: _ => false
  | n + 1, b :: bs =>
      decide (protocolCmdHeadLen + getProtocolBodyLen (b :: bs) ≤ (b :: bs).length) &&
        cutsUp n ((b :: bs).drop (protocolCmdHeadLen + getProtocolBodyLen (b :: bs)))

theorem cutsUp_iff {n : Nat} {bs : Bytes} (h : bs.length ≤ n) :
    cutsUp n bs = true ↔ WholeFrames bs := by
  induction n generalizing bs with
  | zero =>
      obtain rfl := List.length_eq_zero_iff.mp (Nat.le_zero.mp h)
      exact iff_of_true rfl .nil
  | succ n ih =>
      cases bs with
      | nil => exact iff_of_true rfl .nil
      | cons b bs =>
          have hpos := protocolCmdHeadLen_pos
          have hdrop : ((b :: bs).drop
              (protocolCmdHeadLen + getProtocolBodyLen (b :: bs))).length ≤ n := by
            rw [List.length_drop]
            omega
          rw [cutsUp, Bool.and_eq_true, decide_eq_true_eq, ih hdrop,
            wholeFrames_iff_drop (List.cons_ne_nil b bs)]

instance (bs : Bytes) : Decidable (WholeFrames bs) :=
  decidable_of_iff _ (cutsUp_iff (Nat.le_refl bs.length))

end Icehydra
