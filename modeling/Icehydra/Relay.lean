import Icehydra.Conf
import Icehydra.Framing

/-!
# Relay — what broadcast_cmd sends, and to whom

The nested loops of `broadcast_cmd` go once through the list of `recipients`
(a node for each of its occurrences in the id list, in list order) and leave
at the first send that fails. `attempts` is that list of sends with no way
out: what each of them would meet if none stopped the loop. The code's calls
are the attempts up to the first failure.
-/

namespace Icehydra

open Block NonBlock

/-! ## Recipients -/

/-- Some id of the list is this node's. -/
def Addressed (ids : List UInt8) (n : PubSubNode) : Prop := ∃ b ∈ ids, (b.toNat : Int) = n.id

instance (ids : List UInt8) (n : PubSubNode) : Decidable (Addressed ids n) :=
  inferInstanceAs (Decidable (∃ b ∈ ids, _))

/-- One entry for each time the inner loop finds the node's id. -/
def occurrences (ids : List UInt8) (cur : PubSubNode × Nat) : List (PubSubNode × Nat) :=
  (ids.filter fun b => (b.toNat : Int) = cur.1.id).map fun _ => cur

theorem occurrences_cons (b : UInt8) (ids : List UInt8) (cur : PubSubNode × Nat) :
    occurrences (b :: ids) cur =
      if (b.toNat : Int) = cur.1.id then cur :: occurrences ids cur else occurrences ids cur := by
  simp only [occurrences, List.filter_cons, decide_eq_true_eq]
  split <;> rfl

def recipients (ids : List UInt8) (nodes : List (PubSubNode × Nat)) : List (PubSubNode × Nat) :=
  nodes.flatMap (occurrences ids)

theorem mem_recipients {ids : List UInt8} {nodes : List (PubSubNode × Nat)}
    {cur : PubSubNode × Nat} :
    cur ∈ recipients ids nodes ↔ cur ∈ nodes ∧ Addressed ids cur.1 := by
  simp only [recipients, occurrences, Addressed, List.mem_flatMap, List.mem_map, List.mem_filter,
    decide_eq_true_eq]
  constructor
  · rintro ⟨c, hc, b, ⟨hb, hid⟩, rfl⟩
    exact ⟨hc, b, hb, hid⟩
  · rintro ⟨hc, b, hb, hid⟩
    exact ⟨cur, hc, b, ⟨hb, hid⟩, rfl⟩

/-! ## The loops as one loop over the recipients -/

/-- One loop over a list of recipients, left at the first failure. -/
def relayUntil (k : Kernel) (cmdHead data : Bytes) : List (PubSubNode × Nat) → LoopEnd
  | [] => ⟨k, [], none⟩
  | cur :: rest => (relayTo k cmdHead data cur).andThen fun k => relayUntil k cmdHead data rest

theorem LoopEnd.nil_andThen (k : Kernel) (f : Kernel → LoopEnd) :
    (⟨k, [], none⟩ : LoopEnd).andThen f = f k := by
  simp [LoopEnd.andThen]

theorem LoopEnd.andThen_assoc (r : LoopEnd) (f g : Kernel → LoopEnd) :
    (r.andThen f).andThen g = r.andThen fun k => (f k).andThen g := by
  obtain ⟨k, calls, exit⟩ := r
  cases exit with
  | some e => rfl
  | none =>
      simp only [LoopEnd.andThen]
      obtain ⟨k', calls', exit'⟩ := f k
      cases exit' with
      | some e => rfl
      | none => simp

theorem relayUntil_append (k : Kernel) (cmdHead data : Bytes)
    (p q : List (PubSubNode × Nat)) :
    relayUntil k cmdHead data (p ++ q)
      = (relayUntil k cmdHead data p).andThen fun k => relayUntil k cmdHead data q := by
  induction p generalizing k with
  | nil => simp only [List.nil_append, relayUntil, LoopEnd.nil_andThen]
  | cons cur p ih =>
      simp only [List.cons_append, relayUntil, LoopEnd.andThen_assoc, ih]

theorem broadcastIds_eq (k : Kernel) (cmdHead data : Bytes) (cur : PubSubNode × Nat)
    (ids : List UInt8) :
    broadcastIds k cmdHead data cur ids = relayUntil k cmdHead data (occurrences ids cur) := by
  induction ids generalizing k with
  | nil => rfl
  | cons id ids ih =>
      rw [broadcastIds, occurrences_cons]
      split
      · simp only [ih, relayUntil]
      · exact ih k

/-- **The nested loops are one loop** over the recipients. -/
theorem broadcastNodes_eq (k : Kernel) (cmdHead data : Bytes) (ids : List UInt8)
    (nodes : List (PubSubNode × Nat)) :
    broadcastNodes k cmdHead data ids nodes
      = relayUntil k cmdHead data (recipients ids nodes) := by
  induction nodes generalizing k with
  | nil => rfl
  | cons cur nodes ih =>
      simp only [broadcastNodes, broadcastIds_eq, recipients, List.flatMap_cons,
        relayUntil_append]
      congr 1
      funext k
      exact ih k

/-! ## Attempts -/

/-- One send of the relay: for whom, the calls it makes and its result. -/
structure Attempt where
  target : PubSubNode × Nat
  calls : List Call
  ret : Ret

/-- Each send in turn, whatever became of the ones before it. -/
def attempts (k : Kernel) (cmdHead data : Bytes) : List (PubSubNode × Nat) → List Attempt
  | [] => []
  | cur :: rest =>
      let r := k.send cur.2 cur.1.connfd cmdHead (some data)
      ⟨cur, r.calls, r.ret⟩ :: attempts r.kernel cmdHead data rest

def Attempt.Ok (a : Attempt) : Prop := a.ret = .val 0

instance (a : Attempt) : Decidable a.Ok := inferInstanceAs (Decidable (_ = _))

/-- The attempts up to and including the first that fails. -/
def upToFailure : List Attempt → List Attempt
  | [] => []
  | a :: as => if a.Ok then a :: upToFailure as else [a]

/-- What a failed attempt makes the loop return. -/
def Attempt.exit (a : Attempt) : Ret :=
  if a.ret = .killed then .killed else .val (-a.target.1.id)

theorem relayTo_exit (k : Kernel) (cmdHead data : Bytes) (cur : PubSubNode × Nat) :
    let r := k.send cur.2 cur.1.connfd cmdHead (some data)
    (relayTo k cmdHead data cur).exit
      = if r.ret = .val 0 then none else some (Attempt.exit ⟨cur, r.calls, r.ret⟩) := by
  simp only [relayTo, Attempt.exit]
  rcases k.send_ret_cases cur.2 cur.1.connfd cmdHead (some data) with h | h | h <;>
    simp [h]

theorem relayUntil_cons (k : Kernel) (cmdHead data : Bytes) (cur : PubSubNode × Nat)
    (plan : List (PubSubNode × Nat)) :
    relayUntil k cmdHead data (cur :: plan) =
      let r := k.send cur.2 cur.1.connfd cmdHead (some data)
      let r' := relayUntil r.kernel cmdHead data plan
      if r.ret = .val 0 then ⟨r'.kernel, r.calls ++ r'.calls, r'.exit⟩
      else ⟨r.kernel, r.calls, some (Attempt.exit ⟨cur, r.calls, r.ret⟩)⟩ := by
  have hexit := relayTo_exit k cmdHead data cur
  simp only at hexit ⊢
  by_cases h : (k.send cur.2 cur.1.connfd cmdHead (some data)).ret = .val 0
  · rw [if_pos h] at hexit ⊢
    rw [relayUntil, LoopEnd.andThen, hexit]
    rfl
  · rw [if_neg h] at hexit ⊢
    rw [relayUntil, LoopEnd.andThen, hexit]
    have heta : relayTo k cmdHead data cur
        = ⟨(k.send cur.2 cur.1.connfd cmdHead (some data)).kernel,
          (k.send cur.2 cur.1.connfd cmdHead (some data)).calls,
          (relayTo k cmdHead data cur).exit⟩ := rfl
    rw [hexit] at heta
    exact heta

/-- **The code's calls** are the attempts up to the first failure. -/
theorem relayUntil_calls (k : Kernel) (cmdHead data : Bytes)
    (plan : List (PubSubNode × Nat)) :
    (relayUntil k cmdHead data plan).calls
      = (upToFailure (attempts k cmdHead data plan)).flatMap Attempt.calls := by
  induction plan generalizing k with
  | nil => rfl
  | cons cur plan ih =>
      rw [relayUntil_cons, attempts, upToFailure]
      generalize k.send cur.2 cur.1.connfd cmdHead (some data) = r
      by_cases h : r.ret = .val 0
      · have hok : Attempt.Ok ⟨cur, r.calls, r.ret⟩ := h
        simp only [if_pos h, if_pos hok, List.flatMap_cons, ih]
      · have hfail : ¬ Attempt.Ok ⟨cur, r.calls, r.ret⟩ := h
        simp only [if_neg h, if_neg hfail, List.flatMap_singleton]

/-- **The code's result** is that of the first failed attempt. -/
theorem relayUntil_exit (k : Kernel) (cmdHead data : Bytes)
    (plan : List (PubSubNode × Nat)) :
    (relayUntil k cmdHead data plan).exit
      = ((attempts k cmdHead data plan).find? fun a => ¬ a.Ok).map Attempt.exit := by
  induction plan generalizing k with
  | nil => rfl
  | cons cur plan ih =>
      simp only [relayUntil_cons, attempts, List.find?_cons, Attempt.Ok] at ih ⊢
      by_cases h : (k.send cur.2 cur.1.connfd cmdHead (some data)).ret = .val 0
      · simp [h, ih]
      · simp [h]

theorem attempts_targets (k : Kernel) (cmdHead data : Bytes) (plan : List (PubSubNode × Nat)) :
    (attempts k cmdHead data plan).map Attempt.target = plan := by
  induction plan generalizing k with
  | nil => rfl
  | cons cur plan ih => simp [attempts, ih]

theorem mem_of_mem_upToFailure {as : List Attempt} {a : Attempt} (h : a ∈ upToFailure as) :
    a ∈ as := by
  induction as with
  | nil => cases h
  | cons b as ih =>
      rw [upToFailure] at h
      split at h
      · rcases List.mem_cons.mp h with rfl | h
        · exact List.mem_cons_self
        · exact List.mem_cons_of_mem _ (ih h)
      · obtain rfl := List.mem_singleton.mp h
        exact List.mem_cons_self

theorem upToFailure_eq_self {as : List Attempt} (h : ∀ a ∈ as, a.Ok) : upToFailure as = as := by
  induction as with
  | nil => rfl
  | cons a as ih =>
      rw [upToFailure, if_pos (h a (by simp)), ih fun b hb => h b (by simp [hb])]

/-- Split at the first failure: what the code does before it and at it. -/
theorem upToFailure_split (as : List Attempt) :
    (∀ a ∈ as, a.Ok) ∨
      ∃ pre a post, as = pre ++ a :: post ∧ (∀ b ∈ pre, b.Ok) ∧ ¬ a.Ok ∧
        upToFailure as = pre ++ [a] ∧ (as.find? fun a => ¬ a.Ok) = some a := by
  induction as with
  | nil => exact .inl (by simp)
  | cons a as ih =>
      by_cases ha : a.Ok
      · rcases ih with hall | ⟨pre, b, post, rfl, hpre, hb, hup, hfind⟩
        · exact .inl (by simpa [ha] using hall)
        · refine .inr ⟨a :: pre, b, post, rfl, by simpa [ha] using hpre, hb, ?_, ?_⟩
          · rw [upToFailure, if_pos ha, hup, List.cons_append]
          · rw [List.find?_cons_of_neg (by simpa using ha), hfind]
      · refine .inr ⟨[], a, as, rfl, by simp, ha, ?_, ?_⟩
        · rw [upToFailure, if_neg ha, List.nil_append]
        · rw [List.find?_cons_of_pos (by simpa using ha)]

/-- The recipients come in list order. -/
theorem recipients_sorted (ids : List UInt8) (nodes : List PubSubNode) :
    (recipients ids nodes.zipIdx).Pairwise fun a b => a.2 ≤ b.2 := by
  have hidx : nodes.zipIdx.Pairwise fun a b => a.2 < b.2 := by
    apply List.pairwise_map.mp
    rw [List.zipIdx_map_snd]
    exact List.pairwise_lt_range'
  apply List.pairwise_flatMap.mpr
  refine ⟨fun cur _ => ?_, hidx.imp ?_⟩
  · apply List.pairwise_of_forall_mem_list
    intro a ha b hb
    obtain ⟨_, _, rfl⟩ := List.mem_map.mp ha
    obtain ⟨_, _, rfl⟩ := List.mem_map.mp hb
    exact Nat.le_refl _
  · intro p q hpq a ha b hb
    obtain ⟨_, _, rfl⟩ := List.mem_map.mp ha
    obtain ⟨_, _, rfl⟩ := List.mem_map.mp hb
    exact Nat.le_of_lt hpq

section Sorted

variable {as : List Attempt} (hsorted : as.Pairwise fun a b => a.target.2 ≤ b.target.2)

include hsorted

/-- What stands before every failure is reached. -/
theorem mem_upToFailure_of_lt {a : Attempt} (ha : a ∈ as)
    (hlt : ∀ x ∈ as, ¬ x.Ok → a.target.2 < x.target.2) : a ∈ upToFailure as := by
  rcases upToFailure_split as with hall | ⟨pre, x, post, rfl, hpre, hx, hup, -⟩
  · rwa [upToFailure_eq_self hall]
  · have hax := hlt x (by simp) hx
    rw [hup]
    rcases List.mem_append.mp ha with ha | ha
    · exact List.mem_append_left _ ha
    · rcases List.mem_cons.mp ha with rfl | ha
      · exact absurd hax (Nat.lt_irrefl _)
      · have hle := (List.pairwise_cons.mp (List.pairwise_append.mp hsorted).2.1).1 a ha
        omega

/-- What is reached and succeeds stands before every failure. -/
theorem le_of_mem_upToFailure {a x : Attempt} (ha : a ∈ upToFailure as) (hok : a.Ok)
    (hx : x ∈ as) (hfail : ¬ x.Ok) : a.target.2 ≤ x.target.2 := by
  rcases upToFailure_split as with hall | ⟨pre, y, post, rfl, hpre, hy, hup, -⟩
  · exact absurd (hall x hx) hfail
  · rw [hup] at ha
    have hapre : a ∈ pre := by
      rcases List.mem_append.mp ha with ha | ha
      · exact ha
      · exact absurd (List.mem_singleton.mp ha ▸ hok) hy
    have hxpost : x ∈ y :: post := by
      rcases List.mem_append.mp hx with hx | hx
      · exact absurd (hpre x hx) hfail
      · exact hx
    exact (List.pairwise_append.mp hsorted).2.2 a hapre x hxpost

end Sorted

/-- **The loop writes what its calls say.** -/
theorem relayUntil_wrote (k : Kernel) (cmdHead data : Bytes)
    (plan : List (PubSubNode × Nat)) :
    Kernel.Wrote k (relayUntil k cmdHead data plan).kernel
      (relayUntil k cmdHead data plan).calls := by
  induction plan generalizing k with
  | nil => exact Kernel.Wrote.refl k
  | cons cur plan ih =>
      have hsend := k.send_wrote cur.2 cur.1.connfd cmdHead (some data)
      rw [relayUntil_cons]
      simp only
      split
      · exact hsend.trans (ih _)
      · exact hsend

/-- What each attempt did: one send on its target's descriptor, from a kernel
with the same connections. -/
theorem mem_attempts {k : Kernel} {cmdHead data : Bytes} {plan : List (PubSubNode × Nat)}
    {a : Attempt} (h : a ∈ attempts k cmdHead data plan) :
    a.target ∈ plan ∧ ∃ k', Kernel.SameConns k k' ∧
      a.calls = (k'.send a.target.2 a.target.1.connfd cmdHead (some data)).calls ∧
      a.ret = (k'.send a.target.2 a.target.1.connfd cmdHead (some data)).ret := by
  induction plan generalizing k with
  | nil => simp [attempts] at h
  | cons cur plan ih =>
      rcases List.mem_cons.mp h with rfl | h
      · exact ⟨by simp, k, Kernel.SameConns.refl k, rfl, rfl⟩
      · obtain ⟨hmem, k', hk', hc, hr⟩ := ih h
        refine ⟨List.mem_cons_of_mem _ hmem, k', ?_, hc, hr⟩
        exact (k.send_sameConns cur.2 cur.1.connfd cmdHead (some data)).trans hk'

/-- **When the loop writes nothing**: the first recipient that is not closed,
if there is one, takes no byte. -/
theorem relayUntil_silent_iff (k : Kernel) (cmdHead data : Bytes)
    (plan : List (PubSubNode × Nat)) :
    (∀ c ∈ (relayUntil k cmdHead data plan).calls, c.bytes = []) ↔
      ∀ cur, (plan.find? fun cur => 0 ≤ cur.1.connfd) = some cur →
        (k.sendTransfer cur.1.connfd cmdHead).moved = 0 := by
  induction plan with
  | nil => simp [relayUntil]
  | cons cur plan ih =>
      rw [relayUntil_cons]
      by_cases hfd : 0 ≤ cur.1.connfd
      · rw [List.find?_cons_of_pos (by simpa using hfd)]
        have hpos : 0 < (frameOf cmdHead data).length := by
          rw [frameOf_length]
          exact Nat.add_pos_left protocolCmdHeadLen_pos _
        have hret : sendRet (k.sendTransfer cur.1.connfd cmdHead) (frameOf cmdHead data).length
            = .val 0 ↔ (k.sendTransfer cur.1.connfd cmdHead).moved = (frameOf cmdHead data).length :=
          sendRet_eq_zero_iff (Kernel.sendTransfer_moved_ne data)
        rw [k.send_eq cur.2 cmdHead data hfd]
        simp only [Option.some.injEq, forall_eq']
        constructor
        · intro h
          have hbytes : (frameOf cmdHead data).take (k.sendTransfer cur.1.connfd cmdHead).moved
              = [] := by
            split at h
            · exact h _ (List.mem_append_left _ (List.mem_singleton_self _))
            · exact h _ (List.mem_singleton_self _)
          rcases List.take_eq_nil_iff.mp hbytes with hz | hnil
          · exact hz
          · rw [hnil] at hpos
            exact absurd hpos (Nat.lt_irrefl 0)
        · intro hz
          -- a send that takes nothing fails, and ends the loop
          have hfail : ¬ sendRet (k.sendTransfer cur.1.connfd cmdHead) (frameOf cmdHead data).length
              = .val 0 := by
            rw [hret, hz]
            exact Nat.ne_of_lt hpos
          rw [if_neg hfail]
          intro c hc
          obtain rfl := List.mem_singleton.mp hc
          simp [hz]
      · rw [List.find?_cons_of_neg (by simpa using hfd), ← ih,
          k.send_closed cur.2 cmdHead (some data) (Int.not_le.mp hfd)]
        simp

/-- A call that went through. -/
def fullCall (k : Kernel) (frame : Bytes) (cur : PubSubNode × Nat) : Call where
  node := cur.2
  fd := cur.1.connfd
  conn := (k.conns cur.1.connfd).map Conn.cid
  frame := frame
  bytes := frame

/-- A send on an open descriptor that goes through is one full call. -/
theorem Kernel.send_full {k : Kernel} {cmdHead data : Bytes} {cur : PubSubNode × Nat}
    (hfd : 0 ≤ cur.1.connfd)
    (hall : ∀ c ∈ (k.send cur.2 cur.1.connfd cmdHead (some data)).calls, c.Complete) :
    (k.send cur.2 cur.1.connfd cmdHead (some data)).calls
      = [fullCall k (frameOf cmdHead data) cur] := by
  rw [k.send_eq cur.2 cmdHead data hfd] at hall ⊢
  have hbytes := hall _ (List.mem_singleton_self _)
  simp only [Call.Complete] at hbytes
  simp only [hbytes]
  rfl

/-- Attempts that all succeed are one full call for each recipient that is not
closed. -/
theorem attempts_calls_of_ok {k : Kernel} {cmdHead data : Bytes}
    {plan : List (PubSubNode × Nat)} (hok : ∀ a ∈ attempts k cmdHead data plan, a.Ok) :
    (attempts k cmdHead data plan).flatMap Attempt.calls
      = (plan.filter fun cur => 0 ≤ cur.1.connfd).map (fullCall k (frameOf cmdHead data)) := by
  induction plan generalizing k with
  | nil => rfl
  | cons cur plan ih =>
      have hsame := k.send_sameConns cur.2 cur.1.connfd cmdHead (some data)
      have hfull : fullCall (k.send cur.2 cur.1.connfd cmdHead (some data)).kernel
            (frameOf cmdHead data)
          = fullCall k (frameOf cmdHead data) := by
        funext c
        simp only [fullCall, hsame.cid]
      rw [attempts, List.flatMap_cons, ih (fun a ha => hok a (List.mem_cons_of_mem _ ha)), hfull]
      by_cases hfd : 0 ≤ cur.1.connfd
      · have hhead : (k.send cur.2 cur.1.connfd cmdHead (some data)).calls
            = [fullCall k (frameOf cmdHead data) cur] :=
          Kernel.send_full hfd ((k.send_ret_eq_zero_iff _ _ _ _).mp (hok _ List.mem_cons_self))
        rw [hhead, List.filter_cons_of_pos (by simpa using hfd)]
        rfl
      · rw [k.send_closed cur.2 cmdHead (some data) (Int.not_le.mp hfd),
          List.filter_cons_of_neg (by simpa using hfd), List.nil_append]

/-- With no id twice in the list, each addressed node is a recipient once. -/
theorem occurrences_of_nodup {ids : List UInt8} (h : ids.Nodup) (cur : PubSubNode × Nat) :
    occurrences ids cur = if Addressed ids cur.1 then [cur] else [] := by
  induction ids with
  | nil => simp [occurrences, Addressed]
  | cons b ids ih =>
      obtain ⟨hb, hids⟩ := List.nodup_cons.mp h
      have hcons : Addressed (b :: ids) cur.1 ↔ (b.toNat : Int) = cur.1.id ∨ Addressed ids cur.1 := by
        simp [Addressed]
      by_cases heq : (b.toNat : Int) = cur.1.id
      · have hnot : ¬ Addressed ids cur.1 := by
          rintro ⟨b', hb', heq'⟩
          have : b' = b := UInt8.toNat_inj.mp (by omega)
          exact hb (this ▸ hb')
        rw [occurrences_cons, if_pos heq, ih hids, if_neg hnot, if_pos (hcons.mpr (.inl heq))]
      · rw [occurrences_cons, if_neg heq, ih hids]
        simp only [hcons, heq, false_or]

theorem recipients_of_nodup {ids : List UInt8} (h : ids.Nodup)
    (nodes : List (PubSubNode × Nat)) :
    recipients ids nodes = nodes.filter fun cur => Addressed ids cur.1 := by
  induction nodes with
  | nil => rfl
  | cons cur nodes ih =>
      rw [recipients, List.flatMap_cons, occurrences_of_nodup h, List.filter_cons]
      simp only [decide_eq_true_eq]
      split
      · exact congrArg (cur :: ·) ih
      · exact ih

/-! ## The relayed header -/

theorem toInt32_eq {x : Int} (h1 : -2147483648 ≤ x) (h2 : x < 2147483648) : toInt32 x = x := by
  unfold toInt32
  rw [Int.bmod_eq_of_le] <;> omega

theorem getProtocolBroadcastLen_le (rbuf : Bytes) : getProtocolBroadcastLen rbuf ≤ 256 := by
  have := (getProtocolCmdBroadcastNum rbuf).toNat_lt
  simp only [getProtocolBroadcastLen]
  split <;> omega

theorem getProtocolBodyLen_lt (rbuf : Bytes) : getProtocolBodyLen rbuf < 65536 := by
  have h2 := (byteAt rbuf 2).toNat_lt
  have h3 := (byteAt rbuf 3).toNat_lt
  unfold getProtocolBodyLen
  omega

/-- The `bodylen` of the relayed frame: what is left after the id list, or the
old value where the id list is longer than the body. -/
def relayLen (rbuf : Bytes) : Nat :=
  if getProtocolBroadcastLen rbuf ≤ getProtocolBodyLen rbuf then
    getProtocolBodyLen rbuf - getProtocolBroadcastLen rbuf
  else getProtocolBodyLen rbuf

theorem relayLen_lt (rbuf : Bytes) : relayLen rbuf < 65536 := by
  have := getProtocolBodyLen_lt rbuf
  unfold relayLen
  split <;> omega

/-- **The header as the relay leaves it**, and nothing else of the buffer
changed. -/
theorem broadcastHead_eq {rbuf : Bytes} (h : protocolCmdHeadLen ≤ rbuf.length) :
    broadcastHead rbuf
      = headBytes (relayLen rbuf) ihCmdTypeSendParallel (getProtocolCmdId rbuf) 0
          (byteAt rbuf 7) ++ rbuf.drop protocolCmdHeadLen := by
  have hlen := getProtocolBodyLen_lt rbuf
  have hids := getProtocolBroadcastLen_le rbuf
  have hcmdid : ¬ (0 : Int) ≤ -1 := by decide
  simp only [broadcastHead, setPureBroadcastField, setBroadcastCmdHead, setPureProtocolHead,
    hcmdid, and_false, if_false, Int.natCast_nonneg, if_true,
    show round4 0 = 0 from rfl, Int.add_zero, Int.lt_irrefl]
  rw [toInt32_eq (by omega) (by omega)]
  by_cases hle : getProtocolBroadcastLen rbuf ≤ getProtocolBodyLen rbuf
  · rw [if_pos (by omega), relayLen, if_pos hle, ← Int.natCast_sub hle, toU8_natCast,
      toU8_natCast_div]
    obtain ⟨b0, b1, b2, b3, b4, b5, b6, b7, rest, rfl⟩ := exists_head_bytes h
    rfl
  · rw [if_neg (by omega), relayLen, if_neg hle]
    obtain ⟨b0, b1, b2, b3, b4, b5, b6, b7, rest, rfl⟩ := exists_head_bytes h
    have hlo : UInt8.ofNat (b2.toNat + 256 * b3.toNat) = b2 := by
      apply UInt8.toNat_inj.mp
      have := b2.toNat_lt
      simp only [UInt8.toNat_ofNat']
      omega
    have hhi : UInt8.ofNat ((b2.toNat + 256 * b3.toNat) / 256) = b3 := by
      apply UInt8.toNat_inj.mp
      have := b2.toNat_lt
      have := b3.toNat_lt
      simp only [UInt8.toNat_ofNat']
      omega
    have hb : getProtocolBodyLen (b0 :: b1 :: b2 :: b3 :: b4 :: b5 :: b6 :: b7 :: rest)
        = b2.toNat + 256 * b3.toNat := rfl
    rw [hb, headBytes, hlo, hhi]
    rfl

/-- The frame the relay writes to each recipient. -/
def relayFrame (rbuf : Bytes) : Frame :=
  Frame.ofFields ihCmdTypeSendParallel (getProtocolCmdId rbuf) 0 (byteAt rbuf 7)
    (peek rbuf (protocolCmdHeadLen + getProtocolBroadcastLen rbuf) (relayLen rbuf))
    (by rw [peek_length]; exact relayLen_lt rbuf)

/-- The id list as the loops read it. -/
def frameIds (rbuf : Bytes) : List UInt8 :=
  peek rbuf protocolCmdHeadLen (getProtocolCmdBroadcastNum rbuf).toNat

theorem peek_broadcastHead {rbuf : Bytes} (h : protocolCmdHeadLen ≤ rbuf.length) {off n : Nat}
    (hoff : protocolCmdHeadLen ≤ off) : peek (broadcastHead rbuf) off n = peek rbuf off n := by
  obtain ⟨m, rfl⟩ := Nat.exists_eq_add_of_le hoff
  rw [← peek_drop, ← peek_drop, broadcastHead_eq h,
    List.drop_left' (headBytes_length _ _ _ _ _)]

theorem getProtocolBodyLen_broadcastHead {rbuf : Bytes} (h : protocolCmdHeadLen ≤ rbuf.length) :
    getProtocolBodyLen (broadcastHead rbuf) = relayLen rbuf := by
  rw [broadcastHead_eq h, getProtocolBodyLen_headBytes, Nat.mod_eq_of_lt (relayLen_lt rbuf)]

/-- **The bytes offered to each recipient** are those of `relayFrame`. -/
theorem frameOf_broadcastHead {rbuf : Bytes} (h : protocolCmdHeadLen ≤ rbuf.length) :
    frameOf (broadcastHead rbuf)
        ((broadcastHead rbuf).drop (protocolCmdHeadLen + getProtocolBroadcastLen rbuf))
      = (relayFrame rbuf).bytes := by
  have hlen := getProtocolBodyLen_broadcastHead h
  have hhead : peek (broadcastHead rbuf) 0 protocolCmdHeadLen
      = headBytes (relayLen rbuf) ihCmdTypeSendParallel (getProtocolCmdId rbuf) 0
          (byteAt rbuf 7) := by
    rw [broadcastHead_eq h, peek_eq _ _ _ (by rw [List.length_append, headBytes_length]; omega),
      List.drop_zero, List.take_left' (headBytes_length _ _ _ _ _)]
  rw [frameOf, hlen, hhead, peek_drop, peek_broadcastHead h (by omega)]
  simp [relayFrame, Frame.ofFields, Frame.bytes]

/-! ## broadcast_cmd as a whole -/

/-- The sends of one relay, with no way out of the loop. -/
def relayAttempts (k : Kernel) (nodes : List PubSubNode) (rbuf : Bytes) : List Attempt :=
  attempts k (broadcastHead rbuf)
    ((broadcastHead rbuf).drop (protocolCmdHeadLen + getProtocolBroadcastLen rbuf))
    (recipients (frameIds rbuf) nodes.zipIdx)

section BroadcastCmd

variable (k : Kernel) (nodes : List PubSubNode) {rbuf : Bytes}
  (h : protocolCmdHeadLen ≤ rbuf.length)

include h

theorem broadcastCmd_eq :
    (broadcastCmd k nodes rbuf).2 =
      let r := relayUntil k (broadcastHead rbuf)
        ((broadcastHead rbuf).drop (protocolCmdHeadLen + getProtocolBroadcastLen rbuf))
        (recipients (frameIds rbuf) nodes.zipIdx)
      ⟨r.kernel, r.exit.getD (.val 0), r.calls⟩ := by
  simp only [broadcastCmd, broadcastNodes_eq, frameIds, peek_broadcastHead h (Nat.le_refl _)]

theorem broadcastCmd_calls :
    (broadcastCmd k nodes rbuf).2.calls
      = (upToFailure (relayAttempts k nodes rbuf)).flatMap Attempt.calls := by
  rw [broadcastCmd_eq k nodes h]
  exact relayUntil_calls _ _ _ _

theorem broadcastCmd_ret :
    (broadcastCmd k nodes rbuf).2.ret
      = (((relayAttempts k nodes rbuf).find? fun a => ¬ a.Ok).map Attempt.exit).getD
          (.val 0) := by
  rw [broadcastCmd_eq k nodes h]
  simp only [relayUntil_exit, relayAttempts]

theorem broadcastCmd_wrote :
    Kernel.Wrote k (broadcastCmd k nodes rbuf).2.kernel (broadcastCmd k nodes rbuf).2.calls := by
  rw [broadcastCmd_eq k nodes h]
  exact relayUntil_wrote _ _ _ _

/-- What every attempt of a relay is: at most one call, for an addressed node,
on that node's descriptor, with the relayed frame. -/
theorem mem_relayAttempts {a : Attempt} (ha : a ∈ relayAttempts k nodes rbuf) :
    nodes[a.target.2]? = some a.target.1 ∧ Addressed (frameIds rbuf) a.target.1 ∧
      (a.Ok ↔ ∀ c ∈ a.calls, c.Complete) ∧
      (a.calls = [] ↔ a.target.1.connfd < 0) ∧
      ∀ c ∈ a.calls, 0 ≤ a.target.1.connfd ∧ c.node = a.target.2 ∧ c.fd = a.target.1.connfd ∧
        c.conn = (k.conns c.fd).map Conn.cid ∧ c.frame = (relayFrame rbuf).bytes ∧
        c.bytes <+: c.frame := by
  obtain ⟨hmem, k', hk', hcalls, hret⟩ := mem_attempts ha
  obtain ⟨hzip, haddr⟩ := mem_recipients.mp hmem
  refine ⟨List.mem_zipIdx_iff_getElem?.mp hzip, haddr, ?_, ?_, ?_⟩
  · rw [Attempt.Ok, hcalls, hret]
    exact k'.send_ret_eq_zero_iff _ _ _ _
  · rw [hcalls]
    by_cases hfd : a.target.1.connfd < 0
    · simp [k'.send_closed a.target.2 _ _ hfd, hfd]
    · simp [k'.send_eq a.target.2 _ _ (Int.not_lt.mp hfd), hfd]
  · intro c hc
    rw [hcalls] at hc
    obtain ⟨d, hd, hfd, hnode, hcfd, hconn, hframe, hpre⟩ := Kernel.send_calls hc
    obtain rfl := Option.some.inj hd
    refine ⟨hfd, hnode, hcfd, ?_, ?_, hpre⟩
    · rw [hconn, ← hcfd, hk'.cid]
    · rw [hframe, frameOf_broadcastHead h]

/-- **Every call of a relay** is for an addressed node that is not closed, on
its descriptor, and is given the relayed frame. -/
theorem mem_broadcastCmd_calls {c : Call} (hc : c ∈ (broadcastCmd k nodes rbuf).2.calls) :
    ∃ n, nodes[c.node]? = some n ∧ Addressed (frameIds rbuf) n ∧ 0 ≤ n.connfd ∧
      c.fd = n.connfd ∧ c.frame = (relayFrame rbuf).bytes ∧ c.bytes <+: c.frame := by
  rw [broadcastCmd_calls k nodes h] at hc
  obtain ⟨a, ha, hca⟩ := List.mem_flatMap.mp hc
  obtain ⟨hnode, haddr, -, -, hcall⟩ := mem_relayAttempts k nodes h (mem_of_mem_upToFailure ha)
  obtain ⟨hopen, hj, hfd, -, hframe, hpre⟩ := hcall c hca
  exact ⟨a.target.1, by rw [hj]; exact hnode, haddr, hopen, hfd, hframe, hpre⟩

/-- An attempt for a node that is not closed makes a call. -/
theorem exists_attempt_call {a : Attempt} (ha : a ∈ relayAttempts k nodes rbuf)
    (hopen : 0 ≤ a.target.1.connfd) :
    ∃ c ∈ a.calls, c.node = a.target.2 ∧ c.frame = (relayFrame rbuf).bytes := by
  obtain ⟨-, -, -, hnil, hcall⟩ := mem_relayAttempts k nodes h ha
  obtain ⟨c, hc⟩ := List.exists_mem_of_ne_nil _ fun hempty =>
    absurd hopen (Int.not_le.mpr (hnil.mp hempty))
  obtain ⟨-, hnode, -, -, hframe, -⟩ := hcall c hc
  exact ⟨c, hc, hnode, hframe⟩

/-- A send that fails is on a node that is not closed. -/
theorem open_of_failed {a : Attempt} (ha : a ∈ relayAttempts k nodes rbuf) (hfail : ¬ a.Ok) :
    0 ≤ a.target.1.connfd := by
  obtain ⟨-, -, hok, hnil, -⟩ := mem_relayAttempts k nodes h ha
  by_contra hneg
  refine hfail (hok.mpr fun c hc => ?_)
  rw [hnil.mpr (Int.not_le.mp hneg)] at hc
  cases hc

/-- Calls that are all complete come from a relay that nothing stopped. -/
theorem relayAttempts_ok_of_complete
    (hall : ∀ c ∈ (broadcastCmd k nodes rbuf).2.calls, c.Complete) :
    ∀ a ∈ relayAttempts k nodes rbuf, a.Ok := by
  rw [broadcastCmd_calls k nodes h] at hall
  rcases upToFailure_split (relayAttempts k nodes rbuf) with
    hok | ⟨pre, a, post, heq, -, hfail, hup, -⟩
  · exact hok
  · have ha : a ∈ relayAttempts k nodes rbuf := by simp [heq]
    refine absurd ((mem_relayAttempts k nodes h ha).2.2.1.mpr fun c hc => hall c ?_) hfail
    rw [hup]
    exact List.mem_flatMap.mpr ⟨a, by simp, hc⟩

/-- A relay that nothing stopped: one full call for each recipient that is not
closed. -/
theorem broadcastCmd_calls_of_ok (hok : ∀ a ∈ relayAttempts k nodes rbuf, a.Ok) :
    (broadcastCmd k nodes rbuf).2.calls
      = ((recipients (frameIds rbuf) nodes.zipIdx).filter fun cur => 0 ≤ cur.1.connfd).map
          (fullCall k (relayFrame rbuf).bytes) := by
  rw [broadcastCmd_calls k nodes h, upToFailure_eq_self hok, ← frameOf_broadcastHead h]
  exact attempts_calls_of_ok hok

/-- **A relay that goes through**, for distinct ids: one full call for each
addressed node, in list order. -/
theorem broadcastCmd_calls_of_complete
    (hall : ∀ c ∈ (broadcastCmd k nodes rbuf).2.calls, c.Complete)
    (hids : (frameIds rbuf).Nodup)
    (hopen : ∀ n ∈ nodes, Addressed (frameIds rbuf) n → 0 ≤ n.connfd) :
    (broadcastCmd k nodes rbuf).2.calls
      = (nodes.zipIdx.filter fun cur => Addressed (frameIds rbuf) cur.1).map
          (fullCall k (relayFrame rbuf).bytes) := by
  have hopen' : ∀ cur ∈ recipients (frameIds rbuf) nodes.zipIdx,
      decide (0 ≤ cur.1.connfd) = true := by
    intro cur hcur
    obtain ⟨hmem, haddr⟩ := mem_recipients.mp hcur
    have hnode := List.mem_zipIdx_iff_getElem?.mp hmem
    exact decide_eq_true (hopen cur.1 (List.mem_of_getElem? hnode) haddr)
  rw [broadcastCmd_calls_of_ok k nodes h (relayAttempts_ok_of_complete k nodes h hall),
    List.filter_eq_self.mpr hopen', recipients_of_nodup hids]

omit h in
theorem relayAttempts_targets :
    (relayAttempts k nodes rbuf).map Attempt.target = recipients (frameIds rbuf) nodes.zipIdx :=
  attempts_targets _ _ _ _

omit h in
theorem relayAttempts_sorted (rbuf : Bytes) :
    (relayAttempts k nodes rbuf).Pairwise fun a b => a.target.2 ≤ b.target.2 := by
  have hsorted := recipients_sorted (frameIds rbuf) nodes
  rw [← relayAttempts_targets k nodes, List.pairwise_map] at hsorted
  exact hsorted

omit h in
/-- Every addressed node is attempted. -/
theorem exists_relayAttempt {n : PubSubNode} {j : Nat} (hn : nodes[j]? = some n)
    (haddr : Addressed (frameIds rbuf) n) :
    ∃ a ∈ relayAttempts k nodes rbuf, a.target = (n, j) := by
  have hmem : (n, j) ∈ recipients (frameIds rbuf) nodes.zipIdx :=
    mem_recipients.mpr ⟨List.mem_zipIdx_iff_getElem?.mpr hn, haddr⟩
  rw [← relayAttempts_targets k nodes] at hmem
  exact List.mem_map.mp hmem

end BroadcastCmd

/-! ## The receive buffer

`memzero(rbuf,MAX_CMD_LEN)` and the stores of
`tcp_recv_protocol_cmd(connfd,rbuf,rbuf+PROTOCOL_CMD_HEAD_LEN)`. -/

def storeFrame (rbuf head body : Bytes) : Bytes :=
  store (store (memzero rbuf maxCmdLen) 0 head) protocolCmdHeadLen body

theorem byteAt_peek (rbuf : Bytes) {i : Nat} (hi : i < protocolCmdHeadLen) :
    byteAt (peek rbuf 0 protocolCmdHeadLen) i = byteAt rbuf i := by
  simp [byteAt, peek, hi]

theorem head_peek_length (rbuf : Bytes) :
    (peek rbuf 0 protocolCmdHeadLen).length = protocolCmdHeadLen := peek_length _ _ _

theorem getProtocolBodyLen_peek (rbuf : Bytes) :
    getProtocolBodyLen (peek rbuf 0 protocolCmdHeadLen) = getProtocolBodyLen rbuf := by
  rw [getProtocolBodyLen, getProtocolBodyLen, byteAt_peek rbuf (by decide),
    byteAt_peek rbuf (by decide)]

/-- The frame that stands in the buffer. -/
def frameIn (rbuf : Bytes) : Frame where
  head := peek rbuf 0 protocolCmdHeadLen
  body := peek rbuf protocolCmdHeadLen (getProtocolBodyLen rbuf)
  head_length := head_peek_length rbuf
  body_length := by
    rw [peek_length, getProtocolBodyLen_peek]

theorem memzero_length (buf : Bytes) (n : Nat) : (memzero buf n).length = max buf.length n := by
  rw [memzero, store_length _ _ _ (Nat.zero_le _), List.length_replicate, Nat.zero_add]

theorem getD_memzero (buf : Bytes) {n i : Nat} (h : i < n) :
    (memzero buf n).getD i default = default := by
  rw [memzero, getD_store _ _ _ _ (Nat.zero_le _), List.length_replicate, if_pos (by omega)]
  simp [h]
  rfl

theorem storeFrame_length_ge (rbuf head body : Bytes) (h : head.length = protocolCmdHeadLen) :
    maxCmdLen ≤ (storeFrame rbuf head body).length := by
  have hz := memzero_length rbuf maxCmdLen
  have hb := store_length (memzero rbuf maxCmdLen) 0 head (Nat.zero_le _)
  have h8 := protocolCmdHeadLen_le
  rw [storeFrame, store_length _ _ _ (by omega)]
  omega

section StoreFrame

variable (rbuf : Bytes) (f : Frame)

theorem le_storeFrame_length : protocolCmdHeadLen ≤ (storeFrame rbuf f.head f.body).length :=
  Nat.le_trans protocolCmdHeadLen_le (storeFrame_length_ge rbuf f.head f.body f.head_length)

theorem getD_storeFrame_head {i : Nat} (hi : i < protocolCmdHeadLen) :
    (storeFrame rbuf f.head f.body).getD i default = f.head.getD i default := by
  have h8 := protocolCmdHeadLen_le
  have hz := memzero_length rbuf maxCmdLen
  have hb := store_length (memzero rbuf maxCmdLen) 0 f.head (Nat.zero_le _)
  rw [storeFrame, getD_store _ _ _ _ (by omega), if_neg (by omega),
    getD_store _ _ _ _ (Nat.zero_le _), f.head_length, if_pos (by omega), Nat.sub_zero]

/-- Behind the header stands the body, and zeros up to the end of the block. -/
theorem getD_storeFrame_body {i : Nat}
    (hi : i < f.body.length ∨ protocolCmdHeadLen + i < maxCmdLen) :
    (storeFrame rbuf f.head f.body).getD (protocolCmdHeadLen + i) default
      = f.body.getD i default := by
  have h8 := protocolCmdHeadLen_le
  have hz := memzero_length rbuf maxCmdLen
  have hb := store_length (memzero rbuf maxCmdLen) 0 f.head (Nat.zero_le _)
  rw [storeFrame, getD_store _ _ _ _ (by omega), Nat.add_sub_cancel_left]
  by_cases hlt : i < f.body.length
  · rw [if_pos (by omega)]
  · rw [if_neg (by omega), getD_store _ _ _ _ (Nat.zero_le _), f.head_length,
      if_neg (by omega), getD_memzero _ (by omega)]
    simp [Nat.not_lt.mp hlt]

theorem peek_storeFrame_body {off n : Nat}
    (h : off + n ≤ f.body.length ∨ protocolCmdHeadLen + off + n ≤ maxCmdLen) :
    peek (storeFrame rbuf f.head f.body) (protocolCmdHeadLen + off) n = peek f.body off n := by
  apply List.map_congr_left
  intro i hi
  have hin : i < n := List.mem_range.mp hi
  rw [Nat.add_assoc]
  exact getD_storeFrame_body rbuf f (by omega)

theorem byteAt_storeFrame {i : Nat} (hi : i < protocolCmdHeadLen) :
    byteAt (storeFrame rbuf f.head f.body) i = byteAt f.head i :=
  getD_storeFrame_head rbuf f hi

theorem getProtocolBodyLen_storeFrame :
    getProtocolBodyLen (storeFrame rbuf f.head f.body) = f.body.length := by
  rw [f.body_length, getProtocolBodyLen, byteAt_storeFrame rbuf f (by decide),
    byteAt_storeFrame rbuf f (by decide), getProtocolBodyLen]

theorem getProtocolCmdType_storeFrame :
    getProtocolCmdType (storeFrame rbuf f.head f.body) = getProtocolCmdType f.head :=
  byteAt_storeFrame rbuf f (by decide)

theorem getProtocolCmdId_storeFrame :
    getProtocolCmdId (storeFrame rbuf f.head f.body) = getProtocolCmdId f.head :=
  byteAt_storeFrame rbuf f (by decide)

theorem getProtocolCmdBroadcastNum_storeFrame :
    getProtocolCmdBroadcastNum (storeFrame rbuf f.head f.body)
      = getProtocolCmdBroadcastNum f.head :=
  byteAt_storeFrame rbuf f (by decide)

theorem getProtocolBroadcastLen_storeFrame :
    getProtocolBroadcastLen (storeFrame rbuf f.head f.body) = getProtocolBroadcastLen f.head := by
  rw [getProtocolBroadcastLen, getProtocolCmdBroadcastNum_storeFrame, getProtocolBroadcastLen]

theorem frameIn_storeFrame : frameIn (storeFrame rbuf f.head f.body) = f := by
  apply Frame.ext
  · apply List.ext_getElem
    · rw [frameIn, peek_length, f.head_length]
    · intro i h1 h2
      have hi : i < protocolCmdHeadLen := by rw [← f.head_length]; exact h2
      simp only [frameIn, peek_getElem, Nat.zero_add, getD_storeFrame_head rbuf f hi]
      simp [h2]
  · have h := peek_storeFrame_body rbuf f (.inl (Nat.le_of_eq (Nat.zero_add f.body.length)))
    rw [peek_eq f.body _ _ (by omega), List.drop_zero, List.take_length] at h
    simp only [frameIn, getProtocolBodyLen_storeFrame]
    exact h

/-- The loops read the ids of the frame, and zeros where its body ends early. -/
theorem frameIds_storeFrame : frameIds (storeFrame rbuf f.head f.body) = f.ids := by
  have := (getProtocolCmdBroadcastNum f.head).toNat_lt
  have hin : protocolCmdHeadLen + 0 + (getProtocolCmdBroadcastNum f.head).toNat ≤ maxCmdLen := by
    simp only [protocolCmdHeadLen, maxCmdLen]
    omega
  rw [frameIds, getProtocolCmdBroadcastNum_storeFrame]
  exact peek_storeFrame_body rbuf f (.inr hin)

/-- The `bodylen` of the frame relayed for `f`. -/
def Frame.relayLen (f : Frame) : Nat :=
  if getProtocolBroadcastLen f.head ≤ f.body.length then
    f.body.length - getProtocolBroadcastLen f.head
  else f.body.length

theorem Frame.relayLen_lt (f : Frame) : f.relayLen < 65536 := by
  have := getProtocolBodyLen_lt f.head
  have := f.body_length
  unfold Frame.relayLen
  split <;> omega

/-- The frame relayed for `f`: `cmdid` and `pad` are kept, the type is
PARALLEL, and `relayLen` bytes follow from behind the id list on, zeros where
the body has ended. -/
def Frame.relayed (f : Frame) : Frame :=
  Frame.ofFields ihCmdTypeSendParallel (getProtocolCmdId f.head) 0 (byteAt f.head 7)
    (peek f.body (getProtocolBroadcastLen f.head) f.relayLen)
    (by rw [peek_length]; exact f.relayLen_lt)

theorem relayLen_storeFrame : relayLen (storeFrame rbuf f.head f.body) = f.relayLen := by
  simp only [relayLen, getProtocolBroadcastLen_storeFrame, getProtocolBodyLen_storeFrame,
    Frame.relayLen]

/-- **What is relayed depends on the frame only**, not on what the buffer held
before it. -/
theorem relayFrame_storeFrame : relayFrame (storeFrame rbuf f.head f.body) = f.relayed := by
  have hbl := getProtocolBroadcastLen_le f.head
  have hpeek : peek (storeFrame rbuf f.head f.body)
        (protocolCmdHeadLen + getProtocolBroadcastLen f.head) f.relayLen
      = peek f.body (getProtocolBroadcastLen f.head) f.relayLen := by
    apply peek_storeFrame_body
    unfold Frame.relayLen
    simp only [protocolCmdHeadLen, maxCmdLen]
    split <;> omega
  simp only [relayFrame, Frame.relayed, getProtocolCmdId_storeFrame,
    byteAt_storeFrame rbuf f (show 7 < protocolCmdHeadLen by decide),
    getProtocolBroadcastLen_storeFrame, relayLen_storeFrame, hpeek]

end StoreFrame

/-- A consistent frame is relayed with exactly its payload. -/
theorem Frame.relayed_body {f : Frame} (h : getProtocolBroadcastLen f.head ≤ f.body.length) :
    f.relayed.body = f.payload := by
  have hlen : getProtocolBroadcastLen f.head + f.relayLen ≤ f.body.length := by
    rw [Frame.relayLen, if_pos h]
    omega
  show peek f.body _ _ = _
  rw [peek_eq _ _ _ hlen, Frame.payload, List.take_of_length_le]
  rw [List.length_drop, Frame.relayLen, if_pos h]

end Icehydra
