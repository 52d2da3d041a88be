import Icehydra.ConfText
import Icehydra.ShmInfos

/-!
# ShmByName — a segment by its name

`ih_get_shm_by_name` and `ih_get_shm_by_id` of `icehydra.c`, on a buffer that
`ih_get_shm_infos` has left. The search is told neither how long the buffer is
nor how many entries there are; the model stops it where the buffer ends.
-/

namespace Icehydra

open Block NonBlock Runs

/-! ## The functions -/

/-- What `shmat` finds for an id, `none` being `(void*)-1`, the size of its
segment, and the id that `shmget` has for the key of no file. -/
structure SysV where
  shmat : Int → Option Nat
  segsz : Int → Int
  noFile : Int

/-- What comes back, and what `*ptr` is set to. `outside` is a read behind the end
of the buffer, on which anything may follow. -/
inductive ByName where
  | outside
  | returned (ret : Int) (ptr : Option (Option Nat))

/-- `ih_get_shm_by_id`: `shm_mmap` with no file name and a `size` of 0. -/
def ihGetShmById (sys : SysV) (shmId : Int) : ByName :=
  let id := if shmId < 0 then sys.noFile else shmId
  match sys.shmat id with
  | none => .returned 0 (some none)
  | some ptr => .returned (sys.segsz id) (some (some ptr))

/-- The string that begins here, if it ends in front of the end. -/
def stringIn (buf : Bytes) : Option Bytes := if 0 ∈ buf then some (cString buf) else none

/-- `shm_id` of the entry that begins here, as an `int`. -/
def shmIdIn (buf : Bytes) : Int :=
  toInt32 ((byteAt buf 32).toNat + 256 * ((byteAt buf 33).toNat + 256 * ((byteAt buf 34).toNat
    + 256 * (byteAt buf 35).toNat)) : Nat)

/-- Every round reads `shm_name` up to its NUL, in one `strlen` or the other. -/
def ihGetShmByName (sys : SysV) (infobuf name : Bytes) : ByName :=
  match h : stringIn infobuf with
  | none => .outside
  | some shmName =>
      if name = shmName then
        if infobuf.length < 36 then .outside else ihGetShmById sys (shmIdIn infobuf)
      else if shmName = [] then .returned (-1) none
      else ihGetShmByName sys (infobuf.drop sizeofShmNode) name
termination_by infobuf.length
decreasing_by
  have hpos : 0 < infobuf.length := by
    rw [List.length_pos_iff]
    rintro rfl
    cases h
  simp only [List.length_drop, sizeofShmNode]
  omega

/-! ## The entries -/

/-- The name of entry `i`, as a string; the array it is in does not end it. -/
def entryAt (buf : Bytes) (i : Nat) : Option Bytes := stringIn (buf.drop (sizeofShmNode * i))

def shmIdAt (buf : Bytes) (i : Nat) : Int := shmIdIn (buf.drop (sizeofShmNode * i))

/-- **What is promised** of a search among `n` entries: it stays inside, and finds
the first entry of this name, or says that there is none. -/
structure FindsShm (sys : SysV) (buf : Bytes) (n : Nat) (name : Bytes) (out : ByName) : Prop where
  inside : out ≠ .outside
  missing : (∀ i, i < n → entryAt buf i ≠ some name) → out = .returned (-1) none
  found : ∀ i, i < n → entryAt buf i = some name → (∀ j, j < i → entryAt buf j ≠ some name) →
    out = ihGetShmById sys (shmIdAt buf i)

/-- The search goes on behind this entry. -/
def GoesOn (buf name : Bytes) (j : Nat) : Prop :=
  ∃ s, entryAt buf j = some s ∧ s ≠ [] ∧ s ≠ name

/-- One of the entries has the name, all in front of it end and have one of their
own, and its `shm_id` is still inside. -/
def Listed (buf : Bytes) (n : Nat) (name : Bytes) : Prop :=
  ∃ i, i < n ∧ entryAt buf i = some name ∧ sizeofShmNode * i + 36 ≤ buf.length ∧
    ∀ j, j < i → GoesOn buf name j

/-- None of them has the name, which is not empty, and behind them or among them
an empty name ends the search, with only others in front of it. -/
def EndedBy (buf : Bytes) (n : Nat) (name : Bytes) : Prop :=
  name ≠ [] ∧ (∀ i, i < n → entryAt buf i ≠ some name) ∧
    ∃ k, entryAt buf k = some [] ∧ ∀ j, j < k → GoesOn buf name j

/-! ## One round -/

section Search

variable {sys : SysV} {buf name : Bytes} {n k : Nat}

theorem ihGetShmByName_outside (h : stringIn buf = none) :
    ihGetShmByName sys buf name = .outside := by
  rw [ihGetShmByName]
  split
  · rfl
  · rename_i heq
    rw [h] at heq
    cases heq

theorem ihGetShmByName_some {s : Bytes} (h : stringIn buf = some s) :
    ihGetShmByName sys buf name =
      if name = s then if buf.length < 36 then .outside else ihGetShmById sys (shmIdIn buf)
      else if s = [] then .returned (-1) none
      else ihGetShmByName sys (buf.drop sizeofShmNode) name := by
  rw [ihGetShmByName]
  split
  · rename_i heq
    rw [h] at heq
    cases heq
  · rename_i heq
    rw [h] at heq
    cases heq
    rfl

/-- An attempt to attach is neither a read outside nor the result for a name that
is missing. -/
theorem ihGetShmById_ne (sys : SysV) (shmId : Int) :
    ihGetShmById sys shmId ≠ .outside ∧ ihGetShmById sys shmId ≠ .returned (-1) none := by
  unfold ihGetShmById
  simp only
  split
  · exact ⟨by simp, by simp⟩
  · exact ⟨by simp, by simp⟩

/-! ## All rounds -/

/-- The entries that the search goes on behind are left behind. -/
theorem ihGetShmByName_drop (h : ∀ j, j < k → GoesOn buf name j) :
    ihGetShmByName sys buf name = ihGetShmByName sys (buf.drop (sizeofShmNode * k)) name := by
  induction k with
  | zero => rw [Nat.mul_zero, List.drop_zero]
  | succ k ih =>
      obtain ⟨s, hs, hne, hname⟩ := h k (Nat.lt_succ_self k)
      rw [ih fun j hj => h j (Nat.lt_succ_of_lt hj), ihGetShmByName_some hs, if_neg (Ne.symm hname),
        if_neg hne, List.drop_drop, Nat.mul_succ]

/-- One entry that it goes on behind. -/
theorem GoesOn.first {s : Bytes} (h : entryAt buf 0 = some s) (hne : s ≠ []) (hname : s ≠ name) :
    ∀ j, j < 1 → GoesOn buf name j := by
  intro j hj
  obtain rfl := Nat.lt_one_iff.mp hj
  exact ⟨s, h, hne, hname⟩

/-- Where the buffer ends, the search does not go on. -/
theorem exists_stop (buf name : Bytes) :
    ∃ k, ¬ GoesOn buf name k ∧ ∀ j, j < k → GoesOn buf name j := by
  have hend : ∃ k, ¬ GoesOn buf name k := by
    refine ⟨buf.length, ?_⟩
    rintro ⟨s, hs, -⟩
    have hdrop : buf.drop (sizeofShmNode * buf.length) = [] :=
      List.drop_eq_nil_of_le (Nat.le_mul_of_pos_left _ (by decide))
    rw [entryAt, hdrop] at hs
    cases hs
  classical
  exact ⟨Nat.find hend, Nat.find_spec hend, fun j hj => not_not.mp (Nat.find_min hend hj)⟩

/-- The first of the entries with this name, where there is one. -/
theorem exists_first (h : ∃ i, i < n ∧ entryAt buf i = some name) :
    ∃ i, i < n ∧ entryAt buf i = some name ∧ ∀ j, j < i → entryAt buf j ≠ some name := by
  classical
  obtain ⟨hlt, hname⟩ := Nat.find_spec h
  refine ⟨Nat.find h, hlt, hname, fun j hj hj' => ?_⟩
  exact Nat.find_min h hj ⟨Nat.lt_trans hj hlt, hj'⟩

theorem FindsShm.of_listed (h : Listed buf n name) :
    FindsShm sys buf n name (ihGetShmByName sys buf name) := by
  obtain ⟨i, hi, hname, hroom, hpass⟩ := h
  have hout : ihGetShmByName sys buf name = ihGetShmById sys (shmIdAt buf i) := by
    rw [ihGetShmByName_drop hpass, ihGetShmByName_some hname, if_pos rfl,
      if_neg (by rw [List.length_drop]; omega), shmIdAt]
  rw [hout]
  refine ⟨(ihGetShmById_ne sys _).1, fun hnone => absurd hname (hnone i hi), ?_⟩
  intro i' _ hname' hfirst
  rcases Nat.lt_trichotomy i' i with hlt | heq | hgt
  · obtain ⟨s, hs, -, hne⟩ := hpass i' hlt
    exact absurd (Option.some.inj (hs.symm.trans hname')) hne
  · rw [heq]
  · exact absurd hname (hfirst i hgt)

theorem FindsShm.of_endedBy (h : EndedBy buf n name) :
    FindsShm sys buf n name (ihGetShmByName sys buf name) := by
  obtain ⟨hname, hnone, k, hempty, hpass⟩ := h
  have hout : ihGetShmByName sys buf name = .returned (-1) none := by
    rw [ihGetShmByName_drop hpass, ihGetShmByName_some hempty, if_neg hname, if_pos rfl]
  rw [hout]
  exact ⟨by simp, fun _ => rfl, fun i hi hi' => absurd hi' (hnone i hi)⟩

/-- **Where the search ends** decides. -/
theorem findsShm_iff :
    FindsShm sys buf n name (ihGetShmByName sys buf name) ↔
      Listed buf n name ∨ EndedBy buf n name := by
  constructor
  · rintro ⟨hin, hmissing, hfound⟩
    obtain ⟨k, hstop, hpass⟩ := exists_stop buf name
    rw [ihGetShmByName_drop hpass] at hin hmissing hfound
    cases hk : entryAt buf k with
    | none => exact absurd (ihGetShmByName_outside hk) hin
    | some s =>
        rw [ihGetShmByName_some hk] at hin hmissing hfound
        by_cases hname : name = s
        · subst hname
          rw [if_pos rfl] at hin hmissing hfound
          by_cases hroom : (buf.drop (sizeofShmNode * k)).length < 36
          · rw [if_pos hroom] at hin
            exact absurd rfl hin
          · rw [if_neg hroom] at hmissing
            by_cases hkn : k < n
            · rw [List.length_drop] at hroom
              exact .inl ⟨k, hkn, hk, by omega, hpass⟩
            · refine absurd (hmissing fun i hi hi' => ?_) (ihGetShmById_ne sys _).2
              obtain ⟨s, hs, -, hne⟩ := hpass i (by omega)
              exact hne (Option.some.inj (hs.symm.trans hi'))
        · have hs : s = [] := by
            by_contra hne
            exact hstop ⟨s, hk, hne, Ne.symm hname⟩
          subst hs
          rw [if_neg hname, if_pos rfl] at hfound
          refine .inr ⟨hname, fun i hi hi' => ?_, k, hk, hpass⟩
          obtain ⟨i', hlt, hname', hfirst⟩ := exists_first ⟨i, hi, hi'⟩
          exact (ihGetShmById_ne sys _).2 (hfound i' hlt hname' hfirst).symm
  · rintro (h | h)
    · exact .of_listed h
    · exact .of_endedBy h

end Search

/-! ## The buffer that discovery leaves -/

/-- The bodies of these frames, one after another, received at the start of the
buffer. -/
def overlay (buffer : Bytes) (fs : List Frame) : Bytes :=
  fs.foldl (fun b f => store b 0 f.body) buffer

/-- The frames `i`, ..., `j - 1` that come in. -/
def framesBetween (c : Client) (i j : Nat) : List Frame :=
  (List.range' i (j - i)).map c.sock.frameAt

theorem framesBetween_self (c : Client) (i : Nat) : framesBetween c i i = [] := by
  rw [framesBetween, Nat.sub_self]
  rfl

theorem overlay_framesBetween_succ (buffer : Bytes) (c : Client) {i j : Nat} (h : i ≤ j) :
    overlay buffer (framesBetween c i (j + 1))
      = store (overlay buffer (framesBetween c i j)) 0 (c.sock.frameAt j).body := by
  rw [framesBetween, Nat.succ_sub h, List.range'_concat, List.map_append, overlay,
    List.foldl_append, ← framesBetween, ← overlay, Nat.one_mul, Nat.add_sub_cancel' h]
  rfl

namespace Query

/-- What is in the buffer, by where the call stands. -/
inductive Filled (c : Client) (buffersize : Int) (buffer : Bytes) (q : Query) : Prop
  | failed : q.pc = .killed ∨ q.pc = .returned (-1) → Filled c buffersize buffer q
  | num {k} : c.sock.Passes ihReserveCmdIdGetShmNum 0 k → InNum c buffersize k q →
      q.buffer = buffer → Filled c buffersize buffer q
  | empty {k} : NumAt c k → shmNumAt c k = 0 → q.pc = .returned 0 → q.buffer = buffer →
      Filled c buffersize buffer q
  | info {k m} : Asks c buffersize k → k < m →
      c.sock.Passes ihReserveCmdIdGetShmInfo (k + 1) m → InInfo c m q →
      q.buffer = overlay buffer (framesBetween c (k + 1) m) → Filled c buffersize buffer q
  | lost : q.pc = .recvInfo → q.ret = -1 → q.client.connfd < 0 → Filled c buffersize buffer q
  | done {k m} : Asks c buffersize k → c.sock.FirstAt ihReserveCmdIdGetShmInfo (k + 1) m →
      q.pc = .returned ((c.sock.frameAt m).body.length / sizeofShmNode : Nat) →
      q.buffer = overlay buffer (framesBetween c (k + 1) (m + 1)) → Filled c buffersize buffer q

variable {c : Client} {buffersize : Int} {buffer : Bytes} {q q' : Query} {k m : Nat}

theorem askInfo_buffer (q : Query) : q.askInfo.buffer = q.buffer := by
  unfold askInfo
  simp only
  split
  · rfl
  · split
    · rfl
    · split
      · rfl
      · split <;> rfl

theorem numStep_buffer (q : Query) : q.numStep.buffer = q.buffer := by
  unfold numStep
  simp only
  split
  · rfl
  · split
    · rfl
    · exact askInfo_buffer _

theorem loopInfo_buffer (q : Query) : q.loopInfo.buffer = q.buffer := by
  unfold loopInfo
  split <;> rfl

/-- What follows the frame that the first loop waits for. -/
theorem InNum.askInfo_filled (h : InNum c buffersize (k + 1) q)
    (hnum : (byteAt q.wbuf protocolCmdHeadLen).toNat = shmNumAt c k) (hfd : 0 ≤ c.connfd)
    (hk : NumAt c k) (hbuf : q.askInfo.buffer = buffer) : Filled c buffersize buffer q.askInfo := by
  by_cases hsmall : toSizeT buffersize < sizeofShmNode * shmNumAt c k
  · rw [h.askInfo_tooSmall hnum hsmall]
    exact .failed (.inr rfl)
  by_cases hzero : shmNumAt c k = 0
  · rw [askInfo_empty hnum hzero] at hbuf ⊢
    exact .empty hk hzero rfl hbuf
  have hw : Wanted c buffersize k := ⟨hzero, Nat.le_of_not_lt hsmall⟩
  rcases sendRet_cases (t := secondAsk c) (n := protocolCmdHeadLen) with hret | hret | hret
  · rw [h.askInfo_wanted hnum hfd hw, hret]
    exact .failed (.inl rfl)
  · refine .info ⟨hk, hw, hret⟩ (Nat.lt_succ_self k) (Sock.Passes.refl _ _ _)
      (h.askInfo_sent hnum hfd hw hret) ?_
    rw [hbuf, framesBetween_self]
    rfl
  · rw [h.askInfo_wanted hnum hfd hw, hret]
    exact .failed (.inr rfl)

theorem Filled.step {ready : Bool} (h : Filled c buffersize buffer q) (hfd : 0 ≤ c.connfd)
    (hstep : q.step ready = some q') : Filled c buffersize buffer q' := by
  cases h with
  | failed hpc =>
      rcases hpc with hpc | hpc <;> rw [Query.step, hpc] at hstep <;> cases hstep
  | empty _ _ hpc | done _ _ hpc =>
      rw [Query.step, hpc] at hstep
      cases hstep
  | @num k hpass hq hbuf =>
      rw [Query.step, hq.pc] at hstep
      obtain rfl := Option.some.inj hstep
      by_cases hw : (c.sock.nth k).Whole
      · obtain ⟨q', hq', hnum, hround⟩ := hq.numStep_whole hfd hw
        have hkept := q.numStep_buffer.trans hbuf
        rw [hround] at hkept ⊢
        by_cases hid : c.sock.idAt k = ihReserveCmdIdGetShmNum
        · rw [if_neg (not_not_intro hid)] at hkept ⊢
          exact hq'.askInfo_filled hnum hfd ⟨Nat.zero_le k, hpass, hw, hid⟩ hkept
        · rw [if_pos hid] at hkept ⊢
          exact .num (hpass.succ hw hid) hq' hkept
      · exact .failed (.inr (hq.numStep_short hfd hw).1)
  | @info k m hask hlt hpass hq hbuf =>
      rw [Query.step, hq.pc] at hstep
      obtain rfl := Option.some.inj hstep
      cases ready with
      | false =>
          rw [hq.infoStep_idle]
          exact .info hask hlt hpass hq hbuf
      | true =>
          by_cases hw : (c.sock.nth m).Whole
          · have hnext : (q.infoStep true).buffer
                = overlay buffer (framesBetween c (k + 1) (m + 1)) := by
              rw [hq.infoStep_ready hfd, loopInfo_buffer, ihRecvData_afterInfo hfd hw, hbuf,
                overlay_framesBetween_succ buffer c hlt]
            by_cases hid : c.sock.idAt m = ihReserveCmdIdGetShmInfo
            · refine .done hask ⟨hlt, hpass, hw, hid⟩ ?_ hnext
              rw [hq.infoStep_info hfd hw hid]
            · exact .info hask (Nat.lt_succ_of_lt hlt) (hpass.succ hw hid)
                (hq.infoStep_other hfd hw hid) hnext
          · obtain ⟨hpc, hret, hclient⟩ := hq.infoStep_short hfd hw
            exact .lost hpc hret (by rw [hclient]; exact Int.negSucc_lt_zero 0)
  | lost hpc hret hgone =>
      rw [Query.step, hpc] at hstep
      obtain rfl := Option.some.inj hstep
      rw [infoStep_gone hret hgone]
      exact .lost hpc hret hgone

theorem filled_of_reaches (hfd : 0 ≤ c.connfd)
    (h : Reaches Query.step anyStep (ihGetShmInfos c buffer buffersize) q) :
    Filled c buffersize buffer q := by
  refine h.invariant (I := Filled c buffersize buffer) ?_ fun _ _ _ hq _ hs => hq.step hfd hs
  by_cases hkilled : sendRet (firstAsk c) protocolCmdHeadLen = .killed
  · exact .failed (.inl (start_killed hfd buffer buffersize hkilled))
  · refine .num (Sock.Passes.refl _ _ _) (start_inNum hfd buffer buffersize hkilled) ?_
    rw [start_eq hfd]

end Query

/-- What discovery has received into the buffer when it gives back `n`: nothing,
or the frames up to the table. -/
def Left (c : Client) (buffersize : Int) (n : Nat) (fs : List Frame) : Prop :=
  ∃ k, NumAt c k ∧
    ((shmNumAt c k = 0 ∧ n = 0 ∧ fs = []) ∨
      (Asks c buffersize k ∧ ∃ m, c.sock.FirstAt ihReserveCmdIdGetShmInfo (k + 1) m ∧
        n = (c.sock.frameAt m).body.length / sizeofShmNode ∧
        fs = framesBetween c (k + 1) (m + 1)))

theorem Query.Filled.left {c : Client} {buffersize : Int} {buffer : Bytes} {q : Query} {n : Nat}
    (h : q.Filled c buffersize buffer) (hret : q.pc = .returned (n : Int)) :
    ∃ fs, Left c buffersize n fs ∧ q.buffer = overlay buffer fs := by
  cases h with
  | failed hpc =>
      rcases hpc with hpc | hpc
      · rw [hpc] at hret
        cases hret
      · rw [hpc] at hret
        cases hret
  | num _ hq | info _ _ _ hq =>
      rw [hq.pc] at hret
      cases hret
  | lost hpc =>
      rw [hpc] at hret
      cases hret
  | empty hk hzero hpc hbuf =>
      rw [hpc] at hret
      have hn : n = 0 := by
        injection hret with h
        omega
      exact ⟨[], ⟨_, hk, .inl ⟨hzero, hn, rfl⟩⟩, hbuf⟩
  | @done k m hask hm hpc hbuf =>
      rw [hpc] at hret
      have hn : n = (c.sock.frameAt m).body.length / sizeofShmNode := by
        injection hret with h
        omega
      exact ⟨_, ⟨k, hask.num, .inr ⟨hask, m, hm, hn, rfl⟩⟩, hbuf⟩

/-- A call without a connection has ended before it began. -/
theorem Query.reaches_gone {c : Client} {buffersize : Int} {buffer : Bytes} {q : Query}
    (hfd : c.connfd < 0)
    (h : Reaches Query.step anyStep (ihGetShmInfos c buffer buffersize) q) :
    q.pc = .returned (-1) := by
  have hstart : (ihGetShmInfos c buffer buffersize).pc = .returned (-1) := by
    rw [ihGetShmInfos, if_pos hfd]
  refine h.invariant (I := fun q => q.pc = .returned (-1)) hstart fun _ _ _ hq _ hs => ?_
  rw [Query.step, hq] at hs
  cases hs

/-- **A lookup after discovery.** In a buffer that has been left with `n` entries,
the search stays inside and finds the first entry of a name, or that there is
none, exactly when such an entry or, if there is none, an empty name behind
terminated others ends it in time. -/
theorem ihGetShmByName_finds_iff (sys : SysV) (c : Client) (buffer name : Bytes) (q : Query)
    (n : Nat)
    (hrun : Reaches Query.step anyStep (ihGetShmInfos c buffer buffer.length) q)
    (hret : q.pc = .returned (n : Int)) :
    ∃ fs, Left c buffer.length n fs ∧
      (FindsShm sys (q.buffer.take buffer.length) n name
          (ihGetShmByName sys (q.buffer.take buffer.length) name) ↔
        Listed ((overlay buffer fs).take buffer.length) n name ∨
          EndedBy ((overlay buffer fs).take buffer.length) n name) := by
  have hfd : 0 ≤ c.connfd := by
    by_contra hneg
    have hgone := Query.reaches_gone (Int.not_le.mp hneg) hrun
    rw [hret] at hgone
    injection hgone with h
    omega
  obtain ⟨fs, hleft, hbuf⟩ := (Query.filled_of_reaches hfd hrun).left hret
  refine ⟨fs, hleft, ?_⟩
  rw [← hbuf]
  exact findsShm_iff

/-- One entry in a buffer with room for two. -/
theorem ihGetShmByName_finds_one :
    let table : List ShmNode := [⟨[109], 7, 16⟩]
    let sys : SysV := ⟨fun id => if id = 7 then some 4096 else none, fun _ => 16, -1⟩
    let c := Client.eager ((numReply 1).bytes ++ (infoReply table (by decide)).bytes)
    let buffer : Bytes := List.replicate 80 0
    ∃ q, Reaches Query.step anyStep (ihGetShmInfos c buffer buffer.length) q ∧
      q.pc = .returned 1 ∧
      FindsShm sys (q.buffer.take buffer.length) 1 [109]
        (ihGetShmByName sys (q.buffer.take buffer.length) [109]) := by
  intro table sys c buffer
  have hnum : NumAt c 0 := .self (by decide +kernel) (by decide +kernel)
  have hinfo : c.sock.FirstAt ihReserveCmdIdGetShmInfo 1 1 :=
    .self (by decide +kernel) (by decide +kernel)
  have hrun : (run Query.step unchecked (ihGetShmInfos c buffer buffer.length) [true, true]).any
      (fun q => decide (q.pc = .returned 1)) = true := by decide +kernel
  obtain ⟨q, hq, hP⟩ := Reaches.of_run_unchecked hrun
  have hpc : q.pc = .returned 1 := of_decide_eq_true hP
  obtain ⟨fs, ⟨k, hk, hleft⟩, hiff⟩ := ihGetShmByName_finds_iff sys c buffer [109] q 1 hq hpc
  obtain rfl := hk.unique hnum
  rcases hleft with ⟨-, hzero, -⟩ | ⟨-, m, hm, -, rfl⟩
  · cases hzero
  · obtain rfl := hm.unique hinfo
    refine ⟨q, hq, hpc, hiff.mpr (.inl ⟨0, Nat.zero_lt_one, ?_, ?_, fun j hj => ?_⟩)⟩
    · decide +kernel
    · decide +kernel
    · exact absurd hj (Nat.not_lt_zero j)

/-- **One entry in a buffer of 40 bytes**: the search for another name reads what
is behind it. In one of 80 zeros the empty name is the name of an entry that is
none. -/
theorem ihGetShmByName_overruns :
    let table : List ShmNode := [⟨[109], 7, 16⟩]
    let c := Client.eager ((numReply 1).bytes ++ (infoReply table (by decide)).bytes)
    (∃ q, Reaches Query.step anyStep (ihGetShmInfos c (List.replicate 40 0) 40) q ∧
      q.pc = .returned 1 ∧
      ∀ sys, ihGetShmByName sys (q.buffer.take 40) [120] = .outside ∧
        ¬ FindsShm sys (q.buffer.take 40) 1 [120] (ihGetShmByName sys (q.buffer.take 40) [120])) ∧
    ∃ q, Reaches Query.step anyStep (ihGetShmInfos c (List.replicate 80 0) 80) q ∧
      q.pc = .returned 1 ∧
      ∀ sys, ihGetShmByName sys (q.buffer.take 80) [] = ihGetShmById sys 0 ∧
        ¬ FindsShm sys (q.buffer.take 80) 1 [] (ihGetShmByName sys (q.buffer.take 80) []) := by
  intro table c
  constructor
  · have hrun : (run Query.step unchecked (ihGetShmInfos c (List.replicate 40 0) 40)
        [true, true]).any (fun q => decide (q.pc = .returned 1 ∧
          entryAt (q.buffer.take 40) 0 = some [109] ∧ entryAt (q.buffer.take 40) 1 = none)) = true := by
      decide +kernel
    obtain ⟨q, hq, hP⟩ := Reaches.of_run_unchecked hrun
    obtain ⟨hpc, hzero, hone⟩ := of_decide_eq_true hP
    refine ⟨q, hq, hpc, fun sys => ?_⟩
    have hout : ihGetShmByName sys (q.buffer.take 40) [120] = .outside := by
      rw [ihGetShmByName_drop (GoesOn.first hzero (by decide) (by decide))]
      exact ihGetShmByName_outside hone
    exact ⟨hout, fun h => h.inside hout⟩
  · have hrun : (run Query.step unchecked (ihGetShmInfos c (List.replicate 80 0) 80)
        [true, true]).any (fun q => decide (q.pc = .returned 1 ∧
          entryAt (q.buffer.take 80) 0 = some [109] ∧ entryAt (q.buffer.take 80) 1 = some [] ∧
          shmIdAt (q.buffer.take 80) 1 = 0 ∧ (q.buffer.take 80).length = 80)) = true := by
      decide +kernel
    obtain ⟨q, hq, hP⟩ := Reaches.of_run_unchecked hrun
    obtain ⟨hpc, hzero, hone, hid, hlen⟩ := of_decide_eq_true hP
    refine ⟨q, hq, hpc, fun sys => ?_⟩
    have hout : ihGetShmByName sys (q.buffer.take 80) [] = ihGetShmById sys 0 := by
      rw [ihGetShmByName_drop (GoesOn.first hzero (by decide) (by decide)), ihGetShmByName_some hone,
        if_pos rfl, if_neg (by rw [List.length_drop, hlen]; decide), ← hid, shmIdAt]
    refine ⟨hout, fun h => (ihGetShmById_ne sys 0).2 (hout.symm.trans (h.missing ?_))⟩
    intro i hi
    obtain rfl := Nat.lt_one_iff.mp hi
    rw [hzero]
    decide

end Icehydra
