import Icehydra.ConfFile

/-!
# ConfText — the text of the configuration

`read_file` of `src/icehydra_util.c` and `get_node_start` over the text of the
file. `cJSON_ParseWithOpts` is a parameter; the loop goes over what it gives for
the text, value by value. Unlike in `getNodeStart`, the ways in which the
process ends are kept apart.
-/

namespace Icehydra

/-- `cJSON_ParseWithOpts(text,&rest,0)`: the value that the text starts with and
what follows it, or nothing. A value is never empty. -/
structure CJsonParser where
  parse : Bytes → Option (CJson × Bytes)
  shorter : ∀ {text json rest}, parse text = some (json, rest) → rest.length < text.length

/-- How `get_node_start` comes out. `firstId` is its error message and
`exit(-1)`; `crashed` is a failed assertion or a null pointer. -/
inductive Startup where
  | null
  | firstId
  | crashed
  | overrun
  | returned (r : NodeStart)

/-- `none` is a file that cannot be read; `fread(*data,size,1,fp)` reads nothing
of an empty one. -/
def readFile (file : Option Bytes) : Option Bytes := file.filter fun data => data ≠ []

/-- The bytes in front of the first zero. -/
def cString (data : Bytes) : Bytes := data.takeWhile (· ≠ 0)

section Shm

variable (p : CJsonParser) (shmCreate : Bytes → UInt8 → Int → Option Int)

/-- One round of `while(json)`, and how it ends the process if it does. -/
def Building.round (st : Building) (json : CJson) : Except Startup Building :=
  match st.add shmCreate json with
  | .ok st => .ok st
  | .overrun => .error .overrun
  | .ended =>
      match getIcehydraJsonNode shmCreate json with
      | .ok node => .error (if st.nodeCount = 0 ∧ node.id ≠ 0 then .firstId else .crashed)
      | _ => .error .crashed

/-- What stands behind the loop: nothing asks why there was no further value,
nor whether there was one at all. -/
def Building.finish (st : Building) : Startup :=
  match st.resultNode with
  | none => .crashed
  | some result => .returned (st.linked result)

def Building.addText (st : Building) (text : Bytes) : Startup :=
  match h : p.parse text with
  | none => st.finish
  | some (json, rest) =>
      have := p.shorter h
      match st.round shmCreate json with
      | .error e => e
      | .ok st => st.addText rest
termination_by text.length

def getNodeStartFile (file : Option Bytes) : Startup :=
  match readFile file with
  | none => .null
  | some data => Building.addText p shmCreate ⟨[], 0, none, none⟩ (cString data)

end Shm

/-! ## The values of a text -/

/-- What one parse after another gives, and where the last one fails. -/
def CJsonParser.values (p : CJsonParser) (text : Bytes) : List CJson × Bytes :=
  match h : p.parse text with
  | none => ([], text)
  | some (json, rest) =>
      have := p.shorter h
      (json :: (p.values rest).1, (p.values rest).2)
termination_by text.length

def isJsonSpace (b : UInt8) : Bool := b = 32 ∨ b = 9 ∨ b = 10 ∨ b = 13

/-- From beginning to end one JSON value after another, at least one. -/
structure CJsonParser.IsSequence (p : CJsonParser) (data : Bytes) : Prop where
  text : 0 ∉ data
  values : (p.values data).1 ≠ []
  rest : ∀ b ∈ (p.values data).2, isJsonSpace b = true

/-- The text starts with a value that loads, with an id other than 0. -/
def CJsonParser.FirstIdSet (p : CJsonParser) (shmCreate : Bytes → UInt8 → Int → Option Int)
    (text : Bytes) : Prop :=
  ∃ json rest, p.parse text = some (json, rest) ∧ Loads shmCreate json ∧ ¬ ZeroPid json

/-- `get_node_start` says that something is wrong. -/
def Startup.Reports (out : Startup) : Prop := out = .null ∨ out = .firstId

@[simp] theorem Startup.not_reports_crashed : ¬ Startup.crashed.Reports := by
  rintro (h | h) <;> cases h

@[simp] theorem Startup.not_reports_overrun : ¬ Startup.overrun.Reports := by
  rintro (h | h) <;> cases h

@[simp] theorem Startup.not_reports_returned (r : NodeStart) : ¬ (Startup.returned r).Reports := by
  rintro (h | h) <;> cases h

section Shm

variable {p : CJsonParser} {shmCreate : Bytes → UInt8 → Int → Option Int} {st : Building}
  {json : CJson} {text rest : Bytes}

theorem Building.addText_none (h : p.parse text = none) :
    st.addText p shmCreate text = st.finish := by
  rw [addText]
  split
  · rfl
  · rename_i heq
    rw [h] at heq
    cases heq

theorem Building.addText_some (h : p.parse text = some (json, rest)) :
    st.addText p shmCreate text =
      match st.round shmCreate json with
      | .error e => e
      | .ok st => st.addText p shmCreate rest := by
  rw [addText]
  split
  · rename_i heq
    rw [h] at heq
    cases heq
  · rename_i heq
    rw [h] at heq
    cases heq
    rfl

theorem CJsonParser.values_none (h : p.parse text = none) : p.values text = ([], text) := by
  rw [values]
  split
  · rfl
  · rename_i heq
    rw [h] at heq
    cases heq

theorem CJsonParser.values_some (h : p.parse text = some (json, rest)) :
    p.values text = (json :: (p.values rest).1, (p.values rest).2) := by
  rw [values]
  split
  · rename_i heq
    rw [h] at heq
    cases heq
  · rename_i heq
    rw [h] at heq
    cases heq
    rfl

/-! ## One round -/

/-- A round goes on, or ends the process in one of three ways. -/
theorem Building.round_cases (st : Building) (json : CJson) :
    (∃ st', st.add shmCreate json = .ok st' ∧ st.round shmCreate json = .ok st') ∨
      (st.add shmCreate json = .ended ∧ st.round shmCreate json = .error .firstId ∧
        st.nodeCount = 0 ∧ Loads shmCreate json ∧ ¬ ZeroPid json) ∨
      (st.add shmCreate json = .ended ∧ st.round shmCreate json = .error .crashed ∧
        ¬ (st.nodeCount = 0 ∧ Loads shmCreate json ∧ ¬ ZeroPid json)) ∨
      (st.add shmCreate json = .overrun ∧ st.round shmCreate json = .error .overrun) := by
  unfold round
  cases hadd : st.add shmCreate json with
  | ok st' => exact .inl ⟨st', rfl, rfl⟩
  | overrun => exact .inr (.inr (.inr ⟨rfl, rfl⟩))
  | ended =>
      cases hnode : getIcehydraJsonNode shmCreate json with
      | ok node =>
          by_cases hfirst : st.nodeCount = 0 ∧ node.id ≠ 0
          · refine .inr (.inl ⟨rfl, ?_, hfirst.1, ⟨node, hnode⟩, ?_⟩)
            · simp only [if_pos hfirst]
            · exact fun hzero => hfirst.2 ((getIcehydraJsonNode_id hnode).mpr hzero)
          · refine .inr (.inr (.inl ⟨rfl, ?_, fun h => hfirst ⟨h.1, fun hid => ?_⟩⟩))
            · simp only [if_neg hfirst]
            · exact h.2.2 ((getIcehydraJsonNode_id hnode).mp hid)
      | ended | overrun =>
          refine .inr (.inr (.inl ⟨rfl, rfl, fun h => ?_⟩))
          obtain ⟨node, hok⟩ := h.2.1
          rw [hnode] at hok
          cases hok

/-- Behind the first round the message is not printed any more. -/
theorem Building.addText_not_reports (hcount : st.nodeCount ≠ 0) :
    ¬ (st.addText p shmCreate text).Reports := by
  induction hn : text.length using Nat.strong_induction_on generalizing st text with
  | _ n ih =>
      cases hparse : p.parse text with
      | none =>
          rw [addText_none hparse, finish]
          split <;> simp
      | some r =>
          obtain ⟨json, rest⟩ := r
          rw [addText_some hparse]
          rcases @round_cases shmCreate st json with
            ⟨st', hadd, hround⟩ | ⟨-, hround, hzero, -⟩ | ⟨-, hround, -⟩ | ⟨-, hround⟩
          · rw [hround]
            refine ih rest.length (hn ▸ p.shorter hparse) ?_ rfl
            obtain ⟨node, -, ⟨-, rfl⟩ | ⟨-, head, -, rfl⟩⟩ := add_cases hadd
            · exact Nat.succ_ne_zero _
            · exact Nat.succ_ne_zero _
          · exact absurd hzero hcount
          · rw [hround]
            exact Startup.not_reports_crashed
          · rw [hround]
            exact Startup.not_reports_overrun

/-- **When the message is printed**: the first value is there, loads, and has an
id other than 0. -/
theorem Building.addText_reports_iff :
    (Building.addText p shmCreate ⟨[], 0, none, none⟩ text).Reports ↔
      p.FirstIdSet shmCreate text := by
  cases hparse : p.parse text with
  | none =>
      rw [addText_none hparse]
      refine iff_of_false Startup.not_reports_crashed ?_
      rintro ⟨json, rest, h, -⟩
      rw [hparse] at h
      cases h
  | some r =>
      obtain ⟨json, rest⟩ := r
      have hset : p.FirstIdSet shmCreate text ↔ Loads shmCreate json ∧ ¬ ZeroPid json := by
        constructor
        · rintro ⟨json', rest', h, hset⟩
          rw [hparse] at h
          cases h
          exact hset
        · exact fun h => ⟨json, rest, hparse, h⟩
      rw [addText_some hparse, hset]
      rcases @round_cases shmCreate ⟨[], 0, none, none⟩ json with
        ⟨st', hadd, hround⟩ | ⟨-, hround, -, hset⟩ | ⟨-, hround, hnot⟩ | ⟨hadd, hround⟩
      · rw [hround]
        obtain ⟨node, hnode, ⟨hzero, rfl⟩ | ⟨-, head, hhead, -⟩⟩ := add_cases hadd
        · refine iff_of_false (addText_not_reports (Nat.succ_ne_zero _)) fun h => ?_
          exact h.2 ((getIcehydraJsonNode_id hnode).mp hzero)
        · cases hhead
      · rw [hround]
        exact iff_of_true (.inr rfl) hset
      · rw [hround]
        exact iff_of_false Startup.not_reports_crashed fun h => hnot ⟨rfl, h⟩
      · rw [hround]
        have hover := add_overrun_iff.mp hadd
        refine iff_of_false Startup.not_reports_overrun fun h => ?_
        obtain ⟨node, hnode⟩ := h.1
        rw [Overruns, hnode] at hover
        cases hover

/-! ## The whole text -/

theorem getNodeStartFile_some {data : Bytes} (h : data ≠ []) :
    getNodeStartFile p shmCreate (some data)
      = Building.addText p shmCreate ⟨[], 0, none, none⟩ (cString data) := by
  have hread : readFile (some data) = some data := by simp [readFile, h]
  rw [getNodeStartFile, hread]

end Shm

/-- **Malformed files.** A file that is no sequence of JSON values is reported
exactly when the message about the first id comes before the place where it
breaks off. -/
theorem getNodeStartFile_rejects_iff (p : CJsonParser)
    (shmCreate : Bytes → UInt8 → Int → Option Int) (data : Bytes) (h : data ≠ []) :
    (¬ p.IsSequence data → (getNodeStartFile p shmCreate (some data)).Reports) ↔
      p.IsSequence data ∨ p.FirstIdSet shmCreate (cString data) := by
  rw [getNodeStartFile_some h, Building.addText_reports_iff]
  rw [imp_iff_not_or, not_not]

/-- A parser that knows one value only. -/
def CJsonParser.literal (lit : Bytes) (hlit : lit ≠ []) (json : CJson) : CJsonParser where
  parse text := if lit.isPrefixOf text then some (json, text.drop lit.length) else none
  shorter {text json' rest} h := by
    have hpos := List.length_pos_iff.mpr hlit
    split at h
    · rename_i hpre
      have hle := (List.isPrefixOf_iff_prefix.mp hpre).length_le
      cases h
      rw [List.length_drop]
      omega
    · cases h

/-- `{"ih-pid":d}` -/
def pidText (d : UInt8) : Bytes := [123, 34, 105, 104, 45, 112, 105, 100, 34, 58, d, 125]

/-- The parser for one such text. -/
def pidParser (d : UInt8) (id : Int) : CJsonParser :=
  .literal (pidText d) (List.cons_ne_nil _ _) (CJson.object [.numberItem keyPid id])

theorem not_isSequence_brace (p : CJsonParser) {data : Bytes} (h : 125 ∈ (p.values data).2) :
    ¬ p.IsSequence data := by
  intro hseq
  exact absurd (hseq.rest 125 h) (by decide)

/-- `{"ih-pid":7}}`: the brace too many is not what is reported, but it is reported. -/
theorem getNodeStartFile_rejects_seven :
    let p := pidParser 55 7
    let data := pidText 55 ++ [125]
    ¬ p.IsSequence data ∧ (getNodeStartFile p (fun _ _ _ => none) (some data)).Reports := by
  intro p data
  have hfirst : p.parse data = some (CJson.object [.numberItem keyPid 7], [125]) := rfl
  have hlast : p.parse [125] = none := rfl
  have hnot : ¬ p.IsSequence data := by
    apply not_isSequence_brace
    rw [CJsonParser.values_some hfirst, CJsonParser.values_none hlast]
    exact List.mem_singleton_self _
  have hnode : getIcehydraJsonNode (fun _ _ _ => none) (CJson.object [.numberItem keyPid 7])
      = .ok { name := [], id := 7, type := .sub } := rfl
  have hset : p.FirstIdSet (fun _ _ _ => none) (cString data) := by
    refine ⟨_, _, hfirst, ⟨_, hnode⟩, fun hzero => ?_⟩
    exact absurd ((getIcehydraJsonNode_id hnode).mpr hzero) (by decide)
  exact ⟨hnot, (getNodeStartFile_rejects_iff p (fun _ _ _ => none) data (List.cons_ne_nil _ _)).mpr
    (.inr hset) hnot⟩

/-- **Malformed and not reported**: `{"ih-pid":0}}` gives a list of the one node
that precedes the brace too many, and `}` a null pointer. -/
theorem malformed_accepted :
    let p := pidParser 48 0
    let late := pidText 48 ++ [125]
    (¬ p.IsSequence late ∧ ¬ (getNodeStartFile p (fun _ _ _ => none) (some late)).Reports ∧
        ∃ r, getNodeStartFile p (fun _ _ _ => none) (some late) = .returned r) ∧
      (¬ p.IsSequence [125] ∧ ¬ (getNodeStartFile p (fun _ _ _ => none) (some [125])).Reports ∧
        getNodeStartFile p (fun _ _ _ => none) (some [125]) = .crashed) := by
  intro p late
  have hfirst : p.parse late = some (CJson.object [.numberItem keyPid 0], [125]) := rfl
  have hlast : p.parse [125] = none := rfl
  have hlate : ∃ r, getNodeStartFile p (fun _ _ _ => none) (some late) = .returned r := by
    refine ⟨(Building.addHead ⟨[], 0, none, none⟩ { name := [], id := 0, type := .pub }).linked 0, ?_⟩
    have hne : late ≠ [] := List.cons_ne_nil _ _
    rw [getNodeStartFile_some hne, show cString late = late from rfl, Building.addText_some hfirst]
    exact Building.addText_none hlast
  have hfirstBad : getNodeStartFile p (fun _ _ _ => none) (some [125]) = .crashed := by
    rw [getNodeStartFile_some (List.cons_ne_nil _ _), show cString [125] = [125] from rfl]
    exact Building.addText_none hlast
  refine ⟨⟨?_, ?_, hlate⟩, ?_, ?_, hfirstBad⟩
  · apply not_isSequence_brace
    rw [CJsonParser.values_some hfirst, CJsonParser.values_none hlast]
    exact List.mem_singleton_self _
  · obtain ⟨r, hr⟩ := hlate
    rw [hr]
    exact Startup.not_reports_returned r
  · apply not_isSequence_brace
    rw [CJsonParser.values_none hlast]
    exact List.mem_singleton_self _
  · rw [hfirstBad]
    exact Startup.not_reports_crashed

end Icehydra
