import Mathlib.Data.Stream.Init
import Mathlib.Logic.Relation

/-!
# Runs — conditional runs of a step function

A machine is a partial step function on states and events. `Reaches step ok s`
holds of the states a run from `s` gets to when every step it takes satisfies
`ok`; with `fun _ _ => True` these are the reachable states.
-/

namespace Runs

variable {σ ε : Type}

/-- One step that the condition `ok` allows. -/
def Move (step : σ → ε → Option σ) (ok : σ → ε → Prop) (s s' : σ) : Prop :=
  ∃ e, ok s e ∧ step s e = some s'

/-- The states that runs from `s` reach when each of their steps meets `ok`. -/
def Reaches (step : σ → ε → Option σ) (ok : σ → ε → Prop) : σ → σ → Prop :=
  Relation.ReflTransGen (Move step ok)

/-- No condition on the steps. -/
def anyStep : σ → ε → Prop := fun _ _ => True

variable {step : σ → ε → Option σ} {ok : σ → ε → Prop} {s s' : σ}

theorem Reaches.refl (s : σ) : Reaches step ok s s := Relation.ReflTransGen.refl

/-- **The invariant rule**: what holds at the start and is kept by every
allowed step holds in every state reached. -/
theorem Reaches.invariant {I : σ → Prop} (h : Reaches step ok s s') (h0 : I s)
    (hstep : ∀ s e s', I s → ok s e → step s e = some s' → I s') : I s' := by
  induction h with
  | refl => exact h0
  | tail _ hmove ih =>
      obtain ⟨e, hok, he⟩ := hmove
      exact hstep _ e _ ih hok he

/-- The same under an invariant that is already known. -/
theorem Reaches.invariant_of {I J : σ → Prop} (h : Reaches step ok s s')
    (hJ : ∀ t, Reaches step ok s t → J t) (h0 : I s)
    (hstep : ∀ s e s', J s → I s → ok s e → step s e = some s' → I s') : I s' := by
  induction h with
  | refl => exact h0
  | tail hrun hmove ih =>
      obtain ⟨e, hok, he⟩ := hmove
      exact hstep _ e _ (hJ _ hrun) ih hok he

/-- A weaker condition on the steps. -/
theorem Reaches.mono {weak : σ → ε → Prop} (h : Reaches step ok s s')
    (himp : ∀ s e, ok s e → weak s e) : Reaches step weak s s' := by
  induction h with
  | refl => exact Reaches.refl s
  | tail _ hmove ih =>
      obtain ⟨e, hok, he⟩ := hmove
      exact ih.tail ⟨e, himp _ e hok, he⟩

/-- A state that no step leaves. -/
theorem Reaches.eq_of_fixed (h : Reaches step ok s s')
    (hfix : ∀ e t, step s e = some t → t = s) : s' = s := by
  refine h.invariant (I := fun t => t = s) rfl fun t e t' ht _ hstep => ?_
  rw [ht] at hstep
  exact hfix e t' hstep

/-! ## Notes

A run can keep notes: what a step adds to them is read off the state and the
event. -/

section Notes

variable {α : Type}

/-- A step, and what it adds to the notes. -/
def noting (step : σ → ε → Option σ) (note : σ → ε → List α) (p : σ × List α) (e : ε) :
    Option (σ × List α) :=
  (step p.1 e).map fun t => (t, p.2 ++ note p.1 e)

/-- A run from `s` to `s'` whose steps all meet `ok`, with these notes. -/
def Noted (step : σ → ε → Option σ) (ok : σ → ε → Prop) (note : σ → ε → List α) (s s' : σ)
    (ns : List α) : Prop :=
  Reaches (noting step note) (fun p e => ok p.1 e) (s, []) (s', ns)

variable {note : σ → ε → List α} {ns : List α}

/-- **The invariant rule with notes**, under an invariant of the states alone
that is already known. -/
theorem Noted.invariant_of {J : σ → Prop} {I : σ → List α → Prop}
    (h : Noted step ok note s s' ns) (hJ : ∀ t, Reaches step ok s t → J t) (h0 : I s [])
    (hstep : ∀ t ns e t', J t → I t ns → ok t e → step t e = some t' → I t' (ns ++ note t e)) :
    Reaches step ok s s' ∧ I s' ns := by
  refine Reaches.invariant (I := fun p : σ × List α => Reaches step ok s p.1 ∧ I p.1 p.2) h
    ⟨Reaches.refl s, h0⟩ ?_
  rintro p e p' ⟨hrun, hI⟩ hok he
  obtain ⟨t, ht, rfl⟩ := Option.map_eq_some_iff.mp he
  exact ⟨hrun.tail ⟨e, hok, ht⟩, hstep p.1 p.2 e t (hJ p.1 hrun) hI hok ht⟩

/-- Every run has its notes. -/
theorem Reaches.noted (h : Reaches step ok s s') (note : σ → ε → List α) :
    ∃ ns, Noted step ok note s s' ns := by
  induction h with
  | refl => exact ⟨[], Reaches.refl _⟩
  | @tail t t' _ hmove ih =>
      obtain ⟨ns, hns⟩ := ih
      obtain ⟨e, hok, he⟩ := hmove
      refine ⟨ns ++ note t e, hns.tail ⟨e, hok, ?_⟩⟩
      simp only [noting, he, Option.map_some]

end Notes

/-! ## Runs of given events -/

/-- The state these events lead to, if each of them is taken and passes the
check. -/
def run (step : σ → ε → Option σ) (check : σ → ε → Bool) : σ → List ε → Option σ
  | s, [] => some s
  | s, e :: es => if check s e then (step s e).bind fun t => run step check t es else none

/-- No check. -/
def unchecked : σ → ε → Bool := fun _ _ => true

/-- What holds of the state that a checked run ends in holds of a state reached
under every condition that the check is enough for. -/
theorem Reaches.of_run {check : σ → ε → Bool} (hcheck : ∀ s e, check s e = true → ok s e)
    {P : σ → Bool} {es : List ε} (h : (run step check s es).any P = true) :
    ∃ t, Reaches step ok s t ∧ P t = true := by
  induction es generalizing s with
  | nil => exact ⟨s, Reaches.refl s, h⟩
  | cons e es ih =>
      rw [run] at h
      split at h
      · rename_i hok
        cases hstep : step s e with
        | none => simp [hstep] at h
        | some u =>
            rw [hstep, Option.bind_some] at h
            obtain ⟨t, ht, hP⟩ := ih h
            exact ⟨t, Relation.ReflTransGen.head ⟨e, hcheck s e hok, hstep⟩ ht, hP⟩
      · cases h

theorem Reaches.of_run_unchecked {P : σ → Bool} {es : List ε}
    (h : (run step unchecked s es).any P = true) : ∃ t, Reaches step anyStep s t ∧ P t = true :=
  Reaches.of_run (fun _ _ _ => trivial) h

/-! ## Endless rows of events

Who supplies the events may be taken to do so for ever; a run then takes them
off the front of the row.
-/

section Endless

/-- One step on the next event of the row. -/
def Take (step : σ → ε → Option σ) (p p' : σ × Stream' ε) : Prop :=
  step p.1 p.2.head = some p'.1 ∧ p'.2 = p.2.tail

/-- Finitely many steps lead from here to there. -/
def Leads (step : σ → ε → Option σ) : σ × Stream' ε → σ × Stream' ε → Prop :=
  Relation.ReflTransGen (Take step)

variable {p p' : σ × Stream' ε} {es : Stream' ε}

theorem Leads.refl (p : σ × Stream' ε) : Leads step p p := Relation.ReflTransGen.refl

theorem Leads.trans {p'' : σ × Stream' ε} (h : Leads step p p') (h' : Leads step p' p'') :
    Leads step p p'' := Relation.ReflTransGen.trans h h'

theorem Leads.tail (h : Leads step p (s, es)) (hstep : step s es.head = some s') :
    Leads step p (s', es.tail) := Relation.ReflTransGen.tail h ⟨hstep, rfl⟩

theorem Leads.reaches (h : Leads step p p') : Reaches step anyStep p.1 p'.1 := by
  induction h with
  | refl => exact Reaches.refl _
  | tail _ htake ih => exact ih.tail ⟨_, trivial, htake.1⟩

/-- What is left of the row is a tail of it. -/
theorem Leads.exists_drop (h : Leads step p p') : ∃ n, p'.2 = p.2.drop n := by
  induction h with
  | refl => exact ⟨0, rfl⟩
  | tail _ htake ih =>
      obtain ⟨n, hn⟩ := ih
      exact ⟨n + 1, by rw [htake.2, hn, Stream'.tail_drop']⟩

/-- An event that comes again and again. -/
def Recurs (e : ε) (es : Stream' ε) : Prop := ∀ n, ∃ m, n ≤ m ∧ es.get m = e

theorem recurs_const (e : ε) : Recurs e (Stream'.const e) := fun n => ⟨n, Nat.le_refl n, rfl⟩

theorem Recurs.drop {e : ε} (h : Recurs e es) (k : Nat) : Recurs e (es.drop k) := by
  intro n
  obtain ⟨m, hm, he⟩ := h (n + k)
  exact ⟨m - k, by omega, by rw [Stream'.get_drop, Nat.add_sub_cancel' (by omega), he]⟩

theorem Recurs.leads {e : ε} (h : Recurs e es) (hlead : Leads step (s, es) p') :
    Recurs e p'.2 := by
  obtain ⟨n, hn⟩ := hlead.exists_drop
  rw [hn]
  exact h.drop n

/-- **Waiting** for an event, in a state that no other event changes. -/
theorem Recurs.wait {e : ε} (h : Recurs e es) (hidle : ∀ e', e' ≠ e → step s e' = some s) :
    ∃ es' : Stream' ε, Leads step (s, es) (s, es') ∧ es'.head = e := by
  obtain ⟨m, -, he⟩ := h 0
  induction m generalizing es with
  | zero => exact ⟨es, Leads.refl _, he⟩
  | succ m ih =>
      by_cases hhead : es.head = e
      · exact ⟨es, Leads.refl _, hhead⟩
      · obtain ⟨es', hlead, he'⟩ := ih (h.drop 1) he
        exact ⟨es', ((Leads.refl (s, es)).tail (hidle _ hhead)).trans hlead, he'⟩

end Endless

end Runs
