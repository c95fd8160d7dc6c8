import Mathlib.Tactic.Common

/-!
# Runs of a partial step function

A system is a step function `σ → ε → Option σ`, `none` where the event cannot occur. `run` takes a
list of events, `Reachable` is what runs from an initial state lead to, and `Meets` says that every
step of a run satisfies a condition on the event and the state in front of it; `Always` that every
state does. `outputs` is what the steps of a run put out, one after the other.

* `run_append`, `run_append_inv`: runs compose, and a run has a state at every cut;
* `invariant_run`, `invariant_reachable`: what every step preserves, every run preserves;
* `invariant_run_of_meets`: the same for the runs whose steps meet a condition
  (`meets_of_forall_split` to show that they do);
* `invariant_run_of_forall`, `invariant_run_of_always`: the same for the runs whose events are of
  one kind, and whose states meet a condition;
* `iff_meets`: what exactly the steps that meet a condition keep, and the others break for good;
* `always_iff_meets`: what holds all along exactly the runs whose steps meet a condition.
-/

set_option autoImplicit false

namespace NatsClient.Foundation

variable {σ ε : Type}

/-- The state behind a list of events. -/
def run (step : σ → ε → Option σ) : σ → List ε → Option σ
  | s, [] => some s
  | s, e :: es =>
      match step s e with
      | some s' => run step s' es
      | none => none

/-- Every step of the run from `s` meets the condition. -/
def Meets (step : σ → ε → Option σ) (ok : σ → ε → Prop) : σ → List ε → Prop
  | _, [] => True
  | s, e :: es =>
      ok s e ∧
        match step s e with
        | some s' => Meets step ok s' es
        | none => True

instance decidableMeets (step : σ → ε → Option σ) (ok : σ → ε → Prop) [∀ s e, Decidable (ok s e)] :
    (s : σ) → (es : List ε) → Decidable (Meets step ok s es)
  | _, [] => inferInstanceAs (Decidable True)
  | s, e :: es =>
      have : Decidable (match step s e with
          | some s' => Meets step ok s' es
          | none => True) :=
        match step s e with
        | some s' => decidableMeets step ok s' es
        | none => inferInstanceAs (Decidable True)
      inferInstanceAs (Decidable (ok s e ∧ _))

/-- A condition holds in every state of the run from `s`. -/
def Always (step : σ → ε → Option σ) (C : σ → Prop) : σ → List ε → Prop
  | s, [] => C s
  | s, e :: es =>
      C s ∧
        match step s e with
        | some s' => Always step C s' es
        | none => True

instance decidableAlways (step : σ → ε → Option σ) (C : σ → Prop) [∀ s, Decidable (C s)] :
    (s : σ) → (es : List ε) → Decidable (Always step C s es)
  | s, [] => inferInstanceAs (Decidable (C s))
  | s, e :: es =>
      have : Decidable (match step s e with
          | some s' => Always step C s' es
          | none => True) :=
        match step s e with
        | some s' => decidableAlways step C s' es
        | none => inferInstanceAs (Decidable True)
      inferInstanceAs (Decidable (C s ∧ _))

/-- What the steps of the run from `s` put out. -/
def outputs {α : Type} (step : σ → ε → Option σ) (out : σ → ε → List α) : σ → List ε → List α
  | _, [] => []
  | s, e :: es =>
      out s e ++
        match step s e with
        | some s' => outputs step out s' es
        | none => []

/-- The states runs from `init` lead to. -/
def Reachable (step : σ → ε → Option σ) (init s : σ) : Prop :=
  ∃ es, run step init es = some s

section

variable {step : σ → ε → Option σ} {s s' s₁ s₂ : σ} {e : ε} {es es₁ es₂ : List ε}

theorem run_nil : run step s [] = some s := rfl

/-- The first step of a run. -/
theorem run_cons_inv (h : run step s (e :: es) = some s') :
    ∃ s₁, step s e = some s₁ ∧ run step s₁ es = some s' := by
  simp only [run] at h
  cases hstep : step s e with
  | none =>
      rw [hstep] at h
      cases h
  | some s₁ =>
      rw [hstep] at h
      exact ⟨s₁, rfl, h⟩

theorem run_cons (hstep : step s e = some s₁) (hrun : run step s₁ es = some s') :
    run step s (e :: es) = some s' := by
  simp only [run, hstep, hrun]

theorem outputs_cons {α : Type} {out : σ → ε → List α} (hstep : step s e = some s₁) :
    outputs step out s (e :: es) = out s e ++ outputs step out s₁ es := by
  simp only [outputs, hstep]

/-- **Runs compose.** -/
theorem run_append (h₁ : run step s es₁ = some s₁) (h₂ : run step s₁ es₂ = some s₂) :
    run step s (es₁ ++ es₂) = some s₂ := by
  induction es₁ generalizing s with
  | nil =>
      cases h₁
      exact h₂
  | cons e es ih =>
      obtain ⟨s', hstep, hrun⟩ := run_cons_inv h₁
      exact run_cons hstep (ih hrun)

/-- A run has a state wherever its events are cut. -/
theorem run_append_inv (h : run step s (es₁ ++ es₂) = some s') :
    ∃ s₁, run step s es₁ = some s₁ ∧ run step s₁ es₂ = some s' := by
  induction es₁ generalizing s with
  | nil => exact ⟨s, rfl, h⟩
  | cons e es ih =>
      obtain ⟨s₂, hstep, hrun⟩ := run_cons_inv h
      obtain ⟨s₁, hfirst, hsecond⟩ := ih hrun
      exact ⟨s₁, run_cons hstep hfirst, hsecond⟩

/-- A step that is always possible. -/
theorem run_total (f : σ → ε → σ) (s : σ) (es : List ε) :
    run (fun s e => some (f s e)) s es = some (es.foldl f s) := by
  induction es generalizing s with
  | nil => rfl
  | cons e es ih => exact ih (f s e)

/-- **Invariants of steps are invariants of runs.** -/
theorem invariant_run {I : σ → Prop} (hstep : ∀ s e s', I s → step s e = some s' → I s')
    (hrun : run step s es = some s') (hs : I s) : I s' := by
  induction es generalizing s with
  | nil =>
      cases hrun
      exact hs
  | cons e es ih =>
      obtain ⟨s₁, h₁, hrest⟩ := run_cons_inv hrun
      exact ih hrest (hstep s e s₁ hs h₁)

theorem invariant_reachable {I : σ → Prop} {init : σ}
    (hstep : ∀ s e s', I s → step s e = some s' → I s') (hinit : I init)
    (hs : Reachable step init s) : I s := by
  obtain ⟨es, hrun⟩ := hs
  exact invariant_run hstep hrun hinit

/-- **Invariants of the steps that meet a condition** are invariants of the runs all of whose steps
meet it. -/
theorem invariant_run_of_meets {I : σ → Prop} {ok : σ → ε → Prop}
    (hstep : ∀ s e s', I s → ok s e → step s e = some s' → I s')
    (hrun : run step s es = some s') (hok : Meets step ok s es) (hs : I s) : I s' := by
  induction es generalizing s with
  | nil =>
      cases hrun
      exact hs
  | cons e es ih =>
      obtain ⟨s₁, h₁, hrest⟩ := run_cons_inv hrun
      obtain ⟨hhere, hlater⟩ := hok
      rw [h₁] at hlater
      exact ih hrest hlater (hstep s e s₁ hs hhere h₁)

/-- **What a run keeps exactly when its steps meet a condition.** -/
theorem iff_meets {I C : σ → Prop} {ok : σ → ε → Prop}
    (hinv : ∀ s e s', I s → step s e = some s' → I s')
    (hstep : ∀ s e s', I s → step s e = some s' → (C s' ↔ C s ∧ ok s e))
    (hrun : run step s es = some s') (hs : I s) : C s' ↔ C s ∧ Meets step ok s es := by
  induction es generalizing s with
  | nil =>
      cases hrun
      exact (and_iff_left trivial).symm
  | cons e es ih =>
      obtain ⟨s₁, h₁, hrest⟩ := run_cons_inv hrun
      rw [ih hrest (hinv s e s₁ hs h₁), hstep s e s₁ hs h₁, and_assoc]
      simp only [Meets, h₁]

theorem Meets.mono {ok ok' : σ → ε → Prop} (h : ∀ s e, ok s e → ok' s e)
    (hok : Meets step ok s es) : Meets step ok' s es := by
  induction es generalizing s with
  | nil => trivial
  | cons e es ih =>
      obtain ⟨hhere, hlater⟩ := hok
      refine ⟨h s e hhere, ?_⟩
      cases hstep : step s e with
      | none => trivial
      | some s' =>
          rw [hstep] at hlater
          exact ih hlater

/-- A condition on the events of a run, each with the state that the events in front of it lead
to. -/
theorem meets_of_forall_split {ok : σ → ε → Prop}
    (h : ∀ es₁ e es₂ s₁, es = es₁ ++ e :: es₂ → run step s es₁ = some s₁ → ok s₁ e) :
    Meets step ok s es := by
  induction es generalizing s with
  | nil => trivial
  | cons e es ih =>
      refine ⟨h [] e es s rfl rfl, ?_⟩
      cases hstep : step s e with
      | none => trivial
      | some s' =>
          apply ih
          intro es₁ e' es₂ s₁ hes hrun
          exact h (e :: es₁) e' es₂ s₁ (congrArg (e :: ·) hes) (run_cons hstep hrun)

theorem Meets.and {ok ok' : σ → ε → Prop} (h : Meets step ok s es) (h' : Meets step ok' s es) :
    Meets step (fun s e => ok s e ∧ ok' s e) s es := by
  induction es generalizing s with
  | nil => trivial
  | cons e es ih =>
      refine ⟨⟨h.1, h'.1⟩, ?_⟩
      have hlater := h.2
      have hlater' := h'.2
      cases hstep : step s e with
      | none => trivial
      | some s' =>
          rw [hstep] at hlater hlater'
          exact ih hlater hlater'

theorem Always.head {C : σ → Prop} (h : Always step C s es) : C s := by
  cases es with
  | nil => exact h
  | cons e es => exact h.1

/-- **Invariants of the events of one kind.** -/
theorem invariant_run_of_forall {I : σ → Prop} {ok : ε → Prop}
    (hstep : ∀ s e s', I s → ok e → step s e = some s' → I s') (hrun : run step s es = some s')
    (hok : ∀ e ∈ es, ok e) (hs : I s) : I s' := by
  induction es generalizing s with
  | nil =>
      cases hrun
      exact hs
  | cons e es ih =>
      obtain ⟨s₁, h₁, hrest⟩ := run_cons_inv hrun
      exact ih hrest (fun e' hmem => hok e' (List.mem_cons_of_mem e hmem))
        (hstep s e s₁ hs (hok e List.mem_cons_self) h₁)

/-- **Invariants of the steps into states that meet a condition**, with events of one kind. -/
theorem invariant_run_of_always {I C : σ → Prop} {ok : ε → Prop}
    (hstep : ∀ s e s', I s → ok e → C s' → step s e = some s' → I s')
    (hrun : run step s es = some s') (halways : Always step C s es) (hok : ∀ e ∈ es, ok e)
    (hs : I s) : I s' := by
  induction es generalizing s with
  | nil =>
      cases hrun
      exact hs
  | cons e es ih =>
      obtain ⟨s₁, h₁, hrest⟩ := run_cons_inv hrun
      have hlater := halways.2
      rw [h₁] at hlater
      have hI := hstep s e s₁ hs (hok e List.mem_cons_self) hlater.head h₁
      exact ih hrest hlater (fun e' hmem => hok e' (List.mem_cons_of_mem e hmem)) hI

/-- **What holds in every state of a run exactly when its steps meet a condition.** -/
theorem always_iff_meets {I C : σ → Prop} {ok : σ → ε → Prop}
    (hinv : ∀ s e s', I s → step s e = some s' → I s')
    (hstep : ∀ s e s', I s → C s → step s e = some s' → (C s' ↔ ok s e))
    (hnone : ∀ s e, step s e = none → ok s e) (es : List ε) (hs : I s) (hC : C s) :
    Always step C s es ↔ Meets step ok s es := by
  induction es generalizing s with
  | nil => exact ⟨fun _ => trivial, fun _ => hC⟩
  | cons e es ih =>
      simp only [Always, Meets]
      cases h : step s e with
      | none => exact ⟨fun _ => ⟨hnone s e h, trivial⟩, fun _ => ⟨hC, trivial⟩⟩
      | some s' =>
          have hiff := hstep s e s' hs hC h
          constructor
          · rintro ⟨-, hlater⟩
            have hC' : C s' := Always.head hlater
            exact ⟨hiff.1 hC', (ih (hinv s e s' hs h) hC').1 hlater⟩
          · rintro ⟨hhere, hlater⟩
            exact ⟨hC, (ih (hinv s e s' hs h) (hiff.2 hhere)).2 hlater⟩

end

end NatsClient.Foundation
