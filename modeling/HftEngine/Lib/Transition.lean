/-
Module: HftEngine.Lib.Transition
Layer: Lib
Purpose: Runs of deterministic step functions that answer every input with an
  output and may get stuck. An invariant of the step is an invariant of the
  run; two steps related state by state answer every run alike.
Imports: Mathlib
Trusted boundary: none (fully proved)
Main exports: run, run_append, run_outputs_append, run_invariant,
  run_invariant_of, run_history, run_outputs, run_total, rel_common,
  rel_outputs, run_rel, run_lockstep, exists_of_any
-/
import Mathlib

namespace HftEngine.Transition

variable {σ τ ι β : Type}

/-- Feeds the inputs one after another; `none` when a step gets stuck. -/
def run (step : σ → ι → Option (β × σ)) : σ → List ι → Option (List β × σ)
  | s, [] => some ([], s)
  | s, input :: rest =>
      (step s input).bind fun (output, s) => (run step s rest).map fun (outputs, s) => (output :: outputs, s)

variable {step : σ → ι → Option (β × σ)} {step' : τ → ι → Option (β × τ)} {s s' : σ} {t : τ}
  {input : ι} {inputs : List ι} {outputs : List β}

@[simp] theorem run_nil : run step s [] = some ([], s) := rfl

/-- A run of several inputs is a step and a run of the rest. -/
theorem run_cons : run step s (input :: inputs) = some (outputs, s') ↔
    ∃ output rest middle, step s input = some (output, middle) ∧ run step middle inputs = some (rest, s') ∧
      outputs = output :: rest := by
  simp only [run, Option.bind_eq_some_iff, Option.map_eq_some_iff, Prod.exists, Prod.mk.injEq]
  constructor
  · rintro ⟨output, middle, hstep, rest, last, hrun, rfl, rfl⟩
    exact ⟨output, rest, middle, hstep, hrun, rfl⟩
  · rintro ⟨output, rest, middle, hstep, hrun, rfl⟩
    exact ⟨output, middle, hstep, rest, s', hrun, rfl, rfl⟩

/-- A run over two input lists is a run over the first followed by one over the
second, and the outputs are joined. -/
theorem run_append {first second : List ι} : run step s (first ++ second) = some (outputs, s') ↔
    ∃ before after middle, run step s first = some (before, middle) ∧
      run step middle second = some (after, s') ∧ outputs = before ++ after := by
  induction first generalizing s outputs with
  | nil => simp
  | cons input first ih =>
      rw [List.cons_append, run_cons]
      constructor
      · rintro ⟨output, rest, middle, hstep, hrun, rfl⟩
        obtain ⟨before, after, last, hfirst, hsecond, rfl⟩ := ih.mp hrun
        exact ⟨output :: before, after, last, run_cons.mpr ⟨output, before, middle, hstep, hfirst, rfl⟩,
          hsecond, rfl⟩
      · rintro ⟨before, after, last, hfirst, hsecond, rfl⟩
        obtain ⟨output, rest, middle, hstep, hrun, rfl⟩ := run_cons.mp hfirst
        exact ⟨output, rest ++ after, middle, hstep, ih.mpr ⟨rest, after, last, hrun, hsecond, rfl⟩, rfl⟩

/-- A run without outputs had no inputs and went nowhere. -/
theorem eq_of_run_nil (hrun : run step s inputs = some ([], s')) : inputs = [] ∧ s' = s := by
  cases inputs with
  | nil =>
      cases hrun
      exact ⟨rfl, rfl⟩
  | cons input inputs =>
      obtain ⟨output, rest, middle, _, _, hnil⟩ := run_cons.mp hrun
      cases hnil

/-- A run can be cut between any two of its outputs. -/
theorem run_outputs_append {front back : List β} (hrun : run step s inputs = some (front ++ back, s')) :
    ∃ first second middle, inputs = first ++ second ∧ run step s first = some (front, middle) ∧
      run step middle second = some (back, s') := by
  induction front generalizing s inputs with
  | nil => exact ⟨[], inputs, s, rfl, rfl, hrun⟩
  | cons output front ih =>
      cases inputs with
      | nil => cases hrun
      | cons input inputs =>
          obtain ⟨other, rest, next, hstep, hrest, heq⟩ := run_cons.mp hrun
          rw [List.cons_append, List.cons.injEq] at heq
          obtain ⟨rfl, rfl⟩ := heq
          obtain ⟨first, second, middle, rfl, hfirst, hsecond⟩ := ih hrest
          exact ⟨input :: first, second, middle, rfl, run_cons.mpr ⟨output, front, next, hstep, hfirst, rfl⟩, hsecond⟩

/-- What every step keeps, every run keeps. -/
theorem run_invariant {Inv : σ → Prop} {P : ι → Prop}
    (keeps : ∀ {s s' input output}, Inv s → P input → step s input = some (output, s') → Inv s')
    (hinputs : ∀ input ∈ inputs, P input) (hs : Inv s) (hrun : run step s inputs = some (outputs, s')) :
    Inv s' := by
  induction inputs generalizing s outputs with
  | nil =>
      cases hrun
      exact hs
  | cons input inputs ih =>
      obtain ⟨output, rest, middle, hstep, hrest, _⟩ := run_cons.mp hrun
      exact ih (fun other hother => hinputs other (List.mem_cons_of_mem _ hother))
        (keeps hs (hinputs input (by simp)) hstep) hrest

/-- What every step keeps under a condition on its state and input, a run keeps
whose steps all meet it. -/
theorem run_invariant_of {Inv : σ → Prop} {Ok : σ → ι → Prop}
    (keeps : ∀ {s s' input output}, Inv s → Ok s input → step s input = some (output, s') → Inv s')
    (hsteps : ∀ before input after outputs middle, inputs = before ++ input :: after →
      run step s before = some (outputs, middle) → Ok middle input)
    (hs : Inv s) (hrun : run step s inputs = some (outputs, s')) : Inv s' := by
  induction inputs generalizing s outputs with
  | nil =>
      cases hrun
      exact hs
  | cons input inputs ih =>
      obtain ⟨output, rest, middle, hstep, hrest, _⟩ := run_cons.mp hrun
      refine ih ?_ (keeps hs (hsteps [] input inputs [] s rfl rfl) hstep) hrest
      intro before other after outputs last hinputs hbefore
      exact hsteps (input :: before) other after (output :: outputs) last (by rw [hinputs]; rfl)
        (run_cons.mpr ⟨output, outputs, middle, hstep, hbefore, rfl⟩)

/-- What every step keeps of the inputs and outputs so far, a run keeps of all
of them. -/
theorem run_history (Inv : List (ι × β) → σ → Prop)
    (keeps : ∀ {history s s' input output}, Inv history s → step s input = some (output, s') →
      Inv (history ++ [(input, output)]) s')
    (history : List (ι × β)) (hs : Inv history s) (hrun : run step s inputs = some (outputs, s')) :
    Inv (history ++ inputs.zip outputs) s' := by
  induction inputs generalizing s outputs history with
  | nil =>
      cases hrun
      simpa using hs
  | cons input inputs ih =>
      obtain ⟨output, rest, middle, hstep, hrest, rfl⟩ := run_cons.mp hrun
      have hlast := ih (history ++ [(input, output)]) (keeps hs hstep) hrest
      rwa [List.append_assoc] at hlast

/-- What every step keeps of the outputs so far, a run keeps of all of them. -/
theorem run_outputs (Inv : List β → σ → Prop)
    (keeps : ∀ {before s s' input output}, Inv before s → step s input = some (output, s') →
      Inv (before ++ [output]) s')
    (before : List β) (hs : Inv before s) (hrun : run step s inputs = some (outputs, s')) :
    Inv (before ++ outputs) s' := by
  induction inputs generalizing s outputs before with
  | nil =>
      cases hrun
      simpa using hs
  | cons input inputs ih =>
      obtain ⟨output, rest, middle, hstep, hrest, rfl⟩ := run_cons.mp hrun
      have hlast := ih (before ++ [output]) (keeps hs hstep) hrest
      rwa [List.append_assoc] at hlast

/-- A step that always answers and keeps an invariant can be run to the end. -/
theorem run_total {Inv : σ → Prop}
    (moves : ∀ {s}, Inv s → ∀ input, ∃ output s', step s input = some (output, s') ∧ Inv s') (inputs : List ι)
    (hs : Inv s) : ∃ outputs s', run step s inputs = some (outputs, s') ∧ Inv s' := by
  induction inputs generalizing s with
  | nil => exact ⟨[], s, rfl, hs⟩
  | cons input inputs ih =>
      obtain ⟨output, middle, hstep, hmiddle⟩ := moves hs input
      obtain ⟨outputs, last, hrun, hlast⟩ := ih hmiddle
      exact ⟨output :: outputs, last, run_cons.mpr ⟨output, outputs, middle, hstep, hrun, rfl⟩, hlast⟩

/-- Two steps that a third one answers for, answer alike. -/
theorem rel_common {ρ : Type} {P : σ → ρ → Prop} {Q : τ → ρ → Prop} {first : Option (β × σ)} {second : Option (β × τ)}
    {middle : Option (β × ρ)} (h : Option.Rel (fun a c => a.1 = c.1 ∧ P a.2 c.2) first middle)
    (h' : Option.Rel (fun b c => b.1 = c.1 ∧ Q b.2 c.2) second middle) :
    Option.Rel (fun a b => a.1 = b.1 ∧ ∃ c, P a.2 c ∧ Q b.2 c) first second := by
  cases h with
  | none =>
      cases h'
      exact .none
  | some hleft =>
      cases h' with
      | some hright => exact .some ⟨hleft.1.trans hright.1.symm, _, hleft.2, hright.2⟩

/-- Two answers that agree show the same outputs. -/
theorem rel_outputs {P : σ → τ → Prop} {first : Option (β × σ)} {second : Option (β × τ)}
    (h : Option.Rel (fun a b => a.1 = b.1 ∧ P a.2 b.2) first second) : first.map Prod.fst = second.map Prod.fst := by
  cases h with
  | none => rfl
  | some h => exact congrArg some h.1

/-- Related states stay related and answer alike, for as long as neither gets
stuck. -/
theorem run_rel {R : σ → τ → Prop} (related : ∀ {s t} (input : ι), R s t →
      Option.Rel (fun a b => a.1 = b.1 ∧ R a.2 b.2) (step s input) (step' t input))
    (inputs : List ι) (hst : R s t) :
    Option.Rel (fun a b => a.1 = b.1 ∧ R a.2 b.2) (run step s inputs) (run step' t inputs) := by
  induction inputs generalizing s t with
  | nil => exact .some ⟨rfl, hst⟩
  | cons input inputs ih =>
      unfold run
      cases hstep : step s input with
      | none =>
          have h := related input hst
          rw [hstep] at h
          cases hstep' : step' t input with
          | none => exact .none
          | some _ =>
              rw [hstep'] at h
              cases h
      | some answer =>
          have h := related input hst
          rw [hstep] at h
          cases hstep' : step' t input with
          | none =>
              rw [hstep'] at h
              cases h
          | some answer' =>
              rw [hstep'] at h
              obtain ⟨hout, hnext⟩ : answer.1 = answer'.1 ∧ R answer.2 answer'.2 := by
                cases h
                assumption
              simp only [Option.bind_some]
              have hrest := ih hnext
              cases hrun : run step answer.2 inputs with
              | none =>
                  rw [hrun] at hrest
                  cases hrun' : run step' answer'.2 inputs with
                  | none => exact .none
                  | some _ =>
                      rw [hrun'] at hrest
                      cases hrest
              | some last =>
                  rw [hrun] at hrest
                  cases hrun' : run step' answer'.2 inputs with
                  | none =>
                      rw [hrun'] at hrest
                      cases hrest
                  | some last' =>
                      rw [hrun'] at hrest
                      cases hrest with
                      | some h => exact .some ⟨by simp [hout, h.1], h.2⟩

/-- Two systems whose related states both move, with equal outputs, produce
equal runs. -/
theorem run_lockstep {R : σ → τ → Prop} {P : ι → Prop} (moves : ∀ {s t input}, R s t → P input →
      ∃ output s' t', step s input = some (output, s') ∧ step' t input = some (output, t') ∧ R s' t')
    (hinputs : ∀ input ∈ inputs, P input) (hst : R s t) :
    ∃ outputs s' t', run step s inputs = some (outputs, s') ∧ run step' t inputs = some (outputs, t') ∧
      R s' t' := by
  induction inputs generalizing s t with
  | nil => exact ⟨[], s, t, rfl, rfl, hst⟩
  | cons input inputs ih =>
      obtain ⟨output, s', t', hstep, hstep', hnext⟩ := moves hst (hinputs input (by simp))
      obtain ⟨outputs, last, last', hrun, hrun', hlast⟩ :=
        ih (fun other hother => hinputs other (List.mem_cons_of_mem _ hother)) hnext
      exact ⟨output :: outputs, last, last', run_cons.mpr ⟨output, outputs, s', hstep, hrun, rfl⟩,
        run_cons.mpr ⟨output, outputs, t', hstep', hrun', rfl⟩, hlast⟩

/-- Reads a tested result back as a returned one. -/
theorem exists_of_any {α : Type} (found : Option α) (p : α → Prop) [DecidablePred p]
    (h : (found.any fun value => decide (p value)) = true) : ∃ value, found = some value ∧ p value := by
  cases found with
  | none => cases h
  | some value => exact ⟨value, rfl, by simpa using h⟩

end HftEngine.Transition
