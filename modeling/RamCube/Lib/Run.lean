import Mathlib.Tactic.Common

/-! # Runs of a labelled step relation

A run threads a state through a list of labelled steps. What one step keeps,
a run keeps (`Run.invariant`); what a step keeps only under a condition on the
state before it, a run keeps when every step of it meets the condition
(`Run.invariant_of_guard`). `Along` says of a list of labels that a run over it meets
the condition as far as it goes. -/
namespace RamCube

variable {σ α : Type}

inductive Run (step : σ → α → σ → Prop) : σ → List α → σ → Prop where
  | nil (s : σ) : Run step s [] s
  | cons {s s' t : σ} {a : α} {as : List α} : step s a s' → Run step s' as t →
      Run step s (a :: as) t

/-- A step that meets a condition on the state before it. -/
def Guarded (cond : σ → α → Prop) (step : σ → α → σ → Prop) : σ → α → σ → Prop :=
  fun s a s' => cond s a ∧ step s a s'

/-- Every step that can be made along these labels is made in a state that meets a
condition. -/
def Along (cond : σ → α → Prop) (step : σ → α → σ → Prop) : σ → List α → Prop
  | _, [] => True
  | s, a :: as => cond s a ∧ ∀ t, step s a t → Along cond step t as

namespace Run

variable {step : σ → α → σ → Prop} {s t u : σ} {as bs : List α}

theorem single {a : α} (h : step s a t) : Run step s [a] t :=
  .cons h (.nil t)

theorem append (h : Run step s as t) (h' : Run step t bs u) : Run step s (as ++ bs) u := by
  induction h with
  | nil => exact h'
  | cons hs _ ih => exact .cons hs (ih h')

/-- A run of a concatenation stops at a state between its two parts. -/
theorem split (h : Run step s (as ++ bs) u) : ∃ t, Run step s as t ∧ Run step t bs u := by
  induction as generalizing s with
  | nil => exact ⟨s, .nil s, h⟩
  | cons a as ih =>
    cases h with
    | cons hs hr =>
      obtain ⟨t, h1, h2⟩ := ih hr
      exact ⟨t, .cons hs h1, h2⟩

theorem mono {step' : σ → α → σ → Prop} (hm : ∀ s a t, step s a t → step' s a t)
    (h : Run step s as t) : Run step' s as t := by
  induction h with
  | nil => exact .nil _
  | cons hs _ ih => exact .cons (hm _ _ _ hs) ih

theorem invariant {I : σ → Prop} (hstep : ∀ s a t, I s → step s a t → I t)
    (h : Run step s as t) (h0 : I s) : I t := by
  induction h with
  | nil => exact h0
  | cons hs _ ih => exact ih (hstep _ _ _ h0 hs)

theorem invariant_of_guard {I : σ → Prop} {cond : σ → α → Prop}
    (hstep : ∀ s a t, I s → cond s a → step s a t → I t)
    (h : Run (Guarded cond step) s as t) (h0 : I s) : I t :=
  h.invariant (fun s a t hi hs => hstep s a t hi hs.1 hs.2) h0

/-- Where the condition lets every step be made, the labels can be run. -/
theorem of_along {I : σ → Prop} {cond : σ → α → Prop}
    (htotal : ∀ s a, I s → cond s a → ∃ t, step s a t) (hstep : ∀ s a t, I s → step s a t → I t)
    (h0 : I s) (h : Along cond step s as) : ∃ t, Run (Guarded cond step) s as t := by
  induction as generalizing s with
  | nil => exact ⟨s, .nil s⟩
  | cons a as ih =>
    obtain ⟨hc, hnext⟩ := h
    obtain ⟨s', hs⟩ := htotal s a h0 hc
    obtain ⟨t, hr⟩ := ih (hstep s a s' h0 hs) (hnext s' hs)
    exact ⟨t, .cons ⟨hc, hs⟩ hr⟩

/-- The run that a step function computes. -/
theorem of_foldlM {f : σ → α → Option σ} (h : as.foldlM f s = some t) :
    Run (fun s a t => f s a = some t) s as t := by
  induction as generalizing s with
  | nil =>
    obtain rfl : s = t := Option.some.inj h
    exact .nil s
  | cons a as ih =>
    rw [List.foldlM_cons, Option.bind_eq_bind, Option.bind_eq_some_iff] at h
    obtain ⟨s', hs, hr⟩ := h
    exact .cons hs (ih hr)

/-- Its steps meet a condition that every state on the way meets. -/
theorem of_foldlM_guard {f : σ → α → Option σ} {cond : σ → α → Prop} (h : as.foldlM f s = some t)
    (hc : ∀ k : Fin as.length, ∀ u ∈ (as.take k).foldlM f s, cond u (as.get k)) :
    Run (Guarded cond fun s a t => f s a = some t) s as t := by
  induction as generalizing s with
  | nil =>
    obtain rfl : s = t := Option.some.inj h
    exact .nil s
  | cons a as ih =>
    rw [List.foldlM_cons, Option.bind_eq_bind, Option.bind_eq_some_iff] at h
    obtain ⟨s', hs, hr⟩ := h
    refine .cons ⟨hc ⟨0, Nat.succ_pos _⟩ s rfl, hs⟩ (ih hr fun k u hu => ?_)
    refine hc k.succ u ?_
    rw [Fin.val_succ, List.take_succ_cons, List.foldlM_cons, hs]
    exact hu

/-- A step function makes one run along its labels. -/
theorem unique (hstep : ∀ s a t u, step s a t → step s a u → t = u) (h : Run step s as t) (h' : Run step s as u) :
    t = u := by
  induction h with
  | nil =>
    cases h' with
    | nil => rfl
  | cons hs _ ih =>
    cases h' with
    | cons hs' hr' => exact ih (hstep _ _ _ _ hs' hs ▸ hr')

theorem unguard {cond : σ → α → Prop} (h : Run (Guarded cond step) s as t) : Run step s as t :=
  h.mono fun _ _ _ hs => hs.2

end Run
end RamCube
