import Mathlib.Logic.Function.Basic
import Mathlib.Tactic.Common

/-! # Mutexes and what threads hold

A mutex has an owner or is free. A thread accounts for the mutexes it holds by where it is
in its code, the one it locked last first. The accounts are right when the owner of a mutex is
the thread that holds it, so two threads never hold one mutex. -/
namespace RamCube

variable {L T : Type}

/-- Each mutex is owned by the thread that holds it, and by no other. -/
def MutexesOk (owner : L → Option T) (held : T → List L) : Prop :=
  ∀ l t, owner l = some t ↔ l ∈ held t

namespace MutexesOk

variable {owner : L → Option T} {held held' : T → List L} {l : L} {t t' : T}

theorem exclusive (h : MutexesOk owner held) (ht : l ∈ held t) (ht' : l ∈ held t') : t = t' :=
  Option.some.inj (((h l t).mpr ht).symm.trans ((h l t').mpr ht'))

theorem not_held (h : MutexesOk owner held) (hfree : owner l = none) : l ∉ held t := by
  intro hl
  rw [(h l t).mpr hl] at hfree
  cases hfree

variable [DecidableEq L]

theorem acquire (h : MutexesOk owner held) (hfree : owner l = none) (hself : held' t = l :: held t)
    (hother : ∀ u, u ≠ t → held' u = held u) : MutexesOk (Function.update owner l (some t)) held' := by
  intro k u
  by_cases hk : k = l
  · subst hk
    rw [Function.update_self, Option.some.injEq]
    constructor
    · rintro rfl
      rw [hself]
      exact List.mem_cons_self
    · intro hu
      by_contra hne
      rw [hother u (Ne.symm hne)] at hu
      exact h.not_held hfree hu
  · rw [Function.update_of_ne hk, h k u]
    by_cases hu : u = t
    · subst hu
      rw [hself, List.mem_cons, or_iff_right hk]
    · rw [hother u hu]

theorem release (h : MutexesOk owner held) (hself : held t = l :: held' t) (hnot : l ∉ held' t)
    (hother : ∀ u, u ≠ t → held' u = held u) : MutexesOk (Function.update owner l none) held' := by
  have hl : l ∈ held t := by
    rw [hself]
    exact List.mem_cons_self
  intro k u
  by_cases hk : k = l
  · subst hk
    rw [Function.update_self]
    constructor
    · intro hn
      cases hn
    · intro hu
      by_cases hut : u = t
      · subst hut
        exact absurd hu hnot
      · rw [hother u hut] at hu
        exact absurd (h.exclusive hu hl) hut
  · rw [Function.update_of_ne hk, h k u]
    by_cases hu : u = t
    · subst hu
      rw [hself, List.mem_cons, or_iff_right hk]
    · rw [hother u hu]

/-- A mutex that is free is given back once more. -/
theorem release_free (h : MutexesOk owner held) (hfree : owner l = none) : MutexesOk (Function.update owner l none) held := by
  rwa [← hfree, Function.update_eq_self]

end MutexesOk
end RamCube
