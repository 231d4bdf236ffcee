import Mathlib.Algebra.BigOperators.Group.Finset.Piecewise
import Mathlib.Algebra.BigOperators.Group.Finset.Sigma
import Mathlib.Algebra.Order.BigOperators.Group.Finset
import Homework.Shared.Run

/-!
# Workers that hand what they owe over to a shared state

Each turn of a worker is atomic and sees the shared state and the worker's own. A schedule
is the list of the workers that take the turns. What the shared state holds and what every
worker still owes always add up to the same total, whoever comes first.

This module names no program.
-/

namespace Homework

set_option autoImplicit false

universe u v w x

structure System (σ : Type u) (ω : Type v) (ι : Type w) where
  shared : σ
  workers : ι → ω

variable {σ : Type u} {ω : Type v} {ι : Type w} [DecidableEq ι]

namespace System

def step (turn : σ → ω → σ × ω) (s : System σ ω ι) (i : ι) : System σ ω ι where
  shared := (turn s.shared (s.workers i)).1
  workers := Function.update s.workers i (turn s.shared (s.workers i)).2

variable [Fintype ι]

section Balance
variable {M : Type x} [AddCommMonoid M]

/-- The shared state holds one share of `total`, each worker owes one, and there is no
other. -/
def Balanced (holds : σ → M → Prop) (owes : ω → M → Prop) (total : M) (s : System σ ω ι) : Prop :=
  ∃ (held : M) (owed : ι → M), holds s.shared held ∧ (∀ i, owes (s.workers i) (owed i)) ∧
    held + ∑ i, owed i = total

/-- A turn moves amounts between the shared state and the worker that takes it. It may rely
on the two together being a part of the total. -/
def Transfers (turn : σ → ω → σ × ω) (holds : σ → M → Prop) (owes : ω → M → Prop) (total : M) :
    Prop :=
  ∀ shared worker held owed rest, holds shared held → owes worker owed →
    held + owed + rest = total →
    ∃ held' owed', holds (turn shared worker).1 held' ∧ owes (turn shared worker).2 owed' ∧
      held' + owed' = held + owed

variable {turn : σ → ω → σ × ω} {holds : σ → M → Prop} {owes : ω → M → Prop} {total : M}

theorem step_balanced (h : Transfers turn holds owes total) (s : System σ ω ι) (i : ι)
    (hs : Balanced holds owes total s) : Balanced holds owes total (s.step turn i) := by
  obtain ⟨held, owed, hheld, howed, hsum⟩ := hs
  rw [← Finset.add_sum_erase _ _ (Finset.mem_univ i), ← add_assoc] at hsum
  obtain ⟨held', owed', hheld', howed', hmoved⟩ := h _ _ _ _ _ hheld (howed i) hsum
  refine ⟨held', Function.update owed i owed', hheld', fun j => ?_, ?_⟩
  · by_cases hij : j = i
    · subst j
      simpa only [step, Function.update_self] using howed'
    · simpa only [step, Function.update_of_ne hij] using howed j
  · rw [Finset.sum_update_of_mem (Finset.mem_univ i), Finset.sdiff_singleton_eq_erase,
      ← add_assoc, hmoved, hsum]

/-- Whatever the schedule, once no worker owes anything the shared state holds the total. -/
theorem holds_total (h : Transfers turn holds owes total) {s : System σ ω ι}
    (hs : Balanced holds owes total s) {schedule : List ι}
    (hpaid : ∀ i m, owes ((run (step turn) s schedule).workers i) m → m = 0) :
    holds (run (step turn) s schedule).shared total := by
  obtain ⟨held, owed, hheld, howed, hsum⟩ :=
    run_invariant_all (Balanced holds owes total) (step_balanced h) hs schedule
  have hzero : ∑ i, owed i = 0 := Finset.sum_eq_zero fun i _ => hpaid i (owed i) (howed i)
  rw [hzero, add_zero] at hsum
  exact hsum ▸ hheld

end Balance

theorem exists_schedule_to_end {turn : σ → ω → σ × ω} {left : ω → Nat}
    (h : ∀ shared worker, left worker ≠ 0 → left (turn shared worker).2 < left worker)
    (s : System σ ω ι) : ∃ schedule, ∀ i, left ((run (step turn) s schedule).workers i) = 0 := by
  induction hn : ∑ i, left (s.workers i) using Nat.strong_induction_on generalizing s with
  | _ n ih =>
    by_cases hend : ∀ i, left (s.workers i) = 0
    · exact ⟨[], hend⟩
    · obtain ⟨i, hi⟩ := not_forall.mp hend
      have hlt : ∑ j, left ((s.step turn i).workers j) < n := by
        rw [← hn]
        apply Finset.sum_lt_sum
        · intro j _
          by_cases hij : j = i
          · subst j
            simpa only [step, Function.update_self] using (h _ _ hi).le
          · simp only [step, Function.update_of_ne hij, le_refl]
        · exact ⟨i, Finset.mem_univ i, by simpa only [step, Function.update_self] using h _ _ hi⟩
      obtain ⟨schedule, hschedule⟩ := ih _ hlt (s.step turn i) rfl
      exact ⟨i :: schedule, hschedule⟩

end System
end Homework
