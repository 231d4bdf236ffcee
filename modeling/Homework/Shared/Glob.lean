import Mathlib.Data.List.Infix
import Mathlib.Data.List.TakeWhile
import Homework.Shared.Bytes

/-!
# Patterns with stars

A star of a pattern matches any bytes, also none, and every other byte matches itself.

This module names no program.
-/

namespace Homework

set_option autoImplicit false

def star : UInt8 := 42

def matchGlob : List UInt8 → List UInt8 → Bool
  | [], s => s.isEmpty
  | p :: pattern, s =>
    if p = star then s.tails.any (matchGlob pattern)
    else
      match s with
      | [] => false
      | b :: s => p = b && matchGlob pattern s

theorem matchGlob_cons (p : UInt8) (pattern s : List UInt8) : matchGlob (p :: pattern) s =
    if p = star then s.tails.any (matchGlob pattern)
    else
      match s with
      | [] => false
      | b :: s => p = b && matchGlob pattern s := rfl

theorem matchGlob_nil {s : List UInt8} : matchGlob [] s ↔ s = [] := List.isEmpty_iff

theorem matchGlob_star {pattern s : List UInt8} :
    matchGlob (star :: pattern) s ↔ ∃ rest, rest <:+ s ∧ matchGlob pattern rest := by
  rw [matchGlob_cons, if_pos rfl, List.any_eq_true]
  simp only [List.mem_tails]

theorem matchGlob_literal {literal pattern s : List UInt8} (h : star ∉ literal) :
    matchGlob (literal ++ pattern) s ↔ ∃ rest, s = literal ++ rest ∧ matchGlob pattern rest := by
  induction literal generalizing s with
  | nil => simp
  | cons p literal ih =>
    rw [List.mem_cons, not_or] at h
    rw [List.cons_append, matchGlob_cons, if_neg (Ne.symm h.1)]
    cases s with
    | nil => simp
    | cons b s =>
      simp only [Bool.and_eq_true, decide_eq_true_eq, ih h.2, List.cons_append, List.cons.injEq]
      constructor
      · rintro ⟨rfl, rest, rfl, hrest⟩
        exact ⟨rest, ⟨rfl, rfl⟩, hrest⟩
      · rintro ⟨rest, ⟨rfl, rfl⟩, hrest⟩
        exact ⟨rfl, rest, rfl, hrest⟩

/-- Between two stars a text stands anywhere. -/
theorem matchGlob_infix {literal s : List UInt8} (h : star ∉ literal) :
    matchGlob (star :: (literal ++ [star])) s ↔ literal <:+: s := by
  have hall : ∀ rest, matchGlob [star] rest := fun rest =>
    matchGlob_star.mpr ⟨[], List.nil_suffix, matchGlob_nil.mpr rfl⟩
  rw [matchGlob_star]
  simp only [matchGlob_literal h]
  constructor
  · rintro ⟨_, ⟨front, rfl⟩, rest, rfl, -⟩
    exact ⟨front, rest, List.append_assoc ..⟩
  · rintro ⟨front, rest, rfl⟩
    exact ⟨literal ++ rest, ⟨front, (List.append_assoc ..).symm⟩, rest, rfl, hall rest⟩

end Homework
