import Mathlib.Data.List.Induction
import Mathlib.Data.List.Sort

/-!
# Inserting one by one and cutting

Elements come one after another, and each is inserted before the first one that it does not
come after. Cutting the list after every insertion leaves what cutting it once at the end
would leave, and of two elements that are level the later one stands first.

This module names no program.
-/

namespace Homework

set_option autoImplicit false

universe u
variable {α : Type u} (r : α → α → Prop) [DecidableRel r]

def insertAll (as : List α) (l : List α) : List α := as.foldl (fun l a => l.orderedInsert r a) l

theorem insertAll_concat (as : List α) (a : α) (l : List α) :
    insertAll r (as ++ [a]) l = (insertAll r as l).orderedInsert r a := by
  rw [insertAll, List.foldl_append, List.foldl_cons, List.foldl_nil, insertAll]

theorem insertAll_append (as bs l : List α) :
    insertAll r (as ++ bs) l = insertAll r bs (insertAll r as l) := List.foldl_append

variable {r} in
theorem orderedInsert_append {a : α} {before after : List α} (hbefore : ∀ b ∈ before, ¬ r a b)
    (hafter : ∀ b ∈ after.head?, r a b) :
    (before ++ after).orderedInsert r a = before ++ a :: after := by
  induction before with
  | nil =>
    cases after with
    | nil => rfl
    | cons b after => rw [List.nil_append, List.orderedInsert_cons, if_pos (hafter b rfl),
        List.nil_append]
  | cons b before ih =>
    obtain ⟨hb, hbefore⟩ := List.forall_mem_cons.mp hbefore
    rw [List.cons_append, List.orderedInsert_cons, if_neg hb, ih hbefore, List.cons_append]

variable {r} in
/-- A sorted list is what its elements make when they are inserted from the last to the first. -/
theorem insertAll_reverse {l : List α} (hl : l.Pairwise r) : insertAll r l.reverse [] = l := by
  induction l with
  | nil => rfl
  | cons a l ih =>
    obtain ⟨ha, hl⟩ := List.pairwise_cons.mp hl
    have hhead : ∀ b ∈ l.head?, r a b := fun b hb => ha b (List.mem_of_mem_head? hb)
    rw [List.reverse_cons, insertAll_concat, ih hl]
    exact @orderedInsert_append _ r _ a [] l (fun b hb => nomatch hb) hhead

theorem take_orderedInsert_take (a : α) (l : List α) (n : Nat) :
    ((l.take n).orderedInsert r a).take n = (l.orderedInsert r a).take n := by
  induction l generalizing n with
  | nil => rw [List.take_nil]
  | cons b l ih =>
    cases n with
    | zero => rw [List.take_zero, List.take_zero]
    | succ n =>
      rw [List.take_succ_cons, List.orderedInsert_cons, List.orderedInsert_cons]
      split
      · have hcut : (b :: l.take n).take n = (b :: l).take n := by
          rw [← List.take_succ_cons, List.take_take, Nat.min_eq_left (Nat.le_succ n)]
        rw [List.take_succ_cons, List.take_succ_cons, hcut]
      · rw [List.take_succ_cons, List.take_succ_cons, ih]

theorem perm_insertAll (as l : List α) : (insertAll r as l).Perm (as ++ l) := by
  induction as generalizing l with
  | nil => exact List.Perm.refl l
  | cons a as ih =>
    refine (ih (l.orderedInsert r a)).trans ?_
    exact ((List.perm_orderedInsert r a l).append_left as).trans List.perm_middle

/-! ## Which of two elements stands first -/

/-- `a` comes no later than `b` in the order, and strictly before it or at a later time. -/
def LaterFirst (a b : α × Nat) : Prop := r a.1 b.1 ∧ (r b.1 a.1 → b.2 < a.2)

variable {r}

theorem pairwise_orderedInsert_laterFirst [IsTrans α r] [Std.Total r] {s : List (α × Nat)}
    {a : α × Nat} (hs : s.Pairwise (LaterFirst r)) (hlast : ∀ b ∈ s, b.2 < a.2) :
    (s.orderedInsert (fun a b => r a.1 b.1) a).Pairwise (LaterFirst r) := by
  induction s with
  | nil => exact List.pairwise_singleton _ _
  | cons b s ih =>
    obtain ⟨hb, hs⟩ := List.pairwise_cons.mp hs
    rw [List.orderedInsert_cons]
    split
    · rename_i hab
      refine List.pairwise_cons.mpr ⟨?_, List.pairwise_cons.mpr ⟨hb, hs⟩⟩
      intro c hc
      refine ⟨?_, fun _ => hlast c hc⟩
      rcases List.mem_cons.mp hc with rfl | hc
      · exact hab
      · exact IsTrans.trans _ _ _ hab (hb c hc).1
    · rename_i hab
      refine List.pairwise_cons.mpr ⟨?_, ih hs fun c hc => hlast c (List.mem_cons_of_mem b hc)⟩
      intro c hc
      rcases (List.mem_orderedInsert _).mp hc with rfl | hc
      · exact ⟨(Std.Total.total c.1 b.1).resolve_left hab, fun h => absurd h hab⟩
      · exact hb c hc

/-- The inserted elements with the times of their insertions, sorted, and later ones first
where the order does not decide. -/
theorem exists_laterFirst [IsTrans α r] [Std.Total r] (as : List α) :
    ∃ s : List (α × Nat), s.Perm as.zipIdx ∧ s.Pairwise (LaterFirst r) ∧
      s.map Prod.fst = insertAll r as [] := by
  induction as using List.reverseRecOn with
  | nil => exact ⟨[], List.Perm.refl _, List.Pairwise.nil, rfl⟩
  | append_singleton as a ih =>
    obtain ⟨s, hperm, hsorted, hmap⟩ := ih
    have hzip : (as ++ [a]).zipIdx = as.zipIdx ++ [(a, as.length)] := by
      rw [List.zipIdx_append, List.zipIdx_singleton, Nat.zero_add]
    have htimes : ∀ b ∈ s, b.2 < as.length := by
      intro b hb
      simpa using List.snd_lt_of_mem_zipIdx (hperm.mem_iff.mp hb)
    refine ⟨s.orderedInsert (fun a b => r a.1 b.1) (a, as.length), ?_,
      pairwise_orderedInsert_laterFirst hsorted htimes, ?_⟩
    · rw [hzip]
      refine (List.perm_orderedInsert _ _ s).trans ((hperm.cons _).trans ?_)
      exact (List.perm_append_singleton _ _).symm
    · rw [insertAll_concat, ← hmap]
      exact List.map_orderedInsert _ r Prod.fst s _ (fun _ _ => Iff.rfl) fun _ _ => Iff.rfl

end Homework
