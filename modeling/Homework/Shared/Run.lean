import Mathlib.Algebra.FreeMonoid.Basic
import Mathlib.Data.List.Infix

/-!
# Runs of a deterministic step function

An event carries everything the program does not choose itself: arguments, the
outcome of a system call, the thread that is scheduled. A run is then a fold, and
quantifying over all lists of events quantifies over all reachable states.

This module names no program.
-/

namespace Homework

set_option autoImplicit false

universe u v w

variable {σ : Type u} {ε : Type v} {β : Type w}

def run (step : σ → ε → σ) (s : σ) (es : List ε) : σ := es.foldl step s

/-- `P` holds of every event of the run and the state that event meets. -/
def Along (step : σ → ε → σ) (P : σ → ε → Prop) : σ → List ε → Prop
  | _, [] => True
  | s, e :: es => P s e ∧ Along step P (step s e) es

instance decidableAlong {step : σ → ε → σ} {P : σ → ε → Prop} [∀ s e, Decidable (P s e)] :
    (s : σ) → (es : List ε) → Decidable (Along step P s es)
  | _, [] => isTrue trivial
  | s, e :: es => @instDecidableAnd _ _ _ (decidableAlong (step s e) es)

/-- What the events of the run let one observe, in order. -/
def trace (step : σ → ε → σ) (f : σ → ε → β) : σ → List ε → List β
  | _, [] => []
  | s, e :: es => f s e :: trace step f (step s e) es

section Basic
variable (step : σ → ε → σ) (P Q : σ → ε → Prop) (f : σ → ε → β)

@[simp] theorem run_nil (s : σ) : run step s [] = s := rfl

@[simp] theorem run_cons (s : σ) (e : ε) (es : List ε) :
    run step s (e :: es) = run step (step s e) es := rfl

theorem run_append (s : σ) (es fs : List ε) :
    run step s (es ++ fs) = run step (run step s es) fs := List.foldl_append

@[simp] theorem along_nil (s : σ) : Along step P s [] := trivial

@[simp] theorem along_cons (s : σ) (e : ε) (es : List ε) :
    Along step P s (e :: es) ↔ P s e ∧ Along step P (step s e) es := Iff.rfl

theorem along_append (s : σ) (es fs : List ε) :
    Along step P s (es ++ fs) ↔ Along step P s es ∧ Along step P (run step s es) fs := by
  induction es generalizing s with
  | nil => simp
  | cons e es ih => simp [ih, and_assoc]

@[simp] theorem trace_nil (s : σ) : trace step f s [] = [] := rfl

@[simp] theorem trace_cons (s : σ) (e : ε) (es : List ε) :
    trace step f s (e :: es) = f s e :: trace step f (step s e) es := rfl

theorem trace_append (s : σ) (es fs : List ε) :
    trace step f s (es ++ fs) = trace step f s es ++ trace step f (run step s es) fs := by
  induction es generalizing s with
  | nil => rfl
  | cons e es ih => exact congrArg (f s e :: ·) (ih (step s e))

variable {step P Q f}

theorem Along.imp {s : σ} {es : List ε} (h : ∀ s e, P s e → Q s e)
    (hp : Along step P s es) : Along step Q s es := by
  induction es generalizing s with
  | nil => trivial
  | cons e es ih => exact ⟨h s e hp.1, ih hp.2⟩

theorem Along.and {s : σ} {es : List ε} (hp : Along step P s es) (hq : Along step Q s es) :
    Along step (fun s e => P s e ∧ Q s e) s es := by
  induction es generalizing s with
  | nil => trivial
  | cons e es ih => exact ⟨⟨hp.1, hq.1⟩, ih hp.2 hq.2⟩

theorem Along.of_forall_mem {p : ε → Prop} {s : σ} {es : List ε} (h : ∀ e ∈ es, p e) :
    Along step (fun _ e => p e) s es := by
  induction es generalizing s with
  | nil => trivial
  | cons e es ih =>
    exact ⟨h e List.mem_cons_self, ih fun e' he' => h e' (List.mem_cons_of_mem e he')⟩

theorem Along.of_prefix {s : σ} {es fs : List ε} (hp : Along step P s es) (h : fs <+: es) :
    Along step P s fs := by
  obtain ⟨gs, rfl⟩ := h
  exact ((along_append step P s fs gs).mp hp).1

end Basic

section Invariant
variable {step : σ → ε → σ} {Ok P : σ → ε → Prop} (Inv : σ → Prop)

theorem run_invariant (hstep : ∀ s e, Inv s → Ok s e → Inv (step s e))
    {s : σ} {es : List ε} (hs : Inv s) (hok : Along step Ok s es) : Inv (run step s es) := by
  induction es generalizing s with
  | nil => exact hs
  | cons e es ih => exact ih (hstep s e hs hok.1) hok.2

theorem run_invariant_all (hstep : ∀ s e, Inv s → Inv (step s e))
    {s : σ} (hs : Inv s) (es : List ε) : Inv (run step s es) := by
  induction es generalizing s with
  | nil => exact hs
  | cons e es ih => exact ih (hstep s e hs)

/-- The same for an invariant that refers to the events so far. -/
theorem run_history_invariant {Inv : List ε → σ → Prop}
    (hstep : ∀ past s e, Inv past s → Ok s e → Inv (past ++ [e]) (step s e))
    {s : σ} {es : List ε} (hs : Inv [] s) (hok : Along step Ok s es) : Inv es (run step s es) := by
  induction es using List.reverseRecOn with
  | nil => exact hs
  | append_singleton es e ih =>
    obtain ⟨hpast, hlast, -⟩ := (along_append step Ok s es [e]).mp hok
    rw [run_append]
    exact hstep es _ e (ih hpast) hlast

/-- What follows from the invariant at one step holds of every step of the run. -/
theorem along_of_invariant (hstep : ∀ s e, Inv s → Ok s e → Inv (step s e))
    (hP : ∀ s e, Inv s → Ok s e → P s e)
    {s : σ} {es : List ε} (hs : Inv s) (hok : Along step Ok s es) : Along step P s es := by
  induction es generalizing s with
  | nil => trivial
  | cons e es ih => exact ⟨hP s e hs hok.1, ih (hstep s e hs hok.1) hok.2⟩

/-- A history that explains every state of an endless run, if every step can be explained by
something that comes behind what explains the state in front of it. -/
theorem exists_history {Explains : List β → σ → Prop}
    (hstep : ∀ log s e, Explains log s → ∃ more, Explains (log ++ more) (step s e))
    {s : σ} (hs : Explains [] s) (events : Nat → ε) :
    ∃ log : Nat → List β, (∀ m n, m ≤ n → log m <+: log n) ∧
      ∀ n, Explains (log n) (run step s ((List.range n).map events)) := by
  choose! more hmore using hstep
  let log : Nat → List β := fun n => Nat.rec [] (fun n past =>
    past ++ more past (run step s ((List.range n).map events)) (events n)) n
  refine ⟨log, fun m n hmn => ?_, fun n => ?_⟩
  · induction n, hmn using Nat.le_induction with
    | base => exact List.prefix_rfl
    | succ n _ ih => exact ih.trans (List.prefix_append _ _)
  · induction n with
    | zero => exact hs
    | succ n ih =>
      have hnext := hmore _ _ (events n) ih
      rw [List.range_succ, List.map_append, run_append]
      exact hnext

end Invariant

/-! ## Conservation

A store takes in `input s e`, gives out `output s e` and holds `content s`. For a
queue the three are lists in order; for a count they are numbers. -/

section Conservation
variable {M : Type w} [AddMonoid M]
variable (step : σ → ε → σ) (content : σ → M) (input output : σ → ε → M)

/-- At this step nothing is lost, doubled or reordered. -/
def Conserves (s : σ) (e : ε) : Prop :=
  content s + input s e = output s e + content (step s e)

def Conserved (s : σ) (es : List ε) : Prop :=
  content s + (trace step input s es).sum =
    (trace step output s es).sum + content (run step s es)

variable {step}

theorem conserved_of_along {s : σ} {es : List ε}
    (h : Along step (Conserves step content input output) s es) :
    Conserved step content input output s es := by
  induction es generalizing s with
  | nil => simp [Conserved]
  | cons e es ih =>
    have hstep : content s + input s e = output s e + content (step s e) := h.1
    have htail := ih h.2
    unfold Conserved at htail ⊢
    simp only [trace_cons, List.sum_cons, run_cons]
    rw [← add_assoc, hstep, add_assoc, htail, add_assoc]

theorem sum_trace_map {N : Type w} [AddMonoid N] (φ : M →+ N) (f : σ → ε → M) (s : σ)
    (es : List ε) :
    (trace step (fun s e => φ (f s e)) s es).sum = φ (trace step f s es).sum := by
  induction es generalizing s with
  | nil => simp
  | cons e es ih => simp [ih]

variable (step)

/-- Conservation after every prefix is conservation at every step: the first step
that breaks it leaves a state in which the account is wrong. -/
theorem conserved_prefixes_iff [IsLeftCancelAdd M] {s : σ} {es : List ε} :
    (∀ fs, fs <+: es → Conserved step content input output s fs) ↔
      Along step (Conserves step content input output) s es := by
  constructor
  · intro h
    induction es generalizing s with
    | nil => trivial
    | cons e es ih =>
      have hstep : content s + input s e = output s e + content (step s e) := by
        simpa [Conserved] using h [e] ⟨es, rfl⟩
      refine ⟨hstep, ih fun fs hfs => ?_⟩
      have hcons := h (e :: fs) (List.cons_prefix_cons.mpr ⟨rfl, hfs⟩)
      unfold Conserved at hcons ⊢
      simp only [trace_cons, List.sum_cons, run_cons] at hcons
      rw [← add_assoc, hstep, add_assoc, add_assoc] at hcons
      exact add_left_cancel hcons
  · intro h fs hfs
    exact conserved_of_along content input output (h.of_prefix hfs)

end Conservation

/-! The same account for contents that are lists, where addition is concatenation. -/

section Lists
variable {α : Type w}
variable (step : σ → ε → σ) (content : σ → List α) (input output : σ → ε → List α)

def ConservedInOrder (s : σ) (es : List ε) : Prop :=
  content s ++ (trace step input s es).flatten =
    (trace step output s es).flatten ++ content (run step s es)

theorem toList_sum_trace (f : σ → ε → List α) (s : σ) (es : List ε) :
    (trace step (fun s e => FreeAddMonoid.ofList (f s e)) s es).sum =
      FreeAddMonoid.ofList (trace step f s es).flatten := by
  induction es generalizing s with
  | nil => rfl
  | cons e es ih => simp only [trace_cons, List.sum_cons, ih]; rfl

theorem conservedInOrder_prefixes_iff (s : σ) (es : List ε) :
    (∀ fs, fs <+: es → ConservedInOrder step content input output s fs) ↔
      Along step (fun s e => content s ++ input s e = output s e ++ content (step s e)) s es := by
  simp only [ConservedInOrder]
  have hgen := @conserved_prefixes_iff _ _ (FreeAddMonoid α) _ step
    (fun s => FreeAddMonoid.ofList (content s)) (fun s e => FreeAddMonoid.ofList (input s e))
    (fun s e => FreeAddMonoid.ofList (output s e)) _ s es
  simp only [Conserved, toList_sum_trace] at hgen
  exact hgen

end Lists

end Homework
