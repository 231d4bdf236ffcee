import Mathlib.Data.Fintype.Basic
import Homework.Shared.Interleaving

/-!
# Critical sections

Every lock guards one part of the shared state. A thread works on its own state and, when it
comes to a section, takes the lock, works on the part that the lock guards in as many turns as
it needs, and releases it. Other threads take turns between these.

Whatever the schedule, the threads are on the way from a state in which every section that has
begun has ended, or not begun, in one turn.

This module names no program.
-/

namespace Homework.Mutex

set_option autoImplicit false

universe u v w x y

/-- What a thread does outside of its sections. -/
inductive Next (L : Type u) (ω : Type w) (ρ : L → Type x) where
  | own (worker : ω)
  | lock (l : L) (registers : ρ l)

structure Code (L : Type u) (σ : L → Type v) (ω : Type w) (ρ : L → Type x) where
  next : ω → Next L ω ρ
  /-- A turn inside a section: it goes on, or the lock is released. -/
  body : (l : L) → σ l → ρ l → σ l × (ρ l ⊕ ω)

inductive Phase (L : Type u) (ω : Type w) (ρ : L → Type x) where
  | out (worker : ω)
  | inside (l : L) (registers : ρ l)

structure Threads (L : Type u) (σ : L → Type v) (ω : Type w) (ρ : L → Type x) (ι : Type y) where
  shared : (l : L) → σ l
  holder : L → Option ι
  phase : ι → Phase L ω ρ

variable {L : Type u} [DecidableEq L] {σ : L → Type v} {ω : Type w} {ρ : L → Type x} {ι : Type y}
  [DecidableEq ι]

namespace Threads

/-- The thread is outside, or it waits for a lock or has got one, or it is inside. -/
def turn (code : Code L σ ω ρ) (s : Threads L σ ω ρ ι) (i : ι) : Threads L σ ω ρ ι :=
  match s.phase i with
  | .out worker =>
    match code.next worker with
    | .own worker => { s with phase := Function.update s.phase i (.out worker) }
    | .lock l registers =>
      if s.holder l = none then
        { s with
          holder := Function.update s.holder l (some i)
          phase := Function.update s.phase i (.inside l registers) }
      else s
  | .inside l registers =>
    match code.body l (s.shared l) registers with
    | (part, .inl registers) =>
      { s with
        shared := Function.update s.shared l part
        phase := Function.update s.phase i (.inside l registers) }
    | (part, .inr worker) =>
      { shared := Function.update s.shared l part
        holder := Function.update s.holder l none
        phase := Function.update s.phase i (.out worker) }

end Threads

def start (shared : (l : L) → σ l) (workers : ι → ω) : Threads L σ ω ρ ι where
  shared := shared
  holder := fun _ => none
  phase := fun i => .out (workers i)

/-- What a log has of one thread. -/
def ofThread {α : Type v} (i : ι) (log : List (ι × α)) : List α :=
  (log.filter fun c => c.1 = i).map Prod.snd

theorem ofThread_concat_self {α : Type v} (i : ι) (log : List (ι × α)) (c : α) :
    ofThread i (log ++ [(i, c)]) = ofThread i log ++ [c] := by
  simp [ofThread]

theorem ofThread_concat_of_ne {α : Type v} {i j : ι} (h : j ≠ i) (log : List (ι × α)) (c : α) :
    ofThread j (log ++ [(i, c)]) = ofThread j log := by
  simp [ofThread, h.symm]

theorem ofThread_map_self {α : Type v} (i : ι) (l : List α) :
    ofThread i (l.map fun a => (i, a)) = l := by
  simp [ofThread, List.filter_map, Function.comp_def]

theorem ofThread_cons {α : Type v} (i : ι) (c : ι × α) (log : List (ι × α)) :
    ofThread i (c :: log) = (if c.1 = i then [c.2] else []) ++ ofThread i log := by
  by_cases hc : c.1 = i <;> simp [ofThread, hc]

/-! ## Sections in one turn -/

/-- The turns of one thread inside a section, from one state of the part and the registers to
another one, in which the section may have ended. -/
inductive Runs (code : Code L σ ω ρ) (l : L) (part : σ l) (registers : ρ l) :
    σ l → ρ l ⊕ ω → Prop
  | refl : Runs code l part registers part (.inl registers)
  | tail {part' : σ l} {registers' : ρ l} (h : Runs code l part registers part' (.inl registers')) :
      Runs code l part registers (code.body l part' registers').1 (code.body l part' registers').2

omit [DecidableEq L] in
/-- What holds at the beginning of a section and is kept by its turns holds along the section. -/
theorem Runs.invariant {code : Code L σ ω ρ} {l : L} {part part' : σ l} {registers : ρ l}
    {next : ρ l ⊕ ω} (h : Runs code l part registers part' next) {P : σ l → ρ l ⊕ ω → Prop}
    (hstart : P part (.inl registers))
    (hturn : ∀ part registers, P part (.inl registers) →
      P (code.body l part registers).1 (code.body l part registers).2) : P part' next := by
  induction h with
  | refl => exact hstart
  | tail _ ih => exact hturn _ _ ih

omit [DecidableEq L] in
theorem Runs.trans {code : Code L σ ω ρ} {l : L} {part part' part'' : σ l}
    {registers registers' : ρ l} {next : ρ l ⊕ ω}
    (h : Runs code l part registers part' (.inl registers'))
    (h' : Runs code l part' registers' part'' next) : Runs code l part registers part'' next := by
  induction h' with
  | refl => exact h
  | tail _ ih => exact ih.tail

omit [DecidableEq L] in
theorem Runs.work {code : Code L σ ω ρ} {l : L} {part part' part'' : σ l}
    {registers registers' : ρ l} {next : ρ l ⊕ ω}
    (hbody : code.body l part registers = (part', .inl registers'))
    (h : Runs code l part' registers' part'' next) : Runs code l part registers part'' next := by
  have hone := Runs.tail (@Runs.refl _ _ _ _ code l part registers)
  rw [hbody] at hone
  exact hone.trans h

omit [DecidableEq L] in
theorem Runs.leave {code : Code L σ ω ρ} {l : L} {part part' : σ l} {registers : ρ l} {worker : ω}
    (hbody : code.body l part registers = (part', .inr worker)) :
    Runs code l part registers part' (.inr worker) := by
  have hone := Runs.tail (@Runs.refl _ _ _ _ code l part registers)
  rwa [hbody] at hone

/-- A turn on the whole shared state that does a section at once. -/
structure Atomic (code : Code L σ ω ρ) (turn : ((l : L) → σ l) → ω → ((l : L) → σ l) × ω) :
    Prop where
  own : ∀ shared worker worker', code.next worker = .own worker' →
    turn shared worker = (shared, worker')
  whole : ∀ shared worker l registers part worker', code.next worker = .lock l registers →
    Runs code l (shared l) registers part (.inr worker') →
    turn shared worker = (Function.update shared l part, worker')

/-- What a section comes to, from anywhere inside. -/
structure Finishes (code : Code L σ ω ρ) (finish : (l : L) → σ l → ρ l → σ l × ω) : Prop where
  goesOn : ∀ l part registers part' registers',
    code.body l part registers = (part', .inl registers') →
    finish l part' registers' = finish l part registers
  ends : ∀ l part registers part' worker, code.body l part registers = (part', .inr worker) →
    finish l part registers = (part', worker)

def wholeTurn (code : Code L σ ω ρ) (finish : (l : L) → σ l → ρ l → σ l × ω)
    (shared : (l : L) → σ l) (worker : ω) : ((l : L) → σ l) × ω :=
  match code.next worker with
  | .own worker => (shared, worker)
  | .lock l registers =>
    (Function.update shared l (finish l (shared l) registers).1,
      (finish l (shared l) registers).2)

omit [DecidableEq L] in
theorem Finishes.runs {code : Code L σ ω ρ} {finish : (l : L) → σ l → ρ l → σ l × ω}
    (h : Finishes code finish) {l : L} {part part' : σ l} {registers : ρ l} {next : ρ l ⊕ ω}
    (hruns : Runs code l part registers part' next) :
    (∀ r, next = .inl r → finish l part' r = finish l part registers) ∧
      ∀ worker, next = .inr worker → finish l part registers = (part', worker) := by
  induction hruns with
  | refl =>
    refine ⟨fun r hr => ?_, fun worker hworker => nomatch hworker⟩
    cases hr
    rfl
  | @tail part₁ r₁ _ ih =>
    have hsame := ih.1 r₁ rfl
    refine ⟨fun r hr => ?_, fun worker hworker => ?_⟩
    · rw [← hsame]
      exact h.goesOn l part₁ r₁ _ r (Prod.ext rfl hr)
    · rw [← hsame]
      exact h.ends l part₁ r₁ _ worker (Prod.ext rfl hworker)

theorem Finishes.atomic {code : Code L σ ω ρ} {finish : (l : L) → σ l → ρ l → σ l × ω}
    (h : Finishes code finish) : Atomic code (wholeTurn code finish) where
  own shared worker worker' hnext := by
    rw [wholeTurn, hnext]
  whole shared worker l registers part worker' hnext hruns := by
    have hfinish := (h.runs hruns).2 worker' rfl
    rw [wholeTurn, hnext]
    dsimp only
    rw [hfinish]

/-- A thread outside is where it is in `a`, and a free part is as it is in `a`. One that is inside
has begun its section from `a`. -/
structure Follows (code : Code L σ ω ρ) (a : System ((l : L) → σ l) ω ι)
    (s : Threads L σ ω ρ ι) : Prop where
  free : ∀ l, s.holder l = none → s.shared l = a.shared l
  out : ∀ i worker, s.phase i = .out worker → a.workers i = worker
  inside : ∀ i l registers, s.phase i = .inside l registers → s.holder l = some i ∧
    ∃ registers₀, code.next (a.workers i) = .lock l registers₀ ∧
      Runs code l (a.shared l) registers₀ (s.shared l) (.inl registers)
  held : ∀ l i, s.holder l = some i → ∃ registers, s.phase i = .inside l registers

section Follow
variable {code : Code L σ ω ρ} {turn : ((l : L) → σ l) → ω → ((l : L) → σ l) × ω}
variable {a : System ((l : L) → σ l) ω ι} {s : Threads L σ ω ρ ι}

omit [DecidableEq L] [DecidableEq ι] in
theorem follows_start (shared : (l : L) → σ l) (workers : ι → ω) :
    Follows code ⟨shared, workers⟩ (start shared workers) where
  free _ _ := rfl
  out i worker h := by
    cases h
    rfl
  inside i l registers h := nomatch h
  held l i h := nomatch h

omit [DecidableEq L] [DecidableEq ι] in
/-- No two threads are in sections under one lock. -/
theorem Follows.exclusive (h : Follows code a s) {i j : ι} {l : L} {r r' : ρ l}
    (hi : s.phase i = .inside l r) (hj : s.phase j = .inside l r') : i = j := by
  have heq := (h.inside i l r hi).1.symm.trans (h.inside j l r' hj).1
  exact Option.some.inj heq

omit [DecidableEq L] [DecidableEq ι] in
theorem Follows.not_held (h : Follows code a s) {i : ι} {worker : ω}
    (hi : s.phase i = .out worker) (l : L) : s.holder l ≠ some i := by
  intro hl
  obtain ⟨r, hr⟩ := h.held l i hl
  rw [hi] at hr
  cases hr

omit [DecidableEq L] in
theorem Follows.own (h : Follows code a s) {i : ι} {worker worker' : ω}
    (hi : s.phase i = .out worker) :
    Follows code { a with workers := Function.update a.workers i worker' }
      { s with phase := Function.update s.phase i (.out worker') } where
  free := h.free
  out j v hj := by
    dsimp only at hj ⊢
    by_cases hji : j = i
    · subst j
      rw [Function.update_self] at hj ⊢
      cases hj
      rfl
    · rw [Function.update_of_ne hji] at hj ⊢
      exact h.out j v hj
  inside j l r hj := by
    dsimp only at hj ⊢
    by_cases hji : j = i
    · subst j
      rw [Function.update_self] at hj
      cases hj
    · rw [Function.update_of_ne hji] at hj ⊢
      exact h.inside j l r hj
  held l j hj := by
    obtain ⟨r, hr⟩ := h.held l j hj
    have hji : j ≠ i := fun heq => h.not_held hi l (heq ▸ hj)
    exact ⟨r, (Function.update_of_ne hji _ _).trans hr⟩

theorem Follows.enter (h : Follows code a s) {i : ι} {worker : ω} {l : L} {registers : ρ l}
    (hi : s.phase i = .out worker) (hnext : code.next worker = .lock l registers)
    (hfree : s.holder l = none) :
    Follows code a
      { s with
        holder := Function.update s.holder l (some i)
        phase := Function.update s.phase i (.inside l registers) } where
  free l' hl' := by
    dsimp only at hl' ⊢
    by_cases hll : l' = l
    · exact hll ▸ h.free l hfree
    · rw [Function.update_of_ne hll] at hl'
      exact h.free l' hl'
  out j v hj := by
    dsimp only at hj ⊢
    by_cases hji : j = i
    · subst j
      rw [Function.update_self] at hj
      cases hj
    · rw [Function.update_of_ne hji] at hj
      exact h.out j v hj
  inside j l' r hj := by
    dsimp only at hj ⊢
    by_cases hji : j = i
    · subst j
      rw [Function.update_self] at hj
      cases hj
      refine ⟨Function.update_self .., registers, ?_, ?_⟩
      · rw [h.out i worker hi, hnext]
      · rw [h.free l hfree]
        exact .refl
    · rw [Function.update_of_ne hji] at hj
      obtain ⟨hholder, hruns⟩ := h.inside j l' r hj
      have hne : l' ≠ l := by
        rintro rfl
        rw [hfree] at hholder
        cases hholder
      exact ⟨(Function.update_of_ne hne _ _).trans hholder, hruns⟩
  held l' j hj := by
    dsimp only at hj ⊢
    by_cases hll : l' = l
    · subst l'
      rw [Function.update_self] at hj
      cases hj
      exact ⟨registers, Function.update_self ..⟩
    · rw [Function.update_of_ne hll] at hj
      obtain ⟨r, hr⟩ := h.held l' j hj
      have hji : j ≠ i := fun heq => h.not_held hi l' (heq ▸ hj)
      exact ⟨r, (Function.update_of_ne hji _ _).trans hr⟩

theorem Follows.work (h : Follows code a s) {i : ι} {l : L} {r r' : ρ l} {part : σ l}
    (hi : s.phase i = .inside l r) (hbody : code.body l (s.shared l) r = (part, .inl r')) :
    Follows code a
      { s with
        shared := Function.update s.shared l part
        phase := Function.update s.phase i (.inside l r') } where
  free l' hl' := by
    dsimp only at hl' ⊢
    have hne : l' ≠ l := by
      rintro rfl
      rw [(h.inside i l' r hi).1] at hl'
      cases hl'
    rw [Function.update_of_ne hne]
    exact h.free l' hl'
  out j v hj := by
    dsimp only at hj ⊢
    by_cases hji : j = i
    · subst j
      rw [Function.update_self] at hj
      cases hj
    · rw [Function.update_of_ne hji] at hj
      exact h.out j v hj
  inside j l' r'' hj := by
    dsimp only at hj ⊢
    by_cases hji : j = i
    · subst j
      rw [Function.update_self] at hj
      cases hj
      obtain ⟨hholder, r₀, hnext, hruns⟩ := h.inside i l r hi
      have htail := Runs.tail hruns
      rw [hbody] at htail
      exact ⟨hholder, r₀, hnext, by rwa [Function.update_self]⟩
    · rw [Function.update_of_ne hji] at hj
      obtain ⟨hholder, r₀, hnext, hruns⟩ := h.inside j l' r'' hj
      have hne : l' ≠ l := by
        rintro rfl
        exact hji (h.exclusive hj hi)
      exact ⟨hholder, r₀, hnext, by rwa [Function.update_of_ne hne]⟩
  held l' j hj := by
    dsimp only at hj ⊢
    obtain ⟨r'', hr⟩ := h.held l' j hj
    by_cases hji : j = i
    · subst j
      rw [hi] at hr
      cases hr
      exact ⟨r', Function.update_self ..⟩
    · exact ⟨r'', (Function.update_of_ne hji _ _).trans hr⟩

theorem Follows.leave (h : Follows code a s) {i : ι} {l : L} {r : ρ l} {part : σ l} {worker : ω}
    (hi : s.phase i = .inside l r) (hbody : code.body l (s.shared l) r = (part, .inr worker)) :
    Follows code
      { shared := Function.update a.shared l part
        workers := Function.update a.workers i worker }
      { shared := Function.update s.shared l part
        holder := Function.update s.holder l none
        phase := Function.update s.phase i (.out worker) } where
  free l' hl' := by
    dsimp only at hl' ⊢
    by_cases hll : l' = l
    · subst l'
      rw [Function.update_self, Function.update_self]
    · rw [Function.update_of_ne hll] at hl' ⊢
      rw [Function.update_of_ne hll]
      exact h.free l' hl'
  out j v hj := by
    dsimp only at hj ⊢
    by_cases hji : j = i
    · subst j
      rw [Function.update_self] at hj ⊢
      cases hj
      rfl
    · rw [Function.update_of_ne hji] at hj ⊢
      exact h.out j v hj
  inside j l' r' hj := by
    dsimp only at hj ⊢
    have hji : j ≠ i := by
      rintro rfl
      rw [Function.update_self] at hj
      cases hj
    rw [Function.update_of_ne hji] at hj
    have hne : l' ≠ l := by
      rintro rfl
      exact hji (h.exclusive hj hi)
    rw [Function.update_of_ne hji, Function.update_of_ne hne, Function.update_of_ne hne,
      Function.update_of_ne hne]
    exact h.inside j l' r' hj
  held l' j hj := by
    dsimp only at hj ⊢
    have hne : l' ≠ l := by
      rintro rfl
      rw [Function.update_self] at hj
      cases hj
    rw [Function.update_of_ne hne] at hj
    obtain ⟨r', hr⟩ := h.held l' j hj
    have hji : j ≠ i := by
      rintro rfl
      rw [hi] at hr
      cases hr
      exact hne rfl
    exact ⟨r', (Function.update_of_ne hji _ _).trans hr⟩

/-- A turn leaves the threads on the way from the same state, or from the next one. -/
theorem Follows.step (hturn : Atomic code turn) (h : Follows code a s) (i : ι) :
    Follows code a (s.turn code i) ∨ Follows code (a.step turn i) (s.turn code i) := by
  cases hi : s.phase i with
  | out worker =>
    cases hnext : code.next worker with
    | own worker' =>
      refine Or.inr ?_
      have hown : Follows code { a with workers := Function.update a.workers i worker' }
          { s with phase := Function.update s.phase i (.out worker') } := h.own hi
      simp only [Threads.turn, hi, hnext, System.step, h.out i worker hi,
        hturn.own _ _ _ hnext]
      exact hown
    | lock l registers =>
      refine Or.inl ?_
      simp only [Threads.turn, hi, hnext]
      split
      · rename_i hfree
        exact h.enter hi hnext hfree
      · exact h
  | inside l r =>
    cases hbody : code.body l (s.shared l) r with
    | mk part next =>
      cases next with
      | inl r' =>
        refine Or.inl ?_
        simp only [Threads.turn, hi, hbody]
        exact h.work hi hbody
      | inr worker =>
        refine Or.inr ?_
        obtain ⟨-, r₀, hnext, hruns⟩ := h.inside i l r hi
        have hended := Runs.tail hruns
        rw [hbody] at hended
        simp only [Threads.turn, hi, hbody, System.step,
          hturn.whole _ _ _ _ _ _ hnext hended]
        exact h.leave hi hbody

/-- Whatever the schedule, there is one for whole sections that the threads follow. -/
theorem exists_follows (hturn : Atomic code turn) (h : Follows code a s) (schedule : List ι) :
    ∃ order, order.Sublist schedule ∧
      Follows code (run (System.step turn) a order) (run (Threads.turn code) s schedule) := by
  induction schedule generalizing a s with
  | nil => exact ⟨[], List.Sublist.refl [], h⟩
  | cons i schedule ih =>
    rcases h.step hturn i with hsame | hnext
    · obtain ⟨order, hsub, hfollows⟩ := ih hsame
      exact ⟨order, hsub.cons i, hfollows⟩
    · obtain ⟨order, hsub, hfollows⟩ := ih hnext
      exact ⟨i :: order, hsub.cons_cons i, hfollows⟩

end Follow

/-! ## Every schedule can be completed -/

/-- Every section comes to its end. -/
def Ends (code : Code L σ ω ρ) : Prop :=
  ∀ l part registers, ∃ part' worker, Runs code l part registers part' (.inr worker)

omit [DecidableEq L] in
theorem ends_of_decreasing {code : Code L σ ω ρ} {left : (l : L) → σ l → ρ l → Nat}
    (h : ∀ l part registers part' registers',
      code.body l part registers = (part', .inl registers') →
      left l part' registers' < left l part registers) : Ends code := by
  intro l part registers
  induction hn : left l part registers using Nat.strong_induction_on
    generalizing part registers with
  | _ n ih =>
    cases hbody : code.body l part registers with
    | mk part' next =>
      cases next with
      | inr worker => exact ⟨part', worker, Runs.leave hbody⟩
      | inl registers' =>
        have hlt := h l part registers part' registers' hbody
        obtain ⟨part'', worker, hruns⟩ := ih _ (hn ▸ hlt) part' registers' rfl
        exact ⟨part'', worker, Runs.work hbody hruns⟩

section Complete
variable {code : Code L σ ω ρ} {turn : ((l : L) → σ l) → ω → ((l : L) → σ l) × ω}

/-- The threads when one of them, in a section, has come to `part` and `next`. -/
def Threads.after (s : Threads L σ ω ρ ι) (i : ι) (l : L) (part : σ l) :
    ρ l ⊕ ω → Threads L σ ω ρ ι
  | .inl registers =>
    { s with
      shared := Function.update s.shared l part
      phase := Function.update s.phase i (.inside l registers) }
  | .inr worker =>
    { shared := Function.update s.shared l part
      holder := Function.update s.holder l none
      phase := Function.update s.phase i (.out worker) }

theorem Runs.turns {s : Threads L σ ω ρ ι} {i : ι} {l : L} {registers : ρ l} {part : σ l}
    {next : ρ l ⊕ ω} (hi : s.phase i = .inside l registers)
    (hruns : Runs code l (s.shared l) registers part next) :
    ∃ n, run (Threads.turn code) s (List.replicate n i) = s.after i l part next := by
  induction hruns with
  | refl =>
    refine ⟨0, ?_⟩
    rw [List.replicate_zero, run_nil, Threads.after, ← hi, Function.update_eq_self,
      Function.update_eq_self]
  | @tail part' registers' _ ih =>
    obtain ⟨n, hn⟩ := ih
    refine ⟨n + 1, ?_⟩
    rw [List.replicate_succ', run_append, hn, run_cons, run_nil]
    cases hbody : code.body l part' registers' with
    | mk part next =>
      cases next <;>
        simp only [Threads.turn, Threads.after, Function.update_self, hbody, Function.update_idem]

def Threads.AllOut (s : Threads L σ ω ρ ι) : Prop := ∀ i, ∃ worker, s.phase i = .out worker

theorem exists_allOut [Fintype ι]
    (hends : Ends code) (s : Threads L σ ω ρ ι) :
    ∃ more, (run (Threads.turn code) s more).AllOut := by
  classical
  induction hn : (Finset.univ.filter fun i => ¬ ∃ worker, s.phase i = .out worker).card
    using Nat.strong_induction_on generalizing s with
  | _ n ih =>
    by_cases hall : s.AllOut
    · exact ⟨[], hall⟩
    · obtain ⟨i, hi⟩ := not_forall.mp hall
      cases hphase : s.phase i with
      | out worker => exact absurd ⟨worker, hphase⟩ hi
      | inside l registers =>
        obtain ⟨part, worker, hruns⟩ := hends l (s.shared l) registers
        obtain ⟨k, hk⟩ := hruns.turns hphase
        have hlt : (Finset.univ.filter fun j => ¬ ∃ worker',
            (s.after i l part (.inr worker)).phase j = .out worker').card < n := by
          rw [← hn]
          apply Finset.card_lt_card
          refine Finset.ssubset_iff_of_subset ?_ |>.mpr ⟨i, by simpa using hi, ?_⟩
          · intro j hj
            rw [Finset.mem_filter] at hj ⊢
            refine ⟨hj.1, fun hout => hj.2 ?_⟩
            by_cases hji : j = i
            · exact ⟨worker, by simp [Threads.after, hji]⟩
            · simpa [Threads.after, hji] using hout
          · simp [Threads.after]
        obtain ⟨more, hmore⟩ := ih _ hlt _ rfl
        refine ⟨List.replicate k i ++ more, ?_⟩
        rw [run_append, hk]
        exact hmore

omit [DecidableEq L] [DecidableEq ι] in
theorem Follows.eq_start {a : System ((l : L) → σ l) ω ι} {s : Threads L σ ω ρ ι}
    (h : Follows code a s) (hout : s.AllOut) : s = start a.shared a.workers := by
  have hfree : ∀ l, s.holder l = none := by
    intro l
    cases hl : s.holder l with
    | none => rfl
    | some i =>
      obtain ⟨worker, hi⟩ := hout i
      exact absurd hl (h.not_held hi l)
  obtain ⟨shared, holder, phase⟩ := s
  have hshared : shared = a.shared := funext fun l => h.free l (hfree l)
  have hholder : holder = fun _ => none := funext hfree
  have hphase : phase = fun i => .out (a.workers i) := by
    funext i
    obtain ⟨worker, hi⟩ := hout i
    rw [h.out i worker hi]
    exact hi
  rw [start, hshared, hholder, hphase]

theorem exists_turns (hturn : Atomic code turn)
    (hends : Ends code)
    (a : System ((l : L) → σ l) ω ι) (i : ι) :
    ∃ n, run (Threads.turn code) (start a.shared a.workers) (List.replicate n i) =
      start (a.step turn i).shared (a.step turn i).workers := by
  have hcompose : ∀ worker, Function.update (fun j => (.out (a.workers j) : Phase L ω ρ)) i
      (.out worker) = fun j => .out (Function.update a.workers i worker j) := by
    intro worker
    funext j
    by_cases hji : j = i
    · subst j
      rw [Function.update_self, Function.update_self]
    · rw [Function.update_of_ne hji, Function.update_of_ne hji]
  cases hnext : code.next (a.workers i) with
  | own worker =>
    refine ⟨1, ?_⟩
    rw [List.replicate_one, run_cons, run_nil]
    simp only [start, Threads.turn, hnext, System.step, hturn.own _ _ _ hnext, hcompose]
  | lock l registers =>
    obtain ⟨part, worker, hruns⟩ := hends l (a.shared l) registers
    have hentered : Threads.turn code (start a.shared a.workers) i =
        { shared := a.shared
          holder := Function.update (fun _ => none) l (some i)
          phase := Function.update (fun j => .out (a.workers j)) i (.inside l registers) } := by
      simp only [start, Threads.turn, hnext, if_true]
    have hphase : (Threads.turn code (start a.shared a.workers) i).phase i =
        .inside l registers := by
      rw [hentered]
      dsimp only
      rw [Function.update_self]
    have hpart : (Threads.turn code (start a.shared a.workers) i).shared l = a.shared l := by
      rw [hentered]
    obtain ⟨n, hn⟩ := Runs.turns hphase (hpart.symm ▸ hruns)
    refine ⟨n + 1, ?_⟩
    rw [List.replicate_succ, run_cons, hn, hentered]
    simp only [Threads.after, start, System.step, hturn.whole _ _ _ _ _ _ hnext hruns,
      Function.update_idem, hcompose]
    congr 1
    funext l'
    by_cases hll : l' = l
    · subst l'
      exact Function.update_self ..
    · exact Function.update_of_ne hll _ _

theorem exists_schedule_of_order (hturn : Atomic code turn)
    (hends : Ends code)
    (order : List ι) (a : System ((l : L) → σ l) ω ι) :
    ∃ schedule, run (Threads.turn code) (start a.shared a.workers) schedule =
      start (run (System.step turn) a order).shared (run (System.step turn) a order).workers := by
  induction order generalizing a with
  | nil => exact ⟨[], rfl⟩
  | cons i order ih =>
    obtain ⟨n, hn⟩ := exists_turns hturn hends a i
    obtain ⟨schedule, hschedule⟩ := ih (a.step turn i)
    refine ⟨List.replicate n i ++ schedule, ?_⟩
    rw [run_append, hn, hschedule, run_cons]

/-- No schedule leads into a deadlock, or to where a thread can no longer come to its end. -/
theorem exists_completion [Fintype ι] (hturn : Atomic code turn)
    (hends : Ends code)
    {left : ω → Nat}
    (hleft : ∀ shared worker, left worker ≠ 0 → left (turn shared worker).2 < left worker)
    {a : System ((l : L) → σ l) ω ι} {s : Threads L σ ω ρ ι} (h : Follows code a s) :
    ∃ more shared workers, run (Threads.turn code) s more = start shared workers ∧
      ∀ i, left (workers i) = 0 := by
  obtain ⟨more, hout⟩ := exists_allOut hends s
  obtain ⟨order, -, hfollows⟩ := exists_follows hturn h more
  obtain ⟨rest, hrest⟩ := System.exists_schedule_to_end hleft (run (System.step turn) a order)
  obtain ⟨schedule, hschedule⟩ := exists_schedule_of_order hturn hends rest
    (run (System.step turn) a order)
  refine ⟨more ++ schedule, (run (System.step turn) (run (System.step turn) a order) rest).shared,
    (run (System.step turn) (run (System.step turn) a order) rest).workers, ?_, hrest⟩
  rw [run_append, hfollows.eq_start hout, hschedule]

end Complete

end Homework.Mutex
