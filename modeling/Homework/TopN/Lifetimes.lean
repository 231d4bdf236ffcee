import Mathlib.Algebra.Order.BigOperators.Group.Finset
import Mathlib.Algebra.Ring.Nat
import Homework.TopN.Pointers

/-!
# The containers of the program

Containers are allocated, used and freed in any order. As long as each is used only between the
two, nothing that has been freed is read or freed again, the containers are those of the values,
and what stays allocated of the nodes of a freed container is what merges have copied.

In `get_stat` every thread has two containers at a time, for the file it reads, and the global
ones are there as long as the threads are.
-/

namespace Homework.TopN.Pointers

set_option autoImplicit false

open Blocks

/-! ## Containers that come and go -/

/-- The memory and the containers that are allocated. -/
structure State (ι : Type) (κ : Type) where
  mem : Memory κ
  conts : ι → Option TopNContainer

inductive Event (ι : Type) (κ : Type) where
  | init (cont : ι) (capacity : Int)
  | call (call : Call ι κ)
  | free (cont : ι)

variable {ι : Type} {κ : Type} [DecidableEq ι] [DecidableEq κ]

def start : State ι κ where
  mem := { items := fun _ => none, nodes := 0 }
  conts := fun _ => none

def step (malloc : Store (ListItem κ) → Nat) (s : State ι κ) : Event ι κ → Option (State ι κ)
  | .init i capacity =>
    some { s with conts := Function.update s.conts i (some (topnContInit capacity)) }
  | .call (.add i key value) => do
    let cont ← s.conts i
    let (mem, cont) ← topnContAdd malloc s.mem cont key value
    return { mem, conts := Function.update s.conts i (some cont) }
  | .call (.merge dst src) => do
    let dstCont ← s.conts dst
    let srcCont ← s.conts src
    let (mem, cont) ← topnContMerge malloc s.mem dstCont srcCont
    return { mem, conts := Function.update s.conts dst (some cont) }
  | .free i => do
    let cont ← s.conts i
    let mem ← topnContFree s.mem cont
    return { mem, conts := Function.update s.conts i none }

/-- The containers by their values. -/
abbrev Pool (ι : Type) (κ : Type) := ι → Option (TopN.TopNContainer κ)

def stepPool (pool : Pool ι κ) : Event ι κ → Pool ι κ
  | .init i capacity => Function.update pool i (some (TopN.topnContInit capacity))
  | .call (.add i key value) =>
    Function.update pool i ((pool i).map fun c => TopN.topnContAdd c key value)
  | .call (.merge dst src) => Function.update pool dst (do
    let d ← pool dst
    let e ← pool src
    return TopN.topnContMerge d e)
  | .free i => Function.update pool i none

def Allowed (pool : Pool ι κ) : Event ι κ → Prop
  | .init i _ => pool i = none
  | .call (.add i _ _) => (pool i).isSome
  | .call (.merge dst src) => (pool dst).isSome ∧ (pool src).isSome ∧ src ≠ dst
  | .free i => (pool i).isSome

/-- The nodes of the list that a merge copies. -/
def copied (pool : Pool ι κ) : Event ι κ → Nat
  | .call (.merge _ src) => ((pool src).map fun c => c.list.length).getD 0
  | _ => 0

/-- The items of each container. -/
def itemsOf (conts : ι → Option TopNContainer) (i : ι) : List Nat :=
  (conts i).elim [] TopNContainer.list

omit [DecidableEq κ] in
theorem itemsOf_update (conts : ι → Option TopNContainer) (i : ι) (cont : Option TopNContainer) :
    itemsOf (Function.update conts i cont) =
      Function.update (itemsOf conts) i (cont.elim [] TopNContainer.list) := by
  funext j
  by_cases hj : j = i
  · subst j
    rw [itemsOf, Function.update_self, Function.update_self]
  · rw [itemsOf, Function.update_of_ne hj, Function.update_of_ne hj]
    rfl

omit [DecidableEq ι] [DecidableEq κ] in
theorem reads_congr {h h' : Store (ListItem κ)} {cont : Option TopNContainer}
    {c : Option (TopN.TopNContainer κ)} (hreads : Option.Rel (Reads h) cont c)
    (hsame : ∀ a ∈ cont.elim [] TopNContainer.list, h' a = h a) :
    Option.Rel (Reads h') cont c := by
  cases hreads with
  | none => exact .none
  | some hread => exact .some (hread.congr hsame)

variable [Fintype ι]

/-- The containers come to those of the pool. The items that are allocated are theirs, and the
nodes are theirs and `lost` others. -/
structure Represents (s : State ι κ) (pool : Pool ι κ) (lost : Nat) : Prop where
  owns : Owns s.mem.items (itemsOf s.conts)
  reads : ∀ i, Option.Rel (Reads s.mem.items) (s.conts i) (pool i)
  nodes : s.mem.nodes = ∑ i, (itemsOf s.conts i).length + lost

omit [DecidableEq ι] [DecidableEq κ] in
theorem represents_start : Represents (start : State ι κ) (fun _ => none) 0 where
  owns := owns_empty
  reads _ := .none
  nodes := (Finset.sum_const_zero).symm

namespace Represents
variable {s : State ι κ} {pool : Pool ι κ} {lost : Nat} {i : ι}

omit [DecidableEq ι] [DecidableEq κ] in
theorem exists_cont (h : Represents s pool lost) (hi : (pool i).isSome) :
    ∃ cont c, s.conts i = some cont ∧ pool i = some c ∧ itemsOf s.conts i = cont.list ∧
      Reads s.mem.items cont c ∧ cont.list.length ≤ s.mem.nodes := by
  have hrel := h.reads i
  cases hcont : s.conts i with
  | none =>
    rw [hcont] at hrel
    cases hc : pool i with
    | none => simp [hc] at hi
    | some c => simp [hc] at hrel
  | some cont =>
    obtain ⟨c, hc⟩ := Option.isSome_iff_exists.mp hi
    rw [hcont, hc, Option.rel_some_some] at hrel
    have hitems : itemsOf s.conts i = cont.list := by rw [itemsOf, hcont, Option.elim_some]
    refine ⟨cont, c, rfl, hc, hitems, hrel, ?_⟩
    have hle := Finset.single_le_sum (f := fun j => (itemsOf s.conts j).length)
      (fun j _ => Nat.zero_le _) (Finset.mem_univ i)
    rw [h.nodes]
    rw [hitems] at hle
    omega

omit [DecidableEq ι] [DecidableEq κ] in
theorem all_freed (h : Represents s (fun _ => none) lost) :
    (∀ i, s.conts i = none) ∧ (∀ a, s.mem.items a = none) ∧ s.mem.nodes = lost := by
  have hconts : ∀ i, s.conts i = none := by
    intro i
    have hrel := h.reads i
    cases hcont : s.conts i with
    | none => rfl
    | some cont => simp [hcont] at hrel
  have hitems : ∀ i, itemsOf s.conts i = [] := by
    intro i
    rw [itemsOf, hconts, Option.elim_none]
  refine ⟨hconts, fun a => h.owns.eq_none_iff.mpr fun i => ?_, ?_⟩
  · rw [hitems]
    exact List.not_mem_nil
  · have hnodes := h.nodes
    simpa only [hitems, List.length_nil, Finset.sum_const_zero, Nat.zero_add] using hnodes

omit [DecidableEq κ] in
/-- One container is another one, or has come or gone. -/
theorem update (h : Represents s pool lost) {mem : Memory κ} {cont : Option TopNContainer}
    {c : Option (TopN.TopNContainer κ)} {more : Nat}
    (howns : Owns mem.items
      (Function.update (itemsOf s.conts) i (cont.elim [] TopNContainer.list)))
    (hreads : Option.Rel (Reads mem.items) cont c)
    (hframe : ∀ j, j ≠ i → ∀ a ∈ itemsOf s.conts j, mem.items a = s.mem.items a)
    (hnodes : mem.nodes + (itemsOf s.conts i).length =
      s.mem.nodes + (cont.elim [] TopNContainer.list).length + more) :
    Represents ⟨mem, Function.update s.conts i cont⟩ (Function.update pool i c) (lost + more) where
  owns := by
    rw [itemsOf_update]
    exact howns
  reads j := by
    by_cases hj : j = i
    · subst j
      dsimp only
      rw [Function.update_self, Function.update_self]
      exact hreads
    · dsimp only
      rw [Function.update_of_ne hj, Function.update_of_ne hj]
      exact reads_congr (h.reads j) (hframe j hj)
  nodes := by
    have hsum := sum_length_update (itemsOf s.conts) i (cont.elim [] TopNContainer.list)
    have hbefore := h.nodes
    dsimp only
    rw [itemsOf_update]
    omega

variable {malloc : Store (ListItem κ) → Nat}

omit [DecidableEq κ] in
/-- What `topn_cont_add` and `topn_cont_merge` make of a container. -/
theorem becomes (h : Represents s pool lost) {mem mem' : Memory κ} {cont cont' : TopNContainer}
    {c' : TopN.TopNContainer κ} {more : Nat} (hitems : itemsOf s.conts i = cont.list)
    (hbecomes : Becomes (itemsOf s.conts) i mem mem' cont cont' c') (hmem : mem.items = s.mem.items)
    (hmore : mem.nodes = s.mem.nodes + more) :
    Represents ⟨mem', Function.update s.conts i (some cont')⟩ (Function.update pool i (some c'))
      (lost + more) := by
  apply h.update
  · exact hbecomes.owns
  · exact .some hbecomes.reads
  · rw [← hmem]
    exact hbecomes.frame
  · have hnodes := hbecomes.nodes
    rw [hitems, Option.elim_some]
    omega

theorem step (h : Represents s pool lost) (hmalloc : Fresh malloc) {e : Event ι κ}
    (hallowed : Allowed pool e) : ∃ s', Pointers.step malloc s e = some s' ∧
      Represents s' (stepPool pool e) (lost + copied pool e) := by
  cases e with
  | init i capacity =>
    have hrel := h.reads i
    rw [hallowed] at hrel
    have hcont : s.conts i = none := by
      cases hcont : s.conts i with
      | none => rfl
      | some cont => simp [hcont] at hrel
    have hitems : itemsOf s.conts i = [] := by rw [itemsOf, hcont, Option.elim_none]
    have hreads : Reads s.mem.items (topnContInit capacity) (TopN.topnContInit capacity) :=
      ⟨⟨[], rfl, fun _ hc => absurd hc List.not_mem_nil, rfl⟩, rfl⟩
    refine ⟨_, rfl, h.update ?_ (.some hreads) (fun _ _ _ _ => rfl) ?_⟩
    · rw [Option.elim_some, topnContInit, ← hitems, Function.update_eq_self]
      exact h.owns
    · rw [hitems]
      rfl
  | call call =>
    cases call with
    | add i key value =>
      obtain ⟨cont, c, hcont, hc, hitems, hreads, hnodes⟩ := h.exists_cont hallowed
      obtain ⟨mem', cont', hadd, hbecomes⟩ :=
        topnContAdd_spec hmalloc h.owns hitems hreads hnodes key value
      refine ⟨⟨mem', Function.update s.conts i (some cont')⟩, ?_, ?_⟩
      · rw [Pointers.step, hcont]
        simp only [Option.bind_eq_bind, Option.bind_some, hadd]
        rfl
      · rw [stepPool, hc]
        exact h.becomes hitems hbecomes rfl rfl
    | merge dst src =>
      obtain ⟨hdst, hsrc, hne⟩ := hallowed
      obtain ⟨cont, d, hcont, hd, hitems, hreads, hnodes⟩ := h.exists_cont hdst
      obtain ⟨cont₂, e, hcont₂, he, hitems₂, hreads₂, -⟩ := h.exists_cont hsrc
      obtain ⟨mem', cont', hmerge, hbecomes⟩ :=
        topnContMerge_spec hmalloc h.owns hitems hreads hne hitems₂ hreads₂ hnodes
      refine ⟨⟨mem', Function.update s.conts dst (some cont')⟩, ?_, ?_⟩
      · rw [Pointers.step, hcont, hcont₂]
        simp only [Option.bind_eq_bind, Option.bind_some, hmerge]
        rfl
      · have hcopied : copied pool (.call (.merge dst src)) = cont₂.list.length := by
          rw [copied, he, hreads₂.length_eq]
          rfl
        rw [stepPool, hd, he, hcopied]
        exact h.becomes hitems hbecomes rfl rfl
  | free i =>
    obtain ⟨cont, c, hcont, -, hitems, -, hnodes⟩ := h.exists_cont hallowed
    obtain ⟨mem', hfree, howns, hframe, hrest⟩ := topnContFree_spec h.owns hitems
    refine ⟨⟨mem', Function.update s.conts i none⟩, ?_, ?_⟩
    · rw [Pointers.step, hcont]
      simp only [Option.bind_eq_bind, Option.bind_some, hfree]
      rfl
    · refine h.update howns .none hframe ?_
      rw [hitems, hrest]
      exact Nat.sub_add_cancel hnodes

theorem run (h : Represents s pool lost) (hmalloc : Fresh malloc) {events : List (Event ι κ)}
    (hallowed : Along stepPool Allowed pool events) :
    ∃ s', events.foldlM (Pointers.step malloc) s = some s' ∧
      Represents s' (Homework.run stepPool pool events)
        (lost + (trace stepPool copied pool events).sum) := by
  induction events generalizing s pool lost with
  | nil => exact ⟨s, rfl, h⟩
  | cons e events ih =>
    obtain ⟨s₁, hstep, hone⟩ := h.step hmalloc hallowed.1
    obtain ⟨s₂, hrun, hmany⟩ := ih hone hallowed.2
    refine ⟨s₂, ?_, ?_⟩
    · rw [List.foldlM_cons, hstep]
      exact hrun
    · rwa [trace_cons, List.sum_cons, ← Nat.add_assoc]

end Represents

end Homework.TopN.Pointers
