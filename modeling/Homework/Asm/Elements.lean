import Mathlib.Data.Fintype.EquivFin
import Mathlib.Data.List.Perm.Subperm
import Homework.Shared.Bytes
import Homework.Shared.LinkedList

/-!
# The list elements

`hw03-asm/main.c`. The elements are cells of a heap, `prev_addr` is the address of the next one,
and an address that is not allocated is not to be read or freed. What the `n`th call of `malloc`
returns comes from outside, and so does the number of recursive calls of `m` and `f` there is
stack for.
-/

namespace Homework.Asm

set_option autoImplicit false

open Blocks LinkedList

inductive Fault where
  /-- An address is read or freed where nothing is allocated. -/
  | invalid
  | stack
  deriving DecidableEq

structure Memory where
  cells : Heap Int
  /-- The calls of `malloc` so far. -/
  mallocs : Nat
  out : List UInt8

/-- The address that the `n`th call returns, or 0. -/
abbrev Malloc := Nat → Heap Int → Nat

def load (mem : Memory) (li : Nat) : Except Fault (Cell Int) :=
  match mem.cells li with
  | none => .error .invalid
  | some cell => .ok cell

def printInt (mem : Memory) (li : Nat) : Except Fault Memory := do
  let cell ← load mem li
  return { mem with out := mem.out ++ ascii (toString cell.value) ++ ascii " " }

def p (value : Int) : Int := value % 2

def addElement (malloc : Malloc) (mem : Memory) (prevAddr : Nat) (value : Int) : Memory × Nat :=
  let li := malloc mem.mallocs mem.cells
  let mem := { mem with mallocs := mem.mallocs + 1 }
  if li = 0 then (mem, 0)
  else ({ mem with cells := Function.update mem.cells li (some ⟨value, prevAddr⟩) }, li)

/-- For each element `func`. -/
def m (func : Memory → Nat → Except Fault Memory) : Nat → Memory → Nat → Except Fault Memory
  | 0, _, _ => .error .stack
  | stack + 1, mem, li =>
    if li = 0 then .ok mem
    else do
      let prevLi := (← load mem li).next
      let mem ← func mem li
      m func stack mem prevLi

def freeElement (mem : Memory) (li : Nat) : Except Fault Memory := do
  let _ ← load mem li
  return { mem with cells := Function.update mem.cells li none }

/-- A copy of the elements that `func` accepts. -/
def f (malloc : Malloc) (func : Int → Int) :
    Nat → Memory → Nat → Nat → Except Fault (Memory × Nat)
  | 0, _, _, _ => .error .stack
  | stack + 1, mem, src, dst =>
    if src = 0 then .ok (mem, dst)
    else do
      let value := (← load mem src).value
      let (mem, dst) := if func value ≠ 0 then addElement malloc mem dst value else (mem, dst)
      f malloc func stack mem (← load mem src).next dst

def puts (mem : Memory) : Memory := { mem with out := mem.out ++ ascii "\n" }

/-- The loop of `main` over `data`, from the end. -/
def addElements (malloc : Malloc) (mem : Memory) (data : List Int) : Memory × Nat :=
  data.reverse.foldl (fun (mem, first) value => addElement malloc mem first value) (mem, 0)

def main (malloc : Malloc) (stack : Nat) (data : List Int) : Except Fault Memory := do
  let (mem, firstLe1) := addElements malloc ⟨fun _ => none, 0, []⟩ data
  let mem := puts (← m printInt stack mem firstLe1)
  let (mem, firstLe2) ← f malloc p stack mem firstLe1 0
  let mem := puts (← m printInt stack mem firstLe2)
  let mem ← m freeElement stack mem firstLe1
  m freeElement stack mem firstLe2

/-! ## What the lists come to -/

/-- Whether each call of `malloc` succeeds, and an address that it returns is free. -/
structure Allocates (malloc : Malloc) (ok : Nat → Bool) : Prop where
  ne_zero_iff : ∀ n h live, Owned h live → (malloc n h ≠ 0 ↔ ok n = true)
  free : ∀ n h, malloc n h ≠ 0 → h (malloc n h) = none

/-- The values of a list when others have been added in front of it, beginning with the `n`th
call of `malloc`. One that fails leaves the empty list. -/
def pushAll (ok : Nat → Bool) : Nat → List Int → List Int → List Int
  | _, values, [] => values
  | n, values, value :: more => pushAll ok (n + 1) (if ok n then value :: values else []) more

/-- The values that are lost so. -/
def lost (ok : Nat → Bool) : Nat → List Int → List Int → List Int
  | _, _, [] => []
  | n, values, value :: more =>
    (if ok n then [] else values) ++
      lost ok (n + 1) (if ok n then value :: values else []) more

/-- A line of the output. -/
def line (values : List Int) : List UInt8 :=
  values.flatMap (fun value => ascii (toString value) ++ ascii " ") ++ ascii "\n"

/-! ## Adding elements -/

/-- A list, and apart from it the cells of `rest`. -/
structure Holds (h : Heap Int) (li : Nat) (cells rest : List (Nat × Int)) : Prop where
  chain : Chain h li cells
  owned : Owned h (addresses cells ++ addresses rest)
  rest : Blocks.Holds (valuesIn h) rest

/-- One memory can follow another if the cells of `rest` are as they were and still apart. -/
structure Extends (mem mem' : Memory) (rest rest' : List (Nat × Int)) : Prop where
  out : mem'.out = mem.out
  rest : ∀ a ∈ addresses rest, a ∈ addresses rest' ∧ mem'.cells a = mem.cells a

theorem Extends.refl (mem : Memory) (rest : List (Nat × Int)) : Extends mem mem rest rest :=
  ⟨rfl, fun _ ha => ⟨ha, rfl⟩⟩

theorem Extends.trans {mem mem' mem'' : Memory} {rest rest' rest'' : List (Nat × Int)}
    (h : Extends mem mem' rest rest') (h' : Extends mem' mem'' rest' rest'') :
    Extends mem mem'' rest rest'' where
  out := h'.out.trans h.out
  rest a ha := by
    obtain ⟨ha', hsame⟩ := h.rest a ha
    obtain ⟨ha'', hsame'⟩ := h'.rest a ha'
    exact ⟨ha'', hsame'.trans hsame⟩

section Adding
variable {malloc : Malloc} {ok : Nat → Bool}

theorem addElement_spec (hmalloc : Allocates malloc ok) {mem : Memory} {dst : Nat}
    {cells rest : List (Nat × Int)} (h : Holds mem.cells dst cells rest) (value : Int) :
    let added := addElement malloc mem dst value
    added.1.mallocs = mem.mallocs + 1 ∧ ∃ cells' rest', Holds added.1.cells added.2 cells' rest' ∧
      Extends mem added.1 rest rest' ∧
      contents cells' = (if ok mem.mallocs then value :: contents cells else []) ∧
      (contents rest').Perm (contents rest ++ if ok mem.mallocs then [] else contents cells) := by
  unfold addElement
  dsimp only
  cases hok : ok mem.mallocs with
  | false =>
    have hzero : malloc mem.mallocs mem.cells = 0 := by
      by_contra hne
      rw [(hmalloc.ne_zero_iff _ _ _ h.owned).mp hne] at hok
      cases hok
    rw [if_pos hzero]
    refine ⟨rfl, [], cells ++ rest, ⟨.nil, ?_, List.forall_mem_append.mpr ⟨h.chain.holds, h.rest⟩⟩,
      ⟨rfl, fun a ha => ⟨?_, rfl⟩⟩, rfl, ?_⟩
    · rw [addresses_append]
      exact h.owned
    · rw [addresses_append]
      exact List.mem_append_right _ ha
    · rw [contents_append]
      exact List.perm_append_comm
  | true =>
    have hne := (hmalloc.ne_zero_iff mem.mallocs mem.cells _ h.owned).mpr hok
    have hfree := hmalloc.free _ _ hne
    rw [if_neg hne]
    generalize malloc mem.mallocs mem.cells = a at hne hfree
    have hsame : ∀ b, (mem.cells b).isSome →
        Function.update mem.cells a (some ⟨value, dst⟩) b = mem.cells b := by
      intro b hb
      apply Function.update_of_ne
      rintro rfl
      rw [hfree] at hb
      cases hb
    have hrest : ∀ b ∈ addresses rest,
        Function.update mem.cells a (some ⟨value, dst⟩) b = mem.cells b :=
      fun b hb => hsame b (h.owned.mem_iff.mpr (List.mem_append_right _ hb))
    refine ⟨rfl, (a, value) :: cells, rest, ⟨.cons hne (Function.update_self ..) ?_,
      h.owned.alloc hfree _, ?_⟩, ⟨rfl, fun b hb => ⟨hb, hrest b hb⟩⟩, rfl, ?_⟩
    · exact h.chain.congr fun b hb => hsame b (h.chain.isSome hb)
    · exact h.rest.congr fun b hb => congrArg (Option.map Cell.value) (hrest b hb)
    · rw [if_pos rfl, List.append_nil]

theorem addElements_spec (hmalloc : Allocates malloc ok) (more : List Int) {mem : Memory}
    {dst : Nat} {cells rest : List (Nat × Int)} (h : Holds mem.cells dst cells rest) :
    let added := more.foldl (fun s value => addElement malloc s.1 s.2 value) (mem, dst)
    added.1.mallocs = mem.mallocs + more.length ∧
      ∃ cells' rest', Holds added.1.cells added.2 cells' rest' ∧ Extends mem added.1 rest rest' ∧
        contents cells' = pushAll ok mem.mallocs (contents cells) more ∧
        (contents rest').Perm (contents rest ++ lost ok mem.mallocs (contents cells) more) := by
  induction more generalizing mem dst cells rest with
  | nil =>
    refine ⟨rfl, cells, rest, h, .refl mem rest, rfl, ?_⟩
    rw [lost, List.append_nil]
  | cons value more ih =>
    obtain ⟨hmallocs, cells₁, rest₁, h₁, hextends₁, hvalues₁, hrest₁⟩ :=
      addElement_spec hmalloc h value
    obtain ⟨hmallocs₂, cells₂, rest₂, h₂, hextends₂, hvalues₂, hrest₂⟩ := ih h₁
    rw [List.foldl_cons]
    rw [hmallocs, hvalues₁] at hvalues₂ hrest₂
    refine ⟨?_, cells₂, rest₂, h₂, hextends₁.trans hextends₂, hvalues₂, ?_⟩
    · rw [hmallocs₂, hmallocs, List.length_cons]
      omega
    · rw [lost, ← List.append_assoc]
      exact hrest₂.trans (hrest₁.append_right _)

/-- The source stays as it is, and its accepted values are pushed one after another. -/
theorem f_spec (hmalloc : Allocates malloc ok) (func : Int → Int) {mem : Memory}
    {src dst : Nat} {source cells rest : List (Nat × Int)} (hsource : Chain mem.cells src source)
    (hapart : ∀ a ∈ addresses source, a ∈ addresses rest) (h : Holds mem.cells dst cells rest)
    {stack : Nat} (hstack : source.length < stack) :
    let accepted := (contents source).filter fun value => func value ≠ 0
    ∃ mem' dst', f malloc func stack mem src dst = .ok (mem', dst') ∧
      mem'.mallocs = mem.mallocs + accepted.length ∧
      ∃ cells' rest', Holds mem'.cells dst' cells' rest' ∧ Extends mem mem' rest rest' ∧
        contents cells' = pushAll ok mem.mallocs (contents cells) accepted ∧
        (contents rest').Perm
          (contents rest ++ lost ok mem.mallocs (contents cells) accepted) := by
  intro accepted
  obtain ⟨stack, rfl⟩ : ∃ n, stack = n + 1 := ⟨stack - 1, by omega⟩
  induction source generalizing mem src dst cells rest stack with
  | nil =>
    cases hsource
    refine ⟨mem, dst, rfl, rfl, cells, rest, h, .refl mem rest, rfl, ?_⟩
    exact List.Perm.of_eq (List.append_nil _).symm
  | cons cell source ih =>
    obtain ⟨a, value⟩ := cell
    obtain ⟨n, rfl⟩ : ∃ n, stack = n + 1 := ⟨stack - 1, by rw [List.length_cons] at hstack; omega⟩
    have hlt : source.length < n + 1 := by
      rw [List.length_cons] at hstack
      omega
    rw [addresses_cons, List.forall_mem_cons] at hapart
    cases hsource with
    | @cons _ next _ _ ha hcell htail =>
      have hload : ∀ {mem' : Memory}, mem'.cells src = mem.cells src →
          load mem' src = .ok ⟨value, next⟩ := by
        intro mem' hsame
        rw [load, hsame, hcell]
      by_cases hfunc : func value ≠ 0
      · obtain ⟨hmallocs, cells₁, rest₁, h₁, hextends₁, hvalues₁, hrest₁⟩ :=
          addElement_spec hmalloc h value
        have hsame : ∀ b ∈ addresses source,
            (addElement malloc mem dst value).1.cells b = mem.cells b :=
          fun b hb => (hextends₁.rest b (hapart.2 b hb)).2
        obtain ⟨mem₂, dst₂, hf, hmallocs₂, cells₂, rest₂, h₂, hextends₂, hvalues₂, hrest₂⟩ :=
          ih (htail.congr hsame) (fun b hb => (hextends₁.rest b (hapart.2 b hb)).1) h₁ n hlt
        have haccepted :
            accepted = value :: (contents source).filter fun value => func value ≠ 0 := by
          simp only [accepted, contents_cons]
          exact List.filter_cons_of_pos (by simpa using hfunc)
        rw [hmallocs, hvalues₁] at hvalues₂ hrest₂
        refine ⟨mem₂, dst₂, ?_, ?_, cells₂, rest₂, h₂, hextends₁.trans hextends₂, ?_, ?_⟩
        · rw [f, if_neg ha, hload rfl, ← hf]
          simp only [bind, Except.bind, if_pos hfunc]
          rw [hload (hextends₁.rest src hapart.1).2]
        · rw [hmallocs₂, hmallocs, haccepted, List.length_cons]
          omega
        · rw [hvalues₂, haccepted, pushAll]
        · rw [haccepted, lost, ← List.append_assoc]
          exact hrest₂.trans (hrest₁.append_right _)
      · obtain ⟨mem₂, dst₂, hf, hmallocs₂, cells₂, rest₂, h₂, hextends₂, hvalues₂, hrest₂⟩ :=
          ih htail hapart.2 h n hlt
        have haccepted : accepted = (contents source).filter fun value => func value ≠ 0 := by
          simp only [accepted, contents_cons]
          exact List.filter_cons_of_neg (by simpa using hfunc)
        rw [haccepted]
        refine ⟨mem₂, dst₂, ?_, hmallocs₂, cells₂, rest₂, h₂, hextends₂, hvalues₂, hrest₂⟩
        rw [f, if_neg ha, hload rfl, ← hf]
        simp only [bind, Except.bind, if_neg hfunc]
        rw [hload rfl]

end Adding

/-! ## For each element -/

theorem m_printInt_spec {mem : Memory} {li : Nat} {cells : List (Nat × Int)}
    (hchain : Chain mem.cells li cells) {stack : Nat} (hstack : cells.length < stack) :
    ∃ mem', m printInt stack mem li = .ok mem' ∧ puts mem' =
      { mem with out := mem.out ++ line (contents cells) } := by
  obtain ⟨stack, rfl⟩ : ∃ n, stack = n + 1 := ⟨stack - 1, by omega⟩
  induction cells generalizing mem li stack with
  | nil =>
    cases hchain
    exact ⟨mem, rfl, rfl⟩
  | cons cell cells ih =>
    obtain ⟨n, rfl⟩ : ∃ n, stack = n + 1 := ⟨stack - 1, by rw [List.length_cons] at hstack; omega⟩
    have hlt : cells.length < n + 1 := by
      rw [List.length_cons] at hstack
      omega
    cases hchain with
    | @cons _ next value _ ha hcell htail =>
      have hload : load mem li = .ok ⟨value, next⟩ := by rw [load, hcell]
      obtain ⟨mem', hm, hputs⟩ := @ih
        { mem with out := mem.out ++ ascii (toString value) ++ ascii " " } next htail n hlt
      refine ⟨mem', ?_, ?_⟩
      · rw [m, if_neg ha, hload, ← hm]
        simp only [bind, Except.bind, printInt, hload]
        rfl
      · rw [hputs]
        simp only [line, contents_cons, List.flatMap_cons, List.append_assoc]

theorem m_freeElement_spec {mem : Memory} {li : Nat} {cells : List (Nat × Int)}
    (hchain : Chain mem.cells li cells) {rest : List Nat}
    (howned : Owned mem.cells (addresses cells ++ rest)) {stack : Nat}
    (hstack : cells.length < stack) :
    ∃ mem', m freeElement stack mem li = .ok mem' ∧ mem'.out = mem.out ∧
      Owned mem'.cells rest ∧ ∀ a ∈ rest, mem'.cells a = mem.cells a := by
  obtain ⟨stack, rfl⟩ : ∃ n, stack = n + 1 := ⟨stack - 1, by omega⟩
  induction cells generalizing mem li stack with
  | nil =>
    cases hchain
    exact ⟨mem, rfl, rfl, howned, fun _ _ => rfl⟩
  | cons cell cells ih =>
    obtain ⟨n, rfl⟩ : ∃ n, stack = n + 1 := ⟨stack - 1, by rw [List.length_cons] at hstack; omega⟩
    have hlt : cells.length < n + 1 := by
      rw [List.length_cons] at hstack
      omega
    cases hchain with
    | @cons _ next value _ ha hcell htail =>
      have hload : load mem li = .ok ⟨value, next⟩ := by rw [load, hcell]
      have hapart : ∀ b ∈ addresses cells ++ rest, b ≠ li := by
        rintro b hb rfl
        exact (List.nodup_cons.mp (howned.nodup ())).1 hb
      have hsame : ∀ b ∈ addresses cells ++ rest,
          Function.update mem.cells li none b = mem.cells b :=
        fun b hb => Function.update_of_ne (hapart b hb) _ _
      obtain ⟨mem', hm, hout, hrest, hkept⟩ := @ih
        { mem with cells := Function.update mem.cells li none } next
        (htail.congr fun b hb => hsame b (List.mem_append_left _ hb)) howned.free n hlt
      refine ⟨mem', ?_, hout, hrest, fun b hb => (hkept b hb).trans ?_⟩
      · rw [m, if_neg ha, hload, ← hm]
        simp only [bind, Except.bind, freeElement, hload]
        rfl
      · exact hsame b (List.mem_append_right _ hb)

/-! ## The program -/

theorem pushAll_of_ok {ok : Nat → Bool} (hok : ∀ n, ok n = true) (n : Nat)
    (values more : List Int) :
    pushAll ok n values more = more.reverse ++ values ∧ lost ok n values more = [] := by
  induction more generalizing n values with
  | nil => exact ⟨rfl, rfl⟩
  | cons value more ih =>
    obtain ⟨hpush, hlost⟩ := ih (n + 1) (value :: values)
    rw [pushAll, lost, hok n, if_pos rfl, if_pos rfl, hpush, hlost, List.reverse_cons,
      List.append_assoc, List.singleton_append]
    exact ⟨rfl, rfl⟩

theorem length_pushAll_le (ok : Nat → Bool) (n : Nat) (values more : List Int) :
    (pushAll ok n values more).length ≤ values.length + more.length := by
  induction more generalizing n values with
  | nil => exact Nat.le_refl _
  | cons value more ih =>
    have hrec := ih (n + 1) (if ok n then value :: values else [])
    have hle : (if ok n then value :: values else []).length ≤ values.length + 1 := by
      split
      · exact Nat.le_of_eq List.length_cons
      · exact Nat.zero_le _
    rw [pushAll, List.length_cons]
    omega

/-- Allocated are cells with these values, in some order, and nothing else. -/
def Leaks (mem : Memory) (values : List Int) : Prop :=
  ∃ cells : List (Nat × Int), Owned mem.cells (addresses cells) ∧
    Blocks.Holds (valuesIn mem.cells) cells ∧ (contents cells).Perm values

theorem Leaks.eq_empty {mem : Memory} (h : Leaks mem []) : mem.cells = fun _ => none := by
  obtain ⟨cells, howned, -, hnil⟩ := h
  rw [List.map_eq_nil_iff.mp hnil.eq_nil] at howned
  exact howned.eq_empty

/-- Two lists that are apart are freed one after the other. -/
theorem free_both {mem : Memory} {li li' : Nat} {cells cells' rest : List (Nat × Int)}
    (hchain : Chain mem.cells li cells) (hapart : ∀ a ∈ addresses cells, a ∈ addresses rest)
    (h : Holds mem.cells li' cells' rest) {values : List Int}
    (hvalues : (contents rest).Perm (contents cells ++ values)) {stack : Nat}
    (hstack : cells.length < stack) (hstack' : cells'.length < stack) :
    ∃ mem₁ mem₂, m freeElement stack mem li = .ok mem₁ ∧
      m freeElement stack mem₁ li' = .ok mem₂ ∧ mem₂.out = mem.out ∧ Leaks mem₂ values := by
  have hsub : cells ⊆ rest := hchain.holds.subset_of_addresses h.rest hapart
  obtain ⟨part, hpart, hsublist⟩ := List.subperm_of_subset (hchain.nodup.of_map _) hsub
  obtain ⟨leaked, hsplit⟩ := hsublist.exists_perm_append
  have hperm : rest.Perm (cells ++ leaked) := hsplit.trans (hpart.append_right leaked)
  have haddresses : (addresses rest).Perm (addresses cells ++ addresses leaked) := by
    rw [← addresses_append]
    exact hperm.map _
  have hcontents : (contents leaked).Perm values := by
    rw [← List.perm_append_left_iff (contents cells), ← contents_append]
    exact (hperm.map _).symm.trans hvalues
  have howned : Owned mem.cells (addresses cells ++ (addresses cells' ++ addresses leaked)) := by
    refine h.owned.perm ((haddresses.append_left _).trans ?_)
    rw [← List.append_assoc, ← List.append_assoc]
    exact List.perm_append_comm.append_right _
  obtain ⟨mem₁, hm₁, hout₁, howned₁, hkept₁⟩ := m_freeElement_spec hchain howned hstack
  have hchain₁ : Chain mem₁.cells li' cells' :=
    h.chain.congr fun a ha => hkept₁ a (List.mem_append_left _ ha)
  obtain ⟨mem₂, hm₂, hout₂, howned₂, hkept₂⟩ := m_freeElement_spec hchain₁ howned₁ hstack'
  have hleaked : Blocks.Holds (valuesIn mem₂.cells) leaked := by
    have hbefore := h.rest.of_subset fun c hc => hperm.mem_iff.mpr (List.mem_append_right _ hc)
    refine hbefore.congr fun a ha => congrArg (Option.map Cell.value) ?_
    exact (hkept₂ a ha).trans (hkept₁ a (List.mem_append_right _ ha))
  exact ⟨mem₁, mem₂, hm₁, hm₂, hout₂.trans hout₁, leaked, howned₂, hleaked, hcontents⟩

/-- The first list, and what has been lost. -/
theorem addElements_empty {malloc : Malloc} {ok : Nat → Bool} (hmalloc : Allocates malloc ok)
    (data : List Int) :
    let added := addElements malloc ⟨fun _ => none, 0, []⟩ data
    added.1.mallocs = data.length ∧ added.1.out = [] ∧
      ∃ cells rest, Holds added.1.cells added.2 cells rest ∧
        contents cells = pushAll ok 0 [] data.reverse ∧
        (contents rest).Perm (lost ok 0 [] data.reverse) ∧ cells.length ≤ data.length := by
  have hempty : Holds (⟨fun _ => none, 0, []⟩ : Memory).cells 0 [] [] :=
    ⟨.nil, owns_empty, fun _ hc => absurd hc List.not_mem_nil⟩
  obtain ⟨hmallocs, cells, rest, h, hextends, hvalues, hlost⟩ :=
    addElements_spec hmalloc data.reverse hempty
  refine ⟨?_, hextends.out, cells, rest, h, hvalues, hlost, ?_⟩
  · rw [List.length_reverse, Nat.zero_add] at hmallocs
    exact hmallocs
  · have hle := length_pushAll_le ok 0 [] data.reverse
    rw [List.length_reverse, List.length_nil, Nat.zero_add] at hle
    rw [← length_contents, hvalues]
    exact hle

/-- `f` on a list, of which the copy is apart. It has no more elements than the list. -/
theorem f_beside {malloc : Malloc} {ok : Nat → Bool} (hmalloc : Allocates malloc ok)
    (func : Int → Int) {mem : Memory} {li : Nat} {cells rest : List (Nat × Int)}
    (h : Holds mem.cells li cells rest) {stack : Nat} (hstack : cells.length < stack) :
    let accepted := (contents cells).filter fun value => func value ≠ 0
    ∃ mem' dst, f malloc func stack mem li 0 = .ok (mem', dst) ∧ mem'.out = mem.out ∧
      Chain mem'.cells li cells ∧ ∃ cells' rest', Holds mem'.cells dst cells' rest' ∧
        (∀ a ∈ addresses cells, a ∈ addresses rest') ∧
        contents cells' = pushAll ok mem.mallocs [] accepted ∧
        (contents rest').Perm
          (contents cells ++ (contents rest ++ lost ok mem.mallocs [] accepted)) ∧
        cells'.length < stack := by
  intro accepted
  have hempty : Holds mem.cells 0 [] (cells ++ rest) := by
    refine ⟨.nil, ?_, List.forall_mem_append.mpr ⟨h.chain.holds, h.rest⟩⟩
    rw [addresses_append]
    exact h.owned
  have hapart : ∀ a ∈ addresses cells, a ∈ addresses (cells ++ rest) := fun a ha => by
    rw [addresses_append]
    exact List.mem_append_left _ ha
  obtain ⟨mem', dst, hf, -, cells', rest', h', hextends, hvalues, hlost⟩ :=
    f_spec hmalloc func h.chain hapart hempty hstack
  have hkept : ∀ a ∈ addresses cells, a ∈ addresses rest' ∧ mem'.cells a = mem.cells a :=
    fun a ha => hextends.rest a (hapart a ha)
  have hchain := h.chain.congr fun a ha => (hkept a ha).2
  refine ⟨mem', dst, hf, hextends.out, hchain, cells', rest', h', fun a ha => (hkept a ha).1,
    hvalues, ?_, ?_⟩
  · rw [contents_append, List.append_assoc] at hlost
    exact hlost
  · have hpushed := length_pushAll_le ok mem.mallocs [] accepted
    have haccepted : accepted.length ≤ (contents cells).length := List.length_filter_le ..
    rw [List.length_nil, Nat.zero_add] at hpushed
    rw [length_contents] at haccepted
    rw [← length_contents, hvalues]
    exact Nat.lt_of_le_of_lt (Nat.le_trans hpushed haccepted) hstack

/-- Nothing is read or freed that is not allocated. The output is the list and the list that `f`
makes of its odd elements, and what stays allocated are the elements that a failing `malloc` has
cut off from the one or the other. -/
theorem elements_are_listed_and_freed {malloc : Malloc} {ok : Nat → Bool}
    (hmalloc : Allocates malloc ok) (data : List Int) {stack : Nat} (hstack : data.length < stack) :
    let first := pushAll ok 0 [] data.reverse
    let odd := first.filter fun value => p value ≠ 0
    ∃ mem, main malloc stack data = .ok mem ∧
      mem.out = line first ++ line (pushAll ok data.length [] odd) ∧
      Leaks mem (lost ok 0 [] data.reverse ++ lost ok data.length [] odd) ∧
      ((∀ n, ok n = true) → mem.cells = (fun _ => none) ∧ mem.out =
        line data ++ line (data.filter fun value => p value ≠ 0).reverse) := by
  intro first odd
  obtain ⟨hmallocs₁, hout₁, cells₁, rest₁, h₁, hvalues₁, hlost₁, hle₁⟩ :=
    addElements_empty hmalloc data
  rcases hadded : addElements malloc ⟨fun _ => none, 0, []⟩ data with ⟨mem₁, firstLe1⟩
  rw [hadded] at hmallocs₁ hout₁ h₁
  dsimp only at hmallocs₁ hout₁ h₁
  have hfirst : contents cells₁ = first := hvalues₁
  replace hle₁ : cells₁.length < stack := Nat.lt_of_le_of_lt hle₁ hstack
  obtain ⟨mem₁', hm₁, hputs₁⟩ := m_printInt_spec h₁.chain hle₁
  have hprinted : Holds (puts mem₁').cells firstLe1 cells₁ rest₁ := by
    rw [hputs₁]
    exact h₁
  obtain ⟨mem₂, firstLe2, hf, hout₂, hchain, cells₂, rest₂, h₂, hapart, hvalues₂, hlost₂, hle₂⟩ :=
    f_beside hmalloc p hprinted hle₁
  rw [hputs₁] at hvalues₂ hlost₂
  dsimp only at hvalues₂ hlost₂
  rw [hfirst, hmallocs₁] at hvalues₂ hlost₂
  obtain ⟨mem₂', hm₂, hputs₂⟩ := m_printInt_spec h₂.chain hle₂
  have hcells₂ : (puts mem₂').cells = mem₂.cells := by rw [hputs₂]
  have hlost : (contents rest₂).Perm (contents cells₁ ++
      (lost ok 0 [] data.reverse ++ lost ok data.length [] odd)) := by
    rw [hfirst]
    exact hlost₂.trans ((hlost₁.append_right _).append_left _)
  obtain ⟨mem₃, mem₄, hm₃, hm₄, hout₄, hleaks⟩ :=
    free_both (hcells₂ ▸ hchain) hapart (hcells₂ ▸ h₂) hlost hle₁ hle₂
  have hout : mem₄.out = line first ++ line (pushAll ok data.length [] odd) := by
    rw [hout₄, hputs₂, hvalues₂, hout₂, hputs₁, hout₁, hfirst]
    rfl
  refine ⟨mem₄, ?_, hout, hleaks, fun hok => ?_⟩
  · unfold main
    rw [hadded]
    simp only [bind, Except.bind, hm₁, hf, hm₂, hm₃, hm₄]
  · obtain ⟨hpush₁, hnone₁⟩ := pushAll_of_ok hok 0 [] data.reverse
    obtain ⟨hpush₂, hnone₂⟩ := pushAll_of_ok hok data.length [] odd
    have hdata : first = data := by
      rw [← List.reverse_reverse data, ← List.append_nil data.reverse.reverse]
      exact hpush₁
    constructor
    · rw [hnone₁, hnone₂] at hleaks
      exact hleaks.eq_empty
    · rw [hout, hpush₂, List.append_nil, hdata]
      simp only [odd, hdata]

open Classical in
/-- The third and the seventh call fail, and every other one finds an address. -/
noncomputable def exampleMalloc : Malloc := fun n h =>
  if hfree : (n ≠ 2 ∧ n ≠ 6) ∧ ∃ a, a ≠ 0 ∧ h a = none then hfree.2.choose else 0

theorem exampleMalloc_allocates : Allocates exampleMalloc fun n => n ≠ 2 ∧ n ≠ 6 where
  ne_zero_iff n h live howned := by
    have hfree : ∃ a, a ≠ 0 ∧ h a = none := by
      obtain ⟨a, ha⟩ := Infinite.exists_notMem_finset (insert 0 live.toFinset)
      rw [Finset.mem_insert, List.mem_toFinset, not_or, ← howned.mem_iff] at ha
      exact ⟨a, ha.1, by simpa using ha.2⟩
    unfold exampleMalloc
    by_cases hn : n ≠ 2 ∧ n ≠ 6
    · rw [dif_pos ⟨hn, hfree⟩]
      simpa [hn] using hfree.choose_spec.1
    · rw [dif_neg fun hboth => hn hboth.1]
      simpa using hn
  free n h hne := by
    unfold exampleMalloc at hne ⊢
    split at hne
    · rename_i hfree
      rw [dif_pos hfree]
      exact hfree.2.choose_spec.2
    · exact absurd rfl hne

/-- The one failing call cuts off 23 and 42 from the list, the other one 3 from its odd elements. -/
theorem elements_are_listed_and_freed_of_five :
    ∃ mem, main exampleMalloc 6 [3, 15, 8, 23, 42] = .ok mem ∧
      mem.out = line [3, 15] ++ line [] ∧ Leaks mem [23, 42, 3] := by
  have hstack : [3, 15, 8, 23, 42].length < 6 := by decide
  obtain ⟨mem, hmain, hout, hleaks, -⟩ :=
    elements_are_listed_and_freed exampleMalloc_allocates [3, 15, 8, 23, 42] hstack
  exact ⟨mem, hmain, hout, hleaks⟩

end Homework.Asm
