import Mathlib.Algebra.Order.Group.Nat
import Homework.Shared.Bytes
import Homework.TopN.Container

/-!
# Printing the leading items

`topn_cont_print` of `hw10-threads/topn_container.c`. The count is cut to the capacity and to
the length of the list. The loop prints an item and looks only then whether it has reached the
count, so that it prints one item more, unless the list ends before.
-/

namespace Homework.TopN

set_option autoImplicit false

universe u

/-- The length of a `GSList`, which is a `guint`. -/
def gSListLength {α : Type u} (list : List α) : Nat := list.length % 2 ^ 32

section Print

variable {κ : Type u} (name : κ → List UInt8)

def printItem (item : ListItem κ) : List UInt8 :=
  name item.key ++ ascii " => " ++ ascii (toString item.value) ++ ascii "\n"

/-- The loop of `topn_cont_print`, `i` items of the list behind it. -/
def printLoop (count : Nat) : Nat → List (ListItem κ) → List UInt8
  | _, [] => []
  | i, item :: list =>
    printItem name item ++ if i = count then [] else printLoop count (i + 1) list

def topnContPrint (cont : TopNContainer κ) (count : Nat) : List UInt8 :=
  let count := if count > cont.capacity then cont.capacity else count
  let length := gSListLength cont.list
  let count := if count > length then length else count
  printLoop name count 0 cont.list

theorem printItem_ne_nil (item : ListItem κ) : printItem name item ≠ [] := by
  simp [printItem, ascii]

theorem printLoop_eq {count i : Nat} (h : i ≤ count) (list : List (ListItem κ)) :
    printLoop name count i list = (list.take (count + 1 - i)).flatMap (printItem name) := by
  induction list generalizing i with
  | nil => simp [printLoop]
  | cons item list ih =>
    have htake : count + 1 - i = count - i + 1 := by omega
    rw [printLoop, htake, List.take_succ_cons, List.flatMap_cons]
    split
    · rename_i hi
      rw [hi, Nat.sub_self, List.take_zero, List.flatMap_nil]
    · rename_i hi
      have hrest : count + 1 - (i + 1) = count - i := by omega
      rw [ih (by omega), hrest]

theorem flatMap_take_ne {α : Type u} {text : α → List UInt8} (htext : ∀ a, text a ≠ [])
    {list : List α} {m n : Nat} (hmn : m < n) (hn : n ≤ list.length) :
    (list.take m).flatMap text ≠ (list.take n).flatMap text := by
  intro heq
  have hsplit : list.take n = list.take m ++ (list.drop m).take (n - m) := by
    rw [← List.take_add, Nat.add_sub_of_le hmn.le]
  rw [hsplit, List.flatMap_append, List.self_eq_append_right, List.flatMap_eq_nil_iff] at heq
  obtain ⟨a, more, hmore⟩ := List.exists_cons_of_length_pos
    (l := (list.drop m).take (n - m)) (by rw [List.length_take, List.length_drop]; omega)
  apply htext a
  apply heq
  rw [hmore]
  exact List.mem_cons_self

theorem flatMap_take_eq_iff {α : Type u} {text : α → List UInt8} (htext : ∀ a, text a ≠ [])
    {list : List α} {m n : Nat} (hm : m ≤ list.length) (hn : n ≤ list.length) :
    (list.take m).flatMap text = (list.take n).flatMap text ↔ m = n := by
  constructor
  · intro heq
    rcases Nat.lt_trichotomy m n with hlt | hmn | hlt
    · exact absurd heq (flatMap_take_ne htext hlt hn)
    · exact hmn
    · exact absurd heq.symm (flatMap_take_ne htext hlt hm)
  · rintro rfl
    rfl

theorem topnContPrint_eq (cont : TopNContainer κ) (count : Nat) :
    topnContPrint name cont count = (cont.list.take
      (min (min count cont.capacity) (gSListLength cont.list) + 1)).flatMap (printItem name) := by
  have hclamp : ∀ a b : Nat, (if a > b then b else a) = min a b := by
    intro a b
    split <;> omega
  unfold topnContPrint
  dsimp only
  rw [hclamp, hclamp, printLoop_eq name (Nat.zero_le _), Nat.sub_zero]

/-- What is printed is what was asked for when all of the list was. A list of at least 2^32
items has another length for `g_slist_length`, which may be just one too small. -/
theorem print_is_leading_iff {cont : TopNContainer κ} (hcap : cont.list.length ≤ cont.capacity)
    (count : Nat) :
    topnContPrint name cont count = (cont.list.take
      (min count (min cont.capacity cont.list.length))).flatMap (printItem name) ↔
        cont.list.length < 2 ^ 32 ∧ cont.list.length ≤ count ∨
          2 ^ 32 ≤ cont.list.length ∧ count = cont.list.length % 2 ^ 32 + 1 := by
  have hcut : ∀ n, cont.list.take n = cont.list.take (min n cont.list.length) := by
    intro n
    rw [← List.take_eq_take_min]
  rw [topnContPrint_eq, hcut (_ + 1), flatMap_take_eq_iff (printItem_ne_nil name)
    (Nat.min_le_right _ _) (by omega), gSListLength]
  have hmod := Nat.mod_lt cont.list.length (show 2 ^ 32 > 0 by decide)
  rcases Nat.lt_or_ge cont.list.length (2 ^ 32) with hlt | hge
  · rw [Nat.mod_eq_of_lt hlt]
    omega
  · omega

theorem print_is_leading_iff_of_two :
    topnContPrint ascii ⟨[⟨"a", 2⟩, ⟨"b", 1⟩], 5⟩ 10 = (([⟨"a", 2⟩, ⟨"b", 1⟩] :
      List (ListItem String)).take (min 10 (min 5 2))).flatMap (printItem ascii) :=
  (@print_is_leading_iff String ascii ⟨[⟨"a", 2⟩, ⟨"b", 1⟩], 5⟩ (by decide) 10).mpr
    (Or.inl (by decide))

theorem print_goes_one_too_far :
    topnContPrint ascii ⟨[⟨"a", 2⟩, ⟨"b", 1⟩], 5⟩ 0 ≠ (([⟨"a", 2⟩, ⟨"b", 1⟩] :
      List (ListItem String)).take (min 0 (min 5 2))).flatMap (printItem ascii) := by
  decide

end Print

end Homework.TopN
