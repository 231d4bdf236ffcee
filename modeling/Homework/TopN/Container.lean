import Mathlib.Data.List.Sort
import Homework.Shared.CInt
import Homework.Shared.Run

/-!
# The top-N container

`hw10-threads/topn_container.c`: a list of (key, value) items kept in non-increasing
order of value. A new key is inserted at its place, a known key is changed in place and
the list sorted again, and a separate loop then cuts the list to the capacity.

Keys are compared with `g_strcmp0` only, so they are any type with decidable equality.
Values are `gint`, 32 bits with wrapping sums; `capacity` is a `size_t` made from an `int`.
GLib's sorted insertion and sort are Mathlib's `orderedInsert` and `insertionSort`: the
first goes before the first element it does not compare above, the second is stable.
-/

namespace Homework.TopN

set_option autoImplicit false

universe u

structure ListItem (κ : Type u) where
  key : κ
  value : Int
  deriving DecidableEq, Repr

structure TopNContainer (κ : Type u) where
  list : List (ListItem κ)
  capacity : Nat
  deriving DecidableEq, Repr

variable {κ : Type u}

def topnContInit (capacity : Int) : TopNContainer κ :=
  { list := [], capacity := (capacity % 2 ^ 64).toNat }

def topnValueCompare (a b : ListItem κ) : Int :=
  if a.value < b.value then 1 else if a.value > b.value then -1 else 0

def NotAfter (a b : ListItem κ) : Prop := topnValueCompare a b ≤ 0

instance : DecidableRel (NotAfter (κ := κ)) := fun a b =>
  inferInstanceAs (Decidable (topnValueCompare a b ≤ 0))

def gSListInsertSorted (list : List (ListItem κ)) (item : ListItem κ) : List (ListItem κ) :=
  list.orderedInsert NotAfter item

def gSListSort (list : List (ListItem κ)) : List (ListItem κ) := list.insertionSort NotAfter

variable [DecidableEq κ]

/-- The search loop of `topn_cont_add_item`; `none` when it ends on the list's end. -/
def addToItem (key : κ) (value : Int) : List (ListItem κ) → Option (List (ListItem κ))
  | [] => none
  | item :: rest =>
    if item.key = key then some ({ item with value := intAdd item.value value } :: rest)
    else (addToItem key value rest).map (item :: ·)

def topnContAddItem (cont : TopNContainer κ) (key : κ) (value : Int) : TopNContainer κ :=
  match addToItem key value cont.list with
  | none => { cont with list := gSListInsertSorted cont.list ⟨key, value⟩ }
  | some list => { cont with list := gSListSort list }

omit [DecidableEq κ] in
theorem length_eraseIdx_lt {l : List (ListItem κ)} {n : Nat} (h : n < l.length) :
    (l.eraseIdx n).length < l.length := by
  rw [List.length_eraseIdx_of_lt h]
  omega

/-- `g_slist_remove` finds its node by the item's address, and no two nodes share an item,
so the node removed is the one at position `capacity`. -/
def topnContPrepCapacity (cont : TopNContainer κ) : TopNContainer κ :=
  if cont.capacity < cont.list.length then
    topnContPrepCapacity { cont with list := cont.list.eraseIdx cont.capacity }
  else cont
termination_by cont.list.length
decreasing_by exact length_eraseIdx_lt (by assumption)

def topnContAdd (cont : TopNContainer κ) (key : κ) (value : Int) : TopNContainer κ :=
  topnContPrepCapacity (topnContAddItem cont key value)

/-- `topn_cont_merge` up to its last call: the items of `src` added one by one while the
capacity is raised, and the capacity put back. -/
def topnContMergeItems (dst src : TopNContainer κ) : TopNContainer κ :=
  let srcCopy := src.list
  let capacity := dst.capacity
  let raised := { dst with capacity := (dst.capacity + src.capacity) % 2 ^ 64 }
  let filled := srcCopy.foldl (fun d item => topnContAddItem d item.key item.value) raised
  { filled with capacity }

def topnContMerge (dst src : TopNContainer κ) : TopNContainer κ :=
  topnContPrepCapacity (topnContMergeItems dst src)

/-! ## A pool of containers -/

universe v
variable {ι : Type v} [DecidableEq ι]

inductive Call (ι : Type v) (κ : Type u) where
  | add (cont : ι) (key : κ) (value : Int)
  | merge (dst src : ι)

def Call.Distinct : Call ι κ → Prop
  | .add _ _ _ => True
  | .merge dst src => dst ≠ src

def step (pool : ι → TopNContainer κ) : Call ι κ → ι → TopNContainer κ
  | .add i key value => Function.update pool i (topnContAdd (pool i) key value)
  | .merge dst src => Function.update pool dst (topnContMerge (pool dst) (pool src))

def initPool (capacity : ι → Int) : ι → TopNContainer κ := fun i => topnContInit (capacity i)

end Homework.TopN
