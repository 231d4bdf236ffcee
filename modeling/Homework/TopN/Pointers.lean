import Homework.Shared.Blocks
import Homework.TopN.Order

/-!
# The container by its pointers

`hw10-threads/topn_container.c` once more, now with the items as blocks that `li_init` allocates
and `li_free` frees. The data of a list node is the address of an item, and `g_slist_remove` looks
for that address. Of the nodes themselves, which belong to GLib, it is counted how many are
allocated. The items have one owner each, so that the containers come to what `TopNContainer`
makes of them, and no item is read or freed that has been freed before.
-/

namespace Homework.TopN.Pointers

set_option autoImplicit false

open Blocks

universe v
variable {κ : Type}

/-! ## The code -/

structure Memory (κ : Type) where
  items : Store (ListItem κ)
  /-- The number of list nodes that are allocated. -/
  nodes : Nat

structure TopNContainer where
  list : List Nat
  capacity : Nat

def topnContInit (capacity : Int) : TopNContainer :=
  { list := [], capacity := (capacity % 2 ^ 64).toNat }

section Code
variable (malloc : Store (ListItem κ) → Nat)

/-- `li_init`: the item and its copy of the key. -/
def liInit (mem : Memory κ) (key : κ) (value : Int) : Memory κ × Nat :=
  let item := malloc mem.items
  ({ mem with items := Function.update mem.items item (some ⟨key, value⟩) }, item)

def liFree (mem : Memory κ) (item : Nat) : Option (Memory κ) := do
  let _ ← mem.items item
  return { mem with items := Function.update mem.items item none }

def gSListInsertSorted (mem : Memory κ) (list : List Nat) (data : Nat) :
    Option (Memory κ × List Nat) := do
  let cells ← load mem.items list
  let item ← mem.items data
  let list := addresses (cells.orderedInsert (fun c d => NotAfter c.2 d.2) (data, item))
  return ({ mem with nodes := mem.nodes + 1 }, list)

def gSListSort (mem : Memory κ) (list : List Nat) : Option (List Nat) := do
  let cells ← load mem.items list
  return addresses (cells.insertionSort fun c d => NotAfter c.2 d.2)

/-- Without the first node with this data. -/
def gSListRemove (mem : Memory κ) (list : List Nat) (data : Nat) : Memory κ × List Nat :=
  ({ mem with nodes := mem.nodes - 1 }, list.erase data)

variable [DecidableEq κ]

/-- The search loop of `topn_cont_add_item`, and whether it has found the key. -/
def addToItem (mem : Memory κ) (key : κ) (value : Int) : List Nat → Option (Memory κ × Bool)
  | [] => some (mem, false)
  | iter :: rest => do
    let item ← mem.items iter
    if item.key = key then
      let item := { item with value := intAdd item.value value }
      return ({ mem with items := Function.update mem.items iter (some item) }, true)
    else addToItem mem key value rest

def topnContAddItem (mem : Memory κ) (cont : TopNContainer) (key : κ) (value : Int) :
    Option (Memory κ × TopNContainer) := do
  let (mem, found) ← addToItem mem key value cont.list
  if found then
    let list ← gSListSort mem cont.list
    return (mem, { cont with list })
  else
    let (mem, item) := liInit malloc mem key value
    let (mem, list) ← gSListInsertSorted mem cont.list item
    return (mem, { cont with list })

omit [DecidableEq κ] in
def topnContPrepCapacity (mem : Memory κ) (cont : TopNContainer) :
    Option (Memory κ × TopNContainer) :=
  if h : cont.capacity < cont.list.length then do
    let last := cont.list[cont.capacity]
    let removed := gSListRemove mem cont.list last
    let mem ← liFree removed.1 last
    topnContPrepCapacity mem { cont with list := removed.2 }
  else some (mem, cont)
termination_by cont.list.length
decreasing_by
  rw [gSListRemove, List.length_erase_of_mem (List.getElem_mem h)]
  exact Nat.sub_one_lt (Nat.ne_of_gt (Nat.zero_lt_of_lt h))

def topnContAdd (mem : Memory κ) (cont : TopNContainer) (key : κ) (value : Int) :
    Option (Memory κ × TopNContainer) := do
  let (mem, cont) ← topnContAddItem malloc mem cont key value
  topnContPrepCapacity mem cont

/-- A round of the loop of `topn_cont_merge`. -/
def mergeItem (s : Memory κ × TopNContainer) (iter : Nat) : Option (Memory κ × TopNContainer) := do
  let item ← s.1.items iter
  topnContAddItem malloc s.1 s.2 item.key item.value

/-- The nodes of the copied list are not freed. -/
def topnContMerge (mem : Memory κ) (dst src : TopNContainer) :
    Option (Memory κ × TopNContainer) := do
  let srcCopy := src.list
  let mem := { mem with nodes := mem.nodes + srcCopy.length }
  let capacity := dst.capacity
  let raised := { dst with capacity := (dst.capacity + src.capacity) % 2 ^ 64 }
  let (mem, filled) ← srcCopy.foldlM (mergeItem malloc) (mem, raised)
  topnContPrepCapacity mem { filled with capacity }

omit [DecidableEq κ] in
def topnContFree (mem : Memory κ) (cont : TopNContainer) : Option (Memory κ) := do
  let mem ← cont.list.foldlM liFree mem
  return { mem with nodes := mem.nodes - cont.list.length }

end Code

/-! ## One container -/

/-- What the container comes to. -/
structure Reads (h : Store (ListItem κ)) (cont : TopNContainer) (c : TopN.TopNContainer κ) :
    Prop where
  list : ∃ cells, cont.list = addresses cells ∧ Holds h cells ∧ contents cells = c.list
  capacity : cont.capacity = c.capacity

section Container
variable {ι : Type v} {own : ι → List Nat} {i : ι} {mem mem' mem'' : Memory κ}
variable {cont cont' cont'' : TopNContainer} {c c' c'' : TopN.TopNContainer κ}

theorem Reads.length_eq {h : Store (ListItem κ)} (hreads : Reads h cont c) :
    cont.list.length = c.list.length := by
  obtain ⟨cells, hlist, -, hcontents⟩ := hreads.list
  rw [hlist, ← hcontents, length_addresses, length_contents]

theorem Reads.congr {h h' : Store (ListItem κ)} (hreads : Reads h cont c)
    (hsame : ∀ a ∈ cont.list, h' a = h a) : Reads h' cont c := by
  obtain ⟨⟨cells, hlist, hcells, hcontents⟩, hcapacity⟩ := hreads
  rw [hlist] at hsame
  exact ⟨⟨cells, hlist, hcells.congr hsame, hcontents⟩, hcapacity⟩

variable [DecidableEq ι]

/-- The owner `i` has one container and then another one, and the other owners see nothing
of it. -/
structure Becomes (own : ι → List Nat) (i : ι) (mem mem' : Memory κ) (cont cont' : TopNContainer)
    (c' : TopN.TopNContainer κ) : Prop where
  owns : Owns mem'.items (Function.update own i cont'.list)
  reads : Reads mem'.items cont' c'
  frame : ∀ j, j ≠ i → ∀ a ∈ own j, mem'.items a = mem.items a
  nodes : mem'.nodes + cont.list.length = mem.nodes + cont'.list.length

theorem Becomes.trans (h : Becomes own i mem mem' cont cont' c')
    (h' : Becomes (Function.update own i cont'.list) i mem' mem'' cont' cont'' c'') :
    Becomes own i mem mem'' cont cont'' c'' where
  owns := by
    have howns := h'.owns
    rwa [Function.update_idem] at howns
  reads := h'.reads
  frame j hj a ha := by
    have hsame := h'.frame j hj a
    rw [Function.update_of_ne hj] at hsame
    exact (hsame ha).trans (h.frame j hj a ha)
  nodes := by
    have hnodes := h.nodes
    have hnodes' := h'.nodes
    omega

variable [DecidableEq κ]

omit [DecidableEq ι] in
theorem addToItem_spec (mem : Memory κ) (key : κ) (value : Int) {cells : List (Nat × ListItem κ)}
    (hcells : Holds mem.items cells) (hnodup : (addresses cells).Nodup) :
    (addToItem mem key value (addresses cells) = some (mem, false) ∧
      TopN.addToItem key value (contents cells) = none) ∨
    ∃ a ∈ addresses cells, ∃ item cells', addToItem mem key value (addresses cells) =
        some ({ mem with items := Function.update mem.items a (some item) }, true) ∧
      TopN.addToItem key value (contents cells) = some (contents cells') ∧
      addresses cells' = addresses cells ∧
      Holds (Function.update mem.items a (some item)) cells' := by
  induction cells with
  | nil => exact Or.inl ⟨rfl, rfl⟩
  | cons cell cells ih =>
    obtain ⟨b, item⟩ := cell
    obtain ⟨hcell, hrest⟩ := holds_cons.mp hcells
    obtain ⟨hb, hnodup⟩ := List.nodup_cons.mp hnodup
    dsimp only at hcell hb
    simp only [addresses_cons, contents_cons, addToItem, TopN.addToItem, hcell, Option.bind_eq_bind,
      Option.bind_some]
    by_cases hkey : item.key = key
    · rw [if_pos hkey, if_pos hkey]
      refine Or.inr ⟨b, List.mem_cons_self, _,
        (b, { item with value := intAdd item.value value }) :: cells, rfl, rfl, rfl, ?_⟩
      exact holds_cons.mpr ⟨Function.update_self .., hrest.update hb _⟩
    · rw [if_neg hkey, if_neg hkey]
      rcases ih hrest hnodup with ⟨hsearch, hnone⟩ |
        ⟨a, ha, item', cells', hsearch, hsome, hsame, hheld⟩
      · rw [hnone]
        exact Or.inl ⟨hsearch, rfl⟩
      · rw [hsome]
        refine Or.inr ⟨a, List.mem_cons_of_mem b ha, item', (b, item) :: cells', hsearch, rfl,
          ?_, ?_⟩
        · rw [addresses_cons, hsame]
        · refine holds_cons.mpr ⟨?_, hheld⟩
          rw [Function.update_of_ne (ne_of_mem_of_not_mem ha hb).symm]
          exact hcell

omit [DecidableEq ι] [DecidableEq κ] in
theorem gSListSort_spec (mem : Memory κ) {cells : List (Nat × ListItem κ)}
    (hcells : Holds mem.items cells) : ∃ sorted, sorted.Perm cells ∧
      gSListSort mem (addresses cells) = some (addresses sorted) ∧
      contents sorted = TopN.gSListSort (contents cells) := by
  refine ⟨cells.insertionSort fun c d => NotAfter c.2 d.2, List.perm_insertionSort _ _, ?_, ?_⟩
  · rw [gSListSort, hcells.load_eq]
    rfl
  · exact List.map_insertionSort _ NotAfter Prod.snd cells fun _ _ _ _ => Iff.rfl

omit [DecidableEq ι] [DecidableEq κ] in
theorem gSListInsertSorted_spec (mem : Memory κ) (data : Nat)
    {cells : List (Nat × ListItem κ)} (hcells : Holds mem.items cells) {item : ListItem κ}
    (hdata : mem.items data = some item) : ∃ inserted, inserted.Perm ((data, item) :: cells) ∧
      gSListInsertSorted mem (addresses cells) data =
        some ({ mem with nodes := mem.nodes + 1 }, addresses inserted) ∧
      contents inserted = TopN.gSListInsertSorted (contents cells) item := by
  refine ⟨cells.orderedInsert (fun c d => NotAfter c.2 d.2) (data, item),
    List.perm_orderedInsert _ _ _, ?_, ?_⟩
  · rw [gSListInsertSorted, hcells.load_eq, hdata]
    rfl
  · exact List.map_orderedInsert _ NotAfter Prod.snd cells (data, item) (fun _ _ => Iff.rfl)
      fun _ _ => Iff.rfl

variable {malloc : Store (ListItem κ) → Nat}

theorem topnContAddItem_spec [Finite ι] (hmalloc : Fresh malloc) (howns : Owns mem.items own)
    (hi : own i = cont.list) (hreads : Reads mem.items cont c) (key : κ) (value : Int) :
    ∃ mem' cont', topnContAddItem malloc mem cont key value = some (mem', cont') ∧
      Becomes own i mem mem' cont cont' (TopN.topnContAddItem c key value) := by
  obtain ⟨list, capacity⟩ := cont
  obtain ⟨clist, ccapacity⟩ := c
  obtain ⟨⟨cells, hlist, hcells, hcontents⟩, hcapacity⟩ := hreads
  dsimp only at hlist hcontents hcapacity hi
  subst hlist hcontents hcapacity
  have hnodup : (addresses cells).Nodup := hi ▸ howns.nodup i
  rcases addToItem_spec mem key value hcells hnodup with ⟨hsearch, hnone⟩ |
    ⟨a, ha, item, cells', hsearch, hsome, hsame, hcells'⟩
  · have hfree := hmalloc mem.items howns.exists_eq_none
    have hnew : malloc mem.items ∉ addresses cells :=
      fun hmem => howns.eq_none_iff.mp hfree i (hi ▸ hmem)
    obtain ⟨inserted, hperm, hinsert, hvalues⟩ := gSListInsertSorted_spec
      (liInit malloc mem key value).1 (liInit malloc mem key value).2 (hcells.update hnew _)
      (Function.update_self ..)
    refine ⟨{ (liInit malloc mem key value).1 with nodes := mem.nodes + 1 },
      ⟨addresses inserted, capacity⟩, ?_, ?_, ?_, ?_, ?_⟩
    · rw [topnContAddItem, hsearch]
      simp only [Option.bind_eq_bind, Option.bind_some, Bool.false_eq_true, if_false]
      rw [hinsert]
      rfl
    · exact howns.alloc hfree _ ((hperm.map Prod.fst).trans (.of_eq (congrArg _ hi.symm)))
    · rw [TopN.topnContAddItem, hnone]
      refine ⟨⟨inserted, rfl, ?_, hvalues⟩, rfl⟩
      have hall : Holds (liInit malloc mem key value).1.items
          ((malloc mem.items, ⟨key, value⟩) :: cells) :=
        holds_cons.mpr ⟨Function.update_self .., hcells.update hnew _⟩
      exact hall.of_subset hperm.subset
    · intro j hj b hb
      exact Function.update_of_ne (ne_of_mem_of_not_mem hb (howns.eq_none_iff.mp hfree j)) _ _
    · have hlength := hperm.length_eq
      rw [List.length_cons] at hlength
      simp only [length_addresses, hlength]
      omega
  · obtain ⟨sorted, hperm, hsort, hvalues⟩ := gSListSort_spec
      { mem with items := Function.update mem.items a (some item) } hcells'
    refine ⟨{ mem with items := Function.update mem.items a (some item) },
      ⟨addresses sorted, capacity⟩, ?_, ?_, ?_, ?_, ?_⟩
    · rw [topnContAddItem, hsearch]
      simp only [Option.bind_eq_bind, Option.bind_some, if_true]
      rw [← hsame, hsort]
      rfl
    · refine (howns.write (i := i) (hi ▸ ha) item).perm ?_
      rw [hi, ← hsame]
      exact hperm.map Prod.fst
    · rw [TopN.topnContAddItem, hsome]
      exact ⟨⟨sorted, rfl, hcells'.of_subset hperm.subset, hvalues⟩, rfl⟩
    · intro j hj b hb
      exact Function.update_of_ne (ne_of_mem_of_not_mem hb (howns.apart (hi ▸ ha) hj)) _ _
    · have hlength := congrArg List.length hsame
      rw [length_addresses, length_addresses] at hlength
      simp only [length_addresses, hperm.length_eq, hlength]

omit [DecidableEq κ] in
/-- One round of `topn_cont_prep_capacity`. The item is in no other node, so that the one at the
end is removed. -/
theorem removeLast_spec (howns : Owns mem.items own) (hi : own i = cont.list)
    (hreads : Reads mem.items cont c) (hnodes : cont.list.length ≤ mem.nodes)
    (hlt : cont.capacity < cont.list.length) :
    let last := cont.list[cont.capacity]
    let removed := gSListRemove mem cont.list last
    ∃ mem', liFree removed.1 last = some mem' ∧ Becomes own i mem mem' cont
      { cont with list := removed.2 } { c with list := c.list.eraseIdx c.capacity } := by
  obtain ⟨list, capacity⟩ := cont
  obtain ⟨clist, ccapacity⟩ := c
  obtain ⟨⟨cells, hlist, hcells, hcontents⟩, hcapacity⟩ := hreads
  dsimp only at hlist hcontents hcapacity hi hnodes hlt ⊢
  subst hlist hcontents hcapacity
  have hnodup : (addresses cells).Nodup := hi ▸ howns.nodup i
  have hmem := List.getElem_mem hlt
  have howned : (addresses cells)[capacity] ∈ own i := by
    rw [hi]
    exact hmem
  have herase : (addresses cells).erase (addresses cells)[capacity] =
      addresses (cells.eraseIdx capacity) := by
    rw [hnodup.erase_getElem, addresses, addresses, List.eraseIdx_map]
  have hlast : (addresses cells)[capacity] ∉ addresses (cells.eraseIdx capacity) :=
    herase ▸ hnodup.not_mem_erase
  have hsub : cells.eraseIdx capacity ⊆ cells := List.eraseIdx_subset
  refine ⟨{ items := Function.update mem.items (addresses cells)[capacity] none,
            nodes := mem.nodes - 1 }, ?_, ?_, ?_, ?_, ?_⟩
  · obtain ⟨item, hitem⟩ := Option.isSome_iff_exists.mp (hcells.isSome hmem)
    rw [liFree, gSListRemove, hitem]
    rfl
  · apply howns.free
    rw [hi]
    exact List.perm_cons_erase hmem
  · refine ⟨⟨cells.eraseIdx capacity, herase, (hcells.of_subset hsub).update hlast none, ?_⟩, rfl⟩
    exact (List.eraseIdx_map ..).symm
  · intro j hj b hb
    exact Function.update_of_ne (ne_of_mem_of_not_mem hb (howns.apart howned hj)) _ _
  · have hlength := List.length_erase_of_mem hmem
    have hpos := List.length_pos_of_mem hmem
    dsimp only [gSListRemove]
    omega

omit [DecidableEq κ] in
theorem topnContPrepCapacity_spec (howns : Owns mem.items own) (hi : own i = cont.list)
    (hreads : Reads mem.items cont c) (hnodes : cont.list.length ≤ mem.nodes) :
    ∃ mem' cont', topnContPrepCapacity mem cont = some (mem', cont') ∧
      Becomes own i mem mem' cont cont' (TopN.topnContPrepCapacity c) := by
  have hlength := hreads.length_eq
  induction hn : cont.list.length using Nat.strong_induction_on generalizing mem cont c own with
  | _ n ih =>
    rw [topnContPrepCapacity, TopN.topnContPrepCapacity, ← hlength, ← hreads.capacity]
    by_cases hlt : cont.capacity < cont.list.length
    · obtain ⟨mem₁, hfree, hone⟩ := removeLast_spec howns hi hreads hnodes hlt
      have hshorter := List.length_erase_of_mem (List.getElem_mem hlt)
      have hnodes₁ : mem₁.nodes + cont.list.length =
          mem.nodes + (cont.list.erase cont.list[cont.capacity]).length := hone.nodes
      have hfewer : (cont.list.erase cont.list[cont.capacity]).length < n := by omega
      have hroom : (cont.list.erase cont.list[cont.capacity]).length ≤ mem₁.nodes := by omega
      obtain ⟨mem₂, cont₂, hmany, hbecomes⟩ := ih _ hfewer hone.owns (Function.update_self ..)
        hone.reads hroom hone.reads.length_eq rfl
      refine ⟨mem₂, cont₂, ?_, ?_⟩
      · rw [dif_pos hlt]
        dsimp only [gSListRemove] at hfree ⊢
        rw [hfree]
        exact hmany
      · rw [if_pos hlt, hreads.capacity]
        exact hone.trans hbecomes
    · rw [dif_neg hlt, if_neg hlt]
      refine ⟨mem, cont, rfl, ?_, hreads, fun _ _ _ _ => rfl, rfl⟩
      rwa [← hi, Function.update_eq_self]

theorem topnContAdd_spec [Finite ι] (hmalloc : Fresh malloc) (howns : Owns mem.items own)
    (hi : own i = cont.list) (hreads : Reads mem.items cont c)
    (hnodes : cont.list.length ≤ mem.nodes) (key : κ) (value : Int) :
    ∃ mem' cont', topnContAdd malloc mem cont key value = some (mem', cont') ∧
      Becomes own i mem mem' cont cont' (TopN.topnContAdd c key value) := by
  obtain ⟨mem₁, cont₁, hadd, hone⟩ := topnContAddItem_spec hmalloc howns hi hreads key value
  have hnodes₁ := hone.nodes
  obtain ⟨mem₂, cont₂, hprep, htwo⟩ := topnContPrepCapacity_spec hone.owns
    (Function.update_self ..) hone.reads (by omega)
  refine ⟨mem₂, cont₂, ?_, hone.trans htwo⟩
  rw [topnContAdd, hadd]
  exact hprep

theorem mergeItems_spec [Finite ι] (hmalloc : Fresh malloc) {cells : List (Nat × ListItem κ)}
    (howns : Owns mem.items own) (hi : own i = cont.list) (hreads : Reads mem.items cont c)
    {j : ι} (hj : j ≠ i) (hcells : Holds mem.items cells) (hsub : addresses cells ⊆ own j) :
    ∃ mem' cont', (addresses cells).foldlM (mergeItem malloc) (mem, cont) = some (mem', cont') ∧
      Becomes own i mem mem' cont cont' ((contents cells).foldl
        (fun d item => TopN.topnContAddItem d item.key item.value) c) := by
  induction cells generalizing mem cont c own with
  | nil =>
    refine ⟨mem, cont, rfl, ?_, hreads, fun _ _ _ _ => rfl, rfl⟩
    rwa [← hi, Function.update_eq_self]
  | cons cell cells ih =>
    obtain ⟨hcell, hrest⟩ := holds_cons.mp hcells
    rw [addresses_cons, List.cons_subset] at hsub
    obtain ⟨mem₁, cont₁, hadd, hone⟩ :=
      topnContAddItem_spec hmalloc howns hi hreads cell.2.key cell.2.value
    have hrest₁ : Holds mem₁.items cells := hrest.congr fun a ha => hone.frame j hj a (hsub.2 ha)
    obtain ⟨mem₂, cont₂, hmany, hbecomes⟩ := ih hone.owns (Function.update_self ..) hone.reads
      hrest₁ (by rw [Function.update_of_ne hj]; exact hsub.2)
    refine ⟨mem₂, cont₂, ?_, hone.trans hbecomes⟩
    rw [addresses_cons, List.foldlM_cons, mergeItem, hcell]
    simp only [Option.bind_eq_bind, Option.bind_some, hadd]
    exact hmany

theorem topnContMerge_spec [Finite ι] (hmalloc : Fresh malloc) (howns : Owns mem.items own)
    {dst src : TopNContainer} {d e : TopN.TopNContainer κ} (hi : own i = dst.list)
    (hdst : Reads mem.items dst d) {j : ι} (hj : j ≠ i) (hown : own j = src.list)
    (hsrc : Reads mem.items src e) (hnodes : dst.list.length ≤ mem.nodes) :
    ∃ mem' dst', topnContMerge malloc mem dst src = some (mem', dst') ∧
      Becomes own i { mem with nodes := mem.nodes + src.list.length } mem' dst dst'
        (TopN.topnContMerge d e) := by
  obtain ⟨cells, hlist, hcells, hcontents⟩ := hsrc.list
  -- the containers while the capacity is raised, with the nodes of the copied list
  obtain ⟨raised, hraised⟩ : ∃ cont : TopNContainer, cont =
    { dst with capacity := (dst.capacity + src.capacity) % 2 ^ 64 } := ⟨_, rfl⟩
  obtain ⟨copied, hcopied⟩ : ∃ m : Memory κ, m =
    { mem with nodes := mem.nodes + src.list.length } := ⟨_, rfl⟩
  have hitems : copied.items = mem.items := by rw [hcopied]
  have hlists : raised.list = dst.list := by rw [hraised]
  have hreads : Reads copied.items raised
      { d with capacity := (d.capacity + e.capacity) % 2 ^ 64 } := by
    rw [hitems, hraised]
    exact ⟨hdst.list, congrArg (· % 2 ^ 64) (congrArg₂ (· + ·) hdst.capacity hsrc.capacity)⟩
  rw [← hitems] at howns hcells
  rw [← hlists] at hi
  obtain ⟨mem₁, filled, hmerged, hone⟩ := mergeItems_spec hmalloc howns hi hreads hj hcells
    (by rw [hown, hlist]; exact List.Subset.refl _)
  have hnodes₁ := hone.nodes
  rw [hlists, hcopied] at hnodes₁
  dsimp only at hnodes₁
  have hfilled : Becomes own i copied mem₁ dst { filled with capacity := dst.capacity }
      (TopN.topnContMergeItems d e) := by
    refine ⟨hone.owns, ⟨?_, hdst.capacity⟩, hone.frame, ?_⟩
    · rw [TopN.topnContMergeItems, ← hcontents]
      exact hone.reads.list
    · rw [hcopied]
      exact hnodes₁
  obtain ⟨mem₂, dst', hprep, htwo⟩ := topnContPrepCapacity_spec hfilled.owns
    (Function.update_self ..) hfilled.reads (by dsimp only; omega)
  refine ⟨mem₂, dst', ?_, ?_⟩
  · rw [topnContMerge, ← hcopied, ← hraised, hlist, hmerged]
    exact hprep
  · rw [← hcopied]
    exact hfilled.trans htwo

omit [DecidableEq κ] in
theorem liFrees_spec {list : List Nat} (howns : Owns mem.items own) (hi : own i = list) :
    ∃ mem', list.foldlM liFree mem = some mem' ∧ Owns mem'.items (Function.update own i []) ∧
      (∀ j, j ≠ i → ∀ a ∈ own j, mem'.items a = mem.items a) ∧ mem'.nodes = mem.nodes := by
  induction list generalizing mem own with
  | nil =>
    refine ⟨mem, rfl, ?_, fun _ _ _ _ => rfl, rfl⟩
    rwa [← hi, Function.update_eq_self]
  | cons item list ih =>
    have hmem : item ∈ own i := hi ▸ List.mem_cons_self
    obtain ⟨value, hvalue⟩ := Option.isSome_iff_exists.mp ((howns.isSome item).mpr ⟨i, hmem⟩)
    have howns₁ : Owns ({ mem with items := Function.update mem.items item none } : Memory κ).items
        (Function.update own i list) := howns.free (List.Perm.of_eq hi)
    obtain ⟨mem', hfrees, howns', hframe, hnodes⟩ := ih howns₁ (Function.update_self ..)
    refine ⟨mem', ?_, ?_, fun j hj a ha => ?_, hnodes⟩
    · rw [List.foldlM_cons, liFree, hvalue]
      exact hfrees
    · rwa [Function.update_idem] at howns'
    · have hsame := hframe j hj a
      rw [Function.update_of_ne hj] at hsame
      exact (hsame ha).trans
        (Function.update_of_ne (ne_of_mem_of_not_mem ha (howns.apart hmem hj)) _ _)

omit [DecidableEq κ] in
theorem topnContFree_spec (howns : Owns mem.items own) (hi : own i = cont.list) :
    ∃ mem', topnContFree mem cont = some mem' ∧ Owns mem'.items (Function.update own i []) ∧
      (∀ j, j ≠ i → ∀ a ∈ own j, mem'.items a = mem.items a) ∧
      mem'.nodes = mem.nodes - cont.list.length := by
  obtain ⟨mem', hfrees, howns', hframe, hnodes⟩ := liFrees_spec howns hi
  refine ⟨{ mem' with nodes := mem'.nodes - cont.list.length }, ?_, howns', hframe, ?_⟩
  · rw [topnContFree, hfrees]
    rfl
  · rw [hnodes]

end Container

end Homework.TopN.Pointers
