import Mathlib.Data.List.Perm.Basic
import Homework.Shared.Run

/-!
# What the module holds

`mouse_driv_init`, `mouse_driv_exit` and `buffer_size_store` of `mouse_driv.c` by what they get
from the kernel and give back. A load fails at any of its four calls. While the module is loaded,
processes are in `buffer_size_store` with blocks of their own, which they have allocated before
they take the lock, and the kernel does not unload it before they have left.
-/

namespace Homework.MouseDriver

set_option autoImplicit false

/-! ## The code -/

inductive Resource where
  | block (n : Nat)
  | chrdev
  | kobject
  | group
  deriving DecidableEq

/-- `buffer.data`, what has been got and not given back, how often something was given back that
was not held, and the processes in `buffer_size_store` with their `new_data`. -/
structure Driver where
  data : Option Nat
  held : List Resource
  strays : Nat
  loaded : Bool
  stores : List (Nat × Nat)

namespace Driver

def unloaded : Driver where
  data := none
  held := []
  strays := 0
  loaded := false
  stores := []

variable (d : Driver)

def get (r : Resource) : Driver := { d with held := r :: d.held }

def giveBack (r : Resource) : Driver :=
  if r ∈ d.held then { d with held := d.held.erase r } else { d with strays := d.strays + 1 }

def ringBufferFree : Driver :=
  match d.data with
  | none => d
  | some n => { d.giveBack (.block n) with data := none }

/-- The directory of the object goes with it, and the group that is in the directory. -/
def kobjectPut : Driver :=
  let d := if .group ∈ d.held then d.giveBack .group else d
  d.giveBack .kobject

/-- `block` is what `kmalloc` returns; the others say whether their calls succeed. -/
def mouseDrivInit (block : Option Nat) (chrdev kobject group : Bool) : Driver :=
  match block with
  | none => d
  | some n =>
    let d := { d.get (.block n) with data := some n }
    if ¬chrdev then d.ringBufferFree
    else
      let d := d.get .chrdev
      if ¬kobject then (d.giveBack .chrdev).ringBufferFree
      else
        let d := d.get .kobject
        if ¬group then (d.kobjectPut.giveBack .chrdev).ringBufferFree
        else { d.get .group with loaded := true }

def mouseDrivExit : Driver :=
  { (d.kobjectPut.giveBack .chrdev).ringBufferFree with loaded := false }

/-- `buffer_size_store` in front of the lock. -/
def storeBegin (p : Nat) (block : Option Nat) : Driver :=
  match block with
  | none => d
  | some n => { d.get (.block n) with stores := (p, n) :: d.stores }

/-- `buffer_size_store` with the lock. `busy` is `head != tail`. -/
def storeEnd (p n : Nat) (busy : Bool) : Driver :=
  let d := { d with stores := d.stores.erase (p, n) }
  if busy then d.giveBack (.block n) else { d.ringBufferFree with data := some n }

inductive Event where
  | load (block : Option Nat) (chrdev kobject group : Bool)
  | storeBegin (p : Nat) (block : Option Nat)
  | storeEnd (p n : Nat) (busy : Bool)
  | unload

def step (d : Driver) : Event → Driver
  | .load block chrdev kobject group => d.mouseDrivInit block chrdev kobject group
  | .storeBegin p block => d.storeBegin p block
  | .storeEnd p n busy => d.storeEnd p n busy
  | .unload => d.mouseDrivExit

/-- A block that `kmalloc` returns is one that is not held. -/
def Fresh (block : Option Nat) : Prop := ∀ n ∈ block, .block n ∉ d.held

def Allowed : Event → Prop
  | .load block _ _ _ => d.loaded = false ∧ d.Fresh block
  | .storeBegin _ block => d.loaded = true ∧ d.Fresh block
  | .storeEnd p n _ => d.loaded = true ∧ (p, n) ∈ d.stores
  | .unload => d.loaded = true ∧ d.stores = []

/-! ## What is held -/

/-- These are held, each once, and nothing else has been given back. -/
structure Holds (rs : List Resource) : Prop where
  perm : d.held.Perm rs
  nodup : d.held.Nodup
  strays : d.strays = 0

section Account
variable {d} {rs rs' : List Resource} {r : Resource}

theorem Holds.mem_iff (h : d.Holds rs) : r ∈ d.held ↔ r ∈ rs := h.perm.mem_iff

theorem Holds.of_perm (h : d.Holds rs) (hperm : rs.Perm rs') : d.Holds rs' :=
  ⟨h.perm.trans hperm, h.nodup, h.strays⟩

theorem Holds.congr {d' : Driver} (h : d.Holds rs) (hheld : d'.held = d.held)
    (hstrays : d'.strays = d.strays) : d'.Holds rs := by
  obtain ⟨hperm, hnodup, hno⟩ := h
  exact ⟨hheld ▸ hperm, hheld ▸ hnodup, hstrays ▸ hno⟩

theorem Holds.get (h : d.Holds rs) (hr : r ∉ rs) : (d.get r).Holds (r :: rs) where
  perm := h.perm.cons r
  nodup := List.nodup_cons.mpr ⟨fun hmem => hr (h.mem_iff.mp hmem), h.nodup⟩
  strays := h.strays

theorem Holds.giveBack (h : d.Holds (r :: rs)) : (d.giveBack r).Holds rs := by
  have hmem : r ∈ d.held := h.mem_iff.mpr List.mem_cons_self
  rw [Driver.giveBack, if_pos hmem]
  refine ⟨?_, h.nodup.erase r, h.strays⟩
  have hperm := h.perm.erase r
  rwa [List.erase_cons_head] at hperm

@[simp] theorem data_giveBack (d : Driver) (r : Resource) : (d.giveBack r).data = d.data := by
  unfold giveBack
  split <;> rfl

@[simp] theorem stores_giveBack (d : Driver) (r : Resource) :
    (d.giveBack r).stores = d.stores := by
  unfold giveBack
  split <;> rfl

@[simp] theorem loaded_giveBack (d : Driver) (r : Resource) :
    (d.giveBack r).loaded = d.loaded := by
  unfold giveBack
  split <;> rfl

theorem Holds.ringBufferFree {n : Nat} (hdata : d.data = some n)
    (h : d.Holds (.block n :: rs)) : d.ringBufferFree.Holds rs := by
  rw [Driver.ringBufferFree, hdata]
  exact h.giveBack.congr rfl rfl

theorem Holds.kobjectPut (h : d.Holds (.kobject :: rs)) (hgroup : .group ∉ rs) :
    d.kobjectPut.Holds rs := by
  have hno : .group ∉ d.held := by
    rw [h.mem_iff]
    simpa using hgroup
  rw [Driver.kobjectPut, if_neg hno]
  exact h.giveBack

theorem Holds.kobjectPut_group (h : d.Holds (.group :: .kobject :: rs)) :
    d.kobjectPut.Holds rs := by
  have hmem : .group ∈ d.held := h.mem_iff.mpr List.mem_cons_self
  rw [Driver.kobjectPut, if_pos hmem]
  exact h.giveBack.giveBack

end Account

/-! ## Loads, stores and unloads -/

/-- The blocks of the processes in `buffer_size_store`. -/
def storeBlocks : List Resource := d.stores.map fun c => .block c.2

/-- While the module is loaded it holds the buffer, the device, the object and its group, and what
the processes have allocated. Otherwise it holds nothing. -/
structure Owned : Prop where
  loaded : d.loaded = true → ∃ n, d.data = some n ∧
    d.Holds ([.block n, .group, .kobject, .chrdev] ++ d.storeBlocks)
  unloaded : d.loaded = false → d.data = none ∧ d.stores = [] ∧ d.Holds []

theorem perm_block_last (n : Nat) : [Resource.block n, .group, .kobject, .chrdev].Perm
    [.group, .kobject, .chrdev, .block n] := (List.perm_append_singleton _ _).symm

theorem owned_unloaded : unloaded.Owned where
  loaded h := absurd h (by simp [unloaded])
  unloaded _ := ⟨rfl, rfl, List.Perm.refl _, List.nodup_nil, rfl⟩

section Steps
variable {d}

theorem Owned.of_unloaded (hloaded : d.loaded = false) (hdata : d.data = none)
    (hstores : d.stores = []) (h : d.Holds []) : d.Owned where
  loaded hno := by
    rw [hloaded] at hno
    cases hno
  unloaded _ := ⟨hdata, hstores, h⟩

theorem data_ringBufferFree (d : Driver) : d.ringBufferFree.data = none := by
  unfold ringBufferFree
  split
  · assumption
  · rfl

theorem stores_ringBufferFree (d : Driver) : d.ringBufferFree.stores = d.stores := by
  unfold ringBufferFree
  split
  · rfl
  · exact stores_giveBack _ _

theorem loaded_ringBufferFree (d : Driver) : d.ringBufferFree.loaded = d.loaded := by
  unfold ringBufferFree
  split
  · rfl
  · exact loaded_giveBack _ _

theorem data_kobjectPut (d : Driver) : d.kobjectPut.data = d.data := by
  unfold kobjectPut
  dsimp only
  split <;> simp

theorem stores_kobjectPut (d : Driver) : d.kobjectPut.stores = d.stores := by
  unfold kobjectPut
  dsimp only
  split <;> simp

theorem loaded_kobjectPut (d : Driver) : d.kobjectPut.loaded = d.loaded := by
  unfold kobjectPut
  dsimp only
  split <;> simp

/-- Every way out of `mouse_driv_init` gives back what had been got. -/
theorem Owned.mouseDrivInit (h : d.Owned) (hloaded : d.loaded = false) (block : Option Nat)
    (chrdev kobject group : Bool) : (d.mouseDrivInit block chrdev kobject group).Owned := by
  obtain ⟨hdata, hstores, hnone⟩ := h.unloaded hloaded
  unfold Driver.mouseDrivInit
  cases block with
  | none => exact h
  | some n =>
    have hblock : ({ d.get (.block n) with data := some n } : Driver).Holds [.block n] :=
      (hnone.get List.not_mem_nil).congr rfl rfl
    have hchrdev := @Holds.get _ _ .chrdev hblock (by simp)
    have hkobject := @Holds.get _ _ .kobject hchrdev (by simp)
    have hgroup := @Holds.get _ _ .group hkobject (by simp)
    dsimp only
    split
    · apply Owned.of_unloaded
      · rw [loaded_ringBufferFree]
        exact hloaded
      · exact data_ringBufferFree _
      · rw [stores_ringBufferFree]
        exact hstores
      · exact Holds.ringBufferFree rfl hblock
    split
    · apply Owned.of_unloaded
      · rw [loaded_ringBufferFree, loaded_giveBack]
        exact hloaded
      · exact data_ringBufferFree _
      · rw [stores_ringBufferFree, stores_giveBack]
        exact hstores
      · exact Holds.ringBufferFree (data_giveBack _ _) hchrdev.giveBack
    split
    · have hput := hkobject.kobjectPut (by simp)
      apply Owned.of_unloaded
      · rw [loaded_ringBufferFree, loaded_giveBack, loaded_kobjectPut]
        exact hloaded
      · exact data_ringBufferFree _
      · rw [stores_ringBufferFree, stores_giveBack, stores_kobjectPut]
        exact hstores
      · apply Holds.ringBufferFree _ hput.giveBack
        rw [data_giveBack, data_kobjectPut]
        rfl
    · refine ⟨fun _ => ⟨n, rfl, ?_⟩, fun hno => absurd hno (by simp)⟩
      dsimp only [storeBlocks, Driver.get]
      rw [hstores]
      exact (hgroup.of_perm (perm_block_last n).symm).congr rfl rfl

theorem Owned.mouseDrivExit (h : d.Owned) (hloaded : d.loaded = true) (hstores : d.stores = []) :
    d.mouseDrivExit.Owned := by
  obtain ⟨n, hdata, hheld⟩ := h.loaded hloaded
  rw [storeBlocks, hstores] at hheld
  have hput := (hheld.of_perm (perm_block_last n)).kobjectPut_group
  apply Owned.of_unloaded
  · rfl
  · exact data_ringBufferFree _
  · dsimp only [Driver.mouseDrivExit]
    rw [stores_ringBufferFree, stores_giveBack, stores_kobjectPut]
    exact hstores
  · have hfree : (d.kobjectPut.giveBack .chrdev).ringBufferFree.Holds [] := by
      apply Holds.ringBufferFree _ hput.giveBack
      rw [data_giveBack, data_kobjectPut]
      exact hdata
    exact hfree.congr rfl rfl

theorem Owned.storeBegin (h : d.Owned) (hloaded : d.loaded = true) (p : Nat) {block : Option Nat}
    (hfresh : d.Fresh block) : (d.storeBegin p block).Owned := by
  obtain ⟨n, hdata, hheld⟩ := h.loaded hloaded
  cases block with
  | none => exact h
  | some m =>
    have hno : .block m ∉ [.block n, .group, .kobject, .chrdev] ++ d.storeBlocks := by
      rw [← hheld.mem_iff]
      exact hfresh m rfl
    refine ⟨fun _ => ⟨n, hdata, ?_⟩, fun hunloaded => ?_⟩
    · exact ((hheld.get hno).of_perm List.perm_middle.symm).congr rfl rfl
    · rw [Driver.storeBegin, Driver.get, hloaded] at hunloaded
      cases hunloaded

/-- The block of a process is given back, or takes the place of the one in the buffer. -/
theorem Owned.storeEnd (h : d.Owned) (hloaded : d.loaded = true) {p n : Nat}
    (hmem : (p, n) ∈ d.stores) (busy : Bool) : (d.storeEnd p n busy).Owned := by
  obtain ⟨m, hdata, hheld⟩ := h.loaded hloaded
  let rest : Driver := { d with stores := d.stores.erase (p, n) }
  have hblocks : d.storeBlocks.Perm (.block n :: rest.storeBlocks) :=
    (List.perm_cons_erase hmem).map _
  have hrest : rest.Holds ([.block m, .group, .kobject, .chrdev] ++
      .block n :: rest.storeBlocks) :=
    (hheld.of_perm (hblocks.append_left _)).congr rfl rfl
  unfold Driver.storeEnd
  dsimp only
  split
  · refine ⟨fun _ => ⟨m, ?_, ?_⟩, fun hunloaded => ?_⟩
    · rw [data_giveBack]
      exact hdata
    · rw [storeBlocks, stores_giveBack]
      exact (hrest.of_perm List.perm_middle).giveBack
    · rw [loaded_giveBack, hloaded] at hunloaded
      cases hunloaded
  · refine ⟨fun _ => ⟨n, rfl, ?_⟩, fun hunloaded => ?_⟩
    · have hfree : rest.ringBufferFree.Holds ([.group, .kobject, .chrdev] ++
          .block n :: rest.storeBlocks) := Holds.ringBufferFree hdata hrest
      dsimp only [storeBlocks]
      rw [stores_ringBufferFree]
      exact (hfree.of_perm List.perm_middle).congr rfl rfl
    · dsimp only at hunloaded
      rw [loaded_ringBufferFree, hloaded] at hunloaded
      cases hunloaded

theorem Owned.step (h : d.Owned) {e : Event} (hallowed : d.Allowed e) : (d.step e).Owned := by
  cases e with
  | load block chrdev kobject group => exact h.mouseDrivInit hallowed.1 block chrdev kobject group
  | storeBegin p block => exact h.storeBegin hallowed.1 p hallowed.2
  | storeEnd p n busy => exact h.storeEnd hallowed.1 hallowed.2 busy
  | unload => exact h.mouseDrivExit hallowed.1 hallowed.2

end Steps

/-- Over any loads that fail or succeed, resizes by any number of processes and unloads, whatever
is given back is held, and nothing is held any more when the module is not loaded. While it is
loaded, every block is in the buffer or with the one process that is going to put it there or free
it. -/
theorem nothing_is_left_behind {events : List Event}
    (hallowed : Along step Allowed unloaded events) :
    let d := run step unloaded events
    d.strays = 0 ∧ (d.loaded = false → d.held = [] ∧ d.data = none) ∧
      (d.loaded = true → ∃ n, d.data = some n ∧ d.held.Nodup ∧
        d.held.Perm ([.block n, .group, .kobject, .chrdev] ++ d.storeBlocks)) := by
  have howned : (run step unloaded events).Owned :=
    run_invariant Owned (fun d e h he => h.step he) owned_unloaded hallowed
  intro d
  cases hloaded : d.loaded with
  | false =>
    obtain ⟨hdata, -, hnone⟩ := howned.unloaded hloaded
    exact ⟨hnone.strays, fun _ => ⟨hnone.perm.eq_nil, hdata⟩, fun h => absurd h (by simp)⟩
  | true =>
    obtain ⟨n, hdata, hheld⟩ := howned.loaded hloaded
    exact ⟨hheld.strays, fun h => absurd h (by simp),
      fun _ => ⟨n, hdata, hheld.nodup, hheld.perm⟩⟩

/-- A load that fails at its last call, and one that succeeds, with two resizes at once. -/
def twoLoads : List Event :=
  [.load (some 0) true true false, .load (some 1) true true true, .storeBegin 7 (some 2),
    .storeBegin 8 (some 3), .storeEnd 7 2 false, .storeEnd 8 3 true, .unload]

theorem allowed_twoLoads : Along step Allowed unloaded twoLoads := by
  simp only [twoLoads, along_cons, along_nil, and_true, Allowed, Fresh, Option.mem_def,
    Option.some.injEq, forall_eq']
  decide

theorem nothing_is_left_behind_of_two_loads :
    let d := run step unloaded twoLoads
    d.strays = 0 ∧ (d.loaded = false → d.held = [] ∧ d.data = none) ∧
      (d.loaded = true → ∃ n, d.data = some n ∧ d.held.Nodup ∧
        d.held.Perm ([.block n, .group, .kobject, .chrdev] ++ d.storeBlocks)) :=
  nothing_is_left_behind allowed_twoLoads

end Driver

end Homework.MouseDriver
