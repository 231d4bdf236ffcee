import Mathlib.Data.List.Basic
import Homework.Shared.Bytes

/-!
# The content of a directory in a tree view

`fill_file_list_into_tree_view` of `hw06-gtk/main.c`. A directory is opened by its path, and
`readdir` then gives its entries in an order of its own, with `.` and `..` among them. The tree
store is GTK's, which is a parameter.
-/

namespace Homework.DirView

set_option autoImplicit false

def dot : List UInt8 := [46]
def dotdot : List UInt8 := [46, 46]
def slash : UInt8 := 47

/-- `d_type`, where everything but a directory and a regular file is `other`. -/
inductive DType where
  | dir
  | reg
  | other
  deriving DecidableEq

structure Dirent where
  dName : List UInt8
  dType : DType
  deriving DecidableEq

/-! ## The tree store -/

/-- The functions for a `GtkTreeStore` with its one column. Its nodes, and the parent and the text
of a node, are what the view looks up. -/
structure Gtk (σ ι : Type) where
  treeStoreNew : σ
  treeStoreAppend : σ → Option ι → σ × ι
  treeStoreSet : σ → ι → List UInt8 → σ
  nodes : σ → List ι
  parent : σ → ι → Option ι
  text : σ → ι → List UInt8

namespace Gtk
variable {σ ι : Type} (gtk : Gtk σ ι)

/-- A new node has the parent that it is appended to, another is as it was. -/
structure Appends (treestore : σ) (parent : Option ι) (added : σ × ι) : Prop where
  new : added.2 ∉ gtk.nodes treestore
  nodes : (gtk.nodes added.1).Perm (gtk.nodes treestore ++ [added.2])
  parent : gtk.parent added.1 added.2 = parent
  kept : ∀ node ∈ gtk.nodes treestore, gtk.parent added.1 node = gtk.parent treestore node ∧
    gtk.text added.1 node = gtk.text treestore node

/-- Only the text of the node changes. -/
structure Sets (treestore : σ) (node : ι) (text : List UInt8) (treestore' : σ) : Prop where
  nodes : gtk.nodes treestore' = gtk.nodes treestore
  parent : gtk.parent treestore' = gtk.parent treestore
  text : gtk.text treestore' node = text
  kept : ∀ other, other ≠ node → gtk.text treestore' other = gtk.text treestore other

/-- What GTK documents. An iterator that is handed over has to stand for a node. -/
structure Documented : Prop where
  new : gtk.nodes gtk.treeStoreNew = []
  append : ∀ treestore parent, (∀ node ∈ parent, node ∈ gtk.nodes treestore) →
    gtk.Appends treestore parent (gtk.treeStoreAppend treestore parent)
  set : ∀ treestore, ∀ node ∈ gtk.nodes treestore, ∀ text,
    gtk.Sets treestore node text (gtk.treeStoreSet treestore node text)

end Gtk

/-! ## Filling it -/

def nestedDirPath (dirPath dName : List UInt8) : List UInt8 :=
  let nestedDirPathLen := dirPath.length + dName.length + 2
  (dirPath ++ [slash] ++ dName).take (nestedDirPathLen - 1)

section Fill
variable {σ ι : Type} (gtk : Gtk σ ι)

/-- The body of the loop, in which `fill` is the recursive call. -/
def fillEntry (fill : List UInt8 → σ → Option ι → Option σ) (dirPath : List UInt8)
    (parent : Option ι) (treestore : σ) (de : Dirent) : Option σ :=
  let len := de.dName.length
  if de.dName = dot ∨ de.dName = dotdot then some treestore
  else if len > 2 ∧ (de.dType = .dir ∨ de.dType = .reg) then
    let (treestore, child) := gtk.treeStoreAppend treestore parent
    let treestore := gtk.treeStoreSet treestore child de.dName
    if de.dType = .dir then fill (nestedDirPath dirPath de.dName) treestore (some child)
    else some treestore
  else some treestore

/-- The function, with a bound on the depth of its recursion, which it does not return from if
the bound is too small. -/
def fillFileListIntoTreeView (opendir : List UInt8 → Option (List Dirent)) :
    Nat → List UInt8 → σ → Option ι → Option σ
  | 0, _, _, _ => none
  | depth + 1, dirPath, treestore, parent =>
    match opendir dirPath with
    | none => some treestore
    | some dirents => dirents.foldlM
        (fillEntry gtk (fillFileListIntoTreeView opendir depth) dirPath parent) treestore

end Fill

/-! ## Directories -/

/-- A name that an entry can have, next to `.` and `..`. -/
def IsFileName (name : List UInt8) : Prop :=
  name ≠ [] ∧ 0 ∉ name ∧ slash ∉ name ∧ name ≠ dot ∧ name ≠ dotdot

instance (name : List UInt8) : Decidable (IsFileName name) :=
  inferInstanceAs (Decidable (_ ∧ _ ∧ _ ∧ _ ∧ _))

abbrev FileName := { name : List UInt8 // IsFileName name }

/-- The entries of a directory as `readdir` gives them, a directory with its content. -/
inductive Directory where
  | nil
  | self (rest : Directory)
  | up (rest : Directory)
  | reg (name : FileName) (rest : Directory)
  | other (name : FileName) (rest : Directory)
  | dir (name : FileName) (content rest : Directory)

namespace Directory

def dirents : Directory → List Dirent
  | nil => []
  | self rest => ⟨dot, .dir⟩ :: rest.dirents
  | up rest => ⟨dotdot, .dir⟩ :: rest.dirents
  | reg name rest => ⟨name, .reg⟩ :: rest.dirents
  | other name rest => ⟨name, .other⟩ :: rest.dirents
  | dir name _ rest => ⟨name, .dir⟩ :: rest.dirents

/-- Every directory below the one at `dirPath` can be opened. -/
def Opens (opendir : List UInt8 → Option (List Dirent)) : Directory → List UInt8 → Prop
  | nil, _ => True
  | self rest, dirPath => rest.Opens opendir dirPath
  | up rest, dirPath => rest.Opens opendir dirPath
  | reg _ rest, dirPath => rest.Opens opendir dirPath
  | other _ rest, dirPath => rest.Opens opendir dirPath
  | dir name content rest, dirPath =>
    (opendir (dirPath ++ [slash] ++ name) = some content.dirents ∧
      content.Opens opendir (dirPath ++ [slash] ++ name)) ∧ rest.Opens opendir dirPath

/-- The regular files and the directories, each by the names on the way to it. -/
def paths : Directory → List (List (List UInt8))
  | nil => []
  | self rest => rest.paths
  | up rest => rest.paths
  | reg name rest => [name.val] :: rest.paths
  | other _ rest => rest.paths
  | dir name content rest => [name.val] :: (content.paths.map (name.val :: ·) ++ rest.paths)

def depth : Directory → Nat
  | nil => 0
  | self rest => rest.depth
  | up rest => rest.depth
  | reg _ rest => rest.depth
  | other _ rest => rest.depth
  | dir _ content rest => max (content.depth + 1) rest.depth

end Directory

end Homework.DirView
