import Mathlib.Data.List.Induction
import Homework.DirView.TreeView

/-!
# What the view shows

Every node has a path, the texts from the root down to it. The paths of the view are those of
the directory, once each, if no name is shorter than three bytes. The others are left out,
with all that is below them.
-/

namespace Homework.DirView

set_option autoImplicit false

/-! ## The paths of the nodes -/

abbrev Path := List (List UInt8)

namespace Gtk
variable {σ ι : Type} (gtk : Gtk σ ι)

/-- A node, or the root, and its path. -/
inductive IsAt (treestore : σ) : Option ι → Path → Prop
  | root : IsAt treestore none []
  | node {node : ι} {path : Path} (hnode : node ∈ gtk.nodes treestore)
      (hparent : IsAt treestore (gtk.parent treestore node) path) :
      IsAt treestore (some node) (path ++ [gtk.text treestore node])

/-- These are the nodes, each with its path. -/
structure Shows (treestore : σ) (shown : List (ι × Path)) : Prop where
  nodes : (gtk.nodes treestore).Perm (shown.map Prod.fst)
  isAt : ∀ node ∈ shown, gtk.IsAt treestore (some node.1) node.2

variable {gtk} {treestore treestore' : σ} {parent : Option ι} {path : Path}

theorem IsAt.mem_nodes (h : gtk.IsAt treestore parent path) :
    ∀ node ∈ parent, node ∈ gtk.nodes treestore := by
  cases h with
  | root =>
    intro node hnode
    cases hnode
  | node hmem _ =>
    intro node hnode
    cases hnode
    exact hmem

/-- A path stays as it is with the parents and the texts on it. -/
theorem IsAt.mono (h : gtk.IsAt treestore parent path)
    (hkept : ∀ node ∈ gtk.nodes treestore, node ∈ gtk.nodes treestore' ∧
      gtk.parent treestore' node = gtk.parent treestore node ∧
      gtk.text treestore' node = gtk.text treestore node) : gtk.IsAt treestore' parent path := by
  induction h with
  | root => exact .root
  | @node node path hnode _ ih =>
    obtain ⟨hmem, hparent, htext⟩ := hkept node hnode
    rw [← hparent] at ih
    rw [← htext]
    exact .node hmem ih

/-- A node is appended and gets its text. -/
theorem Documented.shows_child (hgtk : gtk.Documented) {shown : List (ι × Path)}
    (hshows : gtk.Shows treestore shown) (hparent : gtk.IsAt treestore parent path)
    (text : List UInt8) :
    let added := gtk.treeStoreAppend treestore parent
    let treestore' := gtk.treeStoreSet added.1 added.2 text
    gtk.Shows treestore' (shown ++ [(added.2, path ++ [text])]) ∧
      ∀ iter p, gtk.IsAt treestore iter p → gtk.IsAt treestore' iter p := by
  intro added treestore'
  have happends := hgtk.append treestore parent hparent.mem_nodes
  have hmem : ∀ node, node ∈ gtk.nodes added.1 ↔ node ∈ gtk.nodes treestore ∨ node = added.2 := by
    intro node
    rw [happends.nodes.mem_iff, List.mem_append, List.mem_singleton]
  have hsets := hgtk.set added.1 added.2 ((hmem _).mpr (Or.inr rfl)) text
  have hmono : ∀ iter p, gtk.IsAt treestore iter p → gtk.IsAt treestore' iter p := by
    intro iter p hat
    refine hat.mono fun node hnode => ?_
    obtain ⟨hsameParent, hsameText⟩ := happends.kept node hnode
    have hne : node ≠ added.2 := ne_of_mem_of_not_mem hnode happends.new
    refine ⟨?_, ?_, (hsets.kept node hne).trans hsameText⟩
    · rw [hsets.nodes, hmem]
      exact Or.inl hnode
    · rw [hsets.parent, hsameParent]
  have hchild : gtk.IsAt treestore' (some added.2) (path ++ [text]) := by
    have hnode : added.2 ∈ gtk.nodes treestore' := by
      rw [hsets.nodes, hmem]
      exact Or.inr rfl
    have hfirst : gtk.IsAt treestore' (gtk.parent treestore' added.2) path := by
      rw [hsets.parent, happends.parent]
      exact hmono _ _ hparent
    have hat := IsAt.node hnode hfirst
    rwa [hsets.text] at hat
  refine ⟨⟨?_, fun node hnode => ?_⟩, hmono⟩
  · rw [hsets.nodes, List.map_append, List.map_singleton]
    exact happends.nodes.trans (hshows.nodes.append_right _)
  · rcases List.mem_append.mp hnode with hnode | hnode
    · exact hmono _ _ (hshows.isAt node hnode)
    · rw [List.mem_singleton.mp hnode]
      exact hchild

end Gtk

/-! ## Adding nodes -/

/-- Below the node `parent`, which is at `path`, nodes with these paths are added. -/
def Adds {σ ι : Type} (gtk : Gtk σ ι) (fill : σ → Option σ) (parent : Option ι) (path : Path)
    (paths : List Path) : Prop :=
  ∀ treestore shown, gtk.Shows treestore shown → gtk.IsAt treestore parent path →
    ∃ treestore' more, fill treestore = some treestore' ∧ gtk.Shows treestore' (shown ++ more) ∧
      more.map Prod.snd = paths.map (path ++ ·) ∧
      ∀ iter p, gtk.IsAt treestore iter p → gtk.IsAt treestore' iter p

namespace Adds
variable {σ ι : Type} {gtk : Gtk σ ι} {fill fill' : σ → Option σ} {parent : Option ι}
  {path : Path} {paths paths' : List Path}

theorem nothing : Adds gtk some parent path [] := by
  intro treestore shown hshows _
  exact ⟨treestore, [], rfl, by rwa [List.append_nil], rfl, fun _ _ hat => hat⟩

theorem bind (h : Adds gtk fill parent path paths) (h' : Adds gtk fill' parent path paths') :
    Adds gtk (fun treestore => (fill treestore).bind fill') parent path (paths ++ paths') := by
  intro treestore shown hshows hparent
  obtain ⟨inner, first, hfill, hinner, hfirst, hkept⟩ := h treestore shown hshows hparent
  obtain ⟨treestore', second, hfill', hshows', hsecond, hkept'⟩ :=
    h' inner _ hinner (hkept _ _ hparent)
  refine ⟨treestore', first ++ second, ?_, ?_, ?_, fun iter p hat => hkept' _ _ (hkept _ _ hat)⟩
  · dsimp only
    rw [hfill, Option.bind_some, hfill']
  · rwa [← List.append_assoc]
  · rw [List.map_append, List.map_append, hfirst, hsecond]

/-- A new node gets the path of its parent and its text, and what is added below it starts with
that path. -/
theorem node (hgtk : gtk.Documented) {fill : σ → Option ι → Option σ} {text : List UInt8}
    (h : ∀ child, Adds gtk (fun treestore => fill treestore (some child)) (some child)
      (path ++ [text]) paths) :
    Adds gtk (fun treestore =>
      let added := gtk.treeStoreAppend treestore parent
      fill (gtk.treeStoreSet added.1 added.2 text) (some added.2)) parent path
        ([text] :: paths.map (text :: ·)) := by
  intro treestore shown hshows hparent
  obtain ⟨hchild, hkept⟩ := hgtk.shows_child hshows hparent text
  have hat := hchild.isAt _ (List.mem_append_right _ List.mem_cons_self)
  obtain ⟨treestore', more, hfill, hshows', hmore, hkept'⟩ := h _ _ _ hchild hat
  rw [List.append_assoc, List.singleton_append] at hshows'
  refine ⟨treestore', _, hfill, hshows', ?_, fun iter p hat => hkept' _ _ (hkept _ _ hat)⟩
  simp [hmore]

end Adds

/-! ## Filling -/

/-- The view of the directory at `dirPath`, once the recursion may go deep enough: there is one
node for each of its paths. -/
def Mirrors {σ ι : Type} (gtk : Gtk σ ι) (opendir : List UInt8 → Option (List Dirent))
    (dirPath : List UInt8) (d : Directory) : Prop :=
  ∃ n, ∀ depth, n ≤ depth → ∃ treestore shown,
    fillFileListIntoTreeView gtk opendir depth dirPath gtk.treeStoreNew none = some treestore ∧
      gtk.Shows treestore shown ∧ (shown.map Prod.snd).Perm d.paths

def isLong (path : Path) : Bool := path.all fun name => decide (2 < name.length)

/-- A name that is too short takes with it what is below. -/
theorem filter_isLong_map_cons (name : List UInt8) (paths : List Path) :
    (paths.map (name :: ·)).filter isLong =
      if 2 < name.length then (paths.filter isLong).map (name :: ·) else [] := by
  induction paths with
  | nil => simp
  | cons path paths ih =>
    rw [List.map_cons, List.filter_cons, List.filter_cons, ih]
    by_cases hlen : 2 < name.length
    · cases hpath : isLong path <;> simp_all [isLong]
    · simp [isLong, hlen]

theorem nestedDirPath_eq (dirPath dName : List UInt8) :
    nestedDirPath dirPath dName = dirPath ++ [slash] ++ dName := by
  apply List.take_of_length_le
  simp only [List.length_append, List.length_singleton]
  omega

section Fill

variable {σ ι : Type} {gtk : Gtk σ ι} (hgtk : gtk.Documented)
variable {opendir : List UInt8 → Option (List Dirent)} {depth : Nat} {d : Directory}
variable {dirPath : List UInt8} {parent : Option ι} {path : Path}
variable {fill : List UInt8 → σ → Option ι → Option σ}

theorem fillEntry_skip {de : Dirent} (h : de.dName = dot ∨ de.dName = dotdot ∨
    ¬ 2 < de.dName.length ∨ de.dType = .other) (treestore : σ) :
    fillEntry gtk fill dirPath parent treestore de = some treestore := by
  unfold fillEntry
  dsimp only
  split
  · rfl
  · rename_i hdots
    rw [if_neg]
    rintro ⟨hlen, htype⟩
    rcases h with h | h | h | h
    · exact hdots (Or.inl h)
    · exact hdots (Or.inr h)
    · exact h hlen
    · rw [h] at htype
      rcases htype with h | h <;> cases h

theorem fillEntry_add (name : FileName) (hlen : 2 < name.val.length) {type : DType}
    (htype : type ≠ .other) (treestore : σ) :
    fillEntry gtk fill dirPath parent treestore ⟨name, type⟩ =
      let added := gtk.treeStoreAppend treestore parent
      let treestore' := gtk.treeStoreSet added.1 added.2 name
      if type = .dir then fill (dirPath ++ [slash] ++ name) treestore' (some added.2)
      else some treestore' := by
  obtain ⟨-, -, -, hdot, hdotdot⟩ := name.property
  have hkind : type = .dir ∨ type = .reg := by
    cases type with
    | dir => exact Or.inl rfl
    | reg => exact Or.inr rfl
    | other => exact absurd rfl htype
  unfold fillEntry
  dsimp only
  rw [if_neg (not_or.mpr ⟨hdot, hdotdot⟩), if_pos ⟨hlen, hkind⟩, nestedDirPath_eq]

theorem adds_skip {de : Dirent} (h : de.dName = dot ∨ de.dName = dotdot ∨
    ¬ 2 < de.dName.length ∨ de.dType = .other) :
    Adds gtk (fun treestore => fillEntry gtk fill dirPath parent treestore de) parent path [] := by
  simp only [fillEntry_skip h]
  exact Adds.nothing

include hgtk

theorem adds_reg (name : FileName) :
    Adds gtk (fun treestore => fillEntry gtk fill dirPath parent treestore ⟨name, .reg⟩) parent path
      ([[name.val]].filter isLong) := by
  by_cases hlen : 2 < name.val.length
  · simp only [fillEntry_add name hlen (show DType.reg ≠ .other by decide)]
    have hnode := @Adds.node _ _ gtk parent path [] hgtk (fun treestore _ => some treestore) name
      fun _ => Adds.nothing
    simpa [isLong, hlen] using hnode
  · have hskip := @adds_skip _ _ gtk dirPath parent path fill ⟨name, .reg⟩
      (Or.inr (Or.inr (Or.inl hlen)))
    simpa [isLong, hlen] using hskip

theorem adds_dir (name : FileName) {paths : List Path}
    (h : ∀ child path, Adds gtk (fun treestore => fill (dirPath ++ [slash] ++ name) treestore
      (some child)) (some child) path (paths.filter isLong)) :
    Adds gtk (fun treestore => fillEntry gtk fill dirPath parent treestore ⟨name, .dir⟩) parent path
      (([name.val] :: paths.map (name.val :: ·)).filter isLong) := by
  rw [List.filter_cons, filter_isLong_map_cons]
  by_cases hlen : 2 < name.val.length
  · simp only [fillEntry_add name hlen (show DType.dir ≠ .other by decide)]
    have hnode := @Adds.node _ _ gtk parent path _ hgtk (fill (dirPath ++ [slash] ++ name)) name
      fun child => h child _
    simpa [isLong, hlen] using hnode
  · have hskip := @adds_skip _ _ gtk dirPath parent path fill ⟨name, .dir⟩
      (Or.inr (Or.inr (Or.inl hlen)))
    simpa [isLong, hlen] using hskip

/-- The loop over a directory adds what is in it. -/
theorem adds_dirents (hopens : d.Opens opendir dirPath) (hdepth : d.depth ≤ depth) :
    Adds gtk (fun treestore => d.dirents.foldlM
      (fillEntry gtk (fillFileListIntoTreeView gtk opendir depth) dirPath parent) treestore)
        parent path (d.paths.filter isLong) := by
  induction d generalizing depth dirPath parent path with
  | nil => exact Adds.nothing
  | self rest ih =>
    have hskip := @adds_skip _ _ gtk dirPath parent path
      (fillFileListIntoTreeView gtk opendir depth) ⟨dot, .dir⟩ (Or.inl rfl)
    exact hskip.bind (ih hopens hdepth)
  | up rest ih =>
    have hskip := @adds_skip _ _ gtk dirPath parent path
      (fillFileListIntoTreeView gtk opendir depth) ⟨dotdot, .dir⟩ (Or.inr (Or.inl rfl))
    exact hskip.bind (ih hopens hdepth)
  | other name rest ih =>
    have hskip := @adds_skip _ _ gtk dirPath parent path
      (fillFileListIntoTreeView gtk opendir depth) ⟨name, .other⟩ (Or.inr (Or.inr (Or.inr rfl)))
    exact hskip.bind (ih hopens hdepth)
  | reg name rest ih =>
    have hreg := @adds_reg _ _ gtk hgtk dirPath parent path
      (fillFileListIntoTreeView gtk opendir depth) name
    have hadds := hreg.bind (ih hopens hdepth)
    rwa [← List.filter_append] at hadds
  | dir name content rest ihContent ihRest =>
    obtain ⟨⟨hopen, hcontent⟩, hrest⟩ := hopens
    rw [Directory.depth, Nat.max_le] at hdepth
    obtain ⟨depth, rfl⟩ : ∃ n, depth = n + 1 := ⟨depth - 1, by omega⟩
    have hdir := @adds_dir _ _ gtk hgtk dirPath parent path
      (fillFileListIntoTreeView gtk opendir (depth + 1)) name content.paths
    have hadds := (hdir ?_).bind (ihRest hrest hdepth.2)
    · rwa [← List.filter_append] at hadds
    · intro child path
      simp only [fillFileListIntoTreeView, hopen]
      exact ihContent hcontent (Nat.le_of_succ_le_succ hdepth.1)

theorem fill_paths (hopen : opendir dirPath = some d.dirents) (hopens : d.Opens opendir dirPath)
    (hdepth : d.depth < depth) : ∃ treestore shown,
      fillFileListIntoTreeView gtk opendir depth dirPath gtk.treeStoreNew none = some treestore ∧
        gtk.Shows treestore shown ∧ shown.map Prod.snd = d.paths.filter isLong := by
  obtain ⟨depth, rfl⟩ : ∃ n, depth = n + 1 := ⟨depth - 1, by omega⟩
  have hnew : gtk.Shows gtk.treeStoreNew [] := ⟨by rw [hgtk.new]; rfl, by simp⟩
  obtain ⟨treestore, shown, hfold, hshows, hpaths, -⟩ :=
    @adds_dirents _ _ gtk hgtk opendir depth d dirPath none [] hopens
      (Nat.le_of_lt_succ hdepth) _ _ hnew .root
  refine ⟨treestore, shown, ?_, hshows, ?_⟩
  · rw [fillFileListIntoTreeView, hopen]
    exact hfold
  · simpa using hpaths

theorem view_mirrors_iff (hopen : opendir dirPath = some d.dirents)
    (hopens : d.Opens opendir dirPath) :
    Mirrors gtk opendir dirPath d ↔ ∀ path ∈ d.paths, ∀ name ∈ path, 2 < name.length := by
  have hlong : (∀ path ∈ d.paths, ∀ name ∈ path, 2 < name.length) ↔
      ∀ path ∈ d.paths, isLong path = true := by
    simp [isLong]
  rw [hlong]
  constructor
  · rintro ⟨n, h⟩
    obtain ⟨treestore, shown, hfill, hshows, hperm⟩ := h (max n (d.depth + 1)) (Nat.le_max_left ..)
    obtain ⟨treestore', shown', hfill', hshows', hpaths⟩ :=
      @fill_paths _ _ gtk hgtk opendir (max n (d.depth + 1)) d dirPath hopen hopens (by omega)
    cases hfill.symm.trans hfill'
    -- both lists show the nodes of one store
    have hlen := (hshows.nodes.symm.trans hshows'.nodes).length_eq
    have hall := hperm.length_eq
    have hkept := congrArg List.length hpaths
    rw [List.length_map] at hall hkept
    rw [List.length_map, List.length_map] at hlen
    exact List.length_filter_eq_length_iff.mp (by omega)
  · intro hall
    refine ⟨d.depth + 1, fun depth hdepth => ?_⟩
    obtain ⟨treestore, shown, hfill, hshows, hpaths⟩ :=
      @fill_paths _ _ gtk hgtk opendir depth d dirPath hopen hopens hdepth
    refine ⟨treestore, shown, hfill, hshows, ?_⟩
    rw [hpaths, List.filter_eq_self.mpr hall]

end Fill

/-- Nodes that are numbered as they are appended, each with its parent and its text. -/
def numberedNodes : Gtk (List (Option Nat × List UInt8)) Nat where
  treeStoreNew := []
  treeStoreAppend treestore parent := (treestore ++ [(parent, [])], treestore.length)
  treeStoreSet treestore node text := treestore.modify node fun row => (row.1, text)
  nodes treestore := List.range treestore.length
  parent treestore node := (treestore[node]?).bind Prod.fst
  text treestore node := ((treestore[node]?).map Prod.snd).getD []

theorem numberedNodes_documented : numberedNodes.Documented where
  new := rfl
  append treestore parent _ := by
    refine ⟨by simp [numberedNodes], ?_, by simp [numberedNodes], fun node hnode => ?_⟩
    · simp [numberedNodes, List.range_succ]
    · have hlt : node < treestore.length := List.mem_range.mp hnode
      simp [numberedNodes, List.getElem?_append_left hlt]
  set treestore node hnode text := by
    have hlt : node < treestore.length := List.mem_range.mp hnode
    refine ⟨by simp [numberedNodes], funext fun other => ?_, ?_, fun other hne => ?_⟩
    · by_cases hother : other = node
      · simp [numberedNodes, hother, hlt]
      · simp [numberedNodes, Ne.symm hother]
    · simp [numberedNodes, hlt]
    · simp [numberedNodes, Ne.symm hne]

def photos : Directory := .self (.up (.reg ⟨ascii "cat.jpg", by decide⟩ .nil))

def home : Directory :=
  .up (.dir ⟨ascii "photos", by decide⟩ photos (.self (.reg ⟨ascii "notes.txt", by decide⟩ .nil)))

def openHome (dirPath : List UInt8) : Option (List Dirent) :=
  if dirPath = dot then some home.dirents
  else if dirPath = ascii "./photos" then some photos.dirents
  else none

theorem view_mirrors_iff_of_home : Mirrors numberedNodes openHome dot home := by
  have hopens : home.Opens openHome dot := ⟨⟨by decide, trivial⟩, trivial⟩
  exact (view_mirrors_iff numberedNodes_documented (by decide) hopens).mpr (by decide)

/-- A directory with one file, which has the name `ab`. -/
def short : Directory := .reg ⟨ascii "ab", by decide⟩ .nil

theorem short_name_is_missing :
    ¬ Mirrors numberedNodes (fun _ => some short.dirents) dot short := by
  rintro ⟨n, h⟩
  obtain ⟨treestore, shown, hfill, hshows, hperm⟩ := h (n + 1) (Nat.le_succ n)
  cases hfill
  have hnone := hshows.nodes.length_eq
  have hone := hperm.length_eq
  rw [List.length_map] at hnone hone
  rw [← hnone] at hone
  exact absurd hone (by decide)

end Homework.DirView
