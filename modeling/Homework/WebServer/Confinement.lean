import Homework.WebServer.Response
import Homework.WebServer.Target

/-!
# Which files the server opens

A path is resolved from the directory of the server component by component. A location is
the list of the names on the way to it from the root. The path that `write_res` opens stays
below the directory only if the client has not asked for more, since nothing checks it.
-/

namespace Homework.WebServer

set_option autoImplicit false

def slash : UInt8 := 47
def dot : List UInt8 := [46]
def dotdot : List UInt8 := [46, 46]

abbrev Location := List (List UInt8)

def resolve (location : Location) (component : List UInt8) : Location :=
  if component = dot then location
  else if component = dotdot then location.dropLast
  else location ++ [component]

def startOf (dir : Location) (path : List UInt8) : Location :=
  if path.head? = some slash then [] else dir

/-- The path stays at or below `dir` at every step of its resolution. -/
def Confined (dir : Location) (path : List UInt8) : Prop :=
  ∀ passed, passed <+: words [slash] path → dir <+: passed.foldl resolve (startOf dir path)

def Action.Opens (path : List UInt8) (action : Action) : Prop :=
  action = .access path ∨ action = .openFile path

def ups (components : List (List UInt8)) : Nat := components.count dotdot

def names (components : List (List UInt8)) : Nat :=
  components.countP fun component => component ≠ dot ∧ component ≠ dotdot

theorem ups_concat (components : List (List UInt8)) (component : List UInt8) :
    ups (components ++ [component]) = ups components + if component = dotdot then 1 else 0 := by
  simp [ups, List.count_singleton]

theorem names_concat (components : List (List UInt8)) (component : List UInt8) :
    names (components ++ [component]) =
      names components + if component ≠ dot ∧ component ≠ dotdot then 1 else 0 := by
  simp [names, List.countP_append, List.countP_singleton]

/-- The path is relative, and nowhere along it there have been more `..` than names. -/
def StaysBelow (path : List UInt8) : Prop :=
  path.head? ≠ some slash ∧ ∀ passed, passed <+: words [slash] path → ups passed ≤ names passed

/-- The components lead from `dir` down to where the names left over by the `..` lead. -/
def Descends (dir : Location) (components : List (List UInt8)) : Prop :=
  ∃ below, components.foldl resolve dir = dir ++ below ∧
    below.length + ups components = names components

namespace Descends
variable {dir : Location} {components : List (List UInt8)} {component : List UInt8}

theorem confined (h : Descends dir components) : dir <+: components.foldl resolve dir := by
  obtain ⟨below, hfoldl, -⟩ := h
  rw [hfoldl]
  exact List.prefix_append dir below

theorem ups_le_names (h : Descends dir components) : ups components ≤ names components := by
  obtain ⟨below, -, hdepth⟩ := h
  omega

theorem concat (h : Descends dir components)
    (hups : ups (components ++ [component]) ≤ names (components ++ [component])) :
    Descends dir (components ++ [component]) := by
  obtain ⟨below, hfoldl, hdepth⟩ := h
  unfold Descends
  rw [List.foldl_append, hfoldl, List.foldl_cons, List.foldl_nil]
  rw [ups_concat, names_concat] at *
  have hne : dot ≠ dotdot := by decide
  by_cases hdot : component = dot
  · rw [hdot]
    refine ⟨below, by simp [resolve], ?_⟩
    simpa [hne] using hdepth
  · by_cases hdotdot : component = dotdot
    · rw [hdotdot] at hups ⊢
      simp only [if_true, ne_eq, not_true_eq_false, and_false, if_false] at hups ⊢
      have hbelow : below ≠ [] := by
        rintro rfl
        rw [List.length_nil] at hdepth
        omega
      refine ⟨below.dropLast, ?_, ?_⟩
      · rw [resolve, if_neg hne.symm, if_pos rfl, List.dropLast_append_of_ne_nil hbelow]
      · have hpos := List.length_pos_of_ne_nil hbelow
        rw [List.length_dropLast]
        omega
    · rw [if_neg hdotdot, if_pos ⟨hdot, hdotdot⟩]
      refine ⟨below ++ [component], by simp [resolve, hdot, hdotdot], ?_⟩
      rw [List.length_append, List.length_singleton]
      omega

/-- A step up from `dir` itself is a step out of it. -/
theorem ups_le_of_confined (h : Descends dir components) (hdir : dir ≠ [])
    (hconfined : dir <+: (components ++ [component]).foldl resolve dir) :
    ups (components ++ [component]) ≤ names (components ++ [component]) := by
  obtain ⟨below, hfoldl, hdepth⟩ := h
  rw [List.foldl_append, hfoldl, List.foldl_cons, List.foldl_nil] at hconfined
  rw [ups_concat, names_concat]
  by_cases hdotdot : component = dotdot
  · have hbelow : below ≠ [] := by
      rintro rfl
      have hne : dotdot ≠ dot := by decide
      have hlen := hconfined.length_le
      have hpos := List.length_pos_of_ne_nil hdir
      rw [List.append_nil, hdotdot, resolve, if_neg hne, if_pos rfl, List.length_dropLast] at hlen
      omega
    have hpos := List.length_pos_of_ne_nil hbelow
    rw [if_pos hdotdot]
    omega
  · rw [if_neg hdotdot]
    omega

theorem of_ups_le (h : ∀ passed, passed <+: components → ups passed ≤ names passed) :
    Descends dir components := by
  induction components using List.reverseRecOn with
  | nil => exact ⟨[], by simp, rfl⟩
  | append_singleton components component ih =>
    apply concat
    · exact ih fun passed hpassed => h passed (hpassed.trans (List.prefix_append _ _))
    · exact h _ (List.prefix_refl _)

theorem of_confined (hdir : dir ≠ [])
    (h : ∀ passed, passed <+: components → dir <+: passed.foldl resolve dir) :
    Descends dir components := by
  induction components using List.reverseRecOn with
  | nil => exact ⟨[], by simp, rfl⟩
  | append_singleton components component ih =>
    have hbefore := ih fun passed hpassed => h passed (hpassed.trans (List.prefix_append _ _))
    exact hbefore.concat (hbefore.ups_le_of_confined hdir (h _ (List.prefix_refl _)))

end Descends

/-- The root has nothing above it. Any other directory is left by an absolute path, and by a
relative one that goes up too often. -/
theorem confined_iff (dir : Location) (path : List UInt8) :
    Confined dir path ↔ dir = [] ∨ StaysBelow path := by
  by_cases hdir : dir = []
  · simp [Confined, hdir]
  · rw [or_iff_right hdir]
    unfold Confined StaysBelow startOf
    split
    · rename_i habsolute
      constructor
      · intro h
        have hroot := h [] List.nil_prefix
        exact absurd (List.prefix_nil.mp hroot) hdir
      · rintro ⟨hrelative, -⟩
        exact absurd habsolute hrelative
    · rename_i hrelative
      constructor
      · intro h
        refine ⟨hrelative, fun passed hpassed => ?_⟩
        apply Descends.ups_le_names
        exact Descends.of_confined hdir fun passed' hpassed' => h passed' (hpassed'.trans hpassed)
      · rintro ⟨-, h⟩ passed hpassed
        apply Descends.confined
        exact Descends.of_ups_le fun passed' hpassed' => h passed' (hpassed'.trans hpassed)

theorem writeRes_opens {req : ReqData} (hlen : req.urlLen = req.url.length) (hurl : req.url ≠ [])
    (files : Files) (path : List UInt8) :
    (∃ action ∈ (writeRes req files).2, action.Opens path) ↔ path = req.url := by
  have hne : req.urlLen ≠ 0 := by
    rw [hlen]
    exact fun h => hurl (List.eq_nil_of_length_eq_zero h)
  unfold writeRes respond Action.Opens
  rw [if_pos hne]
  split
  · simp [eq_comm]
  · split <;> simp [eq_comm]

/-- Nothing is checked, so that the client is confined only as far as its request is. -/
theorem server_confines_iff (dir : Location) {recvs : List Recv} {req : ReqData}
    (hread : readReq zeroReq recvs = some req) (hurl : req.url ≠ []) (files : Files) :
    (∀ action ∈ (writeRes req files).2, ∀ path, action.Opens path → Confined dir path) ↔
      dir = [] ∨ StaysBelow (target (headerPiece [] (arrived recvs))) := by
  obtain ⟨htarget, hlen⟩ := readReq_url hread
  rw [← htarget, ← confined_iff]
  have hopens := writeRes_opens hlen hurl files
  constructor
  · intro h
    obtain ⟨action, haction, hpath⟩ := (hopens req.url).mpr rfl
    exact h action haction req.url hpath
  · intro h action haction path hpath
    rw [(hopens path).mp ⟨action, haction, hpath⟩]
    exact h

def getRequest (path : List UInt8) : List UInt8 :=
  ascii "GET /" ++ path ++ ascii " HTTP/1.1\r\n\r\n"

theorem server_confines_iff_of_index :
    ∃ req, readReq zeroReq (arriving [getRequest (ascii "index.html")]) = some req ∧
      ∀ files, (∀ action ∈ (writeRes req files).2, ∀ path, action.Opens path →
          Confined [ascii "srv"] path) ↔
        [ascii "srv"] = [] ∨ StaysBelow (target (headerPiece []
          (arrived (arriving [getRequest (ascii "index.html")])))) := by
  obtain ⟨req, hread⟩ := @readReq_of_error (arriving [getRequest (ascii "index.html")])
    (by simp [arriving])
  have hurl : req.url ≠ [] := by
    rw [(readReq_url hread).1]
    decide
  exact ⟨req, hread, server_confines_iff [ascii "srv"] hread hurl⟩

theorem dotdot_leaves_the_directory : ¬ ∀ dir recvs req files,
    readReq zeroReq recvs = some req → req.url ≠ [] →
    ∀ action ∈ (writeRes req files).2, ∀ path, action.Opens path → Confined dir path := by
  intro h
  obtain ⟨req, hread⟩ := @readReq_of_error (arriving [getRequest (ascii "../secret")])
    (by simp [arriving])
  obtain ⟨htarget, hlen⟩ := readReq_url hread
  have hurl : req.url = ascii "../secret" := by
    rw [htarget]
    decide
  have hne : req.url ≠ [] := by
    rw [hurl]
    decide
  obtain ⟨action, haction, hpath⟩ := (writeRes_opens hlen hne ⟨false, none⟩ req.url).mpr rfl
  have hconfined := h [ascii "srv"] _ req ⟨false, none⟩ hread hne action haction req.url hpath
  -- the first component leads out of the directory
  have hout := hconfined [dotdot] (by rw [hurl]; decide)
  rw [hurl] at hout
  revert hout
  decide

end Homework.WebServer
