import Homework.StatParser.Sizes
import Homework.StatParser.Worker
import Homework.TopN.Statistics

/-!
# What the threads have counted

Every call that the lines of the files lead to is at every moment in one of three places: made
on a global, made on a container of a thread, or still to be made. A turn of a thread moves some
from one place to another. When the threads are joined the globals have them all, though a call
under a mutex takes many turns and other threads take theirs in between.
-/

namespace Homework.StatParser

set_option autoImplicit false

open Regex TopN Mutex

abbrev Adds := Multiset (List UInt8 × Int)

def callDues : Call → Dues (List UInt8)
  | .addUrl key value => ({(key, value)}, 0, 0)
  | .addReferer key value => (0, {(key, value)}, 0)
  | .addTotal size => (0, 0, size)

def callsDues (calls : List Call) : Dues (List UInt8) := (calls.map callDues).sum

@[simp] theorem callsDues_nil : callsDues [] = 0 := rfl

@[simp] theorem callsDues_cons (call : Call) (calls : List Call) :
    callsDues (call :: calls) = callDues call + callsDues calls := List.sum_cons

theorem callsDues_append (calls calls' : List Call) :
    callsDues (calls ++ calls') = callsDues calls + callsDues calls' := by
  rw [callsDues, List.map_append, List.sum_append, callsDues, callsDues]

theorem add_callDues_url (urls refs : Adds) (key : List UInt8) (value : Int) :
    (urls, refs, 0) + callDues (.addUrl key value) = ((key, value) ::ₘ urls, refs, 0) :=
  Prod.ext ((add_comm _ _).trans (Multiset.singleton_add _ _)) (Prod.ext (add_zero _) rfl)

theorem add_callDues_referer (urls refs : Adds) (key : List UInt8) (value : Int) :
    (urls, refs, 0) + callDues (.addReferer key value) = (urls, (key, value) ::ₘ refs, 0) :=
  Prod.ext (add_zero _) (Prod.ext ((add_comm _ _).trans (Multiset.singleton_add _ _)) rfl)

section Threads
variable {ρ : Type} (pcre : Pcre ρ)

def linesCalls (lines : List (List UInt8)) : List Call := lines.flatMap (loglineCalls pcre)

/-- The lines of all files that can be opened. -/
def linesIn (files : List File) : List (List UInt8) :=
  files.flatMap fun file => getlines (file.getD [])

/-- The calls that a thread still has to make. -/
def todo : Worker → List Call
  | .next files => linesCalls pcre (linesIn files)
  | .reading _ _ lines files => linesCalls pcre lines ++ linesCalls pcre (linesIn files)
  | .counting _ _ calls lines files =>
    calls ++ (linesCalls pcre lines ++ linesCalls pcre (linesIn files))
  | .mergingUrl _ _ files => linesCalls pcre (linesIn files)
  | .mergingRef _ files => linesCalls pcre (linesIn files)

/-- What the containers of a thread have. -/
def Has : Worker → Adds → Adds → Prop
  | .next _, urls, refs => urls = 0 ∧ refs = 0
  | .reading urlToSz refToCt _ _, urls, refs =>
    Complete (top * 100) urlToSz urls ∧ Complete (top * 100) refToCt refs
  | .counting urlToSz refToCt _ _ _, urls, refs =>
    Complete (top * 100) urlToSz urls ∧ Complete (top * 100) refToCt refs
  | .mergingUrl urlToSz refToCt _, urls, refs =>
    Complete (top * 100) urlToSz urls ∧ Complete (top * 100) refToCt refs
  | .mergingRef refToCt _, urls, refs => urls = 0 ∧ Complete (top * 100) refToCt refs

def OwesCalls (worker : Worker) (m : Dues (List UInt8)) : Prop :=
  ∃ urls refs, Has worker urls refs ∧ m = (urls, refs, 0) + callsDues (todo pcre worker)

def globals (gl : (g : Global) → Shared g) : Globals (List UInt8) where
  glUrlToSz := gl .urlToSz
  glRefToCt := gl .refToCt
  glTotalSize := gl .totalSize

theorem linesIn_cons (file : File) (files : List File) :
    linesIn (file :: files) = getlines (file.getD []) ++ linesIn files := List.flatMap_cons

theorem linesCalls_append (lines lines' : List (List UInt8)) :
    linesCalls pcre (lines ++ lines') = linesCalls pcre lines ++ linesCalls pcre lines' :=
  List.flatMap_append

/-- A turn that only the thread itself sees. -/
theorem owesCalls_of_same {worker : Worker} (worker' : Worker) {held owed : Dues (List UInt8)}
    (howes : OwesCalls pcre worker owed) (htodo : todo pcre worker' = todo pcre worker)
    (hhas : ∀ urls refs, Has worker urls refs → Has worker' urls refs) :
    ∃ owed', OwesCalls pcre worker' owed' ∧ held + owed' = held + owed := by
  obtain ⟨urls, refs, h, rfl⟩ := howes
  exact ⟨_, ⟨urls, refs, hhas urls refs h, rfl⟩, by rw [htodo]⟩

theorem owesCalls_next {files : List File} : OwesCalls pcre (.next files)
    (callsDues (linesCalls pcre (linesIn files))) := ⟨0, 0, ⟨rfl, rfl⟩, (zero_add _).symm⟩

/-- A turn that counts `call` in the containers of the thread. -/
theorem owesCalls_of_counted {urlToSz refToCt urlToSz' refToCt' : Cont}
    {urls refs urls' refs' : Adds}
    {call : Call} (calls : List Call) (lines : List (List UInt8)) (files : List File)
    (hcall : (urls, refs, 0) + callDues call = (urls', refs', 0))
    (hurl : Complete (top * 100) urlToSz' urls') (href : Complete (top * 100) refToCt' refs') :
    OwesCalls pcre (.counting urlToSz' refToCt' calls lines files)
      ((urls, refs, 0) +
        callsDues (todo pcre (.counting urlToSz refToCt (call :: calls) lines files)))
    := by
  refine ⟨urls', refs', ⟨hurl, href⟩, ?_⟩
  rw [← hcall, add_assoc]
  rfl

/-- One call of `parse_combined_logline`. -/
theorem counting_transfers {total held owed rest : Dues (List UInt8)} (hfit : DuesFit total)
    {gl : (g : Global) → Shared g} {urlToSz refToCt : Cont} {call : Call} (calls : List Call)
    (lines : List (List UInt8)) (files : List File) (hheld : Holds (globals gl) held)
    (howed : OwesCalls pcre (.counting urlToSz refToCt (call :: calls) lines files) owed)
    (hsum : held + owed + rest = total) :
    let after := getStatTurn pcre gl (.counting urlToSz refToCt (call :: calls) lines files)
    ∃ held' owed', Holds (globals after.1) held' ∧ OwesCalls pcre after.2 owed' ∧
      held' + owed' = held + owed := by
  obtain ⟨urls, refs, ⟨hurl, href⟩, rfl⟩ := howed
  have hsplit : callsDues (todo pcre (.counting urlToSz refToCt (call :: calls) lines files)) =
      callDues call + callsDues (todo pcre (.counting urlToSz refToCt calls lines files)) := rfl
  have hown : DuesFit ((urls, refs, 0) + callDues call) := by
    refine hfit.part
      (held + callsDues (todo pcre (.counting urlToSz refToCt calls lines files)) + rest) ?_
    rw [← hsum, hsplit]
    abel
  cases call with
  | addUrl key value =>
    have hcall := add_callDues_url urls refs key value
    rw [hcall] at hown
    exact ⟨held, _, hheld,
      owesCalls_of_counted pcre calls lines files hcall (hurl.add hown.urls) href, rfl⟩
  | addReferer key value =>
    have hcall := add_callDues_referer urls refs key value
    rw [hcall] at hown
    exact ⟨held, _, hheld,
      owesCalls_of_counted pcre calls lines files hcall hurl (href.add hown.refs), rfl⟩
  | addTotal size =>
    have hmoved : held + (0, 0, size) + ((urls, refs, 0) +
        callsDues (todo pcre (.counting urlToSz refToCt calls lines files))) =
        held + ((urls, refs, 0) + callsDues
          (todo pcre (.counting urlToSz refToCt (.addTotal size :: calls) lines files))) := by
      rw [hsplit, callDues]
      abel
    have hgl : DuesFit (held + (0, 0, size)) := by
      refine hfit.part ((urls, refs, 0) +
        callsDues (todo pcre (.counting urlToSz refToCt calls lines files)) + rest) ?_
      rw [← add_assoc, hmoved]
      exact hsum
    exact ⟨_, _, hheld.line hgl, ⟨urls, refs, ⟨hurl, href⟩, rfl⟩, hmoved⟩

theorem getStatTurn_transfers {total : Dues (List UInt8)} (hfit : DuesFit total) :
    System.Transfers (getStatTurn pcre) (fun gl => Holds (globals gl)) (OwesCalls pcre) total := by
  intro gl worker held owed rest hheld howed hsum
  cases worker with
  | next files =>
    rcases files with _ | ⟨_ | bytes, files⟩
    · exact ⟨held, owed, hheld, howed, rfl⟩
    · obtain ⟨owed', howed', hsame⟩ :=
        owesCalls_of_same pcre (.next files) howed rfl fun _ _ h => h
      exact ⟨held, owed', hheld, howed', hsame⟩
    · obtain ⟨owed', howed', hsame⟩ := owesCalls_of_same pcre
        (.reading (topnContInit (top * 100)) (topnContInit (top * 100)) (getlines bytes) files)
        howed (by simp only [todo, linesIn_cons, linesCalls_append, Option.getD_some])
        fun urls refs ⟨hurls, hrefs⟩ => by
          subst hurls hrefs
          exact ⟨complete_init, complete_init⟩
      exact ⟨held, owed', hheld, howed', hsame⟩
  | reading urlToSz refToCt lines files =>
    cases lines with
    | nil =>
      obtain ⟨owed', howed', hsame⟩ := owesCalls_of_same pcre
        (.mergingUrl urlToSz refToCt files) howed rfl fun _ _ h => h
      exact ⟨held, owed', hheld, howed', hsame⟩
    | cons line lines =>
      obtain ⟨owed', howed', hsame⟩ := owesCalls_of_same pcre
        (.counting urlToSz refToCt (loglineCalls pcre line) lines files) howed
        (by simp only [todo, linesCalls, List.flatMap_cons, List.append_assoc]) fun _ _ h => h
      exact ⟨held, owed', hheld, howed', hsame⟩
  | counting urlToSz refToCt calls lines files =>
    cases calls with
    | nil =>
      obtain ⟨owed', howed', hsame⟩ := owesCalls_of_same pcre
        (.reading urlToSz refToCt lines files) howed rfl fun _ _ h => h
      exact ⟨held, owed', hheld, howed', hsame⟩
    | cons call calls =>
      exact counting_transfers pcre hfit calls lines files hheld howed hsum
  | mergingUrl urlToSz refToCt files =>
    obtain ⟨urls, refs, ⟨hurl, href⟩, rfl⟩ := howed
    have hsplit : ((urls, refs, 0) : Dues (List UInt8)) = (urls, 0, 0) + (0, refs, 0) := by simp
    have hmoved :
        held + (urls, 0, 0) + ((0, refs, 0) + callsDues (linesCalls pcre (linesIn files))) =
        held + ((urls, refs, 0) + callsDues (linesCalls pcre (linesIn files))) := by
      rw [hsplit]
      abel
    have hgl : DuesFit (held + (urls, 0, 0)) := by
      refine hfit.part ((0, refs, 0) + callsDues (linesCalls pcre (linesIn files)) + rest) ?_
      rw [← add_assoc, hmoved]
      exact hsum
    exact ⟨_, _, hheld.mergeUrl hurl hgl, ⟨0, refs, ⟨rfl, href⟩, rfl⟩, hmoved⟩
  | mergingRef refToCt files =>
    obtain ⟨urls, refs, ⟨rfl, href⟩, rfl⟩ := howed
    refine ⟨_, _, hheld.mergeRef href (hfit.part
      (callsDues (linesCalls pcre (linesIn files)) + rest) ?_), owesCalls_next pcre, ?_⟩
    · rw [← hsum]
      exact (add_assoc _ _ _).symm.trans (congrArg (· + rest) (add_assoc _ _ _))
    · exact add_assoc _ _ _

/-! ## Every thread comes to its end -/

def linesLeft (lines : List (List UInt8)) : Nat :=
  (lines.map fun line => (loglineCalls pcre line).length + 2).sum

def filesLeft (files : List File) : Nat :=
  (files.map fun file => file.elim 1 fun bytes => linesLeft pcre (getlines bytes) + 4).sum

/-- The turns that a thread still takes, each call under a mutex being one. -/
def turnsLeft : Worker → Nat
  | .next files => filesLeft pcre files
  | .reading _ _ lines files => linesLeft pcre lines + filesLeft pcre files + 3
  | .counting _ _ calls lines files =>
    calls.length + linesLeft pcre lines + filesLeft pcre files + 4
  | .mergingUrl _ _ files => filesLeft pcre files + 2
  | .mergingRef _ files => filesLeft pcre files + 1

theorem turnsLeft_getStatTurn (gl : (g : Global) → Shared g) (worker : Worker)
    (h : turnsLeft pcre worker ≠ 0) :
    turnsLeft pcre (getStatTurn pcre gl worker).2 < turnsLeft pcre worker := by
  unfold getStatTurn
  split <;>
    simp only [turnsLeft, filesLeft, linesLeft, List.map_cons, List.map_nil, List.sum_cons,
      List.sum_nil, List.length_cons, List.length_nil, Option.elim_none,
      Option.elim_some] at h ⊢ <;>
    omega

theorem eq_next_nil_of_left {worker : Worker} (h : turnsLeft pcre worker = 0) :
    worker = .next [] := by
  cases worker with
  | next files =>
    rcases files with _ | ⟨_ | bytes, files⟩
    · rfl
    · simp only [turnsLeft, filesLeft, List.map_cons, List.sum_cons, Option.elim_none] at h
      omega
    · simp only [turnsLeft, filesLeft, List.map_cons, List.sum_cons, Option.elim_some] at h
      omega
  | reading urlToSz refToCt lines files => cases h
  | counting urlToSz refToCt calls lines files => cases h
  | mergingUrl urlToSz refToCt files => cases h
  | mergingRef refToCt files => cases h

end Threads

/-! ## The fields of the lines -/

open Classical in
noncomputable def fieldsOf (logline : List UInt8) : Option LogFields :=
  if h : ∃ f : LogFields, f.Matches logline then some h.choose else none

theorem fieldsOf_eq_some_iff {logline : List UInt8} {f : LogFields} :
    fieldsOf logline = some f ↔ f.Matches logline := by
  unfold fieldsOf
  constructor
  · intro h
    split at h
    · rename_i hex
      cases h
      exact hex.choose_spec
    · cases h
  · intro h
    have hex : ∃ f : LogFields, f.Matches logline := ⟨f, h⟩
    rw [dif_pos hex, matches_unique hex.choose_spec h]

/-- The fields of all lines that have them. -/
noncomputable def fieldsIn (files : List File) : List LogFields :=
  (linesIn files).filterMap fieldsOf

def refAdds (fields : List LogFields) : List (List UInt8 × Int) :=
  fields.map fun f => (f.referer, 1)

def fieldsDues (fields : List LogFields) : Dues (List UInt8) :=
  (↑(urlAdds fields), ↑(refAdds fields), bytesOf fields)

theorem fieldsDues_cons (f : LogFields) (fields : List LogFields) :
    fieldsDues (f :: fields) = fieldsDues [f] + fieldsDues fields := by
  have hurls : urlAdds (f :: fields) = urlAdds [f] ++ urlAdds fields := by
    rw [urlAdds, ← List.singleton_append, List.filterMap_append, urlAdds, urlAdds]
  refine Prod.ext (congrArg Multiset.ofList hurls) (Prod.ext rfl ?_)
  simp [fieldsDues, bytesOf]

theorem flatten_getlines (bytes : List UInt8) : (getlines bytes).flatten = bytes := by
  induction bytes with
  | nil => rfl
  | cons b bytes ih =>
    unfold getlines
    split
    · rw [List.flatten_cons, ih, List.singleton_append]
    · split
      · rename_i hnil
        rw [hnil] at ih
        rw [← ih]
        rfl
      · rename_i line lines hcons
        rw [hcons, List.flatten_cons] at ih
        rw [List.flatten_cons, List.cons_append, ih]

theorem zero_notMem_of_mem_linesIn {files : List File} (h : ∀ bytes, some bytes ∈ files → 0 ∉ bytes)
    {line : List UInt8} (hline : line ∈ linesIn files) : 0 ∉ line := by
  obtain ⟨file, hfile, hline⟩ := List.mem_flatMap.mp hline
  cases file with
  | none => cases hline
  | some bytes =>
    intro hzero
    apply h bytes hfile
    rw [← flatten_getlines bytes]
    exact List.mem_flatten_of_mem hline hzero

section Threads
variable {ρ : Type} {pcre : Pcre ρ}

theorem callsDues_loglineCalls (hpcre : pcre.Compiles loglinePattern) {logline : List UInt8}
    (hline : 0 ∉ logline) (hfit : ∀ f, fieldsOf logline = some f → (f.bytes : Int) ≤ intMax) :
    callsDues (loglineCalls pcre logline) = fieldsDues (fieldsOf logline).toList := by
  cases hf : fieldsOf logline with
  | none =>
    have hno : ∀ f : LogFields, ¬ f.Matches logline := by
      intro f hmatches
      rw [fieldsOf_eq_some_iff.mpr hmatches] at hf
      cases hf
    rw [(loglineCalls_eq_nil_iff hpcre hline).mpr hno]
    rfl
  | some f =>
    have hmatches := fieldsOf_eq_some_iff.mp hf
    have hatoi : atoi f.size = f.bytes := by
      rw [(atoi_size hmatches.wellFormed).1, lost_eq_zero (hfit f hf)]
      omega
    have hbytes : sizeOfInt (f.bytes : Int) = f.bytes := by
      have hle := hfit f hf
      unfold intMax at hle
      unfold sizeOfInt
      omega
    rw [loglineCalls_of_matches hpcre hline hmatches, requestCalls, hatoi, hbytes,
      Option.toList_some, fieldsDues, urlAdds, refAdds, bytesOf]
    cases hurl : urlOf f.request with
    | none => simp [callsDues, callDues, hurl]
    | some url => simp [callsDues, callDues, hurl, hatoi]

theorem callsDues_linesCalls (hpcre : pcre.Compiles loglinePattern) {lines : List (List UInt8)}
    (hlines : ∀ line ∈ lines, 0 ∉ line)
    (hfit : ∀ f ∈ lines.filterMap fieldsOf, (f.bytes : Int) ≤ intMax) :
    callsDues (linesCalls pcre lines) = fieldsDues (lines.filterMap fieldsOf) := by
  induction lines with
  | nil => rfl
  | cons line lines ih =>
    rw [List.forall_mem_cons] at hlines
    have hhead := callsDues_loglineCalls hpcre hlines.1 fun f hf =>
      hfit f (List.mem_filterMap.mpr ⟨line, List.mem_cons_self, hf⟩)
    have htail := ih hlines.2 fun f hf => hfit f <| by
      obtain ⟨line', hline', hf⟩ := List.mem_filterMap.mp hf
      exact List.mem_filterMap.mpr ⟨line', List.mem_cons_of_mem line hline', hf⟩
    rw [linesCalls, List.flatMap_cons, callsDues_append, hhead, ← linesCalls, htail]
    cases hf : fieldsOf line with
    | none =>
      rw [List.filterMap_cons_none hf]
      exact zero_add _
    | some f =>
      rw [List.filterMap_cons_some hf, fieldsDues_cons, Option.toList_some]

end Threads

/-! ## The result -/

/-- By falling value, each key of the lines with the sum over its lines. -/
structure Ranks (list : List (ListItem (List UInt8))) (fields : List LogFields)
    (keyOf : LogFields → Option (List UInt8)) (amount : LogFields → Nat) : Prop where
  ordered : Ordered list
  mem_keys : ∀ k, k ∈ keys list ↔ ∃ f ∈ fields, keyOf f = some k
  value_eq : ∀ item ∈ list,
    item.value = ((fields.filter fun f => keyOf f = some item.key).map amount).sum

/-- There is room for all keys, and no sum leaves its type. -/
structure WithinLimits (fields : List LogFields) : Prop where
  urls : (fields.filterMap fun f => urlOf f.request).toFinset.card ≤ top * 100
  referers : (fields.map LogFields.referer).toFinset.card ≤ top * 100
  bytes : ∀ f ∈ fields, (f.bytes : Int) ≤ intMax
  sizes : ∀ url, (bytesOf (withUrl url fields) : Int) ≤ intMax
  counts : ∀ referer, ((fields.filter fun f => f.referer = referer).length : Int) ≤ intMax
  total : bytesOf fields < 2 ^ 64

section Fields
variable {fields : List LogFields}

theorem totalOf_urlAdds_eq (hfields : ∀ f ∈ fields, f.WellFormed) (h : WithinLimits fields)
    (url : List UInt8) : totalOf ↑(urlAdds fields) url = bytesOf (withUrl url fields) := by
  rw [totalOf_urlAdds hfields, lostOf_eq_zero (h.sizes url)]
  omega

theorem totalOf_refAdds (fields : List LogFields) (referer : List UInt8) :
    totalOf ↑(refAdds fields) referer = (fields.filter fun f => f.referer = referer).length := by
  induction fields with
  | nil => rfl
  | cons f fields ih =>
    rw [refAdds, List.map_cons, ← Multiset.cons_coe, totalOf_cons, ← refAdds, ih]
    by_cases heq : f.referer = referer
    · rw [if_pos heq.symm, List.filter_cons_of_pos (by simp [heq]), List.length_cons]
      omega
    · rw [if_neg (Ne.symm heq), List.filter_cons_of_neg (by simp [heq]), Int.add_zero]

theorem mem_urlAdds {a : List UInt8 × Int} : a ∈ urlAdds fields ↔
    ∃ f ∈ fields, urlOf f.request = some a.1 ∧ atoi f.size = a.2 := by
  obtain ⟨url, size⟩ := a
  simp only [urlAdds, List.mem_filterMap, Option.map_eq_some_iff, Prod.mk.injEq]
  apply exists_congr
  intro f
  apply and_congr_right
  intro hf
  constructor
  · rintro ⟨url', hurl, rfl, hsize⟩
    exact ⟨hurl, hsize⟩
  · rintro ⟨hurl, hsize⟩
    exact ⟨url, hurl, rfl, hsize⟩

theorem mem_refAdds {a : List UInt8 × Int} : a ∈ refAdds fields ↔
    ∃ f ∈ fields, f.referer = a.1 ∧ 1 = a.2 := by
  obtain ⟨referer, count⟩ := a
  simp only [refAdds, List.mem_map, Prod.mk.injEq]

theorem duesFit_of_withinLimits (hfields : ∀ f ∈ fields, f.WellFormed) (h : WithinLimits fields) :
    DuesFit (fieldsDues fields) where
  urls := by
    refine ⟨?_, fun url => (totalOf_urlAdds_eq hfields h url).trans_le (h.sizes url), ?_⟩
    · intro a ha
      obtain ⟨f, hf, -, hsize⟩ := mem_urlAdds.mp ha
      rw [← hsize, (atoi_size (hfields f hf)).1, lost_eq_zero (h.bytes f hf)]
      omega
    · refine le_trans (Finset.card_le_card fun url hurl => ?_) h.urls
      obtain ⟨a, ha, rfl⟩ := mem_distinctKeys.mp hurl
      obtain ⟨f, hf, hurl, -⟩ := mem_urlAdds.mp ha
      exact List.mem_toFinset.mpr (List.mem_filterMap.mpr ⟨f, hf, hurl⟩)
  refs := by
    refine ⟨?_, fun referer => (totalOf_refAdds fields referer).trans_le (h.counts referer), ?_⟩
    · intro a ha
      obtain ⟨f, -, -, hone⟩ := mem_refAdds.mp ha
      omega
    · refine le_trans (Finset.card_le_card fun referer hreferer => ?_) h.referers
      obtain ⟨a, ha, rfl⟩ := mem_distinctKeys.mp hreferer
      obtain ⟨f, hf, hreferer, -⟩ := mem_refAdds.mp ha
      exact List.mem_toFinset.mpr (List.mem_map.mpr ⟨f, hf, hreferer⟩)
  size := h.total

theorem ranks_urls (hfields : ∀ f ∈ fields, f.WellFormed) (h : WithinLimits fields)
    {list : List (ListItem (List UInt8))} (hlist : Tallies list ↑(urlAdds fields)) :
    Ranks list fields (fun f => urlOf f.request) LogFields.bytes where
  ordered := hlist.ordered
  mem_keys k := by
    rw [hlist.mem_keys]
    constructor
    · rintro ⟨a, ha, rfl⟩
      obtain ⟨f, hf, hurl, -⟩ := mem_urlAdds.mp ha
      exact ⟨f, hf, hurl⟩
    · rintro ⟨f, hf, hurl⟩
      exact ⟨(k, atoi f.size), mem_urlAdds.mpr ⟨f, hf, hurl, rfl⟩, rfl⟩
  value_eq item hitem := by
    rw [hlist.value_eq item hitem, totalOf_urlAdds_eq hfields h]
    rfl

theorem ranks_referers {list : List (ListItem (List UInt8))}
    (hlist : Tallies list ↑(refAdds fields)) :
    Ranks list fields (fun f => some f.referer) fun _ => 1 where
  ordered := hlist.ordered
  mem_keys k := by
    rw [hlist.mem_keys]
    constructor
    · rintro ⟨a, ha, rfl⟩
      obtain ⟨f, hf, hreferer, -⟩ := mem_refAdds.mp ha
      exact ⟨f, hf, congrArg some hreferer⟩
    · rintro ⟨f, hf, hreferer⟩
      exact ⟨(k, 1), mem_refAdds.mpr ⟨f, hf, Option.some.inj hreferer, rfl⟩, rfl⟩
  value_eq item hitem := by
    rw [hlist.value_eq item hitem, totalOf_refAdds, List.map_const', List.sum_replicate,
      smul_eq_mul, Nat.mul_one]
    simp only [Option.some.injEq]

end Fields

/-- The globals as `main` makes them. -/
def startShared : (g : Global) → Shared g
  | .urlToSz => topnContInit (κ := List UInt8) (top * 100)
  | .refToCt => topnContInit (κ := List UInt8) (top * 100)
  | .totalSize => (0 : Nat)

abbrev StatThreads (lists : List (List File)) :=
  Mutex.Threads Global Shared Worker Registers (Fin lists.length)

def startThreads (lists : List (List File)) : StatThreads lists :=
  Mutex.start startShared fun i => .next (lists.get i)

def AllJoined {lists : List (List File)} (s : StatThreads lists) : Prop :=
  ∀ i, s.phase i = .out (.next [])

/-- What the globals have when they account for all of the lines. -/
structure Accounted (fields : List LogFields) (gl : (g : Global) → Shared g) : Prop where
  urlRoom : (globals gl).glUrlToSz.capacity = top * 100
  refererRoom : (globals gl).glRefToCt.capacity = top * 100
  urls : Ranks (globals gl).glUrlToSz.list fields (fun f => urlOf f.request) LogFields.bytes
  referers : Ranks (globals gl).glRefToCt.list fields (fun f => some f.referer) fun _ => 1
  total : (globals gl).glTotalSize = bytesOf fields

section Result
variable {ρ : Type} {pcre : Pcre ρ} {lists : List (List File)}

theorem callsDues_flatten (lists : List (List File)) :
    callsDues (linesCalls pcre (linesIn lists.flatten)) =
      (lists.map fun files => callsDues (linesCalls pcre (linesIn files))).sum := by
  induction lists with
  | nil => rfl
  | cons files lists ih =>
    rw [List.flatten_cons, List.map_cons, List.sum_cons, ← ih, ← callsDues_append,
      ← linesCalls_append, linesIn, linesIn, linesIn, List.flatMap_append]

theorem startThreads_balanced : System.Balanced (fun gl => Holds (globals gl)) (OwesCalls pcre)
    (callsDues (linesCalls pcre (linesIn lists.flatten)))
    ⟨startShared, fun i => .next (lists.get i)⟩ := by
  refine ⟨0, fun i => callsDues (linesCalls pcre (linesIn (lists.get i))),
    ⟨complete_init, complete_init, rfl⟩, fun i => owesCalls_next pcre, ?_⟩
  rw [zero_add, callsDues_flatten]
  exact Fin.sum_univ_fun_getElem lists fun files => callsDues (linesCalls pcre (linesIn files))

theorem accounted_of_allJoined (hpcre : pcre.Compiles loglinePattern)
    (hzero : ∀ bytes, some bytes ∈ lists.flatten → 0 ∉ bytes)
    (hlimits : WithinLimits (fieldsIn lists.flatten)) {schedule : List (Fin lists.length)}
    (hjoined : AllJoined
      (run (Mutex.Threads.turn (getStatCode pcre)) (startThreads lists) schedule)) :
    Accounted (fieldsIn lists.flatten)
      (run (Mutex.Threads.turn (getStatCode pcre)) (startThreads lists) schedule).shared := by
  have hfields : ∀ f ∈ fieldsIn lists.flatten, f.WellFormed := by
    intro f hf
    obtain ⟨line, -, hf⟩ := List.mem_filterMap.mp hf
    exact (fieldsOf_eq_some_iff.mp hf).wellFormed
  have hdues := callsDues_linesCalls hpcre (fun line => zero_notMem_of_mem_linesIn hzero)
    hlimits.bytes
  have hfit := duesFit_of_withinLimits hfields hlimits
  rw [fieldsIn, ← hdues] at hfit
  obtain ⟨order, -, hfollows⟩ := exists_follows (getStatTurn_atomic pcre)
    (follows_start startShared fun i => .next (lists.get i)) schedule
  have hpaid : ∀ i m, OwesCalls pcre ((run (System.step (getStatTurn pcre))
      ⟨startShared, fun i => .next (lists.get i)⟩ order).workers i) m → m = 0 := by
    intro i m howes
    rw [hfollows.out i _ (hjoined i)] at howes
    obtain ⟨urls, refs, ⟨rfl, rfl⟩, rfl⟩ := howes
    rfl
  have hgl := System.holds_total (getStatTurn_transfers pcre hfit) startThreads_balanced hpaid
  rw [hdues] at hgl
  rw [startThreads, hfollows.eq_start fun i => ⟨_, hjoined i⟩]
  exact ⟨hgl.url.capacity_eq, hgl.ref.capacity_eq, ranks_urls hfields hlimits hgl.url.tallies,
    ranks_referers hgl.ref.tallies, hgl.total⟩

theorem exists_allJoined (schedule : List (Fin lists.length)) : ∃ more, AllJoined
    (run (Mutex.Threads.turn (getStatCode pcre)) (startThreads lists) (schedule ++ more)) := by
  obtain ⟨order, -, hfollows⟩ := exists_follows (getStatTurn_atomic pcre)
    (follows_start startShared fun i => .next (lists.get i)) schedule
  obtain ⟨more, shared, workers, hmore, hleft⟩ := exists_completion (getStatTurn_atomic pcre)
    (getStatCode_ends pcre) (turnsLeft_getStatTurn pcre) hfollows
  refine ⟨more, fun i => ?_⟩
  rw [startThreads, run_append, hmore]
  exact congrArg Phase.out (eq_next_nil_of_left pcre (hleft i))

/-- Whatever the schedule of the loads and stores and however many threads there are, the
globals account after the join for the lines of all files, and no schedule keeps the threads
from being joined. -/
theorem lines_are_accounted_for (hpcre : pcre.Compiles loglinePattern) (fileList : List File)
    (threadCount : Nat) (hpos : 1 ≤ threadCount)
    (hzero : ∀ bytes, some bytes ∈ fileList → 0 ∉ bytes)
    (hlimits : WithinLimits (fieldsIn fileList)) :
    let lists := threadFileLists fileList threadCount
    ∀ schedule : List (Fin lists.length),
      (AllJoined (run (Mutex.Threads.turn (getStatCode pcre)) (startThreads lists) schedule) →
        Accounted (fieldsIn fileList)
          (run (Mutex.Threads.turn (getStatCode pcre)) (startThreads lists) schedule).shared) ∧
      ∃ more, AllJoined
        (run (Mutex.Threads.turn (getStatCode pcre)) (startThreads lists) (schedule ++ more)) := by
  intro lists schedule
  have hflat : lists.flatten = fileList := flatten_threadFileLists fileList hpos
  rw [← hflat] at hzero hlimits ⊢
  exact ⟨accounted_of_allJoined hpcre hzero hlimits, exists_allJoined schedule⟩

end Result

theorem filterMap_fieldsOf {lines : List (List UInt8)} {fields : List LogFields}
    (h : List.Forall₂ IsLineOf lines fields) : lines.filterMap fieldsOf = fields := by
  induction h with
  | nil => rfl
  | cons hline _ ih => rw [List.filterMap_cons_some (fieldsOf_eq_some_iff.mpr hline.2), ih]

theorem fieldsIn_get : fieldsIn [some getText, none] = getFields := by
  have hlines : linesIn [some getText, none] = getFields.map LogFields.line := by decide +kernel
  rw [fieldsIn, hlines, filterMap_fieldsOf isLineOf_getFields]

theorem withinLimits_get : WithinLimits getFields where
  urls := by decide +kernel
  referers := by decide +kernel
  bytes := by decide +kernel
  sizes url := by
    have hle := bytesOf_withUrl_le url getFields
    have hbytes : bytesOf getFields = 2000 := by decide +kernel
    unfold intMax
    omega
  counts referer := by
    have hle := List.length_filter_le (fun f => f.referer = referer) getFields
    have htwo : getFields.length = 2 := rfl
    unfold intMax
    omega
  total := by decide +kernel

theorem zero_notMem_get : ∀ bytes, some bytes ∈ [some getText, none] → 0 ∉ bytes := by
  intro bytes hbytes
  rw [List.mem_cons, List.mem_singleton] at hbytes
  rcases hbytes with heq | hnone
  · cases heq
    decide +kernel
  · cases hnone

theorem lines_are_accounted_for_of_get :
    let pcre := backtracking loglinePattern
    let lists := threadFileLists [some getText, none] 2
    ∀ schedule : List (Fin lists.length),
      (AllJoined (run (Mutex.Threads.turn (getStatCode pcre)) (startThreads lists) schedule) →
        Accounted getFields
          (run (Mutex.Threads.turn (getStatCode pcre)) (startThreads lists) schedule).shared) ∧
      ∃ more, AllJoined
        (run (Mutex.Threads.turn (getStatCode pcre)) (startThreads lists) (schedule ++ more)) := by
  have h := lines_are_accounted_for (backtracking_compiles loglinePattern) [some getText, none] 2
    (by decide) zero_notMem_get (fieldsIn_get ▸ withinLimits_get)
  rw [fieldsIn_get] at h
  exact h

end Homework.StatParser
