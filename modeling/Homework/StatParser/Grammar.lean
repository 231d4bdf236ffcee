import Homework.StatParser.Logline

/-!
# Which lines count

A line counts when it begins with the nine fields of the combined log format. No field
accepts the byte that ends it, so whatever spaces, brackets and quotes stand in the others,
a line has its fields in one way only, and these are the ones that the offset vector cuts
out of it.

`pcre_exec` is told the length of the line in an `int`. A line of `2 ^ 31` bytes or more is
therefore cut, or not matched at all.
-/

namespace Homework.StatParser

set_option autoImplicit false

open Regex TopN

structure LogFields where
  ip : List UInt8
  ident : List UInt8
  user : List UInt8
  time : List UInt8
  request : List UInt8
  status : List UInt8
  size : List UInt8
  referer : List UInt8
  agent : List UInt8
  deriving DecidableEq

structure LogFields.WellFormed (f : LogFields) : Prop where
  ip : f.ip ≠ [] ∧ ∀ b ∈ f.ip, isSpace b = false
  ident : f.ident ≠ [] ∧ ∀ b ∈ f.ident, isSpace b = false
  user : f.user ≠ [] ∧ ∀ b ∈ f.user, isSpace b = false
  time : f.time ≠ [] ∧ 93 ∉ f.time
  request : 34 ∉ f.request
  status : f.status ≠ [] ∧ ∀ b ∈ f.status, isDigit b = true
  size : f.size ≠ [] ∧ ∀ b ∈ f.size, isDigit b = true
  referer : 34 ∉ f.referer
  agent : 34 ∉ f.agent

def LogFields.text (f : LogFields) : List UInt8 :=
  [f.ip, ascii " ", f.ident, ascii " ", f.user, ascii " [", f.time, ascii "] \"", f.request,
    ascii "\" ", f.status, ascii " ", f.size, ascii " \"", f.referer, ascii "\" \"", f.agent,
    ascii "\""].flatten

/-- In the order of `combined_fields`. -/
def LogFields.values (f : LogFields) : List (List UInt8) :=
  [f.ip, f.ident, f.user, f.time, f.request, f.status, f.size, f.referer, f.agent]

/-- What `pcre_exec` sees of a line: the bytes that the `int` it is given counts. -/
def subjectOf (logline : List UInt8) : Option (List UInt8) :=
  if intOf logline.length < 0 then none else some (logline.take (intOf logline.length).toNat)

structure LogFields.Matches (f : LogFields) (logline : List UInt8) : Prop where
  wellFormed : f.WellFormed
  begins : ∃ subject, subjectOf logline = some subject ∧ f.text <+: subject

theorem subjectOf_of_short {logline : List UInt8} (h : logline.length < 2 ^ 31) :
    subjectOf logline = some logline := by
  rw [subjectOf, intOf_eq ⟨by omega, by omega⟩, if_neg (by omega), Int.toNat_natCast,
    List.take_length]

theorem matches_text {f : LogFields} (hf : f.WellFormed) (h : f.text.length < 2 ^ 31) :
    f.Matches f.text := ⟨hf, _, subjectOf_of_short h, List.prefix_rfl⟩

theorem fills_loglinePattern_iff {fields : List (List UInt8)} {text : List UInt8} :
    Fills loglinePattern fields text ↔
      ∃ f : LogFields, f.WellFormed ∧ fields = f.values ∧ text = f.text := by
  have hlast : literal "\"" ++ ([] : List (List Item)).flatten = literal "\"" ++ [] := rfl
  simp only [loglinePattern, List.flatten_cons, fills_segment, takes_notSpace, takes_digit,
    takes_notByte_plus, takes_notByte_star, hlast, fills_literal, fills_nil]
  constructor
  · rintro ⟨ip, _, _, rfl, rfl, hip, ident, _, _, rfl, rfl, hident, user, _, _, rfl, rfl, huser,
      time, _, _, rfl, rfl, htime, request, _, _, rfl, rfl, hrequest, status, _, _, rfl, rfl,
      hstatus, size, _, _, rfl, rfl, hsize, referer, _, _, rfl, rfl, hreferer, agent, _, _, rfl,
      rfl, hagent, _, rfl, rfl, rfl⟩
    exact ⟨⟨ip, ident, user, time, request, status, size, referer, agent⟩,
      ⟨hip, hident, huser, htime, hrequest, hstatus, hsize, hreferer, hagent⟩, rfl, rfl⟩
  · rintro ⟨f, h, rfl, rfl⟩
    exact ⟨f.ip, _, _, rfl, rfl, h.ip, f.ident, _, _, rfl, rfl, h.ident, f.user, _, _, rfl, rfl,
      h.user, f.time, _, _, rfl, rfl, h.time, f.request, _, _, rfl, rfl, h.request, f.status,
      _, _, rfl, rfl, h.status, f.size, _, _, rfl, rfl, h.size, f.referer, _, _, rfl, rfl,
      h.referer, f.agent, _, _, rfl, rfl, h.agent, _, rfl, rfl, rfl⟩

theorem separated_loglinePattern : Separated loglinePattern = true := by decide

theorem values_injective {f g : LogFields} (h : f.values = g.values) : f = g := by
  obtain ⟨ip, ident, user, time, request, status, size, referer, agent⟩ := f
  cases g
  cases h
  rfl

theorem matches_unique {f g : LogFields} {logline : List UInt8} (hf : f.Matches logline)
    (hg : g.Matches logline) : f = g := by
  obtain ⟨subject, hsubject, after, hafter⟩ := hf.begins
  obtain ⟨subject', hsubject', after', hafter'⟩ := hg.begins
  cases hsubject.symm.trans hsubject'
  have hfills := fills_loglinePattern_iff.mpr ⟨f, hf.wellFormed, rfl, rfl⟩
  have hfills' := fills_loglinePattern_iff.mpr ⟨g, hg.wellFormed, rfl, rfl⟩
  exact values_injective
    (fills_unique separated_loglinePattern hfills hfills' (hafter.trans hafter'.symm)).1

theorem groupNumber_combinedFields : ∀ i < 9,
    groupNumber loglinePattern (combinedFields.getD i []) = some (i + 1) := by decide

section Matching
variable {ρ : Type} {pcre : Pcre ρ}

/-- The field between the offsets of its group. -/
theorem allocValueFromPcre_eq {re : ρ} (hre : pcre.Implements re loglinePattern)
    {logline : List UInt8} {f : LogFields} (hf : f.WellFormed) (hpre : f.text <+: logline)
    {ovector : List Int}
    (hovector : offsets ((0, f.text.length) :: spans loglinePattern f.values 0) <+: ovector)
    {i : Nat} {value : List UInt8} (hvalue : f.values[i]? = some value) :
    allocValueFromPcre pcre logline re ovector i = some value := by
  have hfills := fills_loglinePattern_iff.mpr ⟨f, hf, rfl, rfl⟩
  obtain ⟨hlt, -⟩ := List.getElem?_eq_some_iff.mp hvalue
  obtain ⟨after, rfl⟩ := hpre
  obtain ⟨more, rfl⟩ := hovector
  have hextract := map_extract_spans hfills [] after
  rw [List.length_nil, List.nil_append] at hextract
  rw [← hextract, List.getElem?_map] at hvalue
  obtain ⟨span, hspan, hcut⟩ := Option.map_eq_some_iff.mp hvalue
  have hends : ((0, f.text.length) :: spans loglinePattern f.values 0)[i + 1]? = some span := hspan
  obtain ⟨hstart, hstop⟩ := getElem?_offsets hends
  have hnumber := hre.named _ _ (groupNumber_combinedFields i hlt)
  have hfirst : (2 * ((i + 1 : Nat) : Int)).toNat = 2 * (i + 1) := by omega
  have hsecond : (2 * ((i + 1 : Nat) : Int) + 1).toNat = 2 * (i + 1) + 1 := by omega
  unfold allocValueFromPcre
  rw [hnumber]
  dsimp only
  rw [if_pos (Int.natCast_nonneg _), hfirst, hsecond, List.getD_eq_getElem?_getD,
    List.getD_eq_getElem?_getD, List.getElem?_append_left (List.getElem?_eq_some_iff.mp hstart).1,
    List.getElem?_append_left (List.getElem?_eq_some_iff.mp hstop).1, hstart, hstop,
    Option.getD_some, Option.getD_some, Int.toNat_natCast, Int.toNat_sub,
    ← List.extract_eq_take_drop, hcut]

theorem matchLogline_of_matches (hpcre : pcre.Compiles loglinePattern) {logline : List UInt8}
    (hline : 0 ∉ logline) {f : LogFields} (h : f.Matches logline) :
    ∃ re ovector, matchLogline pcre logline = some (re, ovector) ∧
      ∀ i value, f.values[i]? = some value →
        allocValueFromPcre pcre logline re ovector i = some value := by
  obtain ⟨re, hcompile, hre⟩ := hpcre
  obtain ⟨subject, hsubject, hpre⟩ := h.begins
  have hfills := fills_loglinePattern_iff.mpr ⟨f, h.wellFormed, rfl, rfl⟩
  unfold subjectOf at hsubject
  split at hsubject
  · cases hsubject
  rename_i hnonneg
  obtain ⟨n, hn⟩ := Int.eq_ofNat_of_zero_le (not_lt.mp hnonneg)
  have hle : n ≤ logline.length := by
    have := intOf_natCast_le logline.length
    omega
  rw [hn, Int.toNat_natCast] at hsubject
  cases hsubject
  have hroom : 3 * ((0, f.text.length) :: spans loglinePattern f.values 0).length ≤ oveccount := by
    rw [List.length_cons, length_spans hfills]
    exact Nat.le_refl oveccount
  obtain ⟨hrc, hovector⟩ := hre.found logline n oveccount _ hle
    (exec_of_fills separated_loglinePattern hfills hpre) hroom
  refine ⟨re, (pcre.exec re logline n oveccount).2, ?_, ?_⟩
  · rw [matchLogline, pattern_eq, hcompile]
    dsimp only
    rw [cString_eq_self hline, hn, if_neg (not_lt.mpr hrc)]
  · intro i value hvalue
    exact allocValueFromPcre_eq hre h.wellFormed (hpre.trans (List.take_prefix _ _)) hovector hvalue

theorem matchLogline_eq_none (hpcre : pcre.Compiles loglinePattern) {logline : List UInt8}
    (hline : 0 ∉ logline) (hno : ∀ f : LogFields, ¬ f.Matches logline) :
    matchLogline pcre logline = none := by
  obtain ⟨re, hcompile, hre⟩ := hpcre
  have hrc : (pcre.exec re logline (intOf logline.length) oveccount).1 < 0 := by
    by_cases hneg : intOf logline.length < 0
    · exact hre.badLength _ _ _ hneg
    · obtain ⟨n, hn⟩ := Int.eq_ofNat_of_zero_le (not_lt.mp hneg)
      have hle : n ≤ logline.length := by
        have := intOf_natCast_le logline.length
        omega
      rw [hn]
      apply hre.noMatch _ _ _ hle
      rw [exec_eq_none_iff]
      intro fields text hfills hpre
      obtain ⟨f, hf, -, rfl⟩ := fills_loglinePattern_iff.mp hfills
      refine hno f ⟨hf, _, ?_, hpre⟩
      rw [subjectOf, if_neg hneg, hn, Int.toNat_natCast]
  rw [matchLogline, pattern_eq, hcompile]
  dsimp only
  rw [cString_eq_self hline, if_pos hrc]

theorem loglineCalls_of_matches (hpcre : pcre.Compiles loglinePattern) {logline : List UInt8}
    (hline : 0 ∉ logline) {f : LogFields} (h : f.Matches logline) :
    loglineCalls pcre logline = requestCalls f.request f.size ++ [.addReferer f.referer 1] := by
  obtain ⟨re, ovector, hmatch, hvalues⟩ := matchLogline_of_matches hpcre hline h
  rw [loglineCalls, hmatch]
  dsimp only
  rw [hvalues requestField _ rfl, hvalues sizeField _ rfl, hvalues refererField _ rfl]

theorem loglineCalls_eq_nil_iff (hpcre : pcre.Compiles loglinePattern) {logline : List UInt8}
    (hline : 0 ∉ logline) :
    loglineCalls pcre logline = [] ↔ ∀ f : LogFields, ¬ f.Matches logline := by
  constructor
  · intro hnil f hf
    rw [loglineCalls_of_matches hpcre hline hf] at hnil
    exact List.append_ne_nil_of_right_ne_nil _ (List.cons_ne_nil _ _) hnil
  · intro hno
    rw [loglineCalls, matchLogline_eq_none hpcre hline hno]

/-- A line is counted if and only if it has the fields; it has them in one way, and the
strings cut out by the offsets are these. The line is what the library sees of it, which is
all of it up to `2 ^ 31 - 1` bytes. -/
theorem counted_iff_fields (hpcre : pcre.Compiles loglinePattern) (logline : List UInt8)
    (hline : 0 ∉ logline) :
    (logline.length < 2 ^ 31 → subjectOf logline = some logline) ∧
      (loglineCalls pcre logline ≠ [] ↔ ∃ f : LogFields, f.Matches logline) ∧
      (∀ f g : LogFields, f.Matches logline → g.Matches logline → f = g) ∧
      ∀ (f : LogFields) re ovector, f.Matches logline →
        matchLogline pcre logline = some (re, ovector) →
        allocValueFromPcre pcre logline re ovector requestField = some f.request ∧
          allocValueFromPcre pcre logline re ovector sizeField = some f.size ∧
          allocValueFromPcre pcre logline re ovector refererField = some f.referer := by
  refine ⟨subjectOf_of_short, ?_, fun f g => matches_unique, ?_⟩
  · rw [Ne, loglineCalls_eq_nil_iff hpcre hline, not_forall_not]
  · intro f re ovector hf hmatch
    obtain ⟨re', ovector', hmatch', hvalues⟩ := matchLogline_of_matches hpcre hline hf
    cases hmatch.symm.trans hmatch'
    exact ⟨hvalues requestField _ rfl, hvalues sizeField _ rfl, hvalues refererField _ rfl⟩

end Matching

def emptyRequest : LogFields where
  ip := ascii "10.0.0.1"
  ident := ascii "-"
  user := ascii "-"
  time := ascii "01/Jan/2025:00:00:00 +0000"
  request := []
  status := ascii "400"
  size := ascii "0"
  referer := ascii "-"
  agent := []

theorem wellFormed_emptyRequest : emptyRequest.WellFormed := by
  constructor <;> decide +kernel

theorem counted_iff_fields_of_emptyRequest :
    let pcre := backtracking loglinePattern
    let logline := emptyRequest.text
    (logline.length < 2 ^ 31 → subjectOf logline = some logline) ∧
      (loglineCalls pcre logline ≠ [] ↔ ∃ f : LogFields, f.Matches logline) ∧
      (∀ f g : LogFields, f.Matches logline → g.Matches logline → f = g) ∧
      ∀ (f : LogFields) re ovector, f.Matches logline →
        matchLogline pcre logline = some (re, ovector) →
        allocValueFromPcre pcre logline re ovector requestField = some f.request ∧
          allocValueFromPcre pcre logline re ovector sizeField = some f.size ∧
          allocValueFromPcre pcre logline re ovector refererField = some f.referer :=
  counted_iff_fields (backtracking_compiles loglinePattern) emptyRequest.text (by decide)

/-- Well-formed fields and then `2 ^ 31` more bytes: the length is negative as an `int`. -/
def longLine : List UInt8 := emptyRequest.text ++ List.replicate (2 ^ 31) 97

theorem subjectOf_longLine : subjectOf longLine = none := by
  have hlength : longLine.length = 57 + 2 ^ 31 := by
    rw [longLine, List.length_append, List.length_replicate]
    rfl
  rw [subjectOf, hlength]
  rfl

theorem long_line_is_not_counted :
    ¬ ∀ logline, 0 ∉ logline →
      (loglineCalls (backtracking loglinePattern) logline ≠ [] ↔
        ∃ f : LogFields, f.WellFormed ∧ f.text <+: logline) := by
  intro h
  have hline : 0 ∉ longLine := by
    rw [longLine, List.mem_append, List.mem_replicate]
    decide
  apply (h longLine hline).mpr ⟨emptyRequest, wellFormed_emptyRequest, List.prefix_append _ _⟩
  rw [loglineCalls_eq_nil_iff (backtracking_compiles loglinePattern) hline]
  intro f hf
  obtain ⟨subject, hsubject, -⟩ := hf.begins
  rw [subjectOf_longLine] at hsubject
  cases hsubject

end Homework.StatParser
