import Homework.Shared.CString

/-!
# Patterns of literal bytes and named groups

The part of Perl's regular expressions where a pattern is `^` and then a row of literal
bytes and named groups, each group a greedy repetition of one class of bytes. `matchFrom`
backtracks as Perl does: a group takes all the bytes it can, and gives them back one by one
until what follows it matches too.

`Fills` says what such a pattern means, and not how to find it. A pattern whose groups are
each followed by a byte that they do not accept is filled in one way at most, and then the
order in which the matcher tries the lengths makes no difference.

This module names no program.
-/

namespace Homework.Regex

set_option autoImplicit false

inductive CharClass where
  | notSpace
  | digit
  | notByte (b : UInt8)
  deriving DecidableEq, Repr

def CharClass.accepts : CharClass → UInt8 → Bool
  | notSpace, b => !isSpace b
  | digit, b => isDigit b
  | notByte c, b => b != c

inductive Repeat where
  | star
  | plus
  deriving DecidableEq, Repr

def Repeat.least : Repeat → Nat
  | star => 0
  | plus => 1

inductive Item where
  | byte (b : UInt8)
  | group (name : List UInt8) (cls : CharClass) (count : Repeat)
  deriving DecidableEq, Repr

/-! ## The written form -/

def metacharacters : List UInt8 := ascii "\\^$.|?*+()[]\x7b\x7d"

def escape (b : UInt8) : List UInt8 := if b ∈ metacharacters then ascii "\\" ++ [b] else [b]

def CharClass.text : CharClass → List UInt8
  | notSpace => ascii "\\S"
  | digit => ascii "\\d"
  | notByte b => ascii "[^" ++ escape b ++ ascii "]"

def Repeat.text : Repeat → List UInt8
  | star => ascii "*"
  | plus => ascii "+"

def Item.text : Item → List UInt8
  | byte b => escape b
  | group name cls count => ascii "(?P<" ++ name ++ ascii ">" ++ cls.text ++ count.text ++ ascii ")"

def text (items : List Item) : List UInt8 := ascii "^" ++ items.flatMap Item.text

/-! ## Matching -/

/-- The lengths a group tries, the largest first. -/
def lengths (least most : Nat) : List Nat := (List.range' least (most + 1 - least)).reverse

/-- The end of the match and the ends of each group, for a pattern that is to match at `pos`,
`rest` being the subject from there. -/
def matchFrom : List Item → Nat → List UInt8 → Option (Nat × List (Nat × Nat))
  | [], pos, _ => some (pos, [])
  | .byte _ :: _, _, [] => none
  | .byte b :: items, pos, c :: rest => if c = b then matchFrom items (pos + 1) rest else none
  | .group _ cls count :: items, pos, rest =>
    (lengths count.least (rest.takeWhile cls.accepts).length).findSome? fun n =>
      (matchFrom items (pos + n) (rest.drop n)).map fun m => (m.1, (pos, pos + n) :: m.2)

/-- The ends of the whole match, and then those of each group. -/
def exec (items : List Item) (subject : List UInt8) : Option (List (Nat × Nat)) :=
  (matchFrom items 0 subject).map fun m => (0, m.1) :: m.2

def Item.name? : Item → Option (List UInt8)
  | byte _ => none
  | group name _ _ => some name

/-- Groups are numbered from 1; there is no group of any other name. -/
def groupNumber (items : List Item) (name : List UInt8) : Option Nat :=
  ((items.filterMap Item.name?).findIdx? fun other => other == name).map fun i => i + 1

/-! ## Meaning -/

/-- The pattern describes `text`, with `fields` as the texts of its groups. -/
inductive Fills : List Item → List (List UInt8) → List UInt8 → Prop
  | nil : Fills [] [] []
  | byte {items : List Item} {fields : List (List UInt8)} {text : List UInt8} (b : UInt8)
      (rest : Fills items fields text) : Fills (.byte b :: items) fields (b :: text)
  | group {items : List Item} {fields : List (List UInt8)} {text : List UInt8}
      {name value : List UInt8} {cls : CharClass} {count : Repeat}
      (accepted : ∀ b ∈ value, cls.accepts b = true) (enough : count.least ≤ value.length)
      (rest : Fills items fields text) :
      Fills (.group name cls count :: items) (value :: fields) (value ++ text)

/-- Where the groups of a filled pattern begin and end. -/
def spans : List Item → List (List UInt8) → Nat → List (Nat × Nat)
  | .byte _ :: items, fields, pos => spans items fields (pos + 1)
  | .group _ _ _ :: items, value :: fields, pos =>
    (pos, pos + value.length) :: spans items fields (pos + value.length)
  | _, _, _ => []

theorem mem_lengths {least most n : Nat} : n ∈ lengths least most ↔ least ≤ n ∧ n ≤ most := by
  simp only [lengths, List.mem_reverse, List.mem_range'_1]
  omega

theorem matchFrom_sound {items : List Item} {pos : Nat} {rest : List UInt8}
    {m : Nat × List (Nat × Nat)} (h : matchFrom items pos rest = some m) :
    ∃ fields text, text <+: rest ∧ Fills items fields text ∧
      m = (pos + text.length, spans items fields pos) := by
  induction items generalizing pos rest m with
  | nil =>
    cases h
    exact ⟨[], [], List.nil_prefix, .nil, rfl⟩
  | cons item items ih =>
    cases item with
    | byte b =>
      cases rest with
      | nil => cases h
      | cons c rest =>
        rw [matchFrom] at h
        split at h
        · rename_i heq
          subst heq
          obtain ⟨fields, text, hpre, hfills, rfl⟩ := ih h
          refine ⟨fields, c :: text, List.cons_prefix_cons.mpr ⟨rfl, hpre⟩, .byte c hfills, ?_⟩
          rw [List.length_cons, spans, Nat.add_assoc, Nat.add_comm 1]
        · cases h
    | group name cls count =>
      rw [matchFrom] at h
      obtain ⟨n, hn, hmap⟩ := List.exists_of_findSome?_eq_some h
      obtain ⟨hleast, hmost⟩ := mem_lengths.mp hn
      obtain ⟨m', hm', rfl⟩ := Option.map_eq_some_iff.mp hmap
      obtain ⟨fields, text, hpre, hfills, rfl⟩ := ih hm'
      have hrun := List.takeWhile_prefix cls.accepts (l := rest)
      have htake : rest.take n <+: rest.takeWhile cls.accepts :=
        List.prefix_of_prefix_length_le (List.take_prefix n rest) hrun
          ((List.length_take_le _ _).trans hmost)
      have hlength : (rest.take n).length = n := by
        have := hrun.length_le
        rw [List.length_take]
        omega
      refine ⟨rest.take n :: fields, rest.take n ++ text, ?_, ?_, ?_⟩
      · have hjoin := (List.prefix_append_right_inj (rest.take n)).mpr hpre
        rwa [List.take_append_drop] at hjoin
      · refine .group (fun b hb => List.mem_takeWhile_imp (htake.subset hb)) ?_ hfills
        rwa [hlength]
      · rw [spans, hlength, List.length_append, hlength, Nat.add_assoc]

theorem matchFrom_ne_none {items : List Item} {fields : List (List UInt8)} {text : List UInt8}
    (h : Fills items fields text) {rest : List UInt8} (hpre : text <+: rest) (pos : Nat) :
    matchFrom items pos rest ≠ none := by
  induction h generalizing rest pos with
  | nil => exact fun h => by cases h
  | byte b _ ih =>
    obtain ⟨after, rfl⟩ := hpre
    rw [List.cons_append, matchFrom, if_pos rfl]
    exact ih (List.prefix_append _ _) (pos + 1)
  | @group items fields text name value cls count accepted enough _ ih =>
    obtain ⟨after, rfl⟩ := hpre
    rw [List.append_assoc, matchFrom]
    intro hnone
    rw [List.findSome?_eq_none_iff] at hnone
    have hle : value.length ≤ ((value ++ (text ++ after)).takeWhile cls.accepts).length := by
      rw [List.takeWhile_append_of_pos accepted, List.length_append]
      exact Nat.le_add_right _ _
    have hthis := hnone value.length (mem_lengths.mpr ⟨enough, hle⟩)
    rw [Option.map_eq_none_iff, List.drop_left] at hthis
    exact ih (List.prefix_append _ _) (pos + value.length) hthis

theorem exec_eq_none_iff {items : List Item} {subject : List UInt8} :
    exec items subject = none ↔ ∀ fields text, Fills items fields text → ¬ text <+: subject := by
  rw [exec, Option.map_eq_none_iff]
  constructor
  · intro hnone fields text hfills hpre
    exact matchFrom_ne_none hfills hpre 0 hnone
  · intro h
    cases hmatch : matchFrom items 0 subject with
    | none => rfl
    | some m =>
      obtain ⟨fields, text, hpre, hfills, -⟩ := matchFrom_sound hmatch
      exact absurd hpre (h fields text hfills)

theorem length_spans {items : List Item} {fields : List (List UInt8)} {text : List UInt8}
    (h : Fills items fields text) (pos : Nat) :
    (spans items fields pos).length = fields.length := by
  induction h generalizing pos with
  | nil => rfl
  | byte _ _ ih => exact ih (pos + 1)
  | group _ _ _ ih => exact congrArg (· + 1) (ih _)

/-- Cut out at its ends, each group gives its field. -/
theorem map_extract_spans {items : List Item} {fields : List (List UInt8)} {text : List UInt8}
    (h : Fills items fields text) (before after : List UInt8) :
    (spans items fields before.length).map
      (fun span => (before ++ (text ++ after)).extract span.1 span.2) = fields := by
  induction h generalizing before with
  | nil => rfl
  | @byte items fields text b _ ih =>
    have hrest := ih (before ++ [b])
    rw [List.length_append, List.length_singleton, List.append_assoc] at hrest
    exact hrest
  | @group items fields text name value cls count _ _ _ ih =>
    have hrest := ih (before ++ value)
    rw [List.length_append, List.append_assoc] at hrest
    rw [spans, List.map_cons, List.append_assoc, hrest, List.extract_eq_take_drop, List.drop_left,
      Nat.add_sub_cancel_left, List.take_left]

/-! ## Patterns that can be filled in one way only -/

def CharClass.stopsAt (cls : CharClass) : List Item → Bool
  | .byte b :: _ => !cls.accepts b
  | _ => false

def Separated : List Item → Bool
  | [] => true
  | .byte _ :: items => Separated items
  | .group _ cls _ :: items => cls.stopsAt items && Separated items

theorem takeWhile_of_stopsAt {items : List Item} {fields : List (List UInt8)}
    {text value : List UInt8} {cls : CharClass} (hstop : cls.stopsAt items = true)
    (h : Fills items fields text) (hvalue : ∀ b ∈ value, cls.accepts b = true)
    (after : List UInt8) : (value ++ (text ++ after)).takeWhile cls.accepts = value := by
  apply takeWhile_append_eq hvalue
  intro b hb
  cases h with
  | nil => cases hstop
  | byte c _ =>
    cases hb
    simpa [CharClass.stopsAt] using hstop
  | group _ _ _ => cases hstop

theorem fills_unique {items : List Item} (hsep : Separated items = true)
    {fields fields' : List (List UInt8)} {text text' : List UInt8} (h : Fills items fields text)
    (h' : Fills items fields' text') {after after' : List UInt8}
    (heq : text ++ after = text' ++ after') : fields = fields' ∧ text = text' := by
  induction h generalizing fields' text' with
  | nil =>
    cases h'
    exact ⟨rfl, rfl⟩
  | byte b _ ih =>
    cases h' with
    | byte _ rest' =>
      obtain ⟨hfields, htext⟩ := ih hsep rest' (List.cons.inj heq).2
      exact ⟨hfields, congrArg (b :: ·) htext⟩
  | @group items fields text name value cls count accepted enough rest ih =>
    cases h' with
    | @group _ fields' text' _ value' _ _ accepted' enough' rest' =>
      obtain ⟨hstop, hsep⟩ := Bool.and_eq_true_iff.mp hsep
      rw [List.append_assoc, List.append_assoc] at heq
      have hvalue : value = value' := by
        rw [← takeWhile_of_stopsAt hstop rest accepted after, heq]
        exact takeWhile_of_stopsAt hstop rest' accepted' after'
      subst hvalue
      obtain ⟨rfl, rfl⟩ := ih hsep rest' (List.append_cancel_left heq)
      exact ⟨rfl, rfl⟩

theorem exec_of_fills {items : List Item} (hsep : Separated items = true)
    {fields : List (List UInt8)} {text subject : List UInt8} (h : Fills items fields text)
    (hpre : text <+: subject) :
    exec items subject = some ((0, text.length) :: spans items fields 0) := by
  cases hmatch : matchFrom items 0 subject with
  | none => exact absurd hmatch (matchFrom_ne_none h hpre 0)
  | some m =>
    obtain ⟨fields', text', hpre', h', rfl⟩ := matchFrom_sound hmatch
    obtain ⟨after, hafter⟩ := hpre
    obtain ⟨after', hafter'⟩ := hpre'
    obtain ⟨rfl, rfl⟩ := fills_unique hsep h h' (hafter.trans hafter'.symm)
    rw [exec, hmatch, Option.map_some, Nat.zero_add]

/-! ## Rows of groups -/

def literal (s : String) : List Item := (ascii s).map Item.byte

/-- A group and the literal bytes that stand before it. -/
def segment (before name : String) (cls : CharClass) (count : Repeat) : List Item :=
  literal before ++ [.group (ascii name) cls count]

/-- A group can take `value`. -/
structure Takes (cls : CharClass) (count : Repeat) (value : List UInt8) : Prop where
  accepted : ∀ b ∈ value, cls.accepts b = true
  enough : count.least ≤ value.length

theorem fills_nil {fields : List (List UInt8)} {text : List UInt8} :
    Fills [] fields text ↔ fields = [] ∧ text = [] := by
  constructor
  · rintro ⟨⟩
    exact ⟨rfl, rfl⟩
  · rintro ⟨rfl, rfl⟩
    exact .nil

theorem fills_literal {s : String} {items : List Item} {fields : List (List UInt8)}
    {text : List UInt8} :
    Fills (literal s ++ items) fields text ↔ ∃ rest, text = ascii s ++ rest ∧
      Fills items fields rest := by
  unfold literal
  induction ascii s generalizing text with
  | nil => simp
  | cons b bytes ih =>
    constructor
    · intro h
      cases h with
      | byte _ h =>
        obtain ⟨rest, rfl, hrest⟩ := ih.mp h
        exact ⟨rest, rfl, hrest⟩
    · rintro ⟨rest, rfl, hrest⟩
      exact .byte b (ih.mpr ⟨rest, rfl, hrest⟩)

theorem fills_segment {before name : String} {cls : CharClass} {count : Repeat}
    {items : List Item} {fields : List (List UInt8)} {text : List UInt8} :
    Fills (segment before name cls count ++ items) fields text ↔
      ∃ value fields' rest, fields = value :: fields' ∧ text = ascii before ++ (value ++ rest) ∧
        Takes cls count value ∧ Fills items fields' rest := by
  rw [segment, List.append_assoc, fills_literal]
  constructor
  · rintro ⟨rest, rfl, h⟩
    cases h with
    | group accepted enough h => exact ⟨_, _, _, rfl, rfl, ⟨accepted, enough⟩, h⟩
  · rintro ⟨value, fields', rest, rfl, rfl, ⟨accepted, enough⟩, h⟩
    exact ⟨_, rfl, .group accepted enough h⟩

theorem takes_notSpace {value : List UInt8} :
    Takes .notSpace .plus value ↔ value ≠ [] ∧ ∀ b ∈ value, isSpace b = false := by
  constructor
  · intro h
    refine ⟨List.length_pos_iff.mp h.enough, fun b hb => ?_⟩
    simpa [CharClass.accepts] using h.accepted b hb
  · rintro ⟨hne, h⟩
    exact ⟨fun b hb => by simp [CharClass.accepts, h b hb], List.length_pos_iff.mpr hne⟩

theorem takes_digit {value : List UInt8} :
    Takes .digit .plus value ↔ value ≠ [] ∧ ∀ b ∈ value, isDigit b = true := by
  constructor
  · intro h
    exact ⟨List.length_pos_iff.mp h.enough, h.accepted⟩
  · rintro ⟨hne, h⟩
    exact ⟨h, List.length_pos_iff.mpr hne⟩

theorem accepts_notByte {c : UInt8} {value : List UInt8} :
    (∀ b ∈ value, (CharClass.notByte c).accepts b = true) ↔ c ∉ value := by
  constructor
  · intro h hc
    simpa [CharClass.accepts] using h c hc
  · intro h b hb
    have hne : b ≠ c := fun heq => h (heq ▸ hb)
    simpa [CharClass.accepts] using hne

theorem takes_notByte_plus {c : UInt8} {value : List UInt8} :
    Takes (.notByte c) .plus value ↔ value ≠ [] ∧ c ∉ value := by
  constructor
  · intro h
    exact ⟨List.length_pos_iff.mp h.enough, accepts_notByte.mp h.accepted⟩
  · rintro ⟨hne, h⟩
    exact ⟨accepts_notByte.mpr h, List.length_pos_iff.mpr hne⟩

theorem takes_notByte_star {c : UInt8} {value : List UInt8} :
    Takes (.notByte c) .star value ↔ c ∉ value := by
  constructor
  · intro h
    exact accepts_notByte.mp h.accepted
  · intro h
    exact ⟨accepts_notByte.mpr h, Nat.zero_le _⟩

/-! ## The library

`pcre_exec` takes the length of the subject as an `int` and returns a negative number when
there is no match; otherwise the first two thirds of the vector hold the ends found. -/

structure Pcre (ρ : Type) where
  compile : List UInt8 → Option ρ
  exec : ρ → List UInt8 → Int → Nat → Int × List Int
  getStringnumber : ρ → List UInt8 → Int

def offsets (ends : List (Nat × Nat)) : List Int := ends.flatMap fun e => [(e.1 : Int), (e.2 : Int)]

/-- `re` is the pattern, as far as the library's functions show. -/
structure Pcre.Implements {ρ : Type} (pcre : Pcre ρ) (re : ρ) (items : List Item) : Prop where
  badLength : ∀ subject length ovecsize, length < 0 →
    (pcre.exec re subject length ovecsize).1 < 0
  noMatch : ∀ subject (n : Nat) ovecsize, n ≤ subject.length →
    Regex.exec items (subject.take n) = none → (pcre.exec re subject n ovecsize).1 < 0
  found : ∀ subject (n : Nat) ovecsize ends, n ≤ subject.length →
    Regex.exec items (subject.take n) = some ends → 3 * ends.length ≤ ovecsize →
      0 ≤ (pcre.exec re subject n ovecsize).1 ∧
        offsets ends <+: (pcre.exec re subject n ovecsize).2
  named : ∀ name i, groupNumber items name = some i → pcre.getStringnumber re name = i

def Pcre.Compiles {ρ : Type} (pcre : Pcre ρ) (items : List Item) : Prop :=
  ∃ re, pcre.compile (text items) = some re ∧ pcre.Implements re items

/-- A library that knows one pattern. -/
def backtracking (items : List Item) : Pcre Unit where
  compile written := if written = text items then some () else none
  exec _ subject length ovecsize :=
    if length < 0 then (-32, [])
    else
      match Regex.exec items (subject.take length.toNat) with
      | none => (-1, [])
      | some ends =>
        if 3 * ends.length ≤ ovecsize then (ends.length, offsets ends)
        else (0, (offsets ends).take (2 * (ovecsize / 3)))
  getStringnumber _ name :=
    match groupNumber items name with
    | some i => i
    | none => -7

theorem backtracking_compiles (items : List Item) : (backtracking items).Compiles items := by
  refine ⟨(), if_pos rfl, ?_, ?_, ?_, ?_⟩
  · intro subject length ovecsize hlength
    simp only [backtracking, if_pos hlength]
    decide
  · intro subject n ovecsize _ hexec
    have hn : ¬ (n : Int) < 0 := by omega
    simp only [backtracking, if_neg hn, Int.toNat_natCast, hexec]
    decide
  · intro subject n ovecsize ends _ hexec hroom
    have hn : ¬ (n : Int) < 0 := by omega
    simp only [backtracking, if_neg hn, Int.toNat_natCast, hexec, if_pos hroom]
    exact ⟨Int.natCast_nonneg _, List.prefix_rfl⟩
  · intro name i hnumber
    simp only [backtracking, hnumber]

theorem getElem?_offsets {ends : List (Nat × Nat)} {i : Nat} {e : Nat × Nat}
    (h : ends[i]? = some e) :
    (offsets ends)[2 * i]? = some (e.1 : Int) ∧ (offsets ends)[2 * i + 1]? = some (e.2 : Int) := by
  induction ends generalizing i with
  | nil => cases h
  | cons first ends ih =>
    cases i with
    | zero =>
      cases h
      exact ⟨rfl, rfl⟩
    | succ i =>
      have hrest := ih h
      rw [Nat.mul_succ]
      exact hrest

end Homework.Regex
