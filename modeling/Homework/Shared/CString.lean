import Mathlib.Data.List.TakeWhile
import Homework.Shared.Bytes
import Homework.Shared.CInt

/-!
# Strings of the C library

A C string in an array is the array up to its first NUL, and the functions here take the
string. `strtok` takes its set of separators and the part of the string that is left, and
returns a token and what is left behind it. A number printed with `%d` is
`ascii (toString n)`, which `IsAtoi` says how to read back.

This module names no program.
-/

namespace Homework

set_option autoImplicit false

def cString (array : List UInt8) : List UInt8 := array.takeWhile fun b => b != 0

theorem takeWhile_append_eq {p : UInt8 → Bool} {xs ys : List UInt8} (hxs : ∀ x ∈ xs, p x = true)
    (hys : ∀ y ∈ ys.head?, p y = false) : (xs ++ ys).takeWhile p = xs := by
  rw [List.takeWhile_append_of_pos hxs]
  cases ys with
  | nil => simp
  | cons y ys => simp [hys y rfl]

theorem zero_not_mem_cString (array : List UInt8) : 0 ∉ cString array := by
  intro h
  simpa using List.mem_takeWhile_imp h

theorem cString_append {s after : List UInt8} (hs : 0 ∉ s) (hafter : ∀ b ∈ after.head?, b = 0) :
    cString (s ++ after) = s := by
  apply takeWhile_append_eq
  · intro b hb
    have hne : b ≠ 0 := fun heq => hs (heq ▸ hb)
    simp [hne]
  · intro b hb
    simp [hafter b hb]

theorem exists_eq_cString_append (array : List UInt8) :
    ∃ after, array = cString array ++ after ∧ ∀ b ∈ after.head?, b = 0 := by
  refine ⟨array.dropWhile fun b => b != 0, List.takeWhile_append_dropWhile.symm, fun b hb => ?_⟩
  have hout := List.head?_dropWhile_not (fun b => b != 0) array
  rw [hb] at hout
  simpa using hout

theorem cString_append_of_head? {after : List UInt8} (hafter : ∀ b ∈ after.head?, b = 0)
    (s : List UInt8) : cString (s ++ after) = cString s := by
  obtain ⟨rest, hrest, hnul⟩ := exists_eq_cString_append s
  have hparts : s ++ after = cString s ++ (rest ++ after) := by
    rw [← List.append_assoc, ← hrest]
  rw [hparts]
  apply cString_append (zero_not_mem_cString s)
  cases rest with
  | nil => exact hafter
  | cons b rest => exact hnul

theorem cString_eq_self {s : List UInt8} (h : 0 ∉ s) : cString s = s := by
  have hafter : ∀ b ∈ ([] : List UInt8).head?, b = 0 := by simp
  simpa using cString_append h hafter

/-! ## Tokens -/

section Strtok

variable {delim : List UInt8}

def strtok (delim s : List UInt8) : Option (List UInt8) × List UInt8 :=
  let start := s.dropWhile fun b => decide (b ∈ delim)
  let token := start.takeWhile fun b => decide (b ∉ delim)
  if token = [] then (none, []) else (some token, start.drop (token.length + 1))

theorem strtok_nil (delim : List UInt8) : strtok delim [] = (none, []) := rfl

theorem strtok_append_of_mem {ds : List UInt8} (hds : ∀ d ∈ ds, d ∈ delim) (s : List UInt8) :
    strtok delim (ds ++ s) = strtok delim s := by
  unfold strtok
  rw [List.dropWhile_append_of_pos (by simpa using hds)]

theorem strtok_cons_of_mem {d : UInt8} (hd : d ∈ delim) (s : List UInt8) :
    strtok delim (d :: s) = strtok delim s := by
  simp [strtok, hd]

theorem strtok_eq {token tail : List UInt8} (hne : token ≠ []) (htoken : ∀ b ∈ token, b ∉ delim)
    (htail : ∀ d ∈ tail.head?, d ∈ delim) :
    strtok delim (token ++ tail) = (some token, tail.tail) := by
  have hstart : (token ++ tail).dropWhile (fun b => decide (b ∈ delim)) = token ++ tail := by
    obtain ⟨b, token, rfl⟩ := List.exists_cons_of_ne_nil hne
    have hb := htoken b (List.mem_cons_self ..)
    simp [hb]
  have htake : (token ++ tail).takeWhile (fun b => decide (b ∉ delim)) = token := by
    apply takeWhile_append_eq
    · simpa using htoken
    · simpa using htail
  unfold strtok
  dsimp only
  rw [hstart, htake, if_neg hne, ← List.drop_drop, List.drop_left, List.drop_one]

theorem strtok_last {token : List UInt8} (hne : token ≠ []) (htoken : ∀ b ∈ token, b ∉ delim) :
    strtok delim token = (some token, []) := by
  have htail : ∀ d ∈ ([] : List UInt8).head?, d ∈ delim := by simp
  have heq := strtok_eq hne htoken htail
  rwa [List.append_nil] at heq

/-- Separators, then a token that is empty only at the end, then nothing or a separator. -/
theorem exists_strtok_parts (delim s : List UInt8) : ∃ ds token tail, s = ds ++ (token ++ tail) ∧
    (∀ d ∈ ds, d ∈ delim) ∧ (∀ b ∈ token, b ∉ delim) ∧ (∀ d ∈ tail.head?, d ∈ delim) ∧
    (token = [] → tail = []) := by
  refine ⟨s.takeWhile fun b => decide (b ∈ delim),
    (s.dropWhile fun b => decide (b ∈ delim)).takeWhile fun b => decide (b ∉ delim),
    (s.dropWhile fun b => decide (b ∈ delim)).dropWhile fun b => decide (b ∉ delim),
    ?_, ?_, ?_, ?_, ?_⟩
  · rw [List.takeWhile_append_dropWhile, List.takeWhile_append_dropWhile]
  · intro d hd
    simpa using List.mem_takeWhile_imp hd
  · intro b hb
    simpa using List.mem_takeWhile_imp hb
  · intro d hd
    have hout := List.head?_dropWhile_not (fun b => decide (b ∉ delim))
      (s.dropWhile fun b => decide (b ∈ delim))
    rw [hd] at hout
    simpa using hout
  · intro htoken
    have hout := List.head?_dropWhile_not (fun b => decide (b ∈ delim)) s
    cases hstart : s.dropWhile fun b => decide (b ∈ delim) with
    | nil => rfl
    | cons b rest =>
      rw [hstart] at hout htoken
      rw [List.takeWhile_cons_of_pos (by simpa using hout)] at htoken
      cases htoken

theorem strtok_some {s token rest : List UInt8} (h : strtok delim s = (some token, rest)) :
    token ≠ [] ∧ (∀ b ∈ token, b ∉ delim) ∧ ∃ tail, token ++ tail <:+ s ∧ rest = tail.tail := by
  obtain ⟨ds, token', tail, rfl, hds, htoken, htail, hend⟩ := exists_strtok_parts delim s
  rw [strtok_append_of_mem hds] at h
  by_cases hne : token' = []
  · rw [hne, hend hne] at h
    cases h
  · rw [strtok_eq hne htoken htail] at h
    cases h
    exact ⟨hne, htoken, tail, List.suffix_append _ _, rfl⟩

theorem strtok_suffix (delim s : List UInt8) : (strtok delim s).2 <:+ s := by
  unfold strtok
  dsimp only
  split
  · exact List.nil_suffix
  · exact (List.drop_suffix _ _).trans (List.dropWhile_suffix _)

/-- All tokens of a string. -/
def words (delim s : List UInt8) : List (List UInt8) :=
  (s.splitOnP fun b => decide (b ∈ delim)).filter fun word => decide (word ≠ [])

theorem words_append_of_mem {ds : List UInt8} (hds : ∀ d ∈ ds, d ∈ delim) (s : List UInt8) :
    words delim (ds ++ s) = words delim s := by
  induction ds with
  | nil => rfl
  | cons d ds ih =>
    obtain ⟨hd, hds⟩ := List.forall_mem_cons.mp hds
    rw [← ih hds]
    unfold words
    rw [List.cons_append, List.splitOnP_cons_eq_if_modifyHead, if_pos (by simpa using hd),
      List.filter_cons_of_neg (by simp)]

/-- `strtok` goes through the words of the string one by one. -/
theorem words_strtok (delim s : List UInt8) :
    words delim s = match strtok delim s with
      | (none, _) => []
      | (some token, rest) => token :: words delim rest := by
  obtain ⟨ds, token, tail, rfl, hds, htoken, htail, hend⟩ := exists_strtok_parts delim s
  rw [words_append_of_mem hds, strtok_append_of_mem hds]
  by_cases hne : token = []
  · rw [hne, hend hne]
    rfl
  · rw [strtok_eq hne htoken htail]
    dsimp only
    have hout : ∀ b ∈ token, decide (b ∈ delim) = false := by simpa using htoken
    cases tail with
    | nil =>
      unfold words
      rw [List.append_nil, List.splitOnP_eq_singleton hout]
      simp [hne]
    | cons d tail =>
      unfold words
      rw [List.splitOnP_append_cons_of_forall_mem hout d (by simpa using htail d rfl),
        List.filter_cons_of_pos (by simp [hne])]
      rfl

end Strtok

/-! ## Numbers -/

def isSpace (b : UInt8) : Bool := b == 32 || (9 ≤ b && b ≤ 13)

def isDigit (b : UInt8) : Bool := 48 ≤ b && b ≤ 57

def digitsValue (digits : List UInt8) : Nat :=
  digits.foldl (fun n b => 10 * n + (b.toNat - 48)) 0

/-- `(int)strtol(s, NULL, 10)`, where `long` has 64 bits and `strtol` stops at its ends. -/
def atoi (s : List UInt8) : Int :=
  let s := s.dropWhile isSpace
  let digits := (if s.head? = some 43 ∨ s.head? = some 45 then s.tail else s).takeWhile isDigit
  let long : Int :=
    if s.head? = some 45 then max (-2 ^ 63) (-digitsValue digits)
    else min (2 ^ 63 - 1) (digitsValue digits)
  long.bmod (2 ^ 32)

/-! ## `sscanf`

What a conversion takes from the front of the string, and the string behind it. -/

def scanSpaces (s : List UInt8) : List UInt8 := s.dropWhile isSpace

/-- `%s` with a width; it fails on the end of the string. -/
def scanWord (width : Nat) (s : List UInt8) : Option (List UInt8 × List UInt8) :=
  let s := scanSpaces s
  let word := (s.takeWhile fun b => !isSpace b).take width
  if word = [] then none else some (word, s.drop word.length)

theorem scanSpaces_of_head? {s : List UInt8} (h : ∀ b ∈ s.head?, isSpace b = false) :
    scanSpaces s = s := by
  cases s with
  | nil => rfl
  | cons b s =>
    have hb := h b rfl
    exact List.dropWhile_cons_of_neg (by simp [hb])

theorem scanWord_scanSpaces (width : Nat) (s : List UInt8) :
    scanWord width (scanSpaces s) = scanWord width s := by
  have htwice : scanSpaces (scanSpaces s) = scanSpaces s := by
    apply scanSpaces_of_head?
    intro b hb
    have hout := List.head?_dropWhile_not isSpace s
    unfold scanSpaces at hb
    rw [hb] at hout
    simpa using hout
  rw [scanWord, htwice, scanWord]

/-- A word that is too long is cut, and its rest is the next word. -/
theorem scanWord_append {width : Nat} (hwidth : 0 < width) {word after : List UInt8}
    (hne : word ≠ []) (hword : ∀ b ∈ word, isSpace b = false)
    (hafter : ∀ b ∈ after.head?, isSpace b = true) :
    scanWord width (word ++ after) = some (word.take width, word.drop width ++ after) := by
  have hstart : scanSpaces (word ++ after) = word ++ after := by
    apply scanSpaces_of_head?
    intro b hb
    obtain ⟨c, word, rfl⟩ := List.exists_cons_of_ne_nil hne
    apply hword b
    rw [List.cons_append, List.head?_cons] at hb
    cases hb
    exact List.mem_cons_self ..
  have htake : (word ++ after).takeWhile (fun b => !isSpace b) = word := by
    apply takeWhile_append_eq
    · intro b hb
      rw [hword b hb]
      rfl
    · intro b hb
      rw [hafter b hb]
      rfl
  have hcut : word.take width ≠ [] := by
    rw [Ne, List.take_eq_nil_iff, not_or]
    exact ⟨hwidth.ne', hne⟩
  have hrest : (word ++ after).drop (word.take width).length = word.drop width ++ after := by
    rw [List.length_take, List.drop_append_of_le_length (Nat.min_le_right _ _)]
    rcases Nat.le_total width word.length with h | h
    · rw [Nat.min_eq_left h]
    · rw [Nat.min_eq_right h, List.drop_length, List.drop_eq_nil_of_le h]
  rw [scanWord, hstart, htake, if_neg hcut, hrest]

theorem scanWord_ne_none {width : Nat} (hwidth : 0 < width) {s : List UInt8} {b : UInt8}
    (hmem : b ∈ s) (hb : isSpace b = false) : scanWord width s ≠ none := by
  have hstart : scanSpaces s ≠ [] := by
    intro hnil
    have hall := List.dropWhile_eq_nil_iff.mp hnil b hmem
    rw [hb] at hall
    cases hall
  obtain ⟨c, rest, hrest⟩ := List.exists_cons_of_ne_nil hstart
  have hc : isSpace c = false := by
    have hout := List.head?_dropWhile_not isSpace s
    unfold scanSpaces at hrest
    rw [hrest] at hout
    simpa using hout
  have hcut : ((scanSpaces s).takeWhile fun b => !isSpace b).take width ≠ [] := by
    rw [hrest, List.takeWhile_cons_of_pos (by simp [hc]), Ne, List.take_eq_nil_iff, not_or]
    exact ⟨hwidth.ne', List.cons_ne_nil _ _⟩
  rw [scanWord, if_neg hcut]
  exact Option.some_ne_none _

/-- What the standard says of `atoi`: some `int`, and the number if the string starts with the
decimal digits of an `int`. -/
structure IsAtoi (atoi : List UInt8 → Int) : Prop where
  inInt : ∀ s, InInt (atoi s)
  decimal : ∀ (n : Nat) (rest : List UInt8), (n : Int) ≤ intMax →
    (∀ b ∈ rest.head?, isDigit b = false) → atoi (ascii (toString n) ++ rest) = n

theorem ascii_toString (n : Nat) :
    ascii (toString n) = (Nat.toDigits 10 n).map fun c => UInt8.ofNat c.toNat := by
  simp [ascii]

theorem ascii_toString_ne_nil (n : Nat) : ascii (toString n) ≠ [] := by
  rw [ascii_toString]
  simp [Nat.toDigits_ne_nil]

theorem isDigit_ofNat_toNat {c : Char} (h : c.isDigit) :
    isDigit (UInt8.ofNat c.toNat) ∧ (UInt8.ofNat c.toNat).toNat = c.toNat := by
  have hlo : 48 ≤ c.toNat ∧ c.toNat ≤ 57 := by
    simpa [Char.isDigit, UInt32.le_iff_toNat_le] using h
  have heq : (UInt8.ofNat c.toNat).toNat = c.toNat := by
    simp only [UInt8.toNat_ofNat']
    omega
  refine ⟨?_, heq⟩
  simp only [isDigit, Bool.and_eq_true, decide_eq_true_eq, UInt8.le_iff_toNat_le, heq]
  exact hlo

theorem isDigit_of_mem_ascii_toString {n : Nat} {b : UInt8} (h : b ∈ ascii (toString n)) :
    isDigit b := by
  rw [ascii_toString] at h
  obtain ⟨c, hc, rfl⟩ := List.mem_map.mp h
  exact (isDigit_ofNat_toNat (Nat.isDigit_of_mem_toDigits (by omega) (by omega) hc)).1

theorem digitsValue_ascii_toString (n : Nat) : digitsValue (ascii (toString n)) = n := by
  have hvalue : ∀ (digits : List Char), (∀ c ∈ digits, c.isDigit) → ∀ init,
      (digits.map fun c => UInt8.ofNat c.toNat).foldl
        (fun n b => 10 * n + (b.toNat - 48)) init = Nat.ofDigitChars 10 digits init := by
    intro digits
    induction digits with
    | nil => intro _ init; simp
    | cons c digits ih =>
      intro hdigits init
      have hc := (isDigit_ofNat_toNat (hdigits c (List.mem_cons_self ..))).2
      simp only [List.map_cons, List.foldl_cons, hc, Nat.ofDigitChars_cons]
      exact ih (fun c hc => hdigits c (List.mem_cons_of_mem _ hc)) _
  rw [digitsValue, ascii_toString, hvalue _ fun c hc =>
    Nat.isDigit_of_mem_toDigits (by omega) (by omega) hc]
  exact Nat.ofDigitChars_ten_toDigits

theorem length_ascii_toString_le {n k : Nat} (hk : 0 < k) (hn : n < 10 ^ k) :
    (ascii (toString n)).length ≤ k := by
  rw [ascii_toString, List.length_map]
  exact (Nat.length_toDigits_le_iff (by decide) hk).mpr hn

/-- A number in a text ends where something else than a digit follows. -/
theorem ascii_toString_append_inj {m n : Nat} {xs ys : List UInt8}
    (hxs : ∀ b ∈ xs.head?, isDigit b = false) (hys : ∀ b ∈ ys.head?, isDigit b = false) :
    ascii (toString m) ++ xs = ascii (toString n) ++ ys ↔ m = n ∧ xs = ys := by
  constructor
  · intro heq
    have hdigits := congrArg (List.takeWhile isDigit) heq
    rw [takeWhile_append_eq (fun _ h => isDigit_of_mem_ascii_toString h) hxs,
      takeWhile_append_eq (fun _ h => isDigit_of_mem_ascii_toString h) hys] at hdigits
    have hmn : m = n := by
      rw [← digitsValue_ascii_toString m, hdigits, digitsValue_ascii_toString]
    rw [hmn] at heq
    exact ⟨hmn, List.append_cancel_left heq⟩
  · rintro ⟨rfl, rfl⟩
    rfl

theorem atoi_append_of_digits {digits rest : List UInt8} (hne : digits ≠ [])
    (hdigits : ∀ b ∈ digits, isDigit b = true) (hrest : ∀ b ∈ rest.head?, isDigit b = false) :
    atoi (digits ++ rest) = intOf (min (2 ^ 63 - 1) (digitsValue digits)) := by
  have htake : (digits ++ rest).takeWhile isDigit = digits := takeWhile_append_eq hdigits hrest
  obtain ⟨b, bs, hbs⟩ := List.exists_cons_of_ne_nil hne
  have hb := hdigits b (hbs ▸ List.mem_cons_self ..)
  have hother : isSpace b = false ∧ b ≠ 43 ∧ b ≠ 45 := by
    simp only [isDigit, Bool.and_eq_true, decide_eq_true_eq] at hb
    simp only [isSpace]
    grind
  obtain ⟨hspace, hplus, hminus⟩ := hother
  have hstart : (digits ++ rest).dropWhile isSpace = digits ++ rest := by
    rw [hbs, List.cons_append, List.dropWhile_cons_of_neg (by simp [hspace])]
  have hhead : (digits ++ rest).head? = some b := by
    rw [hbs]
    rfl
  unfold atoi
  dsimp only
  simp only [hstart, hhead, Option.some.injEq, hplus, hminus, or_self, if_false, htake, intOf]

theorem isAtoi_atoi : IsAtoi atoi where
  inInt s := by
    unfold atoi InInt
    dsimp only
    constructor
    · exact Int.le_bmod (by omega)
    · exact Int.bmod_lt (by omega)
  decimal n rest hn hrest := by
    unfold intMax at hn
    have hmax : min (2 ^ 63 - 1) (n : Int) = n := by omega
    rw [atoi_append_of_digits (ascii_toString_ne_nil n)
      (fun b hb => isDigit_of_mem_ascii_toString hb) hrest, digitsValue_ascii_toString, hmax]
    exact intOf_eq ⟨by omega, by omega⟩

end Homework
