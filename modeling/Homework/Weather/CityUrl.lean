import Mathlib.Data.List.TakeWhile
import Homework.Weather.Program

/-!
# The buffer for a city

`convert_to_city_url` writes without a look at the size of the buffer, which its caller fixes.
A space takes three bytes of it. A name is written up to the first character that is rejected.
-/

namespace Homework.Weather

set_option autoImplicit false

/-! ## Percent-encoding -/

def percent : UInt8 := 37

/-- The value of a hexadecimal digit. -/
def hexValue (b : UInt8) : Option UInt8 :=
  if 48 ≤ b ∧ b ≤ 57 then some (b - 48)
  else if 65 ≤ b ∧ b ≤ 70 then some (b - 55)
  else if 97 ≤ b ∧ b ≤ 102 then some (b - 87)
  else none

def percentDecode : List UInt8 → Option (List UInt8)
  | [] => some []
  | b :: rest =>
    if b ≠ percent then (percentDecode rest).map (b :: ·)
    else
      match rest with
      | high :: low :: rest =>
        match hexValue high, hexValue low with
        | some h, some l => (percentDecode rest).map ((16 * h + l) :: ·)
        | _, _ => none
      | _ => none

theorem percentDecode_cons_of_ne {b : UInt8} (h : b ≠ percent) (rest : List UInt8) :
    percentDecode (b :: rest) = (percentDecode rest).map (b :: ·) := by
  cases rest with
  | nil => simp [percentDecode, h]
  | cons c rest => cases rest <;> simp [percentDecode, h]

theorem percentDecode_space (rest : List UInt8) :
    percentDecode (ascii "%20" ++ rest) = (percentDecode rest).map (32 :: ·) := by
  have htext : ascii "%20" = [percent, 50, 48] := by decide
  have htwo : hexValue 50 = some 2 := by decide
  have hzero : hexValue 48 = some 0 := by decide
  rw [htext]
  simp [percentDecode, htwo, hzero]

/-- A letter, a space or a hyphen. -/
def Encodable (c : UInt8) : Prop := isAlpha c ∨ c = 32 ∨ c = 45

instance (c : UInt8) : Decidable (Encodable c) := inferInstanceAs (Decidable (_ ∨ _ ∨ _))

def encodeCity (city : List UInt8) : List UInt8 :=
  city.flatMap fun c => if c ≠ 32 then [c] else ascii "%20"

theorem encodeCity_cons (c : UInt8) (city : List UInt8) :
    encodeCity (c :: city) = (if c ≠ 32 then [c] else ascii "%20") ++ encodeCity city :=
  List.flatMap_cons

theorem Encodable.ne_percent {c : UInt8} (h : Encodable c) : c ≠ percent := by
  rintro rfl
  revert h
  decide

theorem percentDecode_encodeCity {city : List UInt8} (h : ∀ c ∈ city, Encodable c) :
    percentDecode (encodeCity city) = some city := by
  induction city with
  | nil => rw [encodeCity, List.flatMap_nil, percentDecode]
  | cons c city ih =>
    rw [List.forall_mem_cons] at h
    rw [encodeCity_cons]
    by_cases hspace : c = 32
    · rw [hspace, if_neg (not_not.mpr rfl), percentDecode_space, ih h.2, Option.map_some]
    · rw [if_pos hspace, List.singleton_append, percentDecode_cons_of_ne h.1.ne_percent, ih h.2,
        Option.map_some]

theorem length_encodeCity (city : List UInt8) :
    (encodeCity city).length = city.length + 2 * city.count 32 := by
  induction city with
  | nil => rfl
  | cons c city ih =>
    rw [encodeCity_cons, List.length_append, ih, List.length_cons, List.count_cons]
    by_cases hspace : c = 32
    · have htext : (ascii "%20").length = 3 := by decide
      simp only [hspace, ne_eq, not_true_eq_false, if_false, htext, beq_self_eq_true, if_true]
      omega
    · simp [hspace]
      omega

/-! ## What is written -/

/-- The characters up to the first one that is rejected. -/
def accepted (city : List UInt8) : List UInt8 := city.takeWhile fun c => decide (Encodable c)

theorem accepted_eq_self_iff (city : List UInt8) :
    accepted city = city ↔ ∀ c ∈ city, Encodable c := by
  simp [accepted, List.takeWhile_eq_self_iff]

theorem convertLoop_eq (cityUrl city : List UInt8) :
    convertLoop cityUrl city = if accepted city = city
      then (cityUrl ++ encodeCity city ++ [0], (cityUrl ++ encodeCity city).length)
      else (cityUrl ++ encodeCity (accepted city), 0) := by
  induction city generalizing cityUrl with
  | nil => simp [convertLoop, accepted, encodeCity]
  | cons c city ih =>
    rw [convertLoop]
    split
    · rename_i hc
      have hcons : accepted (c :: city) = c :: accepted city :=
        List.takeWhile_cons_of_pos (decide_eq_true hc)
      rw [ih, hcons, encodeCity_cons, encodeCity_cons]
      simp only [List.cons.injEq, true_and, List.append_assoc]
    · rename_i hc
      have hnil : accepted (c :: city) = [] :=
        List.takeWhile_cons_of_neg fun h => hc (of_decide_eq_true h)
      rw [hnil, if_neg (List.cons_ne_nil c city).symm, encodeCity, List.flatMap_nil,
        List.append_nil]

/-- The city is refused or encoded within the buffer and within the address. -/
structure EncodesSafely (city : List UInt8) : Prop where
  refuses : (convertToCityUrl city).2 = 0 ↔ city = [] ∨ ∃ c ∈ city, ¬ Encodable c
  decodes : (convertToCityUrl city).2 ≠ 0 →
    percentDecode ((convertToCityUrl city).1.take (convertToCityUrl city).2) = some city
  terminates : (convertToCityUrl city).2 ≠ 0 →
    (convertToCityUrl city).1[(convertToCityUrl city).2]? = some 0
  whole : (convertToCityUrl city).2 ≠ 0 →
    weatherUrl ((convertToCityUrl city).1.take (convertToCityUrl city).2) =
      ascii "https://wttr.in/" ++ (convertToCityUrl city).1.take (convertToCityUrl city).2 ++
        ascii "?format=j1"
  inBounds : (convertToCityUrl city).1.length ≤ cityUrlSize

section Converted

variable {city : List UInt8}

theorem convertToCityUrl_of_accepted (h : accepted city = city) :
    convertToCityUrl city = (encodeCity city ++ [0], (encodeCity city).length) := by
  rw [convertToCityUrl, convertLoop_eq, if_pos h, List.nil_append]

theorem convertToCityUrl_of_refused (h : accepted city ≠ city) :
    convertToCityUrl city = (encodeCity (accepted city), 0) := by
  rw [convertToCityUrl, convertLoop_eq, if_neg h, List.nil_append]

theorem encodeCity_eq_nil_iff (city : List UInt8) : encodeCity city = [] ↔ city = [] := by
  rw [← List.length_eq_zero_iff, length_encodeCity, ← List.length_eq_zero_iff]
  have hcount := @List.count_le_length _ _ (32 : UInt8) city
  omega

theorem convertToCityUrl_ne_zero (h : (convertToCityUrl city).2 ≠ 0) : accepted city = city := by
  by_contra hrefused
  rw [convertToCityUrl_of_refused hrefused] at h
  exact h rfl

/-- How many bytes are written, the terminator of an accepted name included. -/
def writtenLength (city : List UInt8) : Nat :=
  (accepted city).length + 2 * (accepted city).count 32 + if accepted city = city then 1 else 0

theorem length_convertToCityUrl (city : List UInt8) :
    (convertToCityUrl city).1.length = writtenLength city := by
  unfold writtenLength
  by_cases h : accepted city = city
  · rw [convertToCityUrl_of_accepted h, h, if_pos rfl, List.length_append, length_encodeCity,
      List.length_singleton]
  · rw [convertToCityUrl_of_refused h, if_neg h, length_encodeCity, Nat.add_zero]

end Converted

/-- Nothing is wrong with a name but that it may be too long for the buffer. -/
theorem city_encodes_safely_iff (city : List UInt8) :
    EncodesSafely city ↔ writtenLength city ≤ cityUrlSize := by
  rw [← length_convertToCityUrl]
  constructor
  · exact EncodesSafely.inBounds
  · intro hbounds
    refine ⟨?_, fun hne => ?_, fun hne => ?_, fun hne => ?_, hbounds⟩
    · by_cases h : accepted city = city
      · have hall := (accepted_eq_self_iff city).mp h
        rw [convertToCityUrl_of_accepted h, List.length_eq_zero_iff, encodeCity_eq_nil_iff]
        constructor
        · exact Or.inl
        · rintro (hnil | ⟨c, hc, hbad⟩)
          · exact hnil
          · exact absurd (hall c hc) hbad
      · have hbad : ∃ c ∈ city, ¬ Encodable c := by
          by_contra hall
          push Not at hall
          exact h ((accepted_eq_self_iff city).mpr hall)
        rw [convertToCityUrl_of_refused h]
        exact ⟨fun _ => Or.inr hbad, fun _ => rfl⟩
    · have h := convertToCityUrl_ne_zero hne
      rw [convertToCityUrl_of_accepted h, List.take_left]
      exact percentDecode_encodeCity ((accepted_eq_self_iff city).mp h)
    · rw [convertToCityUrl_of_accepted (convertToCityUrl_ne_zero hne)]
      simp
    · have h := convertToCityUrl_ne_zero hne
      rw [convertToCityUrl_of_accepted h] at hbounds ⊢
      rw [List.take_left]
      have hstart : (ascii "https://wttr.in/").length = 16 := by decide
      have hend : (ascii "?format=j1").length = 10 := by decide
      rw [List.length_append, List.length_singleton, cityUrlSize] at hbounds
      apply List.take_of_length_le
      rw [List.length_append, List.length_append, hstart, hend]
      omega

/-- The 77 spaces take 231 bytes. -/
theorem long_city_leaves_buffer : ¬ EncodesSafely (List.replicate 77 32) := by
  intro h
  have hbounds := h.inBounds
  rw [length_convertToCityUrl] at hbounds
  revert hbounds
  decide

end Homework.Weather
