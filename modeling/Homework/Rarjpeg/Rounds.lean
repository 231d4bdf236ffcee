import Homework.Rarjpeg.Listing

/-!
# The rounds of the scanner

What its loop has in every round: the counter, and the stream from the byte on that it has just
read. A round with the counter at 4 treats the byte as the first one behind a signature, and
every round compares it with the element of `lfh_signature` that the counter says.
-/

namespace Homework.Rarjpeg

set_option autoImplicit false

section Rounds

variable (beyond : Nat → Int)

def rounds (counter : Nat) : List UInt8 → List (Nat × List UInt8)
  | [] => []
  | ch :: fp =>
    (counter, ch :: fp) ::
      if counter = signature.length then
        rounds (nextCounter beyond counter ch) (readEntry fp).2
      else rounds (nextCounter beyond counter ch) fp
termination_by fp => fp.length
decreasing_by
  · exact Nat.lt_succ_of_le (length_readEntry_le fp)
  · exact Nat.lt_succ_self _

/-- The rounds that treat their byte as part of an entry. -/
def entryRounds (counter : Nat) (fp : List UInt8) : List (Nat × List UInt8) :=
  (rounds beyond counter fp).filter fun round => round.1 = signature.length

theorem entryRounds_cons_of_eq {counter : Nat} (h : counter = signature.length) (ch : UInt8)
    (fp : List UInt8) : entryRounds beyond counter (ch :: fp) = (counter, ch :: fp) ::
      entryRounds beyond (nextCounter beyond counter ch) (readEntry fp).2 := by
  rw [entryRounds, rounds, if_pos h, List.filter_cons_of_pos (by simpa using h), entryRounds]

theorem entryRounds_cons_of_ne {counter : Nat} (h : counter ≠ signature.length) (ch : UInt8)
    (fp : List UInt8) : entryRounds beyond counter (ch :: fp) =
      entryRounds beyond (nextCounter beyond counter ch) fp := by
  rw [entryRounds, rounds, if_neg h, List.filter_cons_of_neg (by simpa using h), entryRounds]

/-- What is printed is up to these rounds. -/
theorem scan_eq (filePath : List UInt8) (counter : Nat) (found : Bool) (fp : List UInt8) :
    scan beyond filePath counter found fp =
      if entryRounds beyond counter fp = [] then (if found then [[10]] else [notFoundText filePath])
      else (if found then [] else [foundText filePath]) ++
        (entryRounds beyond counter fp).flatMap (fun round => (readEntry round.2.tail).1) ++
          [[10]] := by
  induction counter, fp using rounds.induct beyond generalizing found with
  | case1 counter => simp [scan, entryRounds, rounds]
  | case2 counter ch fp ihEntry ihOther =>
    rw [scan]
    by_cases h : counter = signature.length
    · rw [if_pos h, ihEntry true, entryRounds_cons_of_eq beyond h, if_neg (List.cons_ne_nil _ _)]
      by_cases hnil : entryRounds beyond (nextCounter beyond counter ch) (readEntry fp).2 = []
      · simp [hnil]
      · simp [hnil]
    · rw [if_neg h, ihOther found, entryRounds_cons_of_ne beyond h]

variable {beyond}

/-! ## Entries -/

theorem fread_suffix (size : Nat) (fp : List UInt8) : (fread size fp).2 <:+ fp := by
  unfold fread
  split
  · exact List.suffix_refl fp
  · split
    · exact List.drop_suffix size fp
    · exact List.nil_suffix

theorem readEntry_suffix (fp : List UInt8) : (readEntry fp).2 <:+ fp := by
  have hlength := (fread_suffix 2 (fp.drop fileNameLengthOffset)).trans (List.drop_suffix _ fp)
  unfold readEntry
  split
  · rename_i fp' hread
    rwa [hread] at hlength
  · rename_i fileNameLength fp' hread
    rw [hread] at hlength
    have hname := ((fread_suffix (littleEndian fileNameLength) (fp'.drop fileNameOffset)).trans
      (List.drop_suffix _ fp')).trans hlength
    split
    · rename_i fp'' hread'
      rwa [hread'] at hname
    · rename_i fileName fp'' hread'
      rwa [hread'] at hname

/-- The counter counts what was read since the last seek, or since the start. -/
def Counts (beyond : Nat → Int) (file : List UInt8) (counter : Nat) (fp : List UInt8) : Prop :=
  ∃ start bytes, Fresh start ∧ feed beyond start bytes = counter ∧ bytes ++ fp <:+ file

namespace Counts
variable {file : List UInt8} {counter : Nat} {ch : UInt8} {fp : List UInt8}

theorem next (h : Counts beyond file counter (ch :: fp)) :
    Counts beyond file (nextCounter beyond counter ch) fp := by
  obtain ⟨start, bytes, hfresh, hfeed, hsuffix⟩ := h
  refine ⟨start, bytes ++ [ch], hfresh, ?_, ?_⟩
  · rw [feed_concat, hfeed]
  · rwa [List.append_assoc, List.singleton_append]

/-- The seeks of an entry leave the array behind, or start again. -/
theorem seek (h : Counts beyond file counter (ch :: fp)) (hcounter : counter = signature.length) :
    Counts beyond file (nextCounter beyond counter ch) (readEntry fp).2 := by
  obtain ⟨start, bytes, -, -, hsuffix⟩ := h
  refine ⟨nextCounter beyond counter ch, [], ?_, rfl, ?_⟩
  · rw [hcounter]
    rcases @nextCounter_eq_or beyond signature.length ch with hnext | hnext
    · rw [hnext]
      exact Or.inr (Nat.lt_succ_self _)
    · exact Or.inl hnext
  · have hfp : ch :: fp <:+ file := (List.suffix_append bytes _).trans hsuffix
    exact (readEntry_suffix fp).trans ((List.suffix_cons ch fp).trans hfp)

theorem signature_suffix (h : Counts beyond file counter fp)
    (hcounter : counter = signature.length) : signature ++ fp <:+ file := by
  obtain ⟨start, bytes, hfresh, hfeed, hsuffix⟩ := h
  have hfour : feed beyond start bytes = 4 := hfeed.trans hcounter
  have hread := @feed_suffix beyond start hfresh bytes (Nat.le_of_eq hfour)
  rw [hfour] at hread
  obtain ⟨before, rfl⟩ := hread
  rw [List.append_assoc] at hsuffix
  exact (List.suffix_append before _).trans hsuffix

end Counts

theorem entryRounds_follow {file : List UInt8} {counter : Nat} {fp : List UInt8}
    (h : Counts beyond file counter fp) :
    ∀ round ∈ entryRounds beyond counter fp, signature ++ round.2 <:+ file := by
  induction counter, fp using rounds.induct beyond with
  | case1 counter => simp [entryRounds, rounds]
  | case2 counter ch fp ihEntry ihOther =>
    by_cases hcounter : counter = signature.length
    · rw [entryRounds_cons_of_eq beyond hcounter, List.forall_mem_cons]
      exact ⟨h.signature_suffix hcounter, ihEntry (h.seek hcounter)⟩
    · rw [entryRounds_cons_of_ne beyond hcounter]
      exact ihOther h.next

theorem counts_start (fp : List UInt8) : Counts beyond fp 0 fp :=
  ⟨0, [], Or.inl rfl, rfl, List.suffix_refl fp⟩

/-- Nothing is taken for an entry that has no signature in front of it. -/
theorem entries_follow_signature (beyond : Nat → Int) (fp filePath : List UInt8) :
    (∀ round ∈ entryRounds beyond 0 fp, signature ++ round.2 <:+ fp) ∧
      (¬ signature <:+: fp →
        listFile beyond filePath ([0xFF, 0xD8] ++ fp) = [notFoundText filePath]) := by
  have hfollow := entryRounds_follow (@counts_start beyond fp)
  refine ⟨hfollow, fun hno => ?_⟩
  have hnone : entryRounds beyond 0 fp = [] := by
    rw [List.eq_nil_iff_forall_not_mem]
    intro round hround
    obtain ⟨before, hfp⟩ := hfollow round hround
    rw [← List.append_assoc] at hfp
    exact hno ⟨before, round.2, hfp⟩
  have hjpeg := isJpeg_rarjpeg fp []
  rw [rarjpeg, List.flatMap_nil, List.append_nil, List.append_nil] at hjpeg
  rw [listFile, hjpeg]
  dsimp only
  rw [if_pos rfl, printZipContent, scan_eq, if_pos hnone]
  rfl

/-! ## Indices -/

/-- As long as no entry is found nothing is skipped. -/
theorem rounds_lt_iff_feed (counter : Nat) (fp : List UInt8) :
    (∀ round ∈ rounds beyond counter fp, round.1 < signature.length) ↔
      ∀ bytes, bytes <+: fp → bytes.length < fp.length →
        feed beyond counter bytes < signature.length := by
  induction fp generalizing counter with
  | nil => simp [rounds]
  | cons ch fp ih =>
    rw [rounds, List.forall_mem_cons]
    constructor
    · rintro ⟨hcounter, hrest⟩ bytes hstart hlen
      rw [if_neg (Nat.ne_of_lt hcounter), ih] at hrest
      cases bytes with
      | nil => exact hcounter
      | cons b bytes =>
        obtain ⟨rfl, hbytes⟩ := List.cons_prefix_cons.mp hstart
        exact hrest bytes hbytes (Nat.lt_of_succ_lt_succ hlen)
    · intro h
      have hcounter : counter < signature.length := h [] List.nil_prefix (Nat.zero_lt_succ _)
      refine ⟨hcounter, ?_⟩
      rw [if_neg (Nat.ne_of_lt hcounter), ih]
      intro bytes hstart hlen
      exact h (ch :: bytes) (List.cons_prefix_cons.mpr ⟨rfl, hstart⟩) (Nat.succ_lt_succ hlen)

theorem feed_append_signature {bytes : List UInt8}
    (hlt : ∀ passed, passed <+: bytes → feed beyond 0 passed < 4) :
    feed beyond 0 (bytes ++ signature) = 4 ↔ beginnings bytes.reverse % 2 = 0 := by
  have hzero := @feed_eq_zero_iff_of_lt beyond bytes.reverse (by rwa [List.reverse_reverse])
  rw [List.reverse_reverse] at hzero
  have hfeed := @feed_take beyond _ 4 (hlt bytes (List.prefix_refl bytes)) (by omega) (by omega)
  rw [← hzero, feed_append]
  have htake : signature.take 4 = signature := rfl
  rw [htake] at hfeed
  rw [hfeed]
  split
  · simp_all
  · simp_all

/-- The first time that the counter comes to 4 it has found a signature. -/
theorem feed_concat_lt {fp bytes : List UInt8} {ch : UInt8}
    (h : ∀ before b after, fp = before ++ signature ++ b :: after →
      beginnings before.reverse % 2 = 1)
    (hstart : bytes ++ [ch] <+: fp) (hlen : (bytes ++ [ch]).length < fp.length)
    (hlt : ∀ passed, passed <+: bytes → feed beyond 0 passed < 4) :
    feed beyond 0 (bytes ++ [ch]) < 4 := by
  by_contra hge
  have hbytes := hlt bytes (List.prefix_refl bytes)
  have hfour : feed beyond 0 (bytes ++ [ch]) = 4 := by
    rw [feed_concat] at hge ⊢
    rcases @nextCounter_eq_or beyond (feed beyond 0 bytes) ch with hnext | hnext <;> omega
  have hsuffix := @feed_suffix beyond 0 (Or.inl rfl) _ (Nat.le_of_eq hfour)
  rw [hfour] at hsuffix
  obtain ⟨before, hbefore⟩ := hsuffix
  have hbefore : before ++ signature = bytes ++ [ch] := hbefore
  have hinside : before <+: bytes := by
    have hsame := congrArg List.length hbefore
    simp only [List.length_append, signature, List.length_cons, List.length_nil] at hsame
    exact List.prefix_of_prefix_length_le (hbefore ▸ List.prefix_append before signature)
      (List.prefix_append bytes [ch]) (by omega)
  obtain ⟨rest, hrest⟩ := hstart
  obtain ⟨b, after, rfl⟩ : ∃ b after, rest = b :: after := by
    apply List.exists_cons_of_ne_nil
    rintro rfl
    rw [List.append_nil] at hrest
    rw [hrest] at hlen
    omega
  have hodd := h before b after (by rw [hbefore, hrest])
  rw [← hbefore, feed_append_signature fun passed hpassed =>
    hlt passed (hpassed.trans hinside)] at hfour
  omega

/-- Read beyond the array is what stands behind a signature that the scanner finds. -/
theorem indices_in_array_iff (beyond : Nat → Int) (fp : List UInt8) :
    (∀ round ∈ rounds beyond 0 fp, round.1 < signature.length) ↔
      ∀ before b after, fp = before ++ signature ++ b :: after →
        beginnings before.reverse % 2 = 1 := by
  rw [rounds_lt_iff_feed]
  constructor
  · rintro h before b after rfl
    have hshort : ∀ {bytes}, bytes <+: before ++ signature → feed beyond 0 bytes < 4 := by
      intro bytes hbytes
      have hle := hbytes.length_le
      apply h bytes (hbytes.trans (List.prefix_append _ _))
      rw [List.length_append, List.length_cons]
      omega
    have hbefore := feed_append_signature fun passed hpassed =>
      hshort (hpassed.trans (List.prefix_append before signature))
    have hall := hshort (List.prefix_refl (before ++ signature))
    omega
  · intro h
    have hbelow : ∀ bytes, bytes <+: fp → bytes.length < fp.length →
        ∀ passed, passed <+: bytes → feed beyond 0 passed < 4 := by
      intro bytes
      induction bytes using List.reverseRecOn with
      | nil =>
        intro _ _ passed hpassed
        rw [List.prefix_nil.mp hpassed]
        exact Nat.zero_lt_succ 3
      | append_singleton bytes ch ih =>
        intro hstart hlen passed hpassed
        have hbytes := ih ((List.prefix_append bytes [ch]).trans hstart)
          ((List.prefix_append bytes [ch]).length_le.trans_lt hlen)
        rcases List.prefix_concat_iff.mp hpassed with rfl | hpassed
        · exact feed_concat_lt h hstart hlen hbytes
        · exact hbytes passed hpassed
    intro bytes hstart hlen
    exact hbelow bytes hstart hlen bytes (List.prefix_refl bytes)

/-- A signature and one more byte. -/
theorem index_leaves_array :
    ¬ ∀ round ∈ rounds (fun _ => 0) 0 (signature ++ [0]), round.1 < signature.length := by
  rw [rounds_lt_iff_feed]
  intro h
  have hfour := h signature (List.prefix_append _ _) (by decide)
  revert hfour
  decide

end Rounds

end Homework.Rarjpeg
