import Homework.Rarjpeg.Counter

/-!
# Which entries are listed

A rarjpeg is a JPEG with the entries of a ZIP archive behind it. The scanner lists an entry
if and only if its counter is 0 where the header of the entry begins.
-/

namespace Homework.Rarjpeg

set_option autoImplicit false

/-- An entry from its local file header on: behind the signature come 22 bytes, of which
`version` is the first, and the two lengths. -/
structure ZipEntry where
  version : UInt8
  header : List UInt8
  extraLength : List UInt8
  name : List UInt8
  data : List UInt8
  length_header : header.length = 21
  length_extraLength : extraLength.length = 2
  name_ne_nil : name ≠ []
  length_name : name.length < 2 ^ 16
  noNul : 0 ∉ name

/-- A number below `2 ^ 16`, low byte first. -/
def bytes16 (n : Nat) : List UInt8 := [UInt8.ofNat (n % 256), UInt8.ofNat (n / 256)]

def ZipEntry.bytes (e : ZipEntry) : List UInt8 :=
  signature ++ e.version :: (e.header ++ (bytes16 e.name.length ++ (e.extraLength ++
    (e.name ++ e.data))))

def rarjpeg (jpeg : List UInt8) (entries : List ZipEntry) : List UInt8 :=
  [0xFF, 0xD8] ++ jpeg ++ entries.flatMap ZipEntry.bytes

/-- The signature of a header stands nowhere but where one of the entries begins. -/
def OnlyAtHeaders (jpeg : List UInt8) (entries : List ZipEntry) : Prop :=
  ∀ before after, rarjpeg jpeg entries = before ++ signature ++ after →
    ∃ passed rest, entries = passed ++ rest ∧ rest ≠ [] ∧ before = rarjpeg jpeg passed

/-! ## The signature within an entry -/

section Regions

variable {jpeg : List UInt8} {entries : List ZipEntry}

theorem rarjpeg_append (jpeg : List UInt8) (entries entries' : List ZipEntry) :
    rarjpeg jpeg (entries ++ entries') =
      rarjpeg jpeg entries ++ entries'.flatMap ZipEntry.bytes := by
  simp [rarjpeg]

theorem length_rarjpeg_le (jpeg : List UInt8) {entries entries' : List ZipEntry}
    (h : entries <+: entries') :
    (rarjpeg jpeg entries).length ≤ (rarjpeg jpeg entries').length := by
  obtain ⟨rest, rfl⟩ := h
  rw [rarjpeg_append, List.length_append]
  omega

theorem not_infix_jpeg (h : OnlyAtHeaders jpeg entries) : ¬ signature <:+: jpeg := by
  rintro ⟨before, after, heq⟩
  obtain ⟨passed, rest, -, -, hbefore⟩ := h ([0xFF, 0xD8] ++ before)
    (after ++ entries.flatMap ZipEntry.bytes) (by simp [rarjpeg, ← heq])
  have hlength := congrArg List.length hbefore
  simp only [rarjpeg, ← heq, List.length_append, signature, List.length_cons,
    List.length_nil] at hlength
  omega

theorem not_infix_tail (h : OnlyAtHeaders jpeg entries) {e : ZipEntry} (he : e ∈ entries) :
    ¬ signature <:+: e.bytes.tail := by
  rintro ⟨before, after, heq⟩
  obtain ⟨past, coming, rfl⟩ := List.append_of_mem he
  have hbytes : e.bytes = 0x50 :: (before ++ signature ++ after) := by
    rw [heq]
    rfl
  obtain ⟨passed, rest, hentries, -, hbefore⟩ := h (rarjpeg jpeg past ++ 0x50 :: before)
    (after ++ coming.flatMap ZipEntry.bytes) (by simp [rarjpeg_append, hbytes])
  have hlength := congrArg List.length hbefore
  have hlengthEntry : (rarjpeg jpeg (past ++ [e])).length =
      (rarjpeg jpeg past).length + (before.length + after.length + 5) := by
    rw [rarjpeg_append, List.flatMap_singleton, hbytes]
    simp only [List.length_append, List.length_cons, List.length_nil, signature]
    omega
  rw [List.length_append, List.length_cons] at hlength
  -- the place is behind the entries before `e` and in front of those after it
  have hpassed : passed <+: past ++ e :: coming := hentries ▸ List.prefix_append passed rest
  have hupto : past ++ [e] <+: past ++ e :: coming := ⟨coming, by simp⟩
  rcases List.prefix_or_prefix_of_prefix hpassed hupto with hbelow | habove
  · rcases List.prefix_concat_iff.mp hbelow with rfl | hpast
    · omega
    · have hle := length_rarjpeg_le jpeg hpast
      omega
  · have hle := length_rarjpeg_le jpeg habove
    omega

end Regions

/-! ## Scanning -/

section Scan

variable {beyond : Nat → Int} {filePath : List UInt8} {counter : Nat} {found : Bool}

theorem scan_cons_of_ne (hcounter : counter ≠ 4) (ch : UInt8) (fp : List UInt8) :
    scan beyond filePath counter found (ch :: fp) =
      scan beyond filePath (nextCounter beyond counter ch) found fp := by
  have hne : counter ≠ signature.length := hcounter
  rw [scan, if_neg hne]

theorem scan_append (hfresh : Fresh counter) {bytes : List UInt8}
    (hbytes : ¬ signature <:+: bytes) (fp : List UInt8) :
    scan beyond filePath counter found (bytes ++ fp) =
      scan beyond filePath (feed beyond counter bytes) found fp := by
  induction bytes using List.reverseRecOn generalizing fp with
  | nil => rfl
  | append_singleton bytes ch ih =>
    have hbefore : ¬ signature <:+: bytes := fun h =>
      hbytes (h.trans (List.prefix_append _ _).isInfix)
    rw [List.append_assoc, ih hbefore, List.singleton_append,
      scan_cons_of_ne (feed_ne_four hfresh hbefore), feed_concat]

theorem littleEndian_bytes16 {n : Nat} (h : n < 2 ^ 16) : littleEndian (bytes16 n) = n := by
  simp only [littleEndian, bytes16, List.foldr_cons, List.foldr_nil, UInt8.toNat_ofNat']
  omega

theorem fread_append {size : Nat} {bytes : List UInt8} (hsize : bytes.length = size)
    (hne : size ≠ 0) (fp : List UInt8) : fread size (bytes ++ fp) = (some bytes, fp) := by
  have hle : size ≤ (bytes ++ fp).length := by
    rw [List.length_append]
    omega
  unfold fread
  rw [if_neg hne, if_pos hle, List.take_left' hsize, List.drop_left' hsize]

theorem readEntry_eq (e : ZipEntry) (fp : List UInt8) :
    readEntry (e.header ++ (bytes16 e.name.length ++ (e.extraLength ++ (e.name ++ fp)))) =
      ([e.name ++ [32]], fp) := by
  have hname : e.name.length ≠ 0 := fun h => e.name_ne_nil (List.eq_nil_of_length_eq_zero h)
  unfold readEntry fileNameLengthOffset fileNameOffset
  have hlength : (bytes16 e.name.length).length = 2 := rfl
  rw [List.drop_left' e.length_header, fread_append hlength (by decide)]
  dsimp only
  rw [List.drop_left' e.length_extraLength, littleEndian_bytes16 e.length_name,
    fread_append rfl hname]
  dsimp only
  rw [cString_eq_self e.noNul]

theorem scan_entry (e : ZipEntry) (fp : List UInt8) :
    scan beyond filePath 0 found (e.bytes ++ fp) =
      (if found then [] else [foundText filePath]) ++ [e.name ++ [32]] ++
        scan beyond filePath (nextCounter beyond 4 e.version) true (e.data ++ fp) := by
  have hthree : feed beyond 0 (signature.take 3) = 3 := @feed_take beyond 0 3 (by omega) (by omega)
    (by omega)
  have hfour : nextCounter beyond 3 0x04 = 4 := by
    have hlast : signature[3]? = some 0x04 := rfl
    rw [nextCounter_of_getElem? hlast, if_pos rfl]
  have hbytes : e.bytes ++ fp = signature.take 3 ++ 0x04 :: e.version :: (e.header ++
      (bytes16 e.name.length ++ (e.extraLength ++ (e.name ++ (e.data ++ fp))))) := by
    simp [ZipEntry.bytes, signature]
  have hlength : 4 = signature.length := rfl
  rw [hbytes, scan_append (Or.inl rfl) (by decide), hthree, scan_cons_of_ne (by omega), hfour,
    scan, if_pos hlength, readEntry_eq]

/-- The entries that are listed if the counter has this value where they begin. -/
def hits (beyond : Nat → Int) : Nat → List ZipEntry → List ZipEntry
  | _, [] => []
  | counter, e :: entries =>
    if counter = 0 then
      e :: hits beyond (feed beyond (nextCounter beyond 4 e.version) e.data) entries
    else hits beyond (feed beyond counter e.bytes) entries

def report (filePath : List UInt8) (found : Bool) (names : List (List UInt8)) :
    List (List UInt8) :=
  if names = [] then (if found then [[10]] else [notFoundText filePath])
  else (if found then [] else [foundText filePath]) ++ names.map (· ++ [32]) ++ [[10]]

theorem report_cons (name : List UInt8) (names : List (List UInt8)) :
    report filePath found (name :: names) =
      (if found then [] else [foundText filePath]) ++ [name ++ [32]] ++
        report filePath true names := by
  cases names <;> simp [report]

theorem data_suffix (e : ZipEntry) : e.data <:+ e.bytes.tail :=
  ⟨[0x4B, 0x03, 0x04] ++ e.version :: (e.header ++ (bytes16 e.name.length ++ (e.extraLength ++
    e.name))), by simp [ZipEntry.bytes, signature]⟩

theorem fresh_after_version (e : ZipEntry) : Fresh (nextCounter beyond 4 e.version) := by
  rcases @nextCounter_eq_or beyond 4 e.version with h | h
  · exact Or.inr (by omega)
  · exact Or.inl h

/-- A counter that the signature does not find at 0 has lost it with its first byte. -/
theorem fresh_after_first (hzero : counter ≠ 0) :
    Fresh (nextCounter beyond counter 0x50) := by
  rcases @nextCounter_eq_or beyond counter 0x50 with h | h
  · by_cases hlt : counter < 4
    · have htake : feed beyond counter (signature.take 1) = 0 := by
        rw [feed_take hlt (by omega) (by omega), if_neg hzero]
      exact Or.inl htake
    · exact Or.inr (by omega)
  · exact Or.inl h

theorem scan_entries {entries : List ZipEntry}
    (hentries : ∀ e ∈ entries, ¬ signature <:+: e.bytes.tail) (hcounter : counter ≠ 4) :
    scan beyond filePath counter found (entries.flatMap ZipEntry.bytes) =
      report filePath found ((hits beyond counter entries).map ZipEntry.name) := by
  induction entries generalizing counter found with
  | nil => rw [List.flatMap_nil, scan]; rfl
  | cons e entries ih =>
    obtain ⟨he, hentries⟩ := List.forall_mem_cons.mp hentries
    rw [List.flatMap_cons, hits]
    by_cases hzero : counter = 0
    · have hdata : ¬ signature <:+: e.data := fun h => he (h.trans (data_suffix e).isInfix)
      have hfresh := @fresh_after_version beyond e
      rw [hzero, scan_entry, scan_append hfresh hdata, ih hentries (feed_ne_four hfresh hdata),
        if_pos rfl, List.map_cons, report_cons]
    · have hbytes : e.bytes = 0x50 :: e.bytes.tail := rfl
      have hfresh := @fresh_after_first beyond counter hzero
      rw [if_neg hzero, hbytes, List.cons_append, scan_cons_of_ne hcounter,
        scan_append hfresh he, ih hentries (feed_ne_four hfresh he)]
      rfl

/-! ## Complete listings -/

/-- The bytes of an entry that the counter, back at 0, starts with. Where the first byte
behind the signature equals `lfh_signature[4]`, the comparison goes on behind the array. -/
def leftover (beyond : Nat → Int) : Nat → List UInt8 → Option (List UInt8)
  | _, [] => none
  | i, b :: bytes =>
    if (b.toNat : Int) = beyond i then leftover beyond (i + 1) bytes else some bytes

def counted (beyond : Nat → Int) (e : ZipEntry) : Option (List UInt8) :=
  if (e.version.toNat : Int) = beyond 4 then leftover beyond 5 e.data else some e.data

/-- The counter is 0 where the next entry begins. -/
def Restarts (beyond : Nat → Int) (e : ZipEntry) : Prop :=
  ∃ bytes, counted beyond e = some bytes ∧ beginnings bytes.reverse % 2 = 0

theorem leftover_suffix {i : Nat} {bytes rest : List UInt8}
    (h : leftover beyond i bytes = some rest) : rest <:+ bytes := by
  induction bytes generalizing i with
  | nil => cases h
  | cons b bytes ih =>
    rw [leftover] at h
    split at h
    · exact (ih h).trans (List.suffix_cons b bytes)
    · cases h
      exact List.suffix_cons b rest

theorem nextCounter_beyond {i : Nat} (hi : 4 ≤ i) (ch : UInt8) :
    nextCounter beyond i ch = if (ch.toNat : Int) = beyond i then i + 1 else 0 := by
  have hnone : signature[i]? = none := List.getElem?_eq_none hi
  unfold nextCounter lfhSignature
  rw [hnone]

theorem feed_leftover {i : Nat} (hi : 4 ≤ i) (bytes : List UInt8) :
    feed beyond i bytes = match leftover beyond i bytes with
      | none => i + bytes.length
      | some rest => feed beyond 0 rest := by
  induction bytes generalizing i with
  | nil => rfl
  | cons b bytes ih =>
    rw [feed_cons, nextCounter_beyond hi, leftover]
    split
    · rw [ih (by omega)]
      cases leftover beyond (i + 1) bytes with
      | none =>
        have hlength : i + 1 + bytes.length = i + (b :: bytes).length := by
          rw [List.length_cons]
          omega
        exact hlength
      | some rest => rfl
    · rfl

theorem restarts_iff {e : ZipEntry} (he : ¬ signature <:+: e.bytes.tail) :
    feed beyond (nextCounter beyond 4 e.version) e.data = 0 ↔ Restarts beyond e := by
  have hiff : ∀ {bytes : List UInt8}, bytes <:+ e.data →
      (feed beyond 0 bytes = 0 ↔ beginnings bytes.reverse % 2 = 0) := by
    intro bytes hbytes
    have hclean : ¬ signature <:+: bytes.reverse.reverse := by
      rw [List.reverse_reverse]
      exact fun h => he (h.trans (hbytes.trans (data_suffix e)).isInfix)
    have heven := feed_eq_zero_iff beyond hclean
    rwa [List.reverse_reverse] at heven
  unfold Restarts counted
  rw [nextCounter_beyond (Nat.le_refl 4)]
  split
  · rw [feed_leftover (by omega)]
    cases hrest : leftover beyond 5 e.data with
    | none => simp
    | some rest => simpa using hiff (leftover_suffix hrest)
  · simpa using hiff (List.suffix_refl _)

theorem hits_sublist (beyond : Nat → Int) (counter : Nat) (entries : List ZipEntry) :
    (hits beyond counter entries).Sublist entries := by
  induction entries generalizing counter with
  | nil => exact List.Sublist.refl _
  | cons e entries ih =>
    rw [hits]
    split
    · exact (ih _).cons_cons e
    · exact (ih _).cons e

theorem hits_eq_self_iff {e : ZipEntry} {entries : List ZipEntry}
    (hentries : ∀ e' ∈ e :: entries, ¬ signature <:+: e'.bytes.tail) :
    hits beyond counter (e :: entries) = e :: entries ↔
      counter = 0 ∧ ∀ e' ∈ (e :: entries).dropLast, Restarts beyond e' := by
  induction entries generalizing counter e with
  | nil =>
    by_cases hzero : counter = 0
    · simp [hits, hzero]
    · simp [hits, hzero]
  | cons next entries ih =>
    obtain ⟨he, hentries⟩ := List.forall_mem_cons.mp hentries
    rw [hits]
    by_cases hzero : counter = 0
    · rw [if_pos hzero, List.cons_inj_right, ih hentries, restarts_iff he, List.dropLast_cons_cons,
        List.forall_mem_cons]
      simp [hzero]
    · rw [if_neg hzero]
      constructor
      · intro heq
        have hsublist := hits_sublist beyond (feed beyond counter e.bytes) (next :: entries)
        have hlength := hsublist.length_le
        rw [heq, List.length_cons] at hlength
        omega
      · rintro ⟨h, -⟩
        exact absurd h hzero

theorem length_report (names : List (List UInt8)) :
    (report filePath false names).length = if names = [] then 1 else names.length + 2 := by
  unfold report
  split
  · rfl
  · simp

theorem report_hits_iff (entries : List ZipEntry) :
    report filePath false ((hits beyond counter entries).map ZipEntry.name) =
        report filePath false (entries.map ZipEntry.name) ↔
      hits beyond counter entries = entries := by
  constructor
  · intro h
    have hlength := congrArg List.length h
    have hsublist := hits_sublist beyond counter entries
    apply hsublist.eq_of_length
    have hle := hsublist.length_le
    rw [length_report, length_report] at hlength
    simp only [List.length_map, ← List.length_eq_zero_iff] at hlength
    split at hlength <;> split at hlength <;> omega
  · intro h
    rw [h]

theorem isJpeg_rarjpeg (jpeg : List UInt8) (entries : List ZipEntry) :
    isJpeg (rarjpeg jpeg entries) = (true, jpeg ++ entries.flatMap ZipEntry.bytes) := by
  have hlength : [(0xFF : UInt8), 0xD8].length = 2 := rfl
  unfold isJpeg rarjpeg
  rw [List.append_assoc, fread_append hlength (by decide)]
  rfl

theorem listFile_eq (beyond : Nat → Int) (filePath : List UInt8) {jpeg : List UInt8}
    {entries : List ZipEntry} (h : OnlyAtHeaders jpeg entries) :
    listFile beyond filePath (rarjpeg jpeg entries) =
      report filePath false ((hits beyond (feed beyond 0 jpeg) entries).map ZipEntry.name) := by
  have hjpeg := not_infix_jpeg h
  have hfresh : Fresh 0 := Or.inl rfl
  unfold listFile
  rw [isJpeg_rarjpeg]
  dsimp only
  rw [if_pos rfl, printZipContent, scan_append hfresh hjpeg]
  exact scan_entries (fun e he => not_infix_tail h he) (feed_ne_four hfresh hjpeg)

/-- Everything is listed if and only if the beginnings of the signature that stand in front of
a header count off in pairs. -/
theorem listing_complete_iff (beyond : Nat → Int) (filePath : List UInt8) {jpeg : List UInt8}
    {entries : List ZipEntry} (hne : entries ≠ []) (honly : OnlyAtHeaders jpeg entries) :
    listFile beyond filePath (rarjpeg jpeg entries) =
        foundText filePath :: entries.map (fun e => e.name ++ [32]) ++ [[10]] ↔
      beginnings jpeg.reverse % 2 = 0 ∧ ∀ e ∈ entries.dropLast, Restarts beyond e := by
  have hall : foundText filePath :: entries.map (fun e => e.name ++ [32]) ++ [[10]] =
      report filePath false (entries.map ZipEntry.name) := by
    simp [report, hne]
  have hreverse : ¬ signature <:+: jpeg.reverse.reverse := by
    rw [List.reverse_reverse]
    exact not_infix_jpeg honly
  have hzero := feed_eq_zero_iff beyond hreverse
  rw [List.reverse_reverse] at hzero
  obtain ⟨e, entries, rfl⟩ := List.exists_cons_of_ne_nil hne
  rw [listFile_eq beyond filePath honly, hall, report_hits_iff,
    hits_eq_self_iff fun e he => not_infix_tail honly he, hzero]

end Scan

/-- An entry with a name of one byte and no data. -/
def smallEntry : ZipEntry where
  version := 20
  header := List.replicate 21 0
  extraLength := [0, 0]
  name := ascii "a"
  data := []
  length_header := rfl
  length_extraLength := rfl
  name_ne_nil := by decide
  length_name := by decide
  noNul := by decide

/-- Two beginnings of the signature end its data. -/
def entryWithData : ZipEntry :=
  { smallEntry with
    name := ascii "b"
    data := [0, 7, 0x50, 0x4B, 0x50]
    name_ne_nil := by decide
    length_name := by decide
    noNul := by decide }

theorem onlyAtHeaders_of_offsets {jpeg : List UInt8} {entries : List ZipEntry}
    (h : ∀ n < (rarjpeg jpeg entries).length, signature <+: (rarjpeg jpeg entries).drop n →
      ∃ k, k < entries.length ∧ n = (rarjpeg jpeg (entries.take k)).length) :
    OnlyAtHeaders jpeg entries := by
  intro before after heq
  rw [List.append_assoc] at heq
  have hinside : before.length < (rarjpeg jpeg entries).length := by
    rw [heq]
    simp [signature]
  have hhere : signature <+: (rarjpeg jpeg entries).drop before.length := by
    rw [heq, List.drop_left]
    exact List.prefix_append _ _
  obtain ⟨k, hk, hlength⟩ := h before.length hinside hhere
  have hentries := List.take_append_drop k entries
  have hrest : entries.drop k ≠ [] := fun hnil => Nat.not_le.mpr hk (List.drop_eq_nil_iff.mp hnil)
  refine ⟨entries.take k, entries.drop k, hentries.symm, hrest, ?_⟩
  have hbefore : before <+: rarjpeg jpeg entries := ⟨_, heq.symm⟩
  have hpassed : rarjpeg jpeg (entries.take k) <+: rarjpeg jpeg entries :=
    ⟨_, by rw [← rarjpeg_append, hentries]⟩
  exact (List.prefix_of_prefix_length_le hbefore hpassed (Nat.le_of_eq hlength)).eq_of_length
    hlength

/-- What is read as `lfh_signature[4]` is the version, and the data begins with the byte that is
read as `lfh_signature[5]`. -/
theorem listing_complete_iff_of_two_entries :
    listFile (fun i => if i = 4 then 20 else 0) (ascii "a.jpg")
        (rarjpeg [0x50, 0x50] [entryWithData, smallEntry]) =
      [foundText (ascii "a.jpg"), ascii "b ", ascii "a ", [10]] :=
  (listing_complete_iff (fun i => if i = 4 then 20 else 0) (ascii "a.jpg") (by simp)
    (onlyAtHeaders_of_offsets (by decide +kernel))).mpr
    ⟨by decide, List.forall_mem_singleton.mpr ⟨[0x50, 0x4B, 0x50], by decide, by decide⟩⟩

/-- A single `50` in front of the header hides it. -/
theorem entry_behind_a_beginning_is_missed : ¬ ∀ beyond filePath jpeg entries, entries ≠ [] →
    OnlyAtHeaders jpeg entries →
    listFile beyond filePath (rarjpeg jpeg entries) =
      foundText filePath :: entries.map (fun e => e.name ++ [32]) ++ [[10]] := by
  intro h
  have honly : OnlyAtHeaders [0x50] [smallEntry] := onlyAtHeaders_of_offsets (by decide +kernel)
  have hlist := h (fun _ => 0) [] [0x50] [smallEntry] (by simp) honly
  rw [listFile_eq _ _ honly] at hlist
  have hlength := congrArg List.length hlist
  rw [length_report] at hlength
  revert hlength
  decide

end Homework.Rarjpeg
