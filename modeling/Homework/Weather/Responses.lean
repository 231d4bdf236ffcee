import Mathlib.Data.List.Infix
import Homework.Weather.Program

/-!
# Whose response is parsed

One `chunk` serves all cities, and nothing empties it. What is parsed for a city is the bodies
of all transfers up to its own, one behind the other.
-/

namespace Homework.Weather

set_option autoImplicit false

/-- What the standard says of `realloc`: a block of the size asked for, that starts with the
old content. -/
structure IsRealloc (realloc : List UInt8 → Nat → Option (List UInt8)) : Prop where
  length : ∀ memory n block, realloc memory n = some block → block.length = n
  keeps : ∀ memory n block, realloc memory n = some block →
    block.take memory.length = memory.take n

/-- The first `size` bytes of the block are the data. -/
def Holds (mem : MemoryStruct) (data : List UInt8) : Prop :=
  mem.size = data.length ∧ mem.memory.take mem.size = data

section Download

variable {realloc : List UInt8 → Nat → Option (List UInt8)}

theorem writeMemoryCallback_holds (hrealloc : IsRealloc realloc)
    (hmemory : ∀ memory n, (realloc memory n).isSome) {mem : MemoryStruct} {data : List UInt8}
    (h : Holds mem data) (contents : List UInt8) :
    ∃ mem', writeMemoryCallback realloc contents mem = (mem', contents.length) ∧
      Holds mem' (data ++ contents) := by
  obtain ⟨hsize, hdata⟩ := h
  obtain ⟨ptr, hptr⟩ := Option.isSome_iff_exists.mp
    (hmemory mem.memory (mem.size + contents.length + 1))
  have hlength := hrealloc.length _ _ _ hptr
  have hkeeps := hrealloc.keeps _ _ _ hptr
  have hle : mem.size ≤ mem.memory.length := by
    have hcut := congrArg List.length hdata
    rw [List.length_take] at hcut
    omega
  have hold : ptr.take mem.size = data := by
    have htake := congrArg (List.take mem.size) hkeeps
    rw [List.take_take, List.take_take, Nat.min_eq_left hle, Nat.min_eq_left (by omega)] at htake
    rw [htake, hdata]
  unfold writeMemoryCallback
  dsimp only
  rw [hptr]
  refine ⟨_, rfl, by simp [hsize], ?_⟩
  dsimp only
  rw [List.take_set_of_le (Nat.le_refl _), copyInto, hold]
  apply List.take_left'
  rw [List.length_append, hsize]

theorem receive_holds (hrealloc : IsRealloc realloc)
    (hmemory : ∀ memory n, (realloc memory n).isSome) {mem : MemoryStruct} {data : List UInt8}
    (h : Holds mem data) (pieces : List (List UInt8)) :
    ∃ mem', receive realloc pieces mem = (mem', true) ∧ Holds mem' (data ++ pieces.flatten) := by
  induction pieces generalizing mem data with
  | nil => exact ⟨mem, rfl, by simpa using h⟩
  | cons piece pieces ih =>
    obtain ⟨mem₁, hwrite, h₁⟩ := writeMemoryCallback_holds hrealloc hmemory h piece
    obtain ⟨mem₂, hreceive, h₂⟩ := ih h₁
    refine ⟨mem₂, ?_, by simpa using h₂⟩
    rw [receive, hwrite]
    simpa using hreceive

/-- What is done for a valid city whose transfer succeeds, when `data` is in the buffer
afterwards. -/
def answer (city : List UInt8) (transfer : Transfer) (data : List UInt8) : List Action :=
  let (cityUrl, len) := convertToCityUrl city
  let url := weatherUrl (cityUrl.take len)
  if transfer.httpCode = 404 then [.perform url, .notFound city] else [.perform url, .parse data]

theorem printWeather_holds (hrealloc : IsRealloc realloc)
    (hmemory : ∀ memory n, (realloc memory n).isSome) {mem : MemoryStruct} {data : List UInt8}
    (h : Holds mem data) {city : List UInt8} {transfer : Transfer} (hcity : ValidCity city)
    (hok : transfer.ok) :
    ∃ mem', printWeather realloc city transfer mem =
        (mem', answer city transfer (data ++ transfer.body)) ∧
      Holds mem' (data ++ transfer.body) := by
  obtain ⟨mem', hreceive, h'⟩ := receive_holds hrealloc hmemory h transfer.pieces
  refine ⟨mem', ?_, h'⟩
  unfold printWeather answer
  dsimp only
  rw [if_neg hcity.1, hreceive]
  dsimp only
  rw [if_neg (by simp [hok]), h'.2]
  split
  · rfl
  · rfl

def Query.Succeeds (query : Query) : Prop := ValidCity query.city ∧ query.transfer.ok

/-- The data in the buffer grows from transfer to transfer. -/
theorem mainLoop_getElem? (hrealloc : IsRealloc realloc)
    (hmemory : ∀ memory n, (realloc memory n).isSome) {queries : List Query}
    (hqueries : ∀ query ∈ queries, query.Succeeds) {mem : MemoryStruct} {data : List UInt8}
    (h : Holds mem data) (i : Nat) :
    (mainLoop realloc queries mem)[i]? = queries[i]?.map fun query =>
      answer query.city query.transfer
        (data ++ (queries.take i).flatMap (fun query => query.transfer.body) ++
          query.transfer.body) := by
  induction queries generalizing mem data i with
  | nil => rfl
  | cons query queries ih =>
    obtain ⟨⟨hcity, hok⟩, hqueries⟩ := List.forall_mem_cons.mp hqueries
    obtain ⟨mem', hprint, h'⟩ := printWeather_holds hrealloc hmemory h hcity hok
    rw [mainLoop, hprint]
    dsimp only
    cases i with
    | zero => simp
    | succ i =>
      rw [List.getElem?_cons_succ, ih hqueries h']
      simp [List.append_assoc]

/-- What is parsed for a city is the response to its own transfer. -/
def ParsesOwn (realloc : List UInt8 → Nat → Option (List UInt8)) (first : UInt8)
    (queries : List Query) : Prop :=
  ∀ (i : Nat) (query : Query) actions, queries[i]? = some query →
    (weather realloc first queries)[i]? = some actions →
      ∀ bytes, Action.parse bytes ∈ actions → bytes = query.transfer.body

theorem parse_mem_answer {city : List UInt8} {transfer : Transfer} {data bytes : List UInt8} :
    Action.parse bytes ∈ answer city transfer data ↔ transfer.httpCode ≠ 404 ∧ bytes = data := by
  unfold answer
  dsimp only
  split <;> simp_all

/-- A response is parsed alone only if all the responses before it were empty. -/
theorem parses_own_iff (hrealloc : IsRealloc realloc)
    (hmemory : ∀ memory n, (realloc memory n).isSome) (first : UInt8) {queries : List Query}
    (hqueries : ∀ query ∈ queries, query.Succeeds) :
    ParsesOwn realloc first queries ↔
      ∀ (i : Nat) (query : Query), queries[i]? = some query → query.transfer.httpCode ≠ 404 →
        ∀ earlier ∈ queries.take i, earlier.transfer.body = [] := by
  have hempty : Holds { memory := [first], size := 0 } [] := ⟨rfl, rfl⟩
  have hloop := mainLoop_getElem? hrealloc hmemory hqueries hempty
  have hown : ∀ (i : Nat) (query : Query),
      (queries.take i).flatMap (fun query => query.transfer.body) ++ query.transfer.body =
        query.transfer.body ↔ ∀ earlier ∈ queries.take i, earlier.transfer.body = [] := by
    intro i query
    rw [List.append_left_eq_self, List.flatMap_eq_nil_iff]
  constructor
  · intro h i query hquery hfound
    rw [← hown i query]
    have hactions := hloop i
    rw [hquery, Option.map_some, List.nil_append] at hactions
    exact h i query _ hquery hactions _ (parse_mem_answer.mpr ⟨hfound, rfl⟩)
  · intro h i query actions hquery hactions bytes hparse
    have hanswer := hloop i
    rw [hquery, Option.map_some, List.nil_append] at hanswer
    cases hactions.symm.trans hanswer
    obtain ⟨hfound, rfl⟩ := parse_mem_answer.mp hparse
    exact (hown i query).mpr (h i query hquery hfound)

end Download

def zeroingRealloc (memory : List UInt8) (n : Nat) : Option (List UInt8) :=
  some (memory.take n ++ List.replicate (n - memory.length) 0)

theorem isRealloc_zeroingRealloc : IsRealloc zeroingRealloc where
  length memory n block h := by
    cases h
    rw [List.length_append, List.length_take, List.length_replicate]
    omega
  keeps memory n block h := by
    cases h
    by_cases hn : n ≤ memory.length
    · have hgap : n - memory.length = 0 := by omega
      rw [hgap, List.replicate_zero, List.append_nil, List.take_take, Nat.min_eq_right hn]
    · have hall : memory.take n = memory := List.take_of_length_le (by omega)
      rw [hall, List.take_left]

/-- A city that is found, with its response in one piece. -/
def found (city response : List UInt8) : Query where
  city := city
  transfer := { pieces := [response], ok := true, httpCode := 200 }

def romeAndOslo : List Query :=
  [found (ascii "Rome") (ascii "[1]"), found (ascii "Oslo") (ascii "[2]")]

theorem succeeds_romeAndOslo : ∀ query ∈ romeAndOslo, query.Succeeds := by
  unfold Query.Succeeds
  decide

theorem parses_own_iff_of_two_cities : ParsesOwn zeroingRealloc 0 romeAndOslo ↔
    ∀ (i : Nat) (query : Query), romeAndOslo[i]? = some query →
      query.transfer.httpCode ≠ 404 →
        ∀ earlier ∈ romeAndOslo.take i, earlier.transfer.body = [] :=
  parses_own_iff isRealloc_zeroingRealloc (fun _ _ => rfl) 0 succeeds_romeAndOslo

/-- For the second city both responses are parsed as one. -/
theorem second_city_parses_both : ¬ ∀ realloc first queries, IsRealloc realloc →
    (∀ memory n, (realloc memory n).isSome) → (∀ query ∈ queries, query.Succeeds) →
    ParsesOwn realloc first queries := by
  intro h
  have hown := h zeroingRealloc 0 romeAndOslo isRealloc_zeroingRealloc (fun _ _ => rfl)
    succeeds_romeAndOslo
  have hempty : Holds { memory := [0], size := 0 } [] := ⟨rfl, rfl⟩
  have hloop := mainLoop_getElem? isRealloc_zeroingRealloc (fun _ _ => rfl) succeeds_romeAndOslo
    hempty 1
  have hbytes := hown 1 _ _ rfl hloop (ascii "[1][2]") (parse_mem_answer.mpr ⟨by decide, rfl⟩)
  revert hbytes
  decide

end Homework.Weather
