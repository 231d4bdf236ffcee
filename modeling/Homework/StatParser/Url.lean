import Homework.StatParser.Grammar

/-!
# The URL of a request

`sscanf` cuts a request into words of at most 15, 255 and 15 bytes. What a word is too long
for is left for the next conversion: the rest of a long method becomes the path, and a long
path loses its end.
-/

namespace Homework.StatParser

set_option autoImplicit false

open Regex TopN

def IsToken (token : List UInt8) : Prop := token ≠ [] ∧ ∀ b ∈ token, isSpace b = false

instance (token : List UInt8) : Decidable (IsToken token) := inferInstanceAs (Decidable (_ ∧ _))

structure IsHttpRequest (request method path version : List UInt8) : Prop where
  eq : request = method ++ (ascii " " ++ (path ++ (ascii " " ++ version)))
  methodToken : IsToken method
  pathToken : IsToken path
  versionToken : IsToken version
  http : ascii "HTTP/" <+: version

/-- What the second conversion makes of a request. -/
def requestKey (method path : List UInt8) : List UInt8 :=
  if method.length ≤ 15 then path.take 255 else (method.drop 15).take 255

def KeepsPath (method path : List UInt8) : Prop :=
  method.length ≤ 15 ∧ path.length ≤ 255 ∨ 15 < method.length ∧ (method.drop 15).take 255 = path

def urlKeys (calls : List Call) : List (List UInt8) :=
  calls.filterMap fun
    | .addUrl key _ => some key
    | _ => none

theorem requestKey_eq_iff (method path : List UInt8) :
    requestKey method path = path ↔ KeepsPath method path := by
  unfold requestKey KeepsPath
  split
  · rename_i hshort
    rw [List.take_eq_self_iff]
    constructor
    · exact fun h => Or.inl ⟨hshort, h⟩
    · rintro (h | h)
      · exact h.2
      · exact absurd hshort (not_le.mpr h.1)
  · rename_i hlong
    constructor
    · exact fun h => Or.inr ⟨not_le.mp hlong, h⟩
    · rintro (h | h)
      · exact absurd h.1 hlong
      · exact h.2

theorem scanWord_scanSpaces_token {width : Nat} (hwidth : 0 < width) {token after : List UInt8}
    (htoken : IsToken token) :
    scanWord width (scanSpaces (token ++ (ascii " " ++ after))) =
      some (token.take width, token.drop width ++ (ascii " " ++ after)) := by
  rw [scanWord_scanSpaces]
  apply scanWord_append hwidth htoken.1 htoken.2
  rintro b ⟨⟩
  rfl

theorem IsToken.drop {token : List UInt8} (h : IsToken token) {n : Nat} (hn : n < token.length) :
    IsToken (token.drop n) := by
  refine ⟨?_, fun b hb => h.2 b (List.mem_of_mem_drop hb)⟩
  rw [Ne, List.drop_eq_nil_iff]
  exact not_le.mpr hn

/-- While a token is still to come, there is a next word. -/
theorem exists_scanWord {width : Nat} (hwidth : 0 < width) {token : List UInt8}
    (h : IsToken token) (s : List UInt8) :
    ∃ word, scanWord width (scanSpaces (s ++ (ascii " " ++ token))) = some word := by
  obtain ⟨b, token, rfl⟩ := List.exists_cons_of_ne_nil h.1
  rw [scanWord_scanSpaces, ← Option.ne_none_iff_exists']
  apply scanWord_ne_none hwidth _ (h.2 b (List.mem_cons_self ..))
  simp

theorem scanRequest_eq {request method path version : List UInt8}
    (h : IsHttpRequest request method path version) :
    ∃ protocol, scanRequest request =
      some (method.take 15, requestKey method path, protocol) := by
  have hfirst := @scanWord_scanSpaces_token 15 (by decide) method
    (path ++ (ascii " " ++ version)) h.methodToken
  rw [scanWord_scanSpaces] at hfirst
  -- the version is still to come after the second word
  have hthird := @exists_scanWord 15 (by decide) version h.versionToken
  unfold scanRequest requestKey
  rw [h.eq, hfirst]
  by_cases hshort : method.length ≤ 15
  · have hspace : ∀ s, scanSpaces (ascii " " ++ s) = scanSpaces s := fun s => rfl
    have hsecond := @scanWord_scanSpaces_token 255 (by decide) path version h.pathToken
    obtain ⟨word, hword⟩ := hthird (path.drop 255)
    refine ⟨word.1, ?_⟩
    simp only [Option.bind_eq_bind, Option.bind_some, List.drop_eq_nil_of_le hshort,
      List.nil_append, hspace, hsecond, hword, if_pos hshort, pure]
  · have hsecond := @scanWord_scanSpaces_token 255 (by decide) (method.drop 15)
      (path ++ (ascii " " ++ version)) (h.methodToken.drop (not_le.mp hshort))
    obtain ⟨word, hword⟩ := hthird ((method.drop 15).drop 255 ++ (ascii " " ++ path))
    simp only [List.append_assoc] at hword
    refine ⟨word.1, ?_⟩
    simp only [Option.bind_eq_bind, Option.bind_some, hsecond, hword, if_neg hshort, pure]

theorem urlOf_eq {request method path version : List UInt8}
    (h : IsHttpRequest request method path version) :
    urlOf request = some (requestKey method path) := by
  have hhttp : ascii "HTTP/" <:+: request := by
    obtain ⟨after, hafter⟩ := h.http
    refine ⟨method ++ (ascii " " ++ (path ++ ascii " ")), after, ?_⟩
    rw [h.eq, ← hafter]
    simp only [List.append_assoc]
  obtain ⟨protocol, hscan⟩ := scanRequest_eq h
  rw [urlOf, if_pos hhttp, hscan]

section Lines
variable {ρ : Type} {pcre : Pcre ρ}

theorem urlKeys_of_matches (hpcre : pcre.Compiles loglinePattern) {logline : List UInt8}
    (hline : 0 ∉ logline) {f : LogFields} (h : f.Matches logline) :
    urlKeys (loglineCalls pcre logline) = (urlOf f.request).toList := by
  rw [loglineCalls_of_matches hpcre hline h, requestCalls]
  cases urlOf f.request <;> rfl

theorem urlKeys_of_http (hpcre : pcre.Compiles loglinePattern) {logline : List UInt8}
    (hline : 0 ∉ logline) {f : LogFields} (h : f.Matches logline) {method path version : List UInt8}
    (hreq : IsHttpRequest f.request method path version) :
    urlKeys (loglineCalls pcre logline) = [requestKey method path] := by
  rw [urlKeys_of_matches hpcre hline h, urlOf_eq hreq]
  rfl

/-- The key is the path exactly when both words fit; lines whose words fit share an entry
exactly when they share the path. -/
theorem url_is_path_iff (hpcre : pcre.Compiles loglinePattern) (logline : List UInt8)
    (hline : 0 ∉ logline) (f : LogFields) (hf : f.Matches logline)
    (method path version : List UInt8) (hreq : IsHttpRequest f.request method path version) :
    (urlKeys (loglineCalls pcre logline) = [path] ↔ KeepsPath method path) ∧
      ∀ (logline' : List UInt8) (f' : LogFields) (method' path' version' : List UInt8),
        0 ∉ logline' → f'.Matches logline' → IsHttpRequest f'.request method' path' version' →
        KeepsPath method path → KeepsPath method' path' →
        (urlKeys (loglineCalls pcre logline) = urlKeys (loglineCalls pcre logline') ↔
          path = path') := by
  rw [urlKeys_of_http hpcre hline hf hreq]
  constructor
  · rw [List.singleton_inj, requestKey_eq_iff]
  · intro logline' f' method' path' version' hline' hf' hreq' hkeep hkeep'
    rw [urlKeys_of_http hpcre hline' hf' hreq', (requestKey_eq_iff _ _).mpr hkeep,
      (requestKey_eq_iff _ _).mpr hkeep', List.singleton_inj]

end Lines

/-- A well-formed line without trailing text, with the request `method /a HTTP/1.1`. -/
def requestFor (method : String) : LogFields :=
  { emptyRequest with request := ascii method ++ ascii " /a HTTP/1.1" }

theorem matches_get : (requestFor "GET").Matches (requestFor "GET").text := by
  apply matches_text
  · constructor <;> decide +kernel
  · decide

theorem isHttpRequest_get :
    IsHttpRequest (requestFor "GET").request (ascii "GET") (ascii "/a") (ascii "HTTP/1.1") := by
  constructor <;> decide +kernel

theorem url_is_path_iff_of_get :
    let pcre := backtracking loglinePattern
    (urlKeys (loglineCalls pcre (requestFor "GET").text) = [ascii "/a"] ↔
        KeepsPath (ascii "GET") (ascii "/a")) ∧
      ∀ (logline' : List UInt8) (f' : LogFields) (method' path' version' : List UInt8),
        0 ∉ logline' → f'.Matches logline' → IsHttpRequest f'.request method' path' version' →
        KeepsPath (ascii "GET") (ascii "/a") → KeepsPath method' path' →
        (urlKeys (loglineCalls pcre (requestFor "GET").text) =
          urlKeys (loglineCalls pcre logline') ↔ ascii "/a" = path') :=
  url_is_path_iff (backtracking_compiles loglinePattern) (requestFor "GET").text (by decide)
    (requestFor "GET") matches_get (ascii "GET") (ascii "/a") (ascii "HTTP/1.1") isHttpRequest_get

/-- A method of 16 bytes: its last one is taken for the path. -/
theorem long_method_is_the_key : ¬ ∀ (logline : List UInt8) (f : LogFields)
    (method path version : List UInt8), 0 ∉ logline → f.Matches logline →
    IsHttpRequest f.request method path version →
    urlKeys (loglineCalls (backtracking loglinePattern) logline) = [path] := by
  intro h
  have hline : 0 ∉ (requestFor "BASELINE-CONTROL").text := by decide
  have hmatches : (requestFor "BASELINE-CONTROL").Matches (requestFor "BASELINE-CONTROL").text := by
    apply matches_text
    · constructor <;> decide +kernel
    · decide
  have hreq : IsHttpRequest (requestFor "BASELINE-CONTROL").request (ascii "BASELINE-CONTROL")
      (ascii "/a") (ascii "HTTP/1.1") := by
    constructor <;> decide +kernel
  have hkey := h _ _ _ _ _ hline hmatches hreq
  rw [urlKeys_of_http (backtracking_compiles loglinePattern) hline hmatches hreq] at hkey
  revert hkey
  decide

end Homework.StatParser
