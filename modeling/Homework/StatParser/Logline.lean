import Homework.Shared.Regex
import Homework.TopN.Threads

/-!
# One line of a log

`hw10-threads/stat_parser.c`: `parse_combined_logline` matches a line against a pattern of
the PCRE library, copies three of its groups out of the line, and counts the line in the
two containers and the total. The calls it makes on them are listed, and then made.

Allocations succeed. The library is a parameter: what it does with the pattern is assumed
where it matters.
-/

namespace Homework.StatParser

set_option autoImplicit false

open Regex TopN

def oveccount : Nat := 30

def requestField : Nat := 4
def sizeField : Nat := 6
def refererField : Nat := 7

def combinedFields : List (List UInt8) :=
  [ascii "ip", ascii "ident", ascii "user", ascii "time", ascii "request", ascii "status",
    ascii "size", ascii "referer", ascii "agent"]

def pattern : List UInt8 :=
  ascii "^(?P<ip>\\S+) (?P<ident>\\S+) (?P<user>\\S+) \\[(?P<time>[^\\]]+)\\] " ++
    ascii "\"(?P<request>[^\"]*)\" (?P<status>\\d+) (?P<size>\\d+) " ++
    ascii "\"(?P<referer>[^\"]*)\" \"(?P<agent>[^\"]*)\""

/-- What `pattern` says, item by item. -/
def loglinePattern : List Item :=
  [segment "" "ip" .notSpace .plus, segment " " "ident" .notSpace .plus,
    segment " " "user" .notSpace .plus, segment " [" "time" (.notByte 93) .plus,
    segment "] \"" "request" (.notByte 34) .star, segment "\" " "status" .digit .plus,
    segment " " "size" .digit .plus, segment " \"" "referer" (.notByte 34) .star,
    segment "\" \"" "agent" (.notByte 34) .star, literal "\""].flatten

theorem pattern_eq : pattern = text loglinePattern := by decide +kernel

structure Stats where
  urlToSz : TopNContainer (List UInt8)
  refToCt : TopNContainer (List UInt8)
  totalSz : Nat

/-- A call of `topn_cont_add` on one of the containers, or of `ts_add`. -/
inductive Call where
  | addUrl (key : List UInt8) (value : Int)
  | addReferer (key : List UInt8) (value : Int)
  | addTotal (size : Nat)
  deriving DecidableEq, Repr

def perform (stats : Stats) : Call → Stats
  | .addUrl key value => { stats with urlToSz := topnContAdd stats.urlToSz key value }
  | .addReferer key value => { stats with refToCt := topnContAdd stats.refToCt key value }
  | .addTotal size => { stats with totalSz := tsAdd stats.totalSz size }

variable {ρ : Type} (pcre : Pcre ρ)

def allocValueFromPcre (logline : List UInt8) (re : ρ) (ovector : List Int) (field : Nat) :
    Option (List UInt8) :=
  let index := pcre.getStringnumber re (combinedFields.getD field [])
  if 0 ≤ index then
    let substringStart := ovector.getD (2 * index).toNat 0
    let substringLength := ovector.getD (2 * index + 1).toNat 0 - substringStart
    some ((logline.drop substringStart.toNat).take substringLength.toNat)
  else none

/-- The compiled pattern and the offset vector of a match. -/
def matchLogline (logline : List UInt8) : Option (ρ × List Int) :=
  match pcre.compile pattern with
  | none => none
  | some re =>
    -- `strlen` is a `size_t`, and `pcre_exec` takes an `int`
    let (rc, ovector) := pcre.exec re logline (intOf (cString logline).length) oveccount
    if rc < 0 then none else some (re, ovector)

/-- `method`, `path` and `protocol`, when `sscanf` fills all three. -/
def scanRequest (request : List UInt8) : Option (List UInt8 × List UInt8 × List UInt8) := do
  let (method, s) ← scanWord 15 request
  let (path, s) ← scanWord 255 (scanSpaces s)
  let (protocol, _) ← scanWord 15 (scanSpaces s)
  return (method, path, protocol)

def urlOf (request : List UInt8) : Option (List UInt8) :=
  if ascii "HTTP/" <:+: request then
    match scanRequest request with
    | some (_, path, _) => some path
    | none => none
  else some request

/-- An `int` that is converted to `size_t`. -/
def sizeOfInt (x : Int) : Nat := (x % 2 ^ 64).toNat

def requestCalls (request size : List UInt8) : List Call :=
  (match urlOf request with
    | some url => [.addUrl url (atoi size)]
    | none => []) ++ [.addTotal (sizeOfInt (atoi size))]

def loglineCalls (logline : List UInt8) : List Call :=
  match matchLogline pcre logline with
  | none => []
  | some (re, ovector) =>
    let request := allocValueFromPcre pcre logline re ovector requestField
    let size := allocValueFromPcre pcre logline re ovector sizeField
    let referer := allocValueFromPcre pcre logline re ovector refererField
    (match request, size with
      | some request, some size => requestCalls request size
      | _, _ => []) ++
    match referer with
    | some referer => [.addReferer referer 1]
    | none => []

def parseCombinedLogline (stats : Stats) (logline : List UInt8) : Stats :=
  (loglineCalls pcre logline).foldl perform stats

end Homework.StatParser
