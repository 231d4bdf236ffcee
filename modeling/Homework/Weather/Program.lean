import Homework.Shared.Bytes

/-!
# The weather of some cities

`hw02-weather/main.c`. What libcurl does is an input: for every transfer the pieces in which
it hands the body over, and what it says afterwards. What is printed of a parsed response is
the affair of json-c and left out.
-/

namespace Homework.Weather

set_option autoImplicit false

/-- `struct MemoryStruct`, with the block that `memory` points to. -/
structure MemoryStruct where
  memory : List UInt8
  size : Nat

structure Transfer where
  pieces : List (List UInt8)
  ok : Bool
  httpCode : Int

def Transfer.body (transfer : Transfer) : List UInt8 := transfer.pieces.flatten

/-- A city of the command line, with the transfer for it. -/
structure Query where
  city : List UInt8
  transfer : Transfer

inductive Action where
  | badInputData
  | perform (url : List UInt8)
  | failed
  | notFound (city : List UInt8)
  | parse (bytes : List UInt8)
  deriving DecidableEq

/-! ## The address of a city -/

def isAlpha (c : UInt8) : Bool := (65 ≤ c && c ≤ 90) || (97 ≤ c && c ≤ 122)

/-- The loop of `convert_to_city_url`: what it has written when it ends, and what the function
returns. -/
def convertLoop (cityUrl : List UInt8) : List UInt8 → List UInt8 × Nat
  | [] => (cityUrl ++ [0], cityUrl.length)
  | c :: city =>
    if isAlpha c ∨ c = 32 ∨ c = 45 then
      convertLoop (cityUrl ++ if c ≠ 32 then [c] else ascii "%20") city
    else (cityUrl, 0)

def convertToCityUrl (city : List UInt8) : List UInt8 × Nat := convertLoop [] city

def cityUrlSize : Nat := 230

/-- The address that `print_weather` builds with `snprintf`. -/
def weatherUrl (cityUrl : List UInt8) : List UInt8 :=
  (ascii "https://wttr.in/" ++ cityUrl ++ ascii "?format=j1").take 255

/-- A name that `convert_to_city_url` accepts, and that fits into its buffer. -/
def ValidCity (city : List UInt8) : Prop :=
  (convertToCityUrl city).2 ≠ 0 ∧ (convertToCityUrl city).1.length ≤ cityUrlSize

instance (city : List UInt8) : Decidable (ValidCity city) := inferInstanceAs (Decidable (_ ∧ _))

/-! ## The download -/

section Download

variable (realloc : List UInt8 → Nat → Option (List UInt8))

def writeMemoryCallback (contents : List UInt8) (mem : MemoryStruct) : MemoryStruct × Nat :=
  let realsize := contents.length
  match realloc mem.memory (mem.size + realsize + 1) with
  | none => (mem, 0)
  | some ptr =>
    let size := mem.size + realsize
    ({ memory := (copyInto ptr mem.size contents).set size 0, size }, realsize)

/-- libcurl calls the callback for one piece after the other. A callback that does not return
the size of its piece ends the transfer. -/
def receive : List (List UInt8) → MemoryStruct → MemoryStruct × Bool
  | [], mem => (mem, true)
  | piece :: pieces, mem =>
    let (mem, written) := writeMemoryCallback realloc piece mem
    if written = piece.length then receive pieces mem else (mem, false)

def printWeather (city : List UInt8) (transfer : Transfer) (chunk : MemoryStruct) :
    MemoryStruct × List Action :=
  let (cityUrl, len) := convertToCityUrl city
  if len = 0 then (chunk, [.badInputData])
  else
    let url := weatherUrl (cityUrl.take len)
    let (chunk, received) := receive realloc transfer.pieces chunk
    if ¬ (received ∧ transfer.ok) then (chunk, [.perform url, .failed])
    else if transfer.httpCode = 404 then (chunk, [.perform url, .notFound city])
    else (chunk, [.perform url, .parse (chunk.memory.take chunk.size)])

/-- The loop of `main`: what it does for each city. -/
def mainLoop : List Query → MemoryStruct → List (List Action)
  | [], _ => []
  | query :: queries, chunk =>
    let (chunk, actions) := printWeather realloc query.city query.transfer chunk
    actions :: mainLoop queries chunk

/-- `main`, where `first` is the byte that `malloc` has found. -/
def weather (first : UInt8) (queries : List Query) : List (List Action) :=
  mainLoop realloc queries { memory := [first], size := 0 }

end Download

end Homework.Weather
