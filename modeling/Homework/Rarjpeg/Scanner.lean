import Mathlib.Data.List.Infix
import Homework.Shared.CString

/-!
# Listing the ZIP entries of a JPEG

`hw01-rarjpeg/main.c`. A stream is the list of the bytes still to be read, which a seek
forward and a read shorten. With its counter at 4 the scanner reads past the end of
`lfh_signature`. What the memory has there is a parameter.
-/

namespace Homework.Rarjpeg

set_option autoImplicit false

def signature : List UInt8 := [0x50, 0x4B, 0x03, 0x04]

/-- `lfh_signature[i]`, where `beyond` is the memory behind the array. -/
def lfhSignature (beyond : Nat → Int) (i : Nat) : Int :=
  match signature[i]? with
  | some b => b.toNat
  | none => beyond i

def fileNameLengthOffset : Nat := 21
def fileNameOffset : Nat := 2

/-- `fread` of one item of `size` bytes. What is left of a file that is too short is read. -/
def fread (size : Nat) (fp : List UInt8) : Option (List UInt8) × List UInt8 :=
  if size = 0 then (none, fp)
  else if size ≤ fp.length then (some (fp.take size), fp.drop size)
  else (none, [])

def isJpeg (fp : List UInt8) : Bool × List UInt8 :=
  match fread 2 fp with
  | (some signature, fp) => (signature == [0xFF, 0xD8], fp)
  | (none, fp) => (false, fp)

/-- The bytes of an unsigned number on a little-endian host. -/
def littleEndian (bytes : List UInt8) : Nat := bytes.foldr (fun b n => b.toNat + 256 * n) 0

/-- What is printed for an entry, from behind the first byte after its signature. -/
def readEntry (fp : List UInt8) : List (List UInt8) × List UInt8 :=
  match fread 2 (fp.drop fileNameLengthOffset) with
  | (none, fp) => ([], fp)
  | (some fileNameLength, fp) =>
    match fread (littleEndian fileNameLength) (fp.drop fileNameOffset) with
    | (none, fp) => ([], fp)
    | (some fileName, fp) => ([cString fileName ++ [32]], fp)

theorem length_fread_le (size : Nat) (fp : List UInt8) : (fread size fp).2.length ≤ fp.length := by
  unfold fread
  split
  · exact Nat.le_refl _
  · split
    · simp
    · simp

theorem length_readEntry_le (fp : List UInt8) : (readEntry fp).2.length ≤ fp.length := by
  have hlength := length_fread_le 2 (fp.drop fileNameLengthOffset)
  rw [List.length_drop] at hlength
  unfold readEntry
  split
  · rename_i fp' hread
    rw [hread] at hlength
    dsimp only at hlength ⊢
    omega
  · rename_i fileNameLength fp' hread
    have hname := length_fread_le (littleEndian fileNameLength) (fp'.drop fileNameOffset)
    rw [List.length_drop] at hname
    rw [hread] at hlength
    split
    · rename_i fp'' hread'
      rw [hread'] at hname
      dsimp only at hlength hname ⊢
      omega
    · rename_i fileName fp'' hread'
      rw [hread'] at hname
      dsimp only at hlength hname ⊢
      omega

section Scan

variable (beyond : Nat → Int)

def nextCounter (counter : Nat) (ch : UInt8) : Nat :=
  if (ch.toNat : Int) = lfhSignature beyond counter then counter + 1 else 0

def foundText (filePath : List UInt8) : List UInt8 :=
  ascii "File " ++ filePath ++ ascii " is JPEG and it contains ZIP: "

def notFoundText (filePath : List UInt8) : List UInt8 :=
  ascii "File " ++ filePath ++ ascii " is JPEG but it doesn't contain ZIP!\n"

/-- The loop of `print_zip_content` and what follows it: what the calls of `printf` print. -/
def scan (filePath : List UInt8) (counter : Nat) (isZipContentFound : Bool) :
    List UInt8 → List (List UInt8)
  | [] => if isZipContentFound then [[10]] else [notFoundText filePath]
  | ch :: fp =>
    if counter = signature.length then
      (if isZipContentFound then [] else [foundText filePath]) ++ (readEntry fp).1 ++
        scan filePath (nextCounter beyond counter ch) true (readEntry fp).2
    else scan filePath (nextCounter beyond counter ch) isZipContentFound fp
termination_by fp => fp.length
decreasing_by
  · exact Nat.lt_succ_of_le (length_readEntry_le fp)
  · exact Nat.lt_succ_self _

def printZipContent (fp filePath : List UInt8) : List (List UInt8) :=
  scan beyond filePath 0 false fp

/-- What `main` prints for a file that it can open. -/
def listFile (filePath file : List UInt8) : List (List UInt8) :=
  let (jpeg, fp) := isJpeg file
  if jpeg then printZipContent beyond fp filePath
  else [ascii "File " ++ filePath ++ ascii " isn't JPEG\n"]

end Scan

end Homework.Rarjpeg
