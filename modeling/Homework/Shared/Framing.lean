import Mathlib.Data.List.Infix
import Homework.Shared.CString

/-!
# Header blocks and the bytes behind them

A client takes a response for a header block, lines up to an empty one, and as many bytes behind
it as the line `Content-Length` announces. The bytes alone say where the block ends, so that a
response cut short is none.

This module names no program.
-/

namespace Homework

set_option autoImplicit false

def crlf : List UInt8 := [13, 10]

/-- A line of a header, without its end. -/
def IsLine (line : List UInt8) : Prop := line ≠ [] ∧ 13 ∉ line ∧ 10 ∉ line

instance (line : List UInt8) : Decidable (IsLine line) := inferInstanceAs (Decidable (_ ∧ _ ∧ _))

structure HeaderBlock where
  lines : List (List UInt8)
  isLine : ∀ line ∈ lines, IsLine line

def HeaderBlock.bytes (header : HeaderBlock) : List UInt8 :=
  header.lines.flatMap (fun line => line ++ crlf) ++ crlf

def lengthField : List UInt8 := ascii "Content-Length: "

def HeaderBlock.contentLength (header : HeaderBlock) : Option Nat :=
  (header.lines.find? fun line => lengthField.isPrefixOf line).map fun line =>
    digitsValue ((line.drop lengthField.length).takeWhile isDigit)

def Framed (bytes : List UInt8) : Prop :=
  ∃ (header : HeaderBlock) (body : List UInt8),
    bytes = header.bytes ++ body ∧ header.contentLength = some body.length

/-! ## Header blocks -/

theorem line_eq_of_append {line line' rest rest' : List UInt8} (h : IsLine line)
    (h' : IsLine line') (heq : line ++ crlf ++ rest = line' ++ crlf ++ rest') :
    line = line' ∧ rest = rest' := by
  have hcut : ∀ {l r : List UInt8}, IsLine l →
      (l ++ crlf ++ r).takeWhile (fun b => b != 13) = l := by
    intro l r hl
    rw [List.append_assoc]
    apply takeWhile_append_eq
    · intro b hb
      have hne : b ≠ 13 := fun hcr => hl.2.1 (hcr ▸ hb)
      simp [hne]
    · simp [crlf]
  have hline : line = line' := by
    rw [← hcut h, heq, hcut h']
  subst line'
  exact ⟨rfl, List.append_cancel_left heq⟩

/-- The empty line is the first of its kind, so that the bytes say where the header ends. -/
theorem lines_eq_of_append {lines lines' : List (List UInt8)} (h : ∀ line ∈ lines, IsLine line)
    (h' : ∀ line ∈ lines', IsLine line) {rest rest' : List UInt8}
    (heq : lines.flatMap (fun line => line ++ crlf) ++ crlf ++ rest =
      lines'.flatMap (fun line => line ++ crlf) ++ crlf ++ rest') :
    lines = lines' ∧ rest = rest' := by
  have hempty : ∀ {line more rest : List UInt8}, IsLine line → crlf ++ rest ≠ line ++ more := by
    intro line more rest hline hfirst
    obtain ⟨b, bs, rfl⟩ := List.exists_cons_of_ne_nil hline.1
    have hb : (13 : UInt8) = b := (List.cons_eq_cons.mp hfirst).1
    apply hline.2.1
    rw [hb]
    exact List.mem_cons_self
  induction lines generalizing lines' with
  | nil =>
    cases lines' with
    | nil => exact ⟨rfl, List.append_cancel_left heq⟩
    | cons line' lines' =>
      simp only [List.flatMap_nil, List.nil_append, List.flatMap_cons, List.append_assoc] at heq
      exact absurd heq (hempty (h' line' List.mem_cons_self))
  | cons line lines ih =>
    cases lines' with
    | nil =>
      simp only [List.flatMap_nil, List.nil_append, List.flatMap_cons, List.append_assoc] at heq
      exact absurd heq.symm (hempty (h line List.mem_cons_self))
    | cons line' lines' =>
      rw [List.forall_mem_cons] at h h'
      simp only [List.flatMap_cons, List.append_assoc] at heq ih
      rw [← List.append_assoc line, ← List.append_assoc line'] at heq
      obtain ⟨rfl, hlines⟩ := line_eq_of_append h.1 h'.1 heq
      obtain ⟨rfl, hrest⟩ := ih h.2 h'.2 hlines
      exact ⟨rfl, hrest⟩

namespace HeaderBlock
variable {header header' : HeaderBlock} {rest rest' : List UInt8}

theorem eq_of_append (heq : header.bytes ++ rest = header'.bytes ++ rest') :
    header = header' ∧ rest = rest' := by
  obtain ⟨hlines, hrest⟩ := lines_eq_of_append header.isLine header'.isLine heq
  cases header
  cases header'
  cases hlines
  exact ⟨rfl, hrest⟩

theorem bytes_eq_concat (header : HeaderBlock) : ∃ front, header.bytes = front ++ [10] :=
  ⟨header.lines.flatMap (fun line => line ++ crlf) ++ [13], by simp [bytes, crlf]⟩

end HeaderBlock

theorem framed_append_iff (header : HeaderBlock) (body : List UInt8) :
    Framed (header.bytes ++ body) ↔ header.contentLength = some body.length := by
  constructor
  · rintro ⟨header', body', heq, hlength⟩
    obtain ⟨rfl, rfl⟩ := HeaderBlock.eq_of_append heq
    exact hlength
  · intro hlength
    exact ⟨header, body, rfl, hlength⟩

/-- Cut anywhere, a framed response is none. -/
theorem framed_take_iff {bytes : List UInt8} (h : Framed bytes) (n : Nat) :
    Framed (bytes.take n) ↔ bytes.length ≤ n := by
  constructor
  · rintro ⟨header', body', htake, hlength'⟩
    obtain ⟨header, body, rfl, hlength⟩ := h
    have hall := List.take_append_drop n (header.bytes ++ body)
    rw [htake, List.append_assoc] at hall
    obtain ⟨rfl, hbody⟩ := HeaderBlock.eq_of_append hall
    rw [hlength, Option.some.injEq, ← hbody, List.length_append] at hlength'
    have hdrop : ((header'.bytes ++ body).drop n).length = 0 := by omega
    rw [List.length_drop] at hdrop
    omega
  · intro hn
    rwa [List.take_of_length_le hn]

/-- Zeros do not complete a header block. -/
theorem not_framed_take_zeros {header : HeaderBlock} {n : Nat} (hn : n < header.bytes.length)
    (k : Nat) : ¬ Framed (header.bytes.take n ++ List.replicate k 0) := by
  rintro ⟨header', body, heq, -⟩
  have hinside : header'.bytes.length ≤ n := by
    by_contra hout
    obtain ⟨front, hfront⟩ := header'.bytes_eq_concat
    have hlen : front.length + 1 = header'.bytes.length := by
      rw [hfront, List.length_append, List.length_singleton]
    have htake : (header.bytes.take n).length = n := by
      rw [List.length_take]
      omega
    -- the last byte of the block would be one of the zeros
    have hlast : (header.bytes.take n ++ List.replicate k 0)[front.length]? = some 10 := by
      rw [heq, hfront]
      simp
    rw [List.getElem?_append_right (by omega), List.getElem?_replicate] at hlast
    split at hlast
    · exact absurd (Option.some.inj hlast) (by decide)
    · cases hlast
  have hprefix : header'.bytes <+: header.bytes := by
    have hleft : header'.bytes <+: header.bytes.take n := by
      apply List.prefix_of_prefix_length_le (List.prefix_append _ body)
      · rw [← heq]
        exact List.prefix_append _ _
      · rw [List.length_take]
        omega
    exact hleft.trans (List.take_prefix n _)
  obtain ⟨rest, hrest⟩ := hprefix
  have hsame : header'.bytes ++ rest = header.bytes ++ [] := by
    rw [hrest, List.append_nil]
  obtain ⟨rfl, -⟩ := HeaderBlock.eq_of_append hsame
  omega

end Homework
