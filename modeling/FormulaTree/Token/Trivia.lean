import FormulaTree.Text.Blank
import FormulaTree.Token.Scanned

/-!
# What lies between tokens

Blanks and comments separate tokens and mean nothing.  A comment runs from `//` to the end of
the line, or from `/*` to the next `*/`; comments of the second kind do not nest, and one that
is never closed is an error.
-/

namespace FormulaTree.Token

/-- What is being skipped. -/
inductive Gap where
  | blanks
  | lineComment
  | blockComment (opened : Position)

/-- Skips blanks and comments.  The line feed that ends a comment is skipped with it, since it
is blank. -/
def skipGap : Gap → Position → List Char → Except ScanError (Position × List Char)
  | .blanks, p, [] => .ok (p, [])
  | .blanks, p, '/' :: '/' :: cs => skipGap .lineComment ((p.next '/').next '/') cs
  | .blanks, p, '/' :: '*' :: cs => skipGap (.blockComment p) ((p.next '/').next '*') cs
  | .blanks, p, c :: cs =>
    if Text.isBlank c then skipGap .blanks (p.next c) cs else .ok (p, c :: cs)
  | .lineComment, p, [] => .ok (p, [])
  | .lineComment, p, c :: cs =>
    if c = '\n' then skipGap .blanks (p.next c) cs else skipGap .lineComment (p.next c) cs
  | .blockComment opened, p, [] => .error ⟨.unterminatedComment, ⟨opened, p⟩⟩
  | .blockComment _, p, '*' :: '/' :: cs => skipGap .blanks ((p.next '*').next '/') cs
  | .blockComment opened, p, c :: cs => skipGap (.blockComment opened) (p.next c) cs

/-- Skips blanks and comments from between two tokens. -/
def skipTrivia (p : Position) (cs : List Char) : Except ScanError (Position × List Char) :=
  skipGap .blanks p cs

/-- Skipping never makes the text longer. -/
theorem skipGap_length {gap : Gap} {p q : Position} {cs rest : List Char}
    (h : skipGap gap p cs = .ok (q, rest)) : rest.length ≤ cs.length := by
  fun_induction skipGap gap p cs with
  | case1 | case6 => simp_all
  | case5 => simp_all
  | case9 => simp at h
  | _ => simp_all; omega

end FormulaTree.Token
