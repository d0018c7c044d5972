/-!
# Places and stretches of text

A **position** is a place between two characters of a text, given by line and column; a
**location** is the stretch between two positions.  Everything the library reports about a
formula is reported at a location, so this file fixes the two conventions that every other
module relies on:

* lines count from 1 and only a line feed starts a new one;
* columns count from 0, one for each character.

Both are natural numbers, and places are compared without a bound.  A program that counts them in 32
bits agrees as long as a text has fewer than `2 ^ 32` lines, with fewer than `2 ^ 32` characters on
each; of larger texts nothing is said here.

## Moving through a text

`Position.next` is the step over one character and `Position.after` the step over many;
`Position.after_append` says that steps compose, which is what makes the location of a piece
of text independent of how the text before it was cut up.
-/

namespace FormulaTree

/-- A place between two characters of a text. -/
structure Position where
  line : Nat
  column : Nat
deriving DecidableEq

namespace Position

/-- The place before the first character. -/
def start : Position := ⟨1, 0⟩

/-- The place reached by stepping over one character. -/
def next (p : Position) (c : Char) : Position :=
  if c = '\n' then ⟨p.line + 1, 0⟩ else ⟨p.line, p.column + 1⟩

/-- The place reached by stepping over a run of characters. -/
def after (p : Position) (cs : List Char) : Position := cs.foldl next p

@[simp] theorem after_nil (p : Position) : p.after [] = p := rfl

@[simp] theorem after_cons (p : Position) (c : Char) (cs : List Char) :
    p.after (c :: cs) = (p.next c).after cs := rfl

/-- Steps over adjacent runs compose. -/
theorem after_append (p : Position) (as bs : List Char) :
    p.after (as ++ bs) = (p.after as).after bs := by
  simp [after]

/-- Places are ordered by line, then by column. -/
instance : LE Position where
  le p q := p.line < q.line ∨ (p.line = q.line ∧ p.column ≤ q.column)

instance (p q : Position) : Decidable (p ≤ q) :=
  inferInstanceAs (Decidable (p.line < q.line ∨ (p.line = q.line ∧ p.column ≤ q.column)))

theorem le_def {p q : Position} :
    p ≤ q ↔ p.line < q.line ∨ (p.line = q.line ∧ p.column ≤ q.column) := Iff.rfl

/-- The earlier of two places. -/
instance : Min Position where
  min p q := if p ≤ q then p else q

/-- The later of two places. -/
instance : Max Position where
  max p q := if p ≤ q then q else p

/-- Line and column as messages show them. -/
def text (p : Position) : String := s!"{p.line}:{p.column}"

end Position

/-- The stretch of text from `start` up to, and not including, `stop`. -/
structure Location where
  start : Position
  stop : Position
deriving DecidableEq

namespace Location

/-- The empty stretch before the first character. -/
def initial : Location := ⟨.start, .start⟩

/-- The empty stretch at one place. -/
def empty (p : Position) : Location := ⟨p, p⟩

/-- The smallest stretch that covers both. -/
def cover (a b : Location) : Location := ⟨min a.start b.start, max a.stop b.stop⟩

end Location

end FormulaTree
