import FormulaTree.Position
import Mathlib.Data.List.Induction
import Mathlib.Order.Lattice

/-!
# The order of places

Places in a text are ordered by line and column, and this order is linear.  Stepping over a
character leads to a later place (`Position.lt_next`), so the places of a text come in the order of
its characters.

`Position.reached` says without stepping where one is after a run of characters from the start: the
line is told by the line feeds that were passed, and the column by the characters since the last of
them.

Stretches of text are compared in two ways: one can be before another (`Location.Precedes`), and one
can be part of another (`Location.Within`).
-/

namespace FormulaTree

namespace Position

instance : LinearOrder Position where
  le_refl p := by
    simp [le_def]
  le_trans p q r hpq hqr := by
    simp only [le_def] at hpq hqr ⊢
    omega
  le_antisymm p q hpq hqp := by
    obtain ⟨line, column⟩ := p
    simp only [le_def] at hpq hqp
    have hline : line = q.line := by omega
    have hcolumn : column = q.column := by omega
    rw [hline, hcolumn]
  le_total p q := by
    simp only [le_def]
    omega
  toDecidableLE := inferInstance

/-- A step leads to a later place. -/
lemma lt_next (p : Position) (c : Char) : p < p.next c := by
  rw [lt_iff_not_ge, le_def, next]
  split <;> simp

lemma le_after (p : Position) (cs : List Char) : p ≤ p.after cs := by
  induction cs generalizing p with
  | nil => exact le_refl p
  | cons c cs ih => exact (lt_next p c).le.trans (ih (p.next c))

lemma lt_after (p : Position) {cs : List Char} (h : cs ≠ []) : p < p.after cs := by
  obtain ⟨c, cs, rfl⟩ := List.exists_cons_of_ne_nil h
  exact (lt_next p c).trans_le (le_after (p.next c) cs)

/-! ## Counting lines and columns -/

/-- The place after a run of characters from the start. -/
def reached (passed : List Char) : Position :=
  ⟨1 + passed.count '\n', (passed.reverse.takeWhile (· != '\n')).length⟩

lemma reached_append_singleton (passed : List Char) (c : Char) :
    reached (passed ++ [c]) = (reached passed).next c := by
  by_cases hc : c = '\n'
  · simp [reached, next, hc, Nat.add_assoc]
  · simp [reached, next, hc]

lemma after_start (passed : List Char) : start.after passed = reached passed := by
  induction passed using List.reverseRecOn with
  | nil => rfl
  | append_singleton passed c ih =>
    rw [after_append, ih, reached_append_singleton]
    rfl

end Position

/-! ## Stretches -/

namespace Location

variable {a b c : Location}

/-- The stretch is not empty. -/
def IsProper (l : Location) : Prop := l.start < l.stop

/-- One stretch ends before another begins. -/
def Precedes (a b : Location) : Prop := a.stop ≤ b.start

/-- One stretch is part of another. -/
def Within (a b : Location) : Prop := b.start ≤ a.start ∧ a.stop ≤ b.stop

instance (l : Location) : Decidable l.IsProper := inferInstanceAs (Decidable (_ < _))

instance : Decidable (a.Precedes b) := inferInstanceAs (Decidable (_ ≤ _))

instance : Decidable (a.Within b) := inferInstanceAs (Decidable (_ ∧ _))

lemma Within.refl (a : Location) : a.Within a := ⟨le_refl _, le_refl _⟩

lemma Within.trans (hab : a.Within b) (hbc : b.Within c) : a.Within c :=
  ⟨hbc.1.trans hab.1, hab.2.trans hbc.2⟩

/-- What is part of an earlier stretch is before what is part of a later one. -/
lemma Precedes.mono {a' b' : Location} (h : a.Precedes b) (ha : a'.Within a) (hb : b'.Within b) :
    a'.Precedes b' :=
  (ha.2.trans h).trans hb.1

/-- Two stretches in order are covered from the start of the one to the end of the other. -/
lemma cover_of_precedes (h : a.Precedes b) (ha : a.IsProper) (hb : b.IsProper) :
    a.cover b = ⟨a.start, b.stop⟩ := by
  have hstart : a.start ≤ b.start := ha.le.trans h
  have hstop : a.stop ≤ b.stop := h.trans hb.le
  rw [cover, min_eq_left hstart, max_eq_right hstop]

end Location

end FormulaTree
