import FormulaTree.Number.Rounding
import FormulaTree.Number.Shortest
import Mathlib.Tactic.Ring

/-!
# Decimals that read back

`Magnitude.admits` is the range of decimals around a magnitude, in units of `10 ^ -1076`, that are
nearer to it than to any other; a border belongs to the range if the significand is even.  This
file shows that the range is what it is said to be: a decimal in it is read as that magnitude
(`ofDecimal_of_admits`), and the shortest decimal is in it (`shortest_admits`).

## Rounding

The argument is about a quotient `num / den` of natural numbers, in steps of `2 ^ -1074`.  If it is
in the range (`Magnitude.Near`), the exponent that `Number.ofRatio` finds is that of the magnitude,
but for one case: just below a power of two the exponent found is one less, and rounding up carries
over into it.
-/

namespace FormulaTree

/-! ## The nearest whole number -/

/-- A quotient at most a half away from a whole number rounds to it, if that is even or the
distance is less than a half. -/
lemma nearestEven_eq {num den n : Nat} (hden : 0 < den)
    (hlow : 2 * (n * den) ≤ 2 * num + den) (hhigh : 2 * num ≤ 2 * (n * den) + den)
    (heven : n % 2 = 1 → 2 * (n * den) < 2 * num + den ∧ 2 * num < 2 * (n * den) + den) :
    nearestEven num den = n := by
  have hdiv := Nat.div_add_mod' num den
  have hmod := Nat.mod_lt num hden
  unfold nearestEven
  generalize num / den = low at hdiv ⊢
  generalize num % den = rest at hdiv hmod ⊢
  rcases Nat.lt_trichotomy low n with hlt | rfl | hgt
  · -- The quotient is below `n`, so it rounds up.
    have hmul : (low + 1) * den ≤ n * den := Nat.mul_le_mul_right den hlt
    rw [Nat.succ_mul] at hmul
    have hone : n = low + 1 := by
      by_contra hne
      have hmul' : (low + 2) * den ≤ n * den := Nat.mul_le_mul_right den (by omega)
      rw [Nat.add_mul] at hmul'
      omega
    subst hone
    rw [Nat.succ_mul] at hlow hhigh heven
    dsimp only
    split_ifs <;> omega
  · dsimp only
    split_ifs <;> omega
  · have hmul : (n + 1) * den ≤ low * den := Nat.mul_le_mul_right den hgt
    rw [Nat.succ_mul] at hmul
    omega

/-! ## Quotients near a magnitude -/

namespace Magnitude

/-- The width of the range below a magnitude, in quarters of a step of `2 ^ -1074`. -/
def gapBelow (m : Magnitude) : Nat :=
  if m.significand = 2 ^ 52 ∧ 0 < m.exponent then 2 ^ m.exponent else 2 * 2 ^ m.exponent

/-- The quotient `num / den`, in steps of `2 ^ -1074`, lies in the range of a magnitude. -/
structure Near (m : Magnitude) (num den : Nat) : Prop where
  low : 4 * (m.significand * (den * 2 ^ m.exponent)) ≤ 4 * num + den * m.gapBelow
  high : 4 * num ≤ 4 * (m.significand * (den * 2 ^ m.exponent)) + 2 * (den * 2 ^ m.exponent)
  odd : m.significand % 2 = 1 →
    4 * (m.significand * (den * 2 ^ m.exponent)) < 4 * num + den * m.gapBelow ∧
      4 * num < 4 * (m.significand * (den * 2 ^ m.exponent)) + 2 * (den * 2 ^ m.exponent)

lemma gapBelow_le (m : Magnitude) : m.gapBelow ≤ 2 * 2 ^ m.exponent := by
  unfold gapBelow
  split_ifs <;> omega

lemma gapBelow_pos (m : Magnitude) : 0 < m.gapBelow := by
  have hpow := Nat.two_pow_pos m.exponent
  unfold gapBelow
  split_ifs <;> omega

/-- Every quotient in the range is below the next power of two. -/
lemma Near.lt {m : Magnitude} {num den : Nat} (h : m.Near num den) (hden : 0 < den) :
    num < 2 ^ 53 * (den * 2 ^ m.exponent) := by
  have hunit : 0 < den * 2 ^ m.exponent := Nat.mul_pos hden (Nat.two_pow_pos _)
  have hmul : (m.significand + 1) * (den * 2 ^ m.exponent) ≤ 2 ^ 53 * (den * 2 ^ m.exponent) :=
    Nat.mul_le_mul_right _ m.canonical.1
  rw [Nat.succ_mul] at hmul
  have hhigh := h.high
  omega

end Magnitude

/-- The exponent that is found for a quotient with 53 bits before the point, or with fewer if
there are no smaller exponents. -/
lemma log2_sub_eq {q e : Nat} (hlow : e = 0 ∨ 2 ^ (52 + e) ≤ q) (hhigh : q < 2 ^ (53 + e)) :
    q.log2 - 52 = e := by
  have hle : q.log2 ≤ 52 + e := by
    by_cases hzero : q = 0
    · rw [hzero, Nat.log2_zero]
      omega
    · have := (Nat.log2_lt hzero).2 hhigh
      omega
  rcases hlow with rfl | hlow
  · omega
  · have hne : q ≠ 0 := by
      have := Nat.two_pow_pos (52 + e)
      omega
    have := (Nat.le_log2 hne).2 hlow
    omega

namespace Number

/-- Rounding once exponent and significand are known. -/
lemma ofRatio_eq {negative : Bool} {num den s e : Nat} (hlog : (num / den).log2 - 52 = e)
    (hround : nearestEven num (den * 2 ^ e) = s) (hne : s ≠ 2 ^ 53) (h : Canonical s e) :
    ofRatio negative num den = .finite negative ⟨s, e, h⟩ := by
  have hround' : nearestEven num (den * Nat.pow 2 e) = s := hround
  have hne' : ¬s = Nat.pow 2 53 := hne
  simp only [ofRatio, hlog, hround', if_neg hne', dif_pos h]

/-- Rounding up to the next power of two. -/
lemma ofRatio_carry {negative : Bool} {num den e : Nat} (hlog : (num / den).log2 - 52 = e)
    (hround : nearestEven num (den * 2 ^ e) = 2 ^ 53) (h : Canonical (2 ^ 52) (e + 1)) :
    ofRatio negative num den = .finite negative ⟨2 ^ 52, e + 1, h⟩ := by
  have hround' : nearestEven num (den * Nat.pow 2 e) = Nat.pow 2 53 := hround
  have h' : Canonical (Nat.pow 2 52) (e + 1) := h
  simp only [ofRatio, hlog, hround', if_true, dif_pos h']
  rfl

/-- A quotient in the range of a magnitude is rounded to it. -/
lemma ofRatio_of_near {negative : Bool} {m : Magnitude} {num den : Nat} (hden : 0 < den)
    (h : m.Near num den) : ofRatio negative num den = .finite negative m := by
  have hlt := h.lt hden
  have hgap := Nat.mul_le_mul_left den m.gapBelow_le
  obtain ⟨s, e, hcanonical⟩ := m
  obtain ⟨hlow, hhigh, hodd⟩ := h
  have hunit : 0 < den * 2 ^ e := Nat.mul_pos hden (Nat.two_pow_pos _)
  have hcomm : den * (2 * 2 ^ e) = 2 * (den * 2 ^ e) := Nat.mul_left_comm _ _ _
  have hs : s < 2 ^ 53 := hcanonical.1
  dsimp only at hlt hgap hlow hhigh hodd
  rw [hcomm] at hgap
  by_cases hmain : e = 0 ∨ 2 ^ 52 * (den * 2 ^ e) ≤ num
  · refine ofRatio_eq (log2_sub_eq ?_ ?_) (nearestEven_eq hunit ?_ ?_ ?_) (by omega) hcanonical
    · rcases hmain with rfl | hmain
      · exact .inl rfl
      · refine .inr ((Nat.le_div_iff_mul_le hden).2 ?_)
        calc 2 ^ (52 + e) * den = 2 ^ 52 * (den * 2 ^ e) := by ring
          _ ≤ num := hmain
    · refine (Nat.div_lt_iff_lt_mul hden).2 ?_
      calc num < 2 ^ 53 * (den * 2 ^ e) := hlt
        _ = 2 ^ (53 + e) * den := by ring
    · omega
    · omega
    · intro h
      have := hodd h
      omega
  · -- Just below a power of two: the exponent found is one less, and rounding carries over.
    rw [not_or, Nat.not_le] at hmain
    obtain ⟨he, hbelow⟩ := hmain
    have hleast : 2 ^ 52 ≤ s := hcanonical.2.2.resolve_left he
    have hs52 : s = 2 ^ 52 := by
      by_contra hne
      have hmul : (2 ^ 52 + 1) * (den * 2 ^ e) ≤ s * (den * 2 ^ e) :=
        Nat.mul_le_mul_right _ (by omega)
      omega
    obtain ⟨e', rfl⟩ : ∃ e', e = e' + 1 := ⟨e - 1, by omega⟩
    subst hs52
    have hhalf : den * 2 ^ (e' + 1) = 2 * (den * 2 ^ e') := by ring
    have hgap' : den * Magnitude.gapBelow ⟨2 ^ 52, e' + 1, hcanonical⟩ =
        2 * (den * 2 ^ e') := by
      rw [Magnitude.gapBelow, if_pos ⟨rfl, Nat.succ_pos e'⟩]
      exact hhalf
    rw [hhalf] at hbelow hlow
    rw [hgap'] at hlow
    have hunit' : 0 < den * 2 ^ e' := Nat.mul_pos hden (Nat.two_pow_pos _)
    refine ofRatio_carry (log2_sub_eq (.inr ?_) ?_) (nearestEven_eq hunit' ?_ ?_ ?_) hcanonical
    · refine (Nat.le_div_iff_mul_le hden).2 ?_
      calc 2 ^ (52 + e') * den = 2 ^ 52 * (den * 2 ^ e') := by ring
        _ ≤ num := by omega
    · refine (Nat.div_lt_iff_lt_mul hden).2 ?_
      calc num < 2 ^ 53 * (den * 2 ^ e') := by omega
        _ = 2 ^ (53 + e') * den := by ring
    · omega
    · omega
    · intro h
      exact absurd h (by decide)

end Number

/-! ## The range in decimal units -/

namespace Magnitude

lemma unitsPerQuarter_pos : 0 < unitsPerQuarter := by decide +kernel

lemma steps_eq (m : Magnitude) : m.steps = m.significand * 2 ^ m.exponent := rfl

lemma tiny_eq (m : Magnitude) :
    m.tiny = 4 * (m.significand * 2 ^ m.exponent) * unitsPerQuarter := by
  rw [tiny, steps_eq]

lemma slackAbove_eq (m : Magnitude) :
    m.slackAbove = 2 * 2 ^ m.exponent * unitsPerQuarter := by
  rw [slackAbove, Nat.pow_eq]

lemma slackBelow_eq (m : Magnitude) : m.slackBelow = m.gapBelow * unitsPerQuarter := by
  rw [slackBelow, gapBelow, slackAbove_eq, Nat.pow_eq, Nat.pow_eq]
  split_ifs <;> rfl

/-- What `admits` says, with the borders multiplied out. -/
lemma admits_iff {m : Magnitude} {n : Nat} : m.admits n = true ↔
    (4 * (m.significand * 2 ^ m.exponent) * unitsPerQuarter ≤ n + m.gapBelow * unitsPerQuarter ∧
      n ≤ 4 * (m.significand * 2 ^ m.exponent) * unitsPerQuarter +
        2 * 2 ^ m.exponent * unitsPerQuarter) ∧
    (m.significand % 2 = 1 →
      4 * (m.significand * 2 ^ m.exponent) * unitsPerQuarter <
          n + m.gapBelow * unitsPerQuarter ∧
        n < 4 * (m.significand * 2 ^ m.exponent) * unitsPerQuarter +
          2 * 2 ^ m.exponent * unitsPerQuarter) := by
  rw [admits, slackBelow_eq, slackAbove_eq, tiny_eq]
  split_ifs with heven
  · rw [Bool.and_eq_true, decide_eq_true_iff, decide_eq_true_iff]
    constructor
    · intro h
      exact ⟨h, fun hodd => by omega⟩
    · exact fun h => h.1
  · rw [Bool.and_eq_true, decide_eq_true_iff, decide_eq_true_iff]
    constructor
    · intro h
      exact ⟨⟨h.1.le, h.2.le⟩, fun _ => h⟩
    · exact fun h => h.2 (by omega)

/-- A quotient with the value of an admitted decimal is in the range. -/
lemma near_of_admits {m : Magnitude} {n num den : Nat} (hden : 0 < den)
    (hvalue : n * den = 4 * num * unitsPerQuarter) (h : m.admits n = true) : m.Near num den := by
  rw [admits_iff] at h
  have hunit := unitsPerQuarter_pos
  generalize unitsPerQuarter = unit at *
  obtain ⟨⟨hlow, hhigh⟩, hodd⟩ := h
  have hmiddle : 4 * (m.significand * 2 ^ m.exponent) * unit * den =
      4 * (m.significand * (den * 2 ^ m.exponent)) * unit := by ring
  have hbelow : (n + m.gapBelow * unit) * den = (4 * num + den * m.gapBelow) * unit := by
    rw [Nat.add_mul, hvalue]
    ring
  have habove : (4 * (m.significand * 2 ^ m.exponent) * unit + 2 * 2 ^ m.exponent * unit) * den =
      (4 * (m.significand * (den * 2 ^ m.exponent)) + 2 * (den * 2 ^ m.exponent)) * unit := by
    ring
  refine ⟨?_, ?_, fun h => ⟨?_, ?_⟩⟩
  · refine Nat.le_of_mul_le_mul_right ?_ hunit
    rw [← hmiddle, ← hbelow]
    exact Nat.mul_le_mul_right den hlow
  · refine Nat.le_of_mul_le_mul_right ?_ hunit
    rw [← hvalue, ← habove]
    exact Nat.mul_le_mul_right den hhigh
  · refine Nat.lt_of_mul_lt_mul_right (a := unit) ?_
    rw [← hmiddle, ← hbelow]
    exact Nat.mul_lt_mul_of_pos_right (hodd h).1 hden
  · refine Nat.lt_of_mul_lt_mul_right (a := unit) ?_
    rw [← hvalue, ← habove]
    exact Nat.mul_lt_mul_of_pos_right (hodd h).2 hden

/-- Everything in the range of a magnitude above zero is at least half a step. -/
lemma le_of_admits {m : Magnitude} {n : Nat} (hpos : 0 < m.significand)
    (h : m.admits n = true) : 2 * unitsPerQuarter ≤ n := by
  have hlow := (admits_iff.1 h).1.1
  have hgap := Nat.mul_le_mul_right unitsPerQuarter m.gapBelow_le
  have hone : 1 * 2 ^ m.exponent * unitsPerQuarter ≤
      m.significand * 2 ^ m.exponent * unitsPerQuarter :=
    Nat.mul_le_mul_right _ (Nat.mul_le_mul_right _ hpos)
  have hpow : 1 * unitsPerQuarter ≤ 2 ^ m.exponent * unitsPerQuarter :=
    Nat.mul_le_mul_right _ (Nat.two_pow_pos _)
  rw [Nat.mul_assoc] at hlow hgap
  rw [Nat.one_mul] at hone hpow
  omega

end Magnitude

/-! ## Reading decimals -/

namespace Magnitude

lemma ten_pow_mul {k : Nat} (hk : k ≤ 1076) :
    10 ^ (1076 - k) * 10 ^ k = 4 * stepsPerUnit * unitsPerQuarter := by
  rw [← Nat.pow_add, Nat.sub_add_cancel hk]
  decide +kernel

lemma ten_pow_le {k : Nat} (hk : k ≤ 676) : 10 ^ k ≤ unitsPerQuarter :=
  (Nat.pow_le_pow_right (by decide) hk).trans (by decide +kernel)

end Magnitude

/-- A decimal in the range of a magnitude is read as it, unless the magnitude is zero. -/
lemma Number.ofDecimal_of_admits {m : Magnitude} {digits k : Nat} (negative : Bool)
    (hpos : 0 < m.significand) (hk : k ≤ 1076)
    (h : m.admits (digits * 10 ^ (1076 - k)) = true) :
    ofDecimal negative digits (-(k : Int)) = .finite negative m := by
  have hle := m.le_of_admits hpos h
  have hunit := Magnitude.unitsPerQuarter_pos
  have hdigits : digits ≠ 0 := by
    rintro rfl
    omega
  have hlog : ¬(-(k : Int) + 400 + digits.log2 < 0) := by
    intro hlt
    have hlt : digits * 10 ^ (1076 - k) < Magnitude.unitsPerQuarter :=
      calc digits * 10 ^ (1076 - k)
        _ < 2 ^ (digits.log2 + 1) * 10 ^ (1076 - k) :=
          Nat.mul_lt_mul_of_pos_right Nat.lt_log2_self (Nat.pow_pos (by decide))
        _ ≤ 10 ^ (digits.log2 + 1) * 10 ^ (1076 - k) :=
          Nat.mul_le_mul_right _ (Nat.pow_le_pow_left (by decide) _)
        _ = 10 ^ (digits.log2 + 1 + (1076 - k)) := (Nat.pow_add ..).symm
        _ ≤ Magnitude.unitsPerQuarter := Magnitude.ten_pow_le (by omega)
    omega
  rw [ofDecimal.eq_def, if_neg hdigits, if_neg (by omega), if_neg hlog]
  have hvalue : digits * 10 ^ (1076 - k) * 10 ^ k =
      4 * (digits * Magnitude.stepsPerUnit) * Magnitude.unitsPerQuarter := by
    rw [Nat.mul_assoc, Magnitude.ten_pow_mul hk]
    ring
  generalize digits * 10 ^ (1076 - k) = n at h hvalue
  cases k with
  | zero =>
    refine ofRatio_of_near (by decide) (Magnitude.near_of_admits (by decide) ?_ h)
    rw [Nat.pow_eq, Nat.pow_zero, Nat.mul_one digits]
    exact hvalue
  | succ e =>
    have hden : 0 < 10 ^ (e + 1) := Nat.pow_pos (by decide)
    exact ofRatio_of_near hden (Magnitude.near_of_admits hden hvalue h)

/-! ## The search -/

namespace Magnitude

lemma admits_tiny (m : Magnitude) : m.admits m.tiny = true := by
  have hbelow := Nat.mul_pos m.gapBelow_pos unitsPerQuarter_pos
  have habove := Nat.mul_pos (Nat.mul_pos Nat.two_pos (Nat.two_pow_pos m.exponent))
    unitsPerQuarter_pos
  rw [admits_iff, tiny_eq]
  exact ⟨⟨Nat.le_add_right .., Nat.le_add_right ..⟩,
    fun _ => ⟨Nat.lt_add_of_pos_right hbelow, Nat.lt_add_of_pos_right habove⟩⟩

lemma admits_of_neighbour? {tie : Tie} {m : Magnitude} {place digits : Nat}
    (h : m.neighbour? tie place = some digits) : m.admits (digits * 10 ^ place) = true := by
  rw [neighbour?.eq_def, Nat.pow_eq] at h
  dsimp only at h
  generalize m.tiny / 10 ^ place = low at h
  generalize m.tiny % 10 ^ place = rest at h
  split at h <;> grind

/-- Whichever place the search stops at, what it returns is in the range. -/
lemma searchFrom_admits (tie : Tie) (m : Magnitude) (start : Nat) :
    ∃ place : Nat, (m.searchFrom tie start).exponent = (place : Int) - 1076 ∧
      m.admits ((m.searchFrom tie start).digits * 10 ^ place) = true := by
  induction start with
  | zero => exact ⟨0, rfl, by rw [Nat.pow_zero, Nat.mul_one]; exact m.admits_tiny⟩
  | succ start ih =>
    rw [searchFrom]
    cases h : m.neighbour? tie (start + 1) with
    | some digits => exact ⟨start + 1, rfl, admits_of_neighbour? h⟩
    | none => exact ih

/-- The shortest decimal of a magnitude above zero is in its range. -/
theorem shortest_admits (tie : Tie) {m : Magnitude} (hpos : 0 < m.significand) :
    ∃ place : Nat, (m.shortest tie).exponent = (place : Int) - 1076 ∧
      m.admits ((m.shortest tie).digits * 10 ^ place) = true := by
  rw [shortest, if_neg (Nat.ne_of_gt hpos)]
  exact searchFrom_admits tie m _

end Magnitude

end FormulaTree
