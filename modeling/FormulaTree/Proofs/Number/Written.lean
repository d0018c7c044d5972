import FormulaTree.Proofs.Number.Nearest
import FormulaTree.Token.Numeral

/-!
# Numbers that are written and read

A formula writes a finite number as a **plain** numeral, digits and perhaps a point and more
digits, with a minus sign before it if the number is below zero.  The numeral is read back in
full, whatever comes after it (`Numeral.read_plain`), and it stands for the size of the number
(`Number.formulaText_finite`).  What is used of the digits is that they are those of a decimal in
the range of the magnitude.
-/

namespace FormulaTree

/-! ## Runs of characters -/

namespace Text

variable {f : Char → Bool} {run rest : List Char}

/-- A run of characters of a class ends where another character stands. -/
lemma takeWhile_run (hrun : ∀ c ∈ run, f c = true) (hrest : ∀ c ∈ rest.head?, f c = false) :
    (run ++ rest).takeWhile f = run := by
  rw [List.takeWhile_append_of_pos hrun]
  cases rest with
  | nil => simp
  | cons c rest => simp [hrest c rfl]

lemma dropWhile_run (hrun : ∀ c ∈ run, f c = true) (hrest : ∀ c ∈ rest.head?, f c = false) :
    (run ++ rest).dropWhile f = rest := by
  rw [List.dropWhile_append_of_pos hrun]
  cases rest with
  | nil => rfl
  | cons c rest => simp [hrest c rfl]

end Text

/-! ## Runs of digits -/

lemma valueOf_append (xs ys : List Char) :
    valueOf (xs ++ ys) = Nat.ofDigitChars 10 ys (valueOf xs) :=
  Nat.ofDigitChars_append 0

lemma valueOf_digitsOf (n : Nat) : valueOf (digitsOf n) = n := Nat.ofDigitChars_ten_toDigits

/-- Zeros at the end multiply by ten. -/
lemma valueOf_append_zeros (xs : List Char) (k : Nat) :
    valueOf (xs ++ List.replicate k '0') = valueOf xs * 10 ^ k := by
  rw [valueOf_append, Nat.ofDigitChars_replicate_zero, Nat.mul_comm]

/-- Zeros in front change nothing. -/
lemma valueOf_zeros_append (k : Nat) (xs : List Char) :
    valueOf (List.replicate k '0' ++ xs) = valueOf xs := by
  have hzeros : valueOf (List.replicate k '0') = 0 := by
    rw [← List.nil_append (List.replicate k '0'), valueOf_append_zeros]
    exact Nat.zero_mul _
  rw [valueOf_append, hzeros]
  rfl

lemma isDigit_of_mem_digitsOf {c : Char} {n : Nat} (h : c ∈ digitsOf n) : c.isDigit = true :=
  Nat.isDigit_of_mem_toDigits (by decide) (by decide) h

lemma isDigit_of_mem_zeros {c : Char} {k : Nat} (h : c ∈ List.replicate k '0') :
    c.isDigit = true := by
  rw [List.eq_of_mem_replicate h]
  rfl

/-- The digits of a number above zero do not begin with a zero. -/
lemma head_digitsOf {n : Nat} (h : 0 < n) : (digitsOf n).head? ≠ some '0' := by
  induction n using Nat.strongRecOn with
  | ind n ih =>
    rcases Nat.lt_or_ge n 10 with hn | hn
    · have hall : ∀ d : Fin 10, 0 < d.val → [Nat.digitChar d].head? ≠ some '0' := by decide
      rw [digitsOf, Nat.toDigits_of_lt_base hn]
      exact hall ⟨n, hn⟩ h
    · have hhead := ih (n / 10) (by omega) (by omega)
      rw [digitsOf] at hhead
      rw [digitsOf, Nat.toDigits_of_base_le (by decide) hn]
      cases hcs : Nat.toDigits 10 (n / 10) with
      | nil => exact absurd hcs Nat.toDigits_ne_nil
      | cons c cs =>
        rw [hcs] at hhead
        exact hhead

/-! ## Plain numerals -/

namespace Numeral

/-- The digits after the point. -/
def fraction (n : Numeral) : List Char := n.fraction?.getD []

/-- A numeral that is digits, perhaps with a point and more digits. -/
structure IsPlain (n : Numeral) : Prop where
  whole_ne_nil : n.whole ≠ []
  whole_digits : ∀ c ∈ n.whole, c.isDigit = true
  fraction_digits : ∀ c ∈ n.fraction, c.isDigit = true
  exponent : n.exponent? = none

/-- The value of a plain numeral is that of its digits, moved behind the point. -/
lemma IsPlain.value?_eq {n : Numeral} (h : n.IsPlain) :
    n.value? = some (Number.ofDecimal false (valueOf (n.whole ++ n.fraction))
      (-(n.fraction.length : Int))) := by
  rw [value?, if_neg (fun hnil => h.whole_ne_nil hnil.1), h.exponent]
  show some (Number.ofDecimal false _ (0 - _)) = _
  rw [Int.zero_sub]
  rfl

/-- A plain numeral begins with a digit. -/
lemma IsPlain.text_eq_cons {n : Numeral} (h : n.IsPlain) :
    ∃ c cs, n.text = c :: cs ∧ c.isDigit = true := by
  obtain ⟨c, cs, hwhole⟩ := List.exists_cons_of_ne_nil h.whole_ne_nil
  have hdigit := h.whole_digits c (hwhole ▸ List.mem_cons_self ..)
  rw [text, hwhole]
  exact ⟨c, _, rfl, hdigit⟩

/-- A numeral with no needless zero in front and with digits after the point, if there is one. -/
structure IsStrict (n : Numeral) : Prop where
  leading : n.whole = ['0'] ∨ n.whole.head? ≠ some '0'
  fraction_ne_nil : n.fraction? ≠ some []

/-- An exponent as it is written: a letter, perhaps a sign, and digits. -/
structure Exponent.IsWritten (e : Exponent) : Prop where
  mark : e.mark = 'e' ∨ e.mark = 'E'
  sign : ∀ c ∈ e.sign?, c = '+' ∨ c = '-'
  digits_ne_nil : e.digits ≠ []
  digits : ∀ c ∈ e.digits, c.isDigit = true

/-- A numeral as it is written, with digits where digits stand. -/
structure IsWritten (n : Numeral) : Prop where
  whole : ∀ c ∈ n.whole, c.isDigit = true
  fraction : ∀ c ∈ n.fraction, c.isDigit = true
  exponent : ∀ e ∈ n.exponent?, e.IsWritten

lemma IsPlain.isWritten {n : Numeral} (h : n.IsPlain) : n.IsWritten where
  whole := h.whole_digits
  fraction := h.fraction_digits
  exponent := by simp [h.exponent]

/-- What may follow a numeral and not be taken for a part of it. -/
def Stops (rest : List Char) : Prop :=
  ∀ c ∈ rest.head?, c.isDigit = false ∧ c ≠ '.' ∧ c ≠ 'e' ∧ c ≠ 'E'

lemma stops_nil : Stops [] := fun _ h => absurd h (Option.not_mem_none _)

lemma readSign_append {sign? : Option Char} {digits : List Char} (rest : List Char)
    (hsign : ∀ c ∈ sign?, c = '+' ∨ c = '-') (hne : digits ≠ [])
    (hdigits : ∀ c ∈ digits, c.isDigit = true) :
    readSign (sign?.toList ++ (digits ++ rest)) = (sign?, digits ++ rest) := by
  cases sign? with
  | some c => rcases hsign c rfl with rfl | rfl <;> rfl
  | none =>
    obtain ⟨d, digits, rfl⟩ := List.exists_cons_of_ne_nil hne
    have hd := hdigits d (List.mem_cons_self ..)
    simp only [Option.toList_none, List.nil_append, List.cons_append]
    unfold readSign
    split <;> simp_all

/-- An exponent is read in full. -/
lemma readExponent_append {exponent? : Option Exponent} {rest : List Char}
    (h : ∀ e ∈ exponent?, e.IsWritten) (hrest : Stops rest) :
    readExponent (exponentText exponent? ++ rest) = (exponent?, rest) := by
  cases exponent? with
  | none =>
    cases rest with
    | nil => rfl
    | cons c rest =>
      obtain ⟨-, -, he, hE⟩ := hrest c rfl
      simp [exponentText, readExponent, he, hE]
  | some e =>
    obtain ⟨hmark, hsign, hne, hdigits⟩ := h e rfl
    have hdigit : ∀ c ∈ rest.head?, c.isDigit = false := fun c hc => (hrest c hc).1
    simp only [exponentText, List.cons_append, List.append_assoc, readExponent]
    rw [if_pos hmark, readSign_append rest hsign hne hdigits, Text.takeWhile_run hdigits hdigit,
      Text.dropWhile_run hdigits hdigit]

/-- The digits after a point are read in full. -/
lemma readFraction_append {fraction? : Option (List Char)} {rest : List Char}
    (h : ∀ c ∈ fraction?.getD [], c.isDigit = true)
    (hrest : ∀ c ∈ rest.head?, c.isDigit = false ∧ c ≠ '.') :
    readFraction (fractionText fraction? ++ rest) = (fraction?, rest) := by
  cases fraction? with
  | none =>
    show readFraction rest = _
    fun_cases readFraction rest with
    | case1 cs => exact absurd rfl (hrest '.' rfl).2
    | case2 => rfl
  | some digits =>
    have hdigits : ∀ c ∈ digits, c.isDigit = true := h
    have hdigit : ∀ c ∈ rest.head?, c.isDigit = false := fun c hc => (hrest c hc).1
    simp only [fractionText, List.cons_append, readFraction]
    rw [Text.takeWhile_run hdigits hdigit, Text.dropWhile_run hdigits hdigit]

/-- After the digits of the fraction comes neither a digit nor a point. -/
lemma head_exponentText {n : Numeral} {rest : List Char} (h : n.IsWritten) (hrest : Stops rest) :
    ∀ c ∈ (exponentText n.exponent? ++ rest).head?, c.isDigit = false ∧ c ≠ '.' := by
  cases he : n.exponent? with
  | none => exact fun c hc => ⟨(hrest c hc).1, (hrest c hc).2.1⟩
  | some e =>
    rintro _ ⟨⟩
    rcases (h.exponent e he).mark with hmark | hmark <;> rw [hmark] <;> decide

/-- After the digits before the point comes no digit. -/
lemma head_fractionText {n : Numeral} {rest : List Char} (h : n.IsWritten) (hrest : Stops rest) :
    ∀ c ∈ (fractionText n.fraction? ++ (exponentText n.exponent? ++ rest)).head?,
      c.isDigit = false := by
  cases n.fraction? with
  | none => exact fun c hc => (head_exponentText h hrest c hc).1
  | some digits =>
    rintro _ ⟨⟩
    rfl

/-- A numeral is read in full. -/
lemma read_append {n : Numeral} {rest : List Char} (h : n.IsWritten) (hrest : Stops rest) :
    read (n.text ++ rest) = (n, rest) := by
  have hfraction := head_fractionText h hrest
  simp only [read, text, List.append_assoc]
  rw [Text.takeWhile_run h.whole hfraction, Text.dropWhile_run h.whole hfraction,
    readFraction_append h.fraction (head_exponentText h hrest),
    readExponent_append h.exponent hrest]

/-- A plain numeral is read in full. -/
lemma read_plain {n : Numeral} {rest : List Char} (h : n.IsPlain) (hrest : Stops rest) :
    read (n.text ++ rest) = (n, rest) :=
  read_append h.isWritten hrest

end Numeral

/-! ## Decimals in positional notation -/

/-- The positional notation of a decimal is a plain numeral of the same value.  Values are
compared as whole multiples of `10 ^ -base`, for any `base` that makes the decimal one. -/
lemma Decimal.positional_plain (d : Decimal) : ∃ n : Numeral, n.IsPlain ∧ n.text = d.positional ∧
    (0 < d.digits → n.IsStrict) ∧
    ∀ base place : Nat, d.exponent = (place : Int) - base → n.fraction.length ≤ base ∧
      valueOf (n.whole ++ n.fraction) * 10 ^ (base - n.fraction.length) =
        d.digits * 10 ^ place := by
  have hdigits {c : Char} : c ∈ digitsOf d.digits → c.isDigit = true := isDigit_of_mem_digitsOf
  have hne : digitsOf d.digits ≠ [] := Nat.toDigits_ne_nil
  rw [positional.eq_def]
  cases hexp : d.exponent with
  | ofNat e =>
    refine ⟨⟨digitsOf d.digits ++ List.replicate e '0', none, none⟩, ⟨?_, ?_, ?_, rfl⟩, ?_, ?_, ?_⟩
    · exact List.append_ne_nil_of_left_ne_nil hne _
    · intro c hc
      rcases List.mem_append.1 hc with hc | hc
      · exact hdigits hc
      · exact isDigit_of_mem_zeros hc
    · exact fun c hc => absurd hc List.not_mem_nil
    · simp [Numeral.text, Numeral.fractionText, Numeral.exponentText]
    · intro hpos
      exact ⟨.inr (by simpa [hne] using head_digitsOf hpos), by simp⟩
    · intro base place hplace
      have hsum : place = e + base := by
        have : (e : Int) = place - base := hplace
        omega
      simp only [Numeral.fraction, Option.getD_none, List.append_nil, List.length_nil, Nat.sub_zero]
      rw [valueOf_append_zeros, valueOf_digitsOf, hsum, Nat.pow_add, Nat.mul_assoc]
      exact ⟨Nat.zero_le _, rfl⟩
  | negSucc e =>
    have hfraction {n : Numeral} (hlength : n.fraction.length = e + 1)
        (hvalue : valueOf (n.whole ++ n.fraction) = d.digits) (base place : Nat)
        (hplace : Int.negSucc e = (place : Int) - base) : n.fraction.length ≤ base ∧
          valueOf (n.whole ++ n.fraction) * 10 ^ (base - n.fraction.length) =
            d.digits * 10 ^ place := by
      rw [hlength, hvalue]
      have hsum : base = place + (e + 1) := by omega
      exact ⟨by omega, by rw [hsum, Nat.add_sub_cancel]⟩
    dsimp only
    split_ifs with hplaces
    · refine ⟨⟨(digitsOf d.digits).take ((digitsOf d.digits).length - (e + 1)),
        some ((digitsOf d.digits).drop ((digitsOf d.digits).length - (e + 1))), none⟩,
        ⟨?_, ?_, ?_, rfl⟩, ?_, ?_, hfraction ?_ ?_⟩
      · exact List.ne_nil_of_length_pos (by rw [List.length_take]; omega)
      · exact fun c hc => hdigits (List.mem_of_mem_take hc)
      · exact fun c hc => hdigits (List.mem_of_mem_drop hc)
      · simp [Numeral.text, Numeral.fractionText, Numeral.exponentText]
      · intro hpos
        refine ⟨.inr ?_, ?_⟩
        · rw [List.head?_take]
          split_ifs with hzero
          · omega
          · exact head_digitsOf hpos
        · simp only [ne_eq, Option.some.injEq, List.drop_eq_nil_iff]
          omega
      · simp only [Numeral.fraction, Option.getD_some, List.length_drop]
        omega
      · simp only [Numeral.fraction, Option.getD_some, List.take_append_drop, valueOf_digitsOf]
    · refine ⟨⟨['0'], some (List.replicate (e + 1 - (digitsOf d.digits).length) '0' ++
        digitsOf d.digits), none⟩, ⟨by simp, by simp, ?_, rfl⟩, ?_, ?_, hfraction ?_ ?_⟩
      · intro c hc
        rcases List.mem_append.1 hc with hc | hc
        · exact isDigit_of_mem_zeros hc
        · exact hdigits hc
      · simp [Numeral.text, Numeral.fractionText, Numeral.exponentText]
      · exact fun _ => ⟨.inl rfl, by simp [hne]⟩
      · simp only [Numeral.fraction, Option.getD_some, List.length_append, List.length_replicate]
        omega
      · simp only [Numeral.fraction, Option.getD_some, ← List.append_assoc]
        rw [← List.replicate_one, List.replicate_append_replicate, valueOf_zeros_append,
          valueOf_digitsOf]

/-! ## Numbers in a formula -/

namespace Magnitude

lemma eq_zero_of_significand {m : Magnitude} (h : m.significand = 0) : m = zero := by
  obtain ⟨significand, exponent, hcanonical⟩ := m
  obtain rfl : significand = 0 := h
  obtain rfl : exponent = 0 := by
    rcases hcanonical.2.2 with hexp | hpow
    · exact hexp
    · exact absurd hpow (by decide)
  rfl

lemma toNat?_eq_some {m : Magnitude} {n : Nat} (h : m.toNat? = some n) :
    m.steps = n * stepsPerUnit := by
  rw [toNat?] at h
  split_ifs at h with hmod
  rw [← Option.some.inj h]
  exact (Nat.div_mul_cancel (Nat.dvd_of_mod_eq_zero hmod)).symm

lemma eq_zero_iff_of_toNat? {m : Magnitude} {n : Nat} (h : m.toNat? = some n) :
    n = 0 ↔ m.significand = 0 := by
  have hunit : stepsPerUnit ≠ 0 := by decide +kernel
  have hpow : 2 ^ m.exponent ≠ 0 := (Nat.two_pow_pos _).ne'
  calc n = 0 ↔ n * stepsPerUnit = 0 := by rw [Nat.mul_eq_zero, or_iff_left hunit]
    _ ↔ m.significand * 2 ^ m.exponent = 0 := by rw [← toNat?_eq_some h, steps_eq]
    _ ↔ m.significand = 0 := by rw [Nat.mul_eq_zero, or_iff_left hpow]

/-- A whole number in units of `10 ^ -1076`. -/
lemma tiny_of_toNat? {m : Magnitude} {n : Nat} (h : m.toNat? = some n) :
    m.tiny = n * 10 ^ (1076 - 0) :=
  calc m.tiny = n * (4 * stepsPerUnit * unitsPerQuarter) := by
        rw [tiny, toNat?_eq_some h]
        ring
    _ = n * 10 ^ (1076 - 0) := congrArg (n * ·) (by decide +kernel)

end Magnitude

namespace Number

/-- The digits of a whole number are read as it. -/
lemma ofDecimal_toNat? {m : Magnitude} {n : Nat} (negative : Bool) (h : m.toNat? = some n) :
    ofDecimal negative n 0 = .finite negative m := by
  rcases Nat.eq_zero_or_pos m.significand with hzero | hpos
  · rw [(Magnitude.eq_zero_iff_of_toNat? h).2 hzero, Magnitude.eq_zero_of_significand hzero]
    rfl
  · refine ofDecimal_of_admits negative hpos (Nat.zero_le _) ?_
    rw [← Magnitude.tiny_of_toNat? h]
    exact m.admits_tiny

/-- The shortest decimal of a magnitude above zero is a plain numeral that stands for it. -/
lemma shortest_plain (tie : Tie) {m : Magnitude} (hpos : 0 < m.significand) :
    ∃ n : Numeral, n.IsPlain ∧ n.value? = some (.finite false m) ∧
      (m.shortest tie).positional = n.text := by
  obtain ⟨place, hexp, hadmits⟩ := Magnitude.shortest_admits tie hpos
  obtain ⟨n, hplain, htext, -, hvalue⟩ := (m.shortest tie).positional_plain
  obtain ⟨hlength, hvalue⟩ := hvalue 1076 place hexp
  refine ⟨n, hplain, ?_, htext.symm⟩
  rw [hplain.value?_eq]
  rw [← hvalue] at hadmits
  rw [ofDecimal_of_admits false hpos hlength hadmits]

/-- Whether a formula writes a minus sign before a finite number: zero gets none. -/
def isBelowZero (negative : Bool) (m : Magnitude) : Bool := negative && m.significand != 0

lemma positional_finite (negative : Bool) {m : Magnitude} (hpos : 0 < m.significand) :
    ∃ n : Numeral, n.IsPlain ∧ n.value? = some (.finite false m) ∧
      (finite negative m).positional = signText (isBelowZero negative m) n.text := by
  obtain ⟨n, hplain, hvalue, htext⟩ := shortest_plain .up hpos
  have hsign : isBelowZero negative m = negative := by
    simp [isBelowZero, Nat.ne_of_gt hpos]
  exact ⟨n, hplain, hvalue, by rw [hsign, positional, htext]⟩

/-- The sign of a whole number is that of the number it is. -/
lemma intText_toNat? {m : Magnitude} {n : Nat} (negative : Bool) (h : m.toNat? = some n) :
    intText (if negative then -(n : Int) else n) =
      signText (isBelowZero negative m) (digitsOf n) := by
  have habs : (if negative then -(n : Int) else n).natAbs = n := by
    cases negative <;> simp
  have hsign : decide ((if negative then -(n : Int) else n) < 0) = isBelowZero negative m := by
    rw [isBelowZero, Bool.eq_iff_iff, decide_eq_true_iff, Bool.and_eq_true, bne_iff_ne, Ne,
      ← Magnitude.eq_zero_iff_of_toNat? h]
    cases negative
    · simp
    · simp
      omega
  rw [intText, habs, hsign]

/-- A formula writes a finite number as a plain numeral that stands for its size, after a minus
sign if the number is below zero. -/
lemma formulaText_finite (negative : Bool) (m : Magnitude) : ∃ n : Numeral, n.IsPlain ∧
    n.value? = some (.finite false m) ∧
      (finite negative m).formulaText = signText (isBelowZero negative m) n.text := by
  rw [formulaText, wholeBelow?]
  cases hn : m.toNat? with
  | none =>
    refine positional_finite negative (Nat.pos_of_ne_zero fun hzero => ?_)
    rw [Magnitude.eq_zero_of_significand hzero] at hn
    exact absurd hn (by decide +kernel)
  | some n =>
    by_cases hlimit : n < formulaWholeLimit
    · dsimp only
      rw [if_pos hlimit]
      refine ⟨⟨digitsOf n, none, none⟩, ?_, ?_, ?_⟩
      · exact ⟨Nat.toDigits_ne_nil, fun c => isDigit_of_mem_digitsOf,
          fun c hc => absurd hc List.not_mem_nil, rfl⟩
      · rw [Numeral.value?, if_neg (fun hnil => Nat.toDigits_ne_nil hnil.1)]
        simp [valueOf_digitsOf, ofDecimal_toNat? false hn, Numeral.exponentValue?]
      · refine (intText_toNat? negative hn).trans ?_
        simp [Numeral.text, Numeral.fractionText, Numeral.exponentText]
    · dsimp only
      rw [if_neg hlimit]
      refine positional_finite negative (Nat.pos_of_ne_zero fun hzero => ?_)
      rw [(Magnitude.eq_zero_iff_of_toNat? hn).2 hzero] at hlimit
      exact hlimit (by decide +kernel)

end Number

end FormulaTree
