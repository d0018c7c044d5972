import FormulaTree.Json.Read
import FormulaTree.Proofs.Tree.Equality

/-!
# Numbers in JSON text

JSON text writes a finite number in one of three ways: a whole number as its digits, a number of
middling size with a point, and any other with an exponent.  All three are **strict** numerals, as
the notation demands, so that their parts are found whatever comes after them.

Which number the parts stand for is up to the reader's `Numerals`.  Two things can be asked of them:

* `Numerals.RefusesOverflow`: no numeral is read as a number that is not finite.
* `Numerals.RestoresWritten`: a finite number is read back from its text, up to the sign of zero,
  which is not written.

Reading the nearest number meets both (`Numerals.nearest_refusesOverflow`,
`Numerals.nearest_restoresWritten`).  The second does not go without saying: a reader that rounds on
the way, say by multiplying the digits by a rounded power of ten, may end at a neighbour of the
number that was written.

A formula never writes an exponent; `Number.ofDecimal_of_place` says that a decimal with one is
nearest to the number, whether the exponent is above zero or below it.
-/

namespace FormulaTree

/-! ## Decimals with any exponent -/

/-- Nothing in the range of a magnitude is as large as `10 ^ 401`. -/
lemma Magnitude.lt_of_admits {m : Magnitude} {n : Nat} (h : m.admits n = true) :
    n < 10 ^ (1076 + 401) := by
  have hsignificand : m.significand ≤ 2 ^ 53 := m.canonical.1.le
  have hexponent : m.exponent ≤ 2045 := m.canonical.2.1
  calc n
    _ ≤ 4 * (m.significand * 2 ^ m.exponent) * unitsPerQuarter +
        2 * 2 ^ m.exponent * unitsPerQuarter := (admits_iff.1 h).1.2
    _ ≤ 4 * (2 ^ 53 * 2 ^ 2045) * unitsPerQuarter + 2 * 2 ^ 2045 * unitsPerQuarter := by
      gcongr <;> decide
    _ < 10 ^ (1076 + 401) := by decide +kernel

lemma Magnitude.digits_pos_of_admits {m : Magnitude} {digits place : Nat}
    (hpos : 0 < m.significand) (h : m.admits (digits * 10 ^ place) = true) : 0 < digits := by
  have hle := m.le_of_admits hpos h
  have hunit := unitsPerQuarter_pos
  refine Nat.pos_of_ne_zero ?_
  rintro rfl
  omega

lemma Magnitude.ten_pow_of_le {place : Nat} (h : 1076 ≤ place) :
    10 ^ place = 4 * stepsPerUnit * unitsPerQuarter * 10 ^ (place - 1076) := by
  -- With a number for `k` Lean would try to compute the power.
  obtain ⟨k, hk⟩ : ∃ k, k ≤ 1076 := ⟨0, Nat.zero_le _⟩
  have hsum : place = 1076 - k + k + (place - 1076) := by omega
  calc 10 ^ place
    _ = 10 ^ (1076 - k + k + (place - 1076)) := by rw [← hsum]
    _ = 10 ^ (1076 - k) * 10 ^ k * 10 ^ (place - 1076) := by rw [Nat.pow_add, Nat.pow_add]
    _ = 4 * stepsPerUnit * unitsPerQuarter * 10 ^ (place - 1076) := by rw [ten_pow_mul hk]

/-- A decimal in the range of a magnitude is read as it, whatever its exponent. -/
theorem Number.ofDecimal_of_place {m : Magnitude} {digits place : Nat} (negative : Bool)
    (hpos : 0 < m.significand) (h : m.admits (digits * 10 ^ place) = true) :
    ofDecimal negative digits ((place : Int) - 1076) = .finite negative m := by
  rcases Nat.lt_or_ge 1076 place with hplace | hplace
  · have hexponent : (place : Int) - 1076 = (place - 1076 : Nat) := by omega
    have hdigits := m.digits_pos_of_admits hpos h
    -- The range ends long before the exponents that are answered without computing the power.
    have hlimit : place < 1076 + 401 := by
      by_contra hlarge
      have hpow : 10 ^ (1076 + 401) ≤ digits * 10 ^ place :=
        calc 10 ^ (1076 + 401) ≤ 10 ^ place := by gcongr <;> omega
          _ ≤ digits * 10 ^ place := Nat.le_mul_of_pos_left _ hdigits
      exact absurd (m.lt_of_admits h) (Nat.not_lt.2 hpow)
    rw [hexponent, ofDecimal.eq_def, if_neg hdigits.ne', if_neg (by omega), if_neg (by omega)]
    refine ofRatio_of_near (by decide) (Magnitude.near_of_admits (by decide) ?_ h)
    rw [Magnitude.ten_pow_of_le hplace.le, Nat.pow_eq]
    ring
  · have hexponent : (place : Int) - 1076 = -((1076 - place : Nat) : Int) := by omega
    rw [hexponent]
    exact ofDecimal_of_admits negative hpos (Nat.sub_le _ _) (by rwa [Nat.sub_sub_self hplace])

/-! ## Strict numerals are read -/

/-- A numeral as JSON text has it. -/
structure Numeral.IsJson (n : Numeral) : Prop where
  written : n.IsWritten
  strict : n.IsStrict
  whole_ne_nil : n.whole ≠ []

/-- That a numeral of JSON text is nearest to a magnitude. -/
structure Numeral.Denotes (n : Numeral) (m : Magnitude) : Prop extends n.IsJson where
  value : ∃ e, exponentValue? n.exponent? = some e ∧ ∀ negative,
    Number.ofDecimal negative (valueOf (n.whole ++ n.fraction)) (e - n.fraction.length) =
      .finite negative m

namespace Json

open Numeral (fractionText exponentText exponentValue? Exponent Stops)

lemma readDigits_append {digits rest : List Char} (hne : digits ≠ [])
    (hdigits : ∀ c ∈ digits, c.isDigit = true) (hrest : ∀ c ∈ rest.head?, c.isDigit = false) :
    readDigits (digits ++ rest) = .ok (digits, rest) := by
  obtain ⟨c, cs, rfl⟩ := List.exists_cons_of_ne_nil hne
  have hc : c.isDigit = true := hdigits c (List.mem_cons_self ..)
  have htake := Text.takeWhile_run hdigits hrest
  have hdrop := Text.dropWhile_run hdigits hrest
  rw [List.cons_append] at htake hdrop ⊢
  rw [readDigits, if_pos hc, htake, hdrop]

lemma readWhole_append {whole rest : List Char} (hne : whole ≠ [])
    (hstrict : whole = ['0'] ∨ whole.head? ≠ some '0')
    (hdigits : ∀ c ∈ whole, c.isDigit = true) (hrest : ∀ c ∈ rest.head?, c.isDigit = false) :
    readWhole (whole ++ rest) = .ok (whole, rest) := by
  rcases hstrict with rfl | hhead
  · have hany : ¬(rest.head?.any Char.isDigit = true) := by
      rw [Option.any_eq_true]
      rintro ⟨c, hc, hdigit⟩
      rw [hrest c hc] at hdigit
      cases hdigit
    rw [List.singleton_append, readWhole, if_pos rfl, if_neg hany]
  · obtain ⟨c, cs, rfl⟩ := List.exists_cons_of_ne_nil hne
    have hzero : c ≠ '0' := fun h => hhead (congrArg some h)
    have hc : c.isDigit = true := hdigits c (List.mem_cons_self ..)
    have hcs : ∀ d ∈ cs, d.isDigit = true := fun d hd => hdigits d (List.mem_cons_of_mem _ hd)
    rw [List.cons_append, readWhole, if_neg hzero, if_pos hc, Text.takeWhile_run hcs hrest,
      Text.dropWhile_run hcs hrest]

lemma readFraction_append {fraction? : Option (List Char)} {rest : List Char}
    (hne : fraction? ≠ some []) (hdigits : ∀ c ∈ fraction?.getD [], c.isDigit = true)
    (hrest : ∀ c ∈ rest.head?, c.isDigit = false ∧ c ≠ '.') :
    readFraction (fractionText fraction? ++ rest) = .ok (fraction?.getD [], rest) := by
  cases fraction? with
  | none =>
    show readFraction rest = _
    fun_cases readFraction rest with
    | case1 cs => exact absurd rfl (hrest '.' rfl).2
    | case2 => rfl
  | some digits =>
    exact readDigits_append (fun h => hne (congrArg some h)) hdigits fun c hc => (hrest c hc).1

lemma readExponent_append {exponent? : Option Exponent} {e : Int} {rest : List Char}
    (hwritten : ∀ x ∈ exponent?, x.IsWritten) (he : exponentValue? exponent? = some e)
    (hrest : Stops rest) : readExponent (exponentText exponent? ++ rest) = .ok (e, rest) := by
  cases exponent? with
  | none =>
    cases he
    cases rest with
    | nil => rfl
    | cons c rest =>
      obtain ⟨-, -, hlower, hupper⟩ := hrest c rfl
      simp [exponentText, readExponent, hlower, hupper]
  | some x =>
    obtain ⟨mark, sign?, digits⟩ := x
    obtain ⟨hmark, hsign, hne, hdigits⟩ := hwritten _ rfl
    have hread := readDigits_append hne hdigits fun c hc => (hrest c hc).1
    simp only [exponentValue?, if_neg hne] at he
    simp only [exponentText, List.cons_append, List.append_assoc, readExponent, if_pos hmark]
    cases sign? with
    | some c =>
      rcases hsign c rfl with rfl | rfl
      · cases he
        exact congrArg (Except.map _) hread
      · cases he
        exact congrArg (Except.map _) hread
    | none =>
      cases he
      obtain ⟨d, digits, rfl⟩ := List.exists_cons_of_ne_nil hne
      have hd : d.isDigit = true := hdigits d (List.mem_cons_self ..)
      rw [List.cons_append] at hread
      simp only [Option.toList_none, List.nil_append, List.cons_append]
      split
      · simp_all
      · simp_all
      · rw [hread]
        rfl

variable (numerals : Numerals) {n : Numeral} {e : Int} {rest : List Char}

/-- The parts of a numeral are found, whatever its sign. -/
lemma readUnsigned_text (h : n.IsJson) (he : exponentValue? n.exponent? = some e)
    (negative : Bool) (hrest : Stops rest) : readUnsigned numerals negative (n.text ++ rest) =
      (numerals.read negative n.whole n.fraction e).map (·, rest) := by
  have hexponent := Numeral.head_exponentText h.written hrest
  rw [readUnsigned, Numeral.text, List.append_assoc, List.append_assoc,
    readWhole_append h.whole_ne_nil h.strict.leading h.written.whole
      (Numeral.head_fractionText h.written hrest)]
  dsimp only
  rw [readFraction_append h.strict.fraction_ne_nil h.written.fraction hexponent]
  dsimp only
  rw [readExponent_append h.written.exponent he hrest]
  rfl

/-- So are those of one with a minus sign before it. -/
lemma readNumber_signText (h : n.IsJson) (he : exponentValue? n.exponent? = some e)
    (negative : Bool) (hrest : Stops rest) :
    readNumber numerals (Number.signText negative n.text ++ rest) =
      (numerals.read negative n.whole n.fraction e).map (·, rest) := by
  cases negative with
  | true => exact readUnsigned_text numerals h he true hrest
  | false =>
    obtain ⟨c, cs, hwhole⟩ := List.exists_cons_of_ne_nil h.whole_ne_nil
    have hc : c.isDigit = true := h.written.whole c (hwhole ▸ List.mem_cons_self ..)
    have hread := readUnsigned_text numerals h he false hrest
    simp only [Number.signText, Numeral.text, hwhole, List.cons_append] at hread ⊢
    unfold readNumber
    split
    · simp_all
    · exact hread

end Json

/-! ## Numbers are written as strict numerals -/

namespace Numeral

variable {m : Magnitude}

/-- The digits of a whole number. -/
lemma denotes_digitsOf {k : Nat} (h : m.toNat? = some k) :
    Denotes ⟨digitsOf k, none, none⟩ m where
  written := ⟨fun _ => isDigit_of_mem_digitsOf, by simp [fraction], by simp⟩
  strict := by
    refine ⟨?_, by simp⟩
    rcases Nat.eq_zero_or_pos k with rfl | hk
    · exact .inl rfl
    · exact .inr (head_digitsOf hk)
  whole_ne_nil := Nat.toDigits_ne_nil
  value := by
    refine ⟨0, rfl, fun negative => ?_⟩
    show Number.ofDecimal negative (valueOf (digitsOf k ++ [])) 0 = _
    rw [List.append_nil, valueOf_digitsOf, Number.ofDecimal_toNat? negative h]

/-- The exponent of a scientific notation. -/
def powerOf : Int → Exponent
  | .ofNat e => ⟨'e', some '+', digitsOf e⟩
  | .negSucc e => ⟨'e', some '-', digitsOf (e + 1)⟩

lemma isWritten_powerOf (p : Int) : (powerOf p).IsWritten := by
  cases p <;> exact ⟨.inl rfl, by simp [powerOf], Nat.toDigits_ne_nil,
    fun _ => isDigit_of_mem_digitsOf⟩

lemma exponentValue?_powerOf (p : Int) : exponentValue? (some (powerOf p)) = some p := by
  have hne (e : Nat) : digitsOf e ≠ [] := Nat.toDigits_ne_nil
  cases p with
  | ofNat e => simp [exponentValue?, powerOf, hne, valueOf_digitsOf]
  | negSucc e => simp [exponentValue?, powerOf, hne, valueOf_digitsOf, Int.negSucc_eq]

section Notations

variable {d : Decimal} {place : Nat} (hpos : 0 < m.significand) (hdigits : 0 < d.digits)
  (hexponent : d.exponent = (place : Int) - 1076) (h : m.admits (d.digits * 10 ^ place) = true)

include hpos hdigits hexponent h

/-- A decimal with a point in it. -/
lemma exists_denotes_positional :
    ∃ n : Numeral, n.Denotes m ∧ n.text = d.positional := by
  obtain ⟨n, hplain, htext, hstrict, hvalue⟩ := d.positional_plain
  obtain ⟨hlength, hvalue⟩ := hvalue 1076 place hexponent
  refine ⟨n, ⟨⟨hplain.isWritten, hstrict hdigits, hplain.whole_ne_nil⟩, 0, ?_, ?_⟩, htext⟩
  · rw [hplain.exponent]
    rfl
  · intro negative
    rw [Int.zero_sub]
    exact Number.ofDecimal_of_admits negative hpos hlength (by rwa [hvalue])

/-- A whole decimal with a zero after the point. -/
lemma exists_denotes_whole (hwhole : 0 ≤ d.exponent) :
    ∃ n : Numeral, n.Denotes m ∧ n.text = d.positional ++ ['.', '0'] := by
  obtain ⟨e, rfl⟩ : ∃ e, place = e + 1076 := ⟨place - 1076, by omega⟩
  have he : d.exponent = Int.ofNat e := by
    rw [Int.ofNat_eq_natCast]
    omega
  have hne : digitsOf d.digits ≠ [] := Nat.toDigits_ne_nil
  refine ⟨⟨digitsOf d.digits ++ List.replicate e '0', some ['0'], none⟩, ⟨⟨⟨?_, ?_, ?_⟩,
    ⟨.inr ?_, by simp⟩, ?_⟩, 0, rfl, ?_⟩, ?_⟩
  · intro c hc
    rcases List.mem_append.1 hc with hc | hc
    · exact isDigit_of_mem_digitsOf hc
    · exact isDigit_of_mem_zeros hc
  · simp [fraction]
  · simp
  · simpa [hne] using head_digitsOf hdigits
  · exact List.append_ne_nil_of_left_ne_nil hne _
  · intro negative
    have hvalue : valueOf (digitsOf d.digits ++ List.replicate e '0' ++ ['0']) =
        d.digits * 10 ^ (e + 1) := by
      rw [List.append_assoc, ← List.replicate_succ', valueOf_append_zeros, valueOf_digitsOf]
    have hadmits : m.admits (d.digits * 10 ^ (e + 1) * 10 ^ 1075) = true := by
      rwa [Nat.mul_assoc, ← Nat.pow_add, Nat.add_assoc]
    have hplace : (0 : Int) - (['0'].length : Nat) = ((1075 : Nat) : Int) - 1076 := by decide
    simp only [fraction, Option.getD_some]
    rw [hvalue, hplace]
    exact Number.ofDecimal_of_place negative hpos hadmits
  · simp [text, fractionText, exponentText, Decimal.positional, he]

/-- A decimal with one digit before the point and an exponent. -/
lemma exists_denotes_scientific :
    ∃ n : Numeral, n.Denotes m ∧ n.text = d.scientific := by
  have hne : digitsOf d.digits ≠ [] := Nat.toDigits_ne_nil
  obtain ⟨c, cs, hcs⟩ := List.exists_cons_of_ne_nil hne
  have hdigit : ∀ x ∈ c :: cs, x.isDigit = true := by
    rw [← hcs]
    exact fun _ => isDigit_of_mem_digitsOf
  have hzero : c ≠ '0' := by
    have hhead := head_digitsOf hdigits
    rw [hcs] at hhead
    exact fun hc => hhead (congrArg some hc)
  have hpower : d.leadingPower = cs.length + d.exponent := by
    rw [Decimal.leadingPower, hcs, List.length_cons]
    omega
  have hvalue (negative : Bool) : Number.ofDecimal negative (valueOf (c :: cs))
      (d.leadingPower - cs.length) = .finite negative m := by
    rw [← hcs, valueOf_digitsOf, hpower, Int.add_comm, Int.add_sub_cancel, hexponent]
    exact Number.ofDecimal_of_place negative hpos h
  let fraction? : Option (List Char) := if cs = [] then none else some cs
  have hfraction : fraction?.getD [] = cs := by
    by_cases hnil : cs = [] <;> simp [fraction?, hnil]
  refine ⟨⟨[c], fraction?, some (powerOf d.leadingPower)⟩, ⟨⟨⟨?_, ?_, ?_⟩, ⟨.inr ?_, ?_⟩, by simp⟩,
    d.leadingPower, exponentValue?_powerOf _, ?_⟩, ?_⟩
  · exact fun x hx => hdigit x (List.mem_cons.2 (.inl (List.mem_singleton.1 hx)))
  · rw [fraction, hfraction]
    exact fun x hx => hdigit x (List.mem_cons_of_mem _ hx)
  · rintro _ ⟨⟩
    exact isWritten_powerOf _
  · simpa using hzero
  · by_cases hnil : cs = [] <;> simp [fraction?, hnil]
  · rw [fraction, hfraction]
    exact hvalue
  · rw [Decimal.scientific.eq_def, hcs]
    cases cs <;> cases d.leadingPower <;> rfl

end Notations

end Numeral

namespace Number

/-- The shortest decimal of a magnitude above zero, in the notation that its size asks for. -/
lemma exists_denotes_shortest {m : Magnitude} (hpos : 0 < m.significand) :
    ∃ n : Numeral, n.Denotes m ∧ n.text =
      if -5 ≤ (m.shortest .toEven).leadingPower ∧ (m.shortest .toEven).leadingPower ≤ 15 then
        if 0 ≤ (m.shortest .toEven).exponent then (m.shortest .toEven).positional ++ ['.', '0']
        else (m.shortest .toEven).positional
      else (m.shortest .toEven).scientific := by
  obtain ⟨place, hexponent, hadmits⟩ := Magnitude.shortest_admits .toEven hpos
  have hdigits := Magnitude.digits_pos_of_admits hpos hadmits
  split_ifs with hsize hwhole
  · exact Numeral.exists_denotes_whole hpos hdigits hexponent hadmits hwhole
  · exact Numeral.exists_denotes_positional hpos hdigits hexponent hadmits
  · exact Numeral.exists_denotes_scientific hpos hdigits hexponent hadmits

/-- JSON text writes a finite number as a strict numeral that stands for its size, after a minus
sign if the number is below zero. -/
lemma jsonText_finite (negative : Bool) (m : Magnitude) : ∃ n : Numeral, n.Denotes m ∧
    (finite negative m).jsonText = signText (isBelowZero negative m) n.text := by
  have hlarge (hpos : 0 < m.significand)
      (hwhole : wholeBelow? jsonWholeLimit (finite negative m) = none) : ∃ n : Numeral,
        n.Denotes m ∧ (finite negative m).jsonText = signText (isBelowZero negative m) n.text := by
    obtain ⟨n, hn, htext⟩ := exists_denotes_shortest hpos
    have hsign : isBelowZero negative m = negative := by simp [isBelowZero, Nat.ne_of_gt hpos]
    exact ⟨n, hn, by rw [jsonText, hwhole, hsign, htext]⟩
  cases hn : m.toNat? with
  | none =>
    refine hlarge (Nat.pos_of_ne_zero fun hzero => ?_) (by simp [wholeBelow?, hn])
    rw [Magnitude.eq_zero_of_significand hzero] at hn
    exact absurd hn (by decide +kernel)
  | some k =>
    by_cases hlimit : k < jsonWholeLimit
    · refine ⟨⟨digitsOf k, none, none⟩, Numeral.denotes_digitsOf hn, ?_⟩
      rw [jsonText]
      simp only [wholeBelow?, hn, if_pos hlimit, intText_toNat? negative hn]
      simp [Numeral.text, Numeral.fractionText, Numeral.exponentText]
    · refine hlarge (Nat.pos_of_ne_zero fun hzero => ?_) (by simp [wholeBelow?, hn, hlimit])
      rw [(Magnitude.eq_zero_iff_of_toNat? hn).2 hzero] at hlimit
      exact hlimit (by decide +kernel)

/-- The text of a finite number begins with a minus sign or a digit. -/
lemma jsonText_eq_cons (negative : Bool) (m : Magnitude) : ∃ c cs,
    (finite negative m).jsonText = c :: cs ∧ (c = '-' ∨ c.isDigit = true) := by
  obtain ⟨n, hn, htext⟩ := jsonText_finite negative m
  obtain ⟨c, cs, hwhole⟩ := List.exists_cons_of_ne_nil hn.whole_ne_nil
  rw [htext, signText, Numeral.text, hwhole]
  split_ifs
  · exact ⟨'-', _, rfl, .inl rfl⟩
  · exact ⟨c, _, rfl, .inr (hn.written.whole c (hwhole ▸ List.mem_cons_self ..))⟩

end Number

namespace Json

/-! ## Ways to read numerals -/

namespace Numerals

/-- No numeral stands for a number that is not finite. -/
def RefusesOverflow (numerals : Numerals) : Prop :=
  ∀ (negative : Bool) (whole fraction : List Char) (exponent : Int) (n : Number),
    numerals.number? negative whole fraction exponent = some n → n.isFinite = true

/-- Every finite number is read back from its text, except that zero has lost its sign. -/
def RestoresWritten (numerals : Numerals) : Prop :=
  ∀ n : Number, n.isFinite = true → readNumber numerals n.jsonText = .ok (n.normal, [])

lemma nearest_refusesOverflow : nearest.RefusesOverflow := by
  intro negative whole fraction exponent n h
  rw [nearest] at h
  dsimp only at h
  split_ifs at h with hfinite
  cases h
  exact hfinite

lemma nearest_read {n : Numeral} {m : Magnitude} (h : n.Denotes m) :
    ∃ e, Numeral.exponentValue? n.exponent? = some e ∧ ∀ negative,
      nearest.read negative n.whole n.fraction e = .ok (.finite negative m) := by
  obtain ⟨e, he, hvalue⟩ := h.value
  refine ⟨e, he, fun negative => ?_⟩
  rw [read, nearest]
  dsimp only
  rw [hvalue]
  rfl

lemma nearest_restoresWritten : nearest.RestoresWritten := by
  intro n hfinite
  cases n with
  | finite negative m =>
    obtain ⟨n, hn, htext⟩ := Number.jsonText_finite negative m
    obtain ⟨e, he, hread⟩ := nearest_read hn
    have hnumber := readNumber_signText nearest hn.toIsJson he (Number.isBelowZero negative m)
      Numeral.stops_nil
    rw [List.append_nil] at hnumber
    rw [htext, hnumber, hread]
    rfl
  | infinite | notANumber => cases hfinite

end Numerals

variable {numerals : Numerals}

/-- What a finite number is read as does not depend on what comes after its text. -/
lemma exists_readNumber_jsonText (numerals : Numerals) {n : Number} (h : n.isFinite = true) :
    ∃ answer : Except Fault Number, ∀ {rest : List Char}, Numeral.Stops rest →
      readNumber numerals (n.jsonText ++ rest) = answer.map (·, rest) := by
  cases n with
  | finite negative m =>
    obtain ⟨n, hn, htext⟩ := Number.jsonText_finite negative m
    obtain ⟨e, he, -⟩ := hn.value
    refine ⟨numerals.read (Number.isBelowZero negative m) n.whole n.fraction e, fun hrest => ?_⟩
    rw [htext]
    exact readNumber_signText numerals hn.toIsJson he _ hrest
  | infinite | notANumber => cases h

lemma readNumber_jsonText {n : Number} {rest : List Char} (hnumerals : numerals.RestoresWritten)
    (h : n.isFinite = true) (hrest : Numeral.Stops rest) :
    readNumber numerals (n.jsonText ++ rest) = .ok (n.normal, rest) := by
  obtain ⟨answer, hanswer⟩ := exists_readNumber_jsonText numerals h
  have halone := hanswer Numeral.stops_nil
  rw [List.append_nil, hnumerals n h] at halone
  obtain ⟨v, rfl, hv⟩ := map_eq_ok.1 halone.symm
  cases hv
  exact hanswer hrest

end Json

end FormulaTree
