import FormulaTree.Proofs.Number.Written
import FormulaTree.Token.Scan

/-!
# Tokens that are written and read

Each kind of token is read back from the text that spells it, whatever stands before it, provided
that what comes after cannot be taken for more of it: `Token.Scans text kind rest` says that `text`
is read as one token of the given kind if `rest` comes after it.  There is one lemma for each way
of spelling a token.

`Token.Lexes` is the same for a run of tokens with the gaps between them, and runs are put
together by `Lexes.append`.
-/

namespace FormulaTree

/-! ## Quoted text -/

namespace Text

/-- A code of two digits is read as its character. -/
lemma readQuoted_code (opened start p : Position) {c : Char} (cs : List Char)
    (hc : c.toNat < 256) :
    readQuoted opened '"' (.code start 2 0) p (hexDigits 2 c.toNat ++ cs) =
      (readQuoted opened '"' .plain (p.after (hexDigits 2 c.toNat)) cs).map (·.map (c :: ·)) := by
  have hhigh := hexValue?_digitChar (Nat.mod_lt (c.toNat / 16) (by decide : 0 < 16))
  have hlow := hexValue?_digitChar (Nat.mod_lt c.toNat (by decide : 0 < 16))
  have hvalue : 16 * (16 * 0 + c.toNat / 16 % 16) + c.toNat % 16 = c.toNat := by omega
  have hvalid : c.toNat.isValidChar := c.valid
  simp only [hexDigits, List.nil_append, List.cons_append, readQuoted, hhigh, hlow,
    Nat.one_lt_two, if_true, Nat.reduceSub, Nat.lt_irrefl, if_false, hvalue, hvalid,
    Char.ofNat_toNat, Position.after_cons, Position.after_nil]

/-- The escape of a character is read as the character. -/
lemma readQuoted_escape (opened p : Position) (c : Char) (cs : List Char) :
    readQuoted opened '"' .plain p (escape c ++ cs) =
      (readQuoted opened '"' .plain (p.after (escape c)) cs).map (·.map (c :: ·)) := by
  fun_cases escape c with
  | case1 => rfl
  | case2 => rfl
  | case3 => rfl
  | case4 => rfl
  | case5 => rfl
  | case6 c hbackslash hquote hfeed hreturn htab hcontrol =>
    have hc : c.toNat < 256 := by
      simp only [isControl, Bool.or_eq_true, Bool.and_eq_true, decide_eq_true_eq] at hcontrol
      omega
    exact readQuoted_code opened (p.next '\\') ((p.next '\\').next 'x') cs hc
  | case7 c hbackslash hquote hfeed hreturn htab hcontrol =>
    simp only [List.cons_append, List.nil_append, readQuoted]
    rw [if_neg (hfeed ·), if_neg (hquote ·), if_neg (hbackslash ·)]
    rfl

lemma readQuoted_escapes (opened : Position) (s rest : List Char) (p : Position) :
    readQuoted opened '"' .plain p (s.flatMap escape ++ '"' :: rest) =
      .ok ⟨s, (p.after (s.flatMap escape)).next '"', rest⟩ := by
  induction s generalizing p with
  | nil => rfl
  | cons c s ih =>
    rw [List.flatMap_cons, List.append_assoc, readQuoted_escape, ih, Position.after_append]
    rfl

/-! ## Classes of characters -/

/-- The code points of a list of ranges. -/
def codesOf (ranges : List (Nat × Nat)) : List Nat :=
  ranges.flatMap fun (low, high) => List.range' low (high + 1 - low)

lemma mem_codesOf {n : Nat} {ranges : List (Nat × Nat)} (h : inRanges n ranges = true) :
    n ∈ codesOf ranges := by
  fun_induction inRanges n ranges with
  | case1 | case2 => cases h
  | case3 low high rest hlow hhigh =>
    refine List.mem_flatMap.2 ⟨(low, high), List.mem_cons_self .., ?_⟩
    rw [List.mem_range'_1]
    omega
  | case4 low high rest hlow hhigh ih =>
    rw [codesOf, List.flatMap_cons, List.mem_append]
    exact .inr (ih h)

end Text

namespace Token

open Text (codesOf)

/-- No blank is a part of a name. -/
lemma isNamePart_of_isBlank {c : Char} (h : Text.isBlank c = true) : isNamePart c = false := by
  have hall : ∀ n ∈ codesOf Text.blankRanges, Text.inRanges n Text.alphabeticRanges = false ∧
      Text.inRanges n Text.numericRanges = false ∧ n ≠ '_'.toNat ∧ n ≠ '$'.toNat := by
    decide +kernel
  obtain ⟨halphabetic, hnumeric, hunderscore, hdollar⟩ := hall _ (Text.mem_codesOf h)
  have hne {d : Char} (hd : c.toNat ≠ d.toNat) : (c == d) = false :=
    beq_eq_false_iff_ne.2 fun heq => hd (congrArg Char.toNat heq)
  rw [isNamePart, Text.isAlphabetic, Text.isNumeric, halphabetic, hnumeric, hne hunderscore,
    hne hdollar]
  rfl

lemma toNat_mem_of_isDigit {c : Char} (h : c.isDigit = true) :
    c.toNat ∈ codesOf [('0'.toNat, '9'.toNat)] := by
  simp only [Char.isDigit, Bool.and_eq_true, decide_eq_true_eq, ge_iff_le,
    UInt32.le_iff_toNat_le] at h
  rw [codesOf, List.flatMap_singleton, List.mem_range'_1]
  exact ⟨h.1, Nat.lt_succ_of_le h.2⟩

lemma isNamePart_of_isDigit {c : Char} (h : c.isDigit = true) : isNamePart c = true := by
  have hall : ∀ n ∈ codesOf [('0'.toNat, '9'.toNat)],
      Text.inRanges n Text.numericRanges = true := by decide
  rw [isNamePart, Text.isNumeric, hall _ (toNat_mem_of_isDigit h), Bool.or_true]
  rfl

lemma isDigit_of_isNameStart {c : Char} (h : isNameStart c = true) : c.isDigit = false := by
  have hall : ∀ n ∈ codesOf [('0'.toNat, '9'.toNat)],
      Text.inRanges n Text.alphabeticRanges = false := by
    decide
  cases hdigit : c.isDigit with
  | false => rfl
  | true =>
    rw [isNameStart, Text.isAlphabetic, hall _ (toNat_mem_of_isDigit hdigit), Bool.false_or,
      Bool.or_eq_true, beq_iff_eq, beq_iff_eq] at h
    rcases h with rfl | rfl <;> cases hdigit

/-! ## One token -/

/-- No gap stands before these characters. -/
def BeginsToken (cs : List Char) : Prop :=
  ∃ c rest, cs = c :: rest ∧ Text.isBlank c = false ∧
    (c = '/' → ∀ d ∈ rest.head?, d ≠ '/' ∧ d ≠ '*')

lemma BeginsToken.skipTrivia {cs : List Char} (h : BeginsToken cs) (p : Position) :
    skipTrivia p cs = .ok (p, cs) := by
  obtain ⟨c, rest, rfl, hblank, hcomment⟩ := h
  unfold Token.skipTrivia skipGap
  split <;> simp_all

lemma BeginsToken.of_ne_slash {c : Char} (cs : List Char) (hblank : Text.isBlank c = false)
    (hslash : c ≠ '/') : BeginsToken (c :: cs) :=
  ⟨c, cs, rfl, hblank, fun h => absurd h hslash⟩

/-- The text is read as one token of this kind if `rest` comes after it. -/
def Scans (text : List Char) (kind : Kind) (rest : List Char) : Prop :=
  ∃ c cs, text = c :: cs ∧ BeginsToken (text ++ rest) ∧
    ∀ p : Position, scan p c (cs ++ rest) = .ok ⟨kind, p.after text, rest⟩

/-- A quoted text is read as the text. -/
lemma scans_text (s : String) (rest : List Char) : Scans (Text.quote s) (.text s) rest := by
  refine ⟨'"', s.toList.flatMap Text.escape ++ ['"'], rfl, .of_ne_slash _ rfl (by decide),
    fun p => ?_⟩
  rw [scan, if_pos (.inl rfl), List.append_assoc, List.singleton_append, Text.readQuoted_escapes]
  simp [Text.quote, Except.map, Scanned.map, Position.after_append]

/-- A punctuation mark is read as it, but a point only if no digit comes after it. -/
lemma scans_mark {c : Char} {kind : Kind} {rest : List Char} (h : Kind.ofMark? c = some kind)
    (hpoint : c = '.' → ∀ d ∈ rest.head?, d.isDigit = false) : Scans [c] kind rest := by
  revert h
  fun_cases Kind.ofMark? c with
  | case4 =>
    rintro ⟨⟩
    have hnumber : startsNumber ('.' :: rest) = false := by
      cases rest with
      | nil => rfl
      | cons d rest => exact hpoint rfl d rfl
    refine ⟨'.', [], rfl, .of_ne_slash _ rfl (by decide), fun p => ?_⟩
    rw [scan, if_neg (by decide), List.nil_append, hnumber]
    rfl
  | case8 => rintro ⟨⟩
  | _ =>
    rintro ⟨⟩
    exact ⟨_, [], rfl, .of_ne_slash _ rfl (by decide), fun _ => rfl⟩

/-- An operator sign cannot go on with what comes after it. -/
def EndsSign (rest : List Char) : Prop := ∀ c ∈ rest.head?, c ∉ ['&', '|', '=', '/', '*']

lemma EndsSign.takeSign {rest : List Char} (h : EndsSign rest) (sign : Sign) :
    takeSign (sign.text.toList ++ rest) = some (sign, rest) := by
  cases rest with
  | nil => cases sign <;> rfl
  | cons d rest =>
    have hd := h d rfl
    simp only [List.mem_cons, List.not_mem_nil, or_false, not_or] at hd
    cases sign <;> simp [Sign.text, Token.takeSign, hd]

/-- Nothing but a sign begins with the first character of a sign. -/
lemma sign_first (sign : Sign) : ∃ c cs, sign.text.toList = c :: cs ∧
    ¬(c = '"' ∨ c = '\'') ∧ (c.isDigit = false ∧ c ≠ '.') ∧ c ≠ '@' ∧ isNameStart c = false ∧
      Kind.ofMark? c = none ∧ Text.isBlank c = false ∧ (c = '/' → cs = []) := by
  cases sign <;> exact ⟨_, _, rfl, by decide, by decide, by decide, rfl, rfl, rfl, by decide⟩

lemma startsNumber_eq_isDigit {c : Char} (hc : c ≠ '.') (cs : List Char) :
    startsNumber (c :: cs) = c.isDigit := by
  unfold startsNumber
  split <;> simp_all

/-- An operator sign is read as it. -/
lemma scans_sign {rest : List Char} (h : EndsSign rest) (sign : Sign) :
    Scans sign.text.toList (.operator sign) rest := by
  have htake := h.takeSign sign
  obtain ⟨c, cs, htext, hquote, ⟨hdigit, hpoint⟩, hat, hname, hmark, hblank, hslash⟩ :=
    sign_first sign
  rw [htext, List.cons_append] at htake
  rw [htext]
  refine ⟨c, cs, rfl, ⟨c, cs ++ rest, rfl, hblank, fun hc d hd => ?_⟩, fun p => ?_⟩
  · rw [hslash hc, List.nil_append] at hd
    have hends := h d hd
    simp only [List.mem_cons, not_or] at hends
    exact ⟨hends.2.2.2.1, hends.2.2.2.2.1⟩
  · rw [scan, if_neg hquote, startsNumber_eq_isDigit hpoint, hdigit, if_neg (by decide),
      if_neg hat, hname, if_neg (by decide), hmark, htake, ← htext]

/-! ## Names -/

/-- A name cannot go on with what comes after it. -/
def EndsName (rest : List Char) : Prop := ∀ c ∈ rest.head?, isNamePart c = false

/-- The characters make up a name. -/
def IsName (cs : List Char) : Prop :=
  (∃ c ∈ cs.head?, isNameStart c = true) ∧ ∀ c ∈ cs, isNamePart c = true

lemma isName_iff {cs : List Char} :
    IsName cs ↔ cs.head?.any isNameStart = true ∧ cs.all isNamePart = true := by
  simp only [IsName, Option.any_eq_true, List.all_eq_true, Option.mem_def]

-- Through `isName_iff`, so that only the characters of the name are looked at.
instance (cs : List Char) : Decidable (IsName cs) := decidable_of_iff _ isName_iff.symm

lemma isBlank_of_isNamePart {c : Char} (h : isNamePart c = true) : Text.isBlank c = false := by
  cases hblank : Text.isBlank c with
  | false => rfl
  | true =>
    rw [isNamePart_of_isBlank hblank] at h
    cases h

/-- A name is read as what it says. -/
lemma scans_name {name rest : List Char} (hname : IsName name) (hrest : EndsName rest) :
    Scans name (.ofName name) rest := by
  obtain ⟨⟨c, hc, hstart⟩, hparts⟩ := hname
  obtain ⟨cs, rfl⟩ := List.head?_eq_some_iff.1 hc
  rw [List.forall_mem_cons] at hparts
  have hne {d : Char} (hd : isNameStart d = false) : c ≠ d := by
    rintro rfl
    rw [hstart] at hd
    cases hd
  refine ⟨c, cs, rfl, .of_ne_slash _ (isBlank_of_isNamePart hparts.1) (hne rfl), fun p => ?_⟩
  rw [scan, if_neg (not_or.2 ⟨hne rfl, hne rfl⟩), startsNumber_eq_isDigit (hne rfl),
    isDigit_of_isNameStart hstart, if_neg (by decide), if_neg (hne rfl), if_pos hstart,
    Text.takeWhile_run hparts.2 hrest, Text.dropWhile_run hparts.2 hrest]

/-- An at sign and a name are read as a field. -/
lemma scans_field {name rest : List Char} (hname : IsName name) (hrest : EndsName rest) :
    Scans ('@' :: name) (.field (String.ofList ('@' :: name))) rest := by
  obtain ⟨⟨c, hc, hstart⟩, hparts⟩ := hname
  refine ⟨'@', name, rfl, .of_ne_slash _ rfl (by decide), fun p => ?_⟩
  have hhead : (name ++ rest).head?.any isNameStart = true := by
    obtain ⟨cs, rfl⟩ := List.head?_eq_some_iff.1 hc
    exact hstart
  rw [scan, if_neg (by decide), startsNumber_eq_isDigit (by decide), if_neg (by decide),
    if_pos rfl, if_pos hhead, Text.takeWhile_run hparts hrest, Text.dropWhile_run hparts hrest]
  rfl

/-! ## Numbers -/

/-- A plain numeral cannot go on with what comes after it. -/
def EndsNumber (rest : List Char) : Prop :=
  ∀ c ∈ rest.head?, isNamePart c = false ∧ c ≠ '.'

lemma EndsNumber.stops {rest : List Char} (h : EndsNumber rest) : Numeral.Stops rest := by
  intro c hc
  obtain ⟨hpart, hpoint⟩ := h c hc
  refine ⟨?_, hpoint, ?_, ?_⟩
  · cases hdigit : c.isDigit with
    | false => rfl
    | true =>
      rw [isNamePart_of_isDigit hdigit] at hpart
      cases hpart
  · rintro rfl
    cases hpart
  · rintro rfl
    cases hpart

/-- A plain numeral is not taken for a hexadecimal number. -/
lemma scanNumber_plain {n : Numeral} {rest : List Char} (hplain : n.IsPlain)
    (hrest : EndsNumber rest) (p : Position) :
    scanNumber p (n.text ++ rest) = scanDecimal p (n.text ++ rest) := by
  have hread := Numeral.read_plain hplain hrest.stops
  revert hread
  fun_cases scanNumber p (n.text ++ rest) with
  | case1 cs =>
    intro hread
    have hx : 'x' :: cs = rest := congrArg Prod.snd hread
    exact absurd (hrest 'x' (hx ▸ rfl)).1 (by decide)
  | case2 cs =>
    intro hread
    have hx : 'X' :: cs = rest := congrArg Prod.snd hread
    exact absurd (hrest 'X' (hx ▸ rfl)).1 (by decide)
  | case3 => exact fun _ => rfl

/-- A plain numeral is read as its value. -/
lemma scans_number {n : Numeral} {v : Number} {rest : List Char} (hplain : n.IsPlain)
    (hvalue : n.value? = some v) (hrest : EndsNumber rest) : Scans n.text (.number v) rest := by
  have hscan (p : Position) : scanNumber p (n.text ++ rest) =
      .ok ⟨.number v, p.after n.text, rest⟩ := by
    rw [scanNumber_plain hplain hrest, scanDecimal, Numeral.read_plain hplain hrest.stops]
    dsimp only
    rw [hvalue]
    cases rest with
    | nil => rfl
    | cons c rest => rw [closeNumber, (hrest c rfl).1, if_neg (by decide)]
  obtain ⟨c, cs, htext, hdigit⟩ := hplain.text_eq_cons
  rw [htext] at hscan ⊢
  have hne {d : Char} (hd : d.isDigit = false) : c ≠ d := by
    rintro rfl
    rw [hdigit] at hd
    cases hd
  have hblank := isBlank_of_isNamePart (isNamePart_of_isDigit hdigit)
  refine ⟨c, cs, rfl, .of_ne_slash _ hblank (hne rfl), fun p => ?_⟩
  rw [scan, if_neg (not_or.2 ⟨hne rfl, hne rfl⟩), startsNumber_eq_isDigit (hne rfl), if_pos hdigit]
  exact hscan p

/-! ## Runs of tokens -/

lemma tokensFrom_eq (p : Position) (cs : List Char) :
    tokensFrom p cs =
      match skipTrivia p cs with
      | .error e => .error e
      | .ok (_, []) => .ok []
      | .ok (q, c :: rest) =>
        match scan q c rest with
        | .error e => .error e
        | .ok s => (tokensFrom s.position s.rest).map (⟨s.value, ⟨q, s.position⟩⟩ :: ·) := by
  rw [tokensFrom]
  split
  · simp_all
  · simp_all
  · split <;> simp_all

lemma tokensFrom_nil (p : Position) : tokensFrom p [] = .ok [] := by
  rw [tokensFrom_eq]
  rfl

/-- The characters are read as tokens of these kinds if `rest` comes after them. -/
def Lexes (cs : List Char) (kinds : List Kind) (rest : List Char) : Prop :=
  ∀ p : Position, ∃ ts : List Token, ts.map Token.kind = kinds ∧
    tokensFrom p (cs ++ rest) = (tokensFrom (p.after cs) rest).map (ts ++ ·)

lemma Lexes.nil (rest : List Char) : Lexes [] [] rest :=
  fun p => ⟨[], rfl, by cases h : tokensFrom p rest <;> simp [h, Except.map]⟩

theorem Lexes.append {cs ds rest : List Char} {kinds others : List Kind}
    (h : Lexes cs kinds (ds ++ rest)) (h' : Lexes ds others rest) :
    Lexes (cs ++ ds) (kinds ++ others) rest := by
  intro p
  obtain ⟨ts, hts, hread⟩ := h p
  obtain ⟨us, hus, hread'⟩ := h' (p.after cs)
  refine ⟨ts ++ us, by rw [List.map_append, hts, hus], ?_⟩
  rw [List.append_assoc, hread, hread', Position.after_append]
  cases tokensFrom ((p.after cs).after ds) rest <;> simp [Except.map]

/-- If nothing comes after them, the tokens are all there are. -/
lemma Lexes.tokensFrom_eq_ok {cs : List Char} {kinds : List Kind} (h : Lexes cs kinds [])
    (p : Position) : ∃ ts, ts.map Token.kind = kinds ∧ tokensFrom p cs = .ok ts := by
  obtain ⟨ts, hkinds, hread⟩ := h p
  rw [List.append_nil, tokensFrom_nil] at hread
  refine ⟨ts, hkinds, hread.trans ?_⟩
  rw [Except.map, List.append_nil]

lemma Scans.lexes {text rest : List Char} {kind : Kind} (h : Scans text kind rest) :
    Lexes text [kind] rest := by
  obtain ⟨c, cs, rfl, hbegins, hscan⟩ := h
  intro p
  refine ⟨[⟨kind, ⟨p, p.after (c :: cs)⟩⟩], rfl, ?_⟩
  rw [tokensFrom_eq, hbegins.skipTrivia]
  dsimp only [List.cons_append]
  rw [hscan]
  rfl

/-- A blank adds nothing. -/
lemma Lexes.blank {c : Char} (hblank : Text.isBlank c = true) (rest : List Char) :
    Lexes [c] [] rest := by
  intro p
  refine ⟨[], rfl, ?_⟩
  have hskip : skipTrivia p (c :: rest) = skipTrivia (p.next c) rest := by
    have hslash : c ≠ '/' := by
      rintro rfl
      cases hblank
    rw [skipTrivia, skipTrivia, skipGap, if_pos hblank]
    · exact fun _ h => absurd h hslash
    · exact fun _ h => absurd h hslash
  rw [List.singleton_append, tokensFrom_eq, hskip, ← tokensFrom_eq]
  cases h : tokensFrom (p.next c) rest <;> simp [h, Except.map]

end Token

end FormulaTree
