import FormulaTree.Proofs.Token.Partition

/-!
# Tokens that are written apart

A list of tokens is written by spelling one after another, with a gap between each two that begins
with a blank.  However the gap goes on, no token runs into it and none is lost in it, so that the
text is read as the same tokens again (`ofText_spelledApart`).

## What can be spelled

Every text, every sign and every mark can be spelled.  A number can if it is finite and has no sign,
for a minus sign is a token of its own; this goes for negative zero too.  What is spelled as a name
must be one, and a name on its own must not be one of the two words for truth values.
-/

namespace FormulaTree

/-- A finite number without a sign is written as a plain numeral that stands for it. -/
lemma Number.positional_plain (m : Magnitude) : ∃ n : Numeral, n.IsPlain ∧
    n.value? = some (.finite false m) ∧ (Number.finite false m).positional = n.text := by
  rcases Nat.eq_zero_or_pos m.significand with hzero | hpos
  · -- Zero is no shortest decimal of anything, but a formula writes it in the same way.
    obtain ⟨n, hplain, hvalue, htext⟩ := formulaText_finite false m
    have heq : (Number.finite false .zero).positional =
        (Number.finite false .zero).formulaText := by
      decide +kernel
    rw [Magnitude.eq_zero_of_significand hzero] at hvalue htext ⊢
    exact ⟨n, hplain, hvalue, heq.trans htext⟩
  · exact positional_finite false hpos

namespace Token

/-! ## Spelling -/

/-- How a token of some kind is spelled. -/
def Kind.spelling : Kind → List Char
  | .number n => n.positional
  | .text s => Text.quote s
  | .boolean b => (if b then "true" else "false").toList
  | .identifier name | .field name => name.toList
  | .operator sign => sign.text.toList
  | .openParen => ['(']
  | .closeParen => [')']
  | .comma => [',']
  | .dot => ['.']
  | .question => ['?']
  | .colon => [':']
  | .semicolon => [';']

/-- There is a token of this kind that is spelled so. -/
def Kind.IsSpellable : Kind → Prop
  | .number n => ∃ m, n = .finite false m
  | .identifier name => IsName name.toList ∧ name ≠ "true" ∧ name ≠ "false"
  | .field name => ∃ letters, IsName letters ∧ name.toList = '@' :: letters
  | _ => True

/-- The characters spell tokens of these kinds in order, with a gap between each two that begins
with a blank. -/
inductive SpelledApart : List Kind → List Char → Prop
  | nil : SpelledApart [] []
  | single (k : Kind) : SpelledApart [k] k.spelling
  | cons (k : Kind) {next : Kind} {others : List Kind} {blank : Char} {gap cs : List Char}
      (hblank : Text.isBlank blank = true) (hgap : Trivia gap)
      (hothers : SpelledApart (next :: others) cs) :
      SpelledApart (k :: next :: others) (k.spelling ++ (blank :: gap ++ cs))

/-! ## Where a token ends -/

/-- A token of any kind ends here: there is a blank, or nothing more. -/
def EndsToken (rest : List Char) : Prop := ∀ c ∈ rest.head?, Text.isBlank c = true

lemma EndsToken.nil : EndsToken [] := by
  simp [EndsToken]

lemma EndsToken.cons {c : Char} (h : Text.isBlank c = true) (cs : List Char) :
    EndsToken (c :: cs) := by
  simpa [EndsToken] using h

namespace EndsToken

variable {rest : List Char}

lemma head_ne (h : EndsToken rest) {c d : Char} (hc : c ∈ rest.head?)
    (hd : Text.isBlank d = false) : c ≠ d := by
  rintro rfl
  rw [h c hc] at hd
  cases hd

lemma endsName (h : EndsToken rest) : EndsName rest :=
  fun c hc => isNamePart_of_isBlank (h c hc)

lemma endsNumber (h : EndsToken rest) : EndsNumber rest :=
  fun c hc => ⟨h.endsName c hc, h.head_ne hc rfl⟩

lemma endsSign (h : EndsToken rest) : EndsSign rest := by
  intro c hc
  simp only [List.mem_cons, List.not_mem_nil, or_false, not_or]
  exact ⟨h.head_ne hc rfl, h.head_ne hc rfl, h.head_ne hc rfl, h.head_ne hc rfl, h.head_ne hc rfl⟩

/-- A point before a blank begins no number. -/
lemma isDigit_head (h : EndsToken rest) : ∀ c ∈ rest.head?, c.isDigit = false := by
  intro c hc
  by_contra hdigit
  have hpart := isNamePart_of_isDigit (Bool.eq_true_of_not_eq_false hdigit)
  rw [h.endsName c hc] at hpart
  cases hpart

end EndsToken

/-! ## One token -/

lemma ofName_eq_identifier {name : String} (htrue : name ≠ "true") (hfalse : name ≠ "false") :
    Kind.ofName name.toList = .identifier name := by
  rw [Kind.ofName, if_neg (fun h => htrue (String.toList_inj.1 h)),
    if_neg (fun h => hfalse (String.toList_inj.1 h)), String.ofList_toList]

/-- Whatever can be spelled is read back where its spelling ends. -/
lemma scans_spelling {k : Kind} {rest : List Char} (hk : k.IsSpellable)
    (hrest : EndsToken rest) : Scans k.spelling k rest := by
  have hmark {c : Char} {kind : Kind} (h : Kind.ofMark? c = some kind) : Scans [c] kind rest :=
    scans_mark h fun _ => hrest.isDigit_head
  cases k with
  | number n =>
    obtain ⟨m, rfl⟩ := hk
    obtain ⟨numeral, hplain, hvalue, htext⟩ := Number.positional_plain m
    rw [Kind.spelling, htext]
    exact scans_number hplain hvalue hrest.endsNumber
  | text s => exact scans_text s rest
  | boolean b =>
    have htrue : IsName "true".toList := by decide
    have hfalse : IsName "false".toList := by decide
    cases b with
    | true => exact scans_name htrue hrest.endsName
    | false => exact scans_name hfalse hrest.endsName
  | identifier name =>
    obtain ⟨hname, htrue, hfalse⟩ := hk
    have hscans := scans_name hname hrest.endsName
    rwa [ofName_eq_identifier htrue hfalse] at hscans
  | field name =>
    obtain ⟨letters, hletters, hname⟩ := hk
    have hscans := scans_field hletters hrest.endsName
    rwa [← hname, String.ofList_toList] at hscans
  | operator sign => exact scans_sign hrest.endsSign sign
  | openParen | closeParen | comma | dot | question | colon | semicolon => exact hmark rfl

/-! ## Gaps -/

lemma skipGap_line {body : List Char} (hbody : '\n' ∉ body) (p : Position) (rest : List Char) :
    skipGap .lineComment p (body ++ '\n' :: rest) =
      skipGap .blanks (p.after (body ++ ['\n'])) rest := by
  induction body generalizing p with
  | nil => rfl
  | cons c body ih =>
    rw [List.mem_cons, not_or] at hbody
    rw [List.cons_append, skipGap, if_neg (Ne.symm hbody.1), ih hbody.2]
    rfl

lemma skipGap_block {body : List Char} (hbody : ¬['*', '/'] <:+: body) (opened p : Position)
    (rest : List Char) :
    skipGap (.blockComment opened) p (body ++ '*' :: '/' :: rest) =
      skipGap .blanks (p.after (body ++ ['*', '/'])) rest := by
  induction body generalizing p with
  | nil => rfl
  | cons c body ih =>
    rw [List.infix_cons_iff, not_or] at hbody
    rw [List.cons_append, skipGap, ih hbody.2]
    · rfl
    · -- What follows in the text is the body, or else the star that closes the comment.
      intro ds hc hds
      subst hc
      cases body with
      | nil => cases hds
      | cons d body =>
        obtain ⟨rfl, -⟩ := List.cons.inj hds
        exact hbody.1 ⟨body, rfl⟩

/-- Blanks and closed comments are skipped, whatever comes after them. -/
lemma Trivia.skipTrivia_append {gap : List Char} (h : Trivia gap) (p : Position)
    (rest : List Char) : skipTrivia p (gap ++ rest) = skipTrivia (p.after gap) rest := by
  induction h generalizing p with
  | nil => rfl
  | @blank c cs hc _ ih =>
    have hslash : c ≠ '/' := by
      rintro rfl
      cases hc
    rw [List.cons_append, skipTrivia, skipGap, if_pos hc]
    · exact ih (p.next c)
    · exact fun _ heq => absurd heq hslash
    · exact fun _ heq => absurd heq hslash
  | @line body cs hbody _ ih =>
    have hplace : p.after ('/' :: '/' :: (body ++ '\n' :: cs)) =
        (((p.next '/').next '/').after (body ++ ['\n'])).after cs := by
      simp [Position.after_append]
    have hskip := skipGap_line hbody ((p.next '/').next '/') (cs ++ rest)
    rw [hplace, ← ih]
    simpa [skipTrivia, skipGap] using hskip
  | @block body cs hbody _ ih =>
    have hplace : p.after ('/' :: '*' :: (body ++ '*' :: '/' :: cs)) =
        (((p.next '/').next '*').after (body ++ ['*', '/'])).after cs := by
      simp [Position.after_append]
    have hskip := skipGap_block hbody p ((p.next '/').next '*') (cs ++ rest)
    rw [hplace, ← ih]
    simpa [skipTrivia, skipGap] using hskip

/-- A gap adds no token. -/
lemma Lexes.gap {gap : List Char} (h : Trivia gap) (rest : List Char) : Lexes gap [] rest := by
  intro p
  refine ⟨[], rfl, ?_⟩
  rw [tokensFrom_eq, h.skipTrivia_append, ← tokensFrom_eq]
  cases tokensFrom (p.after gap) rest <;> simp [Except.map]

/-! ## Runs of tokens -/

lemma SpelledApart.lexes {kinds : List Kind} {cs : List Char} (h : SpelledApart kinds cs)
    (hkinds : ∀ k ∈ kinds, k.IsSpellable) : Lexes cs kinds [] := by
  induction h with
  | nil => exact .nil []
  | single k =>
    exact (scans_spelling (hkinds k (List.mem_singleton_self k)) .nil).lexes
  | cons k hblank hgap _ ih =>
    obtain ⟨hk, hothers⟩ := List.forall_mem_cons.1 hkinds
    have hrest := (Lexes.gap (.blank hblank hgap) _).append (ih hothers)
    exact (scans_spelling hk (.cons hblank _)).lexes.append hrest

/-- The text begins with the first token. -/
lemma SpelledApart.begins {k : Kind} {ks : List Kind} {cs : List Char}
    (h : SpelledApart (k :: ks) cs) (hk : k.IsSpellable) :
    ∃ rest, cs = k.spelling ++ rest ∧ Scans k.spelling k rest := by
  cases h with
  | single => exact ⟨[], (List.append_nil _).symm, scans_spelling hk .nil⟩
  | cons _ hblank _ _ => exact ⟨_, rfl, scans_spelling hk (.cons hblank _)⟩

/-- Where a token comes first, nothing is skipped: neither a gap nor an equals sign. -/
lemma Scans.ofText_eq {text rest : List Char} {kind : Kind} (h : Scans text kind rest) :
    ofText (String.ofList (text ++ rest)) = tokensFrom .start (text ++ rest) := by
  obtain ⟨c, cs, rfl, hbegins, hscan⟩ := h
  rw [ofText, String.toList_ofList, hbegins.skipTrivia]
  dsimp only [List.cons_append]
  rw [skipLead_of_scan (hscan .start)]

lemma SpelledApart.ofText_eq_ok {kinds : List Kind} {cs : List Char} (h : SpelledApart kinds cs)
    (hkinds : ∀ k ∈ kinds, k.IsSpellable) :
    ∃ tokens, tokens.map Token.kind = kinds ∧ ofText (String.ofList cs) = .ok tokens := by
  obtain ⟨tokens, htokens, hread⟩ := (h.lexes hkinds).tokensFrom_eq_ok .start
  refine ⟨tokens, htokens, ?_⟩
  cases kinds with
  | nil =>
    cases h
    rw [← hread, tokensFrom_nil]
    exact tokensFrom_nil _
  | cons k ks =>
    obtain ⟨rest, rfl, hscans⟩ := h.begins (hkinds k (List.mem_cons_self ..))
    rw [hscans.ofText_eq, hread]

/-- **Tokens that are written apart are read back.**  Whatever tokens are spelled in order, with
gaps between them that begin with a blank, the text is read as these tokens and no others.  Above
all, every text between its quotes is read as that text. -/
theorem ofText_spelledApart :
    (∀ (kinds : List Kind) (text : String), (∀ k ∈ kinds, k.IsSpellable) →
      SpelledApart kinds text.toList →
      ∃ tokens, ofText text = .ok tokens ∧ tokens.map Token.kind = kinds) ∧
    ∀ s : String, ∃ l, ofText (String.ofList (Text.quote s)) = .ok [⟨.text s, l⟩] := by
  constructor
  · intro kinds text hkinds hspelled
    obtain ⟨tokens, htokens, hread⟩ := hspelled.ofText_eq_ok hkinds
    rw [String.ofList_toList] at hread
    exact ⟨tokens, hread, htokens⟩
  · intro s
    have hquoted : SpelledApart [.text s] (Text.quote s) := .single (.text s)
    obtain ⟨tokens, htokens, hread⟩ := hquoted.ofText_eq_ok (by simp [Kind.IsSpellable])
    obtain ⟨t, rfl, ht⟩ := List.map_eq_singleton_iff.1 htokens
    obtain ⟨kind, l⟩ := t
    cases ht
    exact ⟨l, hread⟩

/-- Tokens that would be lost without the gaps: two signs that go on as a comment or with an equals
sign, a number before a point, and a text that holds what its spelling must not. -/
def touchy : List Kind :=
  [.operator .equal, .operator .slash, .operator .star,
    .number (.finite false ⟨2 ^ 52, 1020, by decide⟩), .dot, .text "\"\\\n\x01//", .field "@true"]

/-- A way to write the tokens `touchy` apart, with comments of both kinds. -/
def touchyText : String := "== /\t* /*=*/0.25 . // \"\n\"\\\"\\\\\\n\\x01//\" @true"

theorem ofText_touchyText : SpelledApart touchy touchyText.toList ∧
    ∃ tokens, ofText touchyText = .ok tokens ∧ tokens.map Token.kind = touchy := by
  have hspellable : ∀ k ∈ touchy, k.IsSpellable := by
    simp only [touchy, List.forall_mem_cons, Kind.IsSpellable]
    exact ⟨trivial, trivial, trivial, ⟨_, rfl⟩, trivial, trivial,
      ⟨"true".toList, by decide, by decide⟩, by simp⟩
  have htext : touchyText.toList = Kind.spelling (.operator .equal) ++ (' ' :: [] ++
      (Kind.spelling (.operator .slash) ++ ('\t' :: [] ++
      (Kind.spelling (.operator .star) ++ (' ' :: ['/', '*', '=', '*', '/'] ++
      (Kind.spelling (.number (.finite false ⟨2 ^ 52, 1020, by decide⟩)) ++ (' ' :: [] ++
      (Kind.spelling .dot ++ (' ' :: ['/', '/', ' ', '"', '\n'] ++
      (Kind.spelling (.text "\"\\\n\x01//") ++ (' ' :: [] ++
      Kind.spelling (.field "@true")))))))))))) := by
    decide +kernel
  have hblock : Trivia ['/', '*', '=', '*', '/'] := @Trivia.block ['='] [] (by decide) .nil
  have hline : Trivia ['/', '/', ' ', '"', '\n'] := @Trivia.line [' ', '"'] [] (by decide) .nil
  have hspelled : SpelledApart touchy touchyText.toList := by
    rw [htext]
    exact .cons _ rfl .nil (.cons _ rfl .nil (.cons _ rfl hblock (.cons _ rfl .nil
      (.cons _ rfl hline (.cons _ rfl .nil (.single _))))))
  exact ⟨hspelled, ofText_spelledApart.1 touchy touchyText hspellable hspelled⟩

end Token

end FormulaTree
