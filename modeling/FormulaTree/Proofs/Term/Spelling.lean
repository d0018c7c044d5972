import FormulaTree.Keyword
import FormulaTree.Proofs.Token.Spelling
import FormulaTree.Term

/-!
# The tokens of a spelled term

`Term.kinds` gives the tokens of a term, without going through its characters.  The characters of a
**readable** term are read as just these tokens (`Readable.lexes`).

A term is readable if every call in it is by a known name with a fitting number of arguments, its
numbers are finite, and no parentheses are missing: an operator may have an operator without
parentheses only as its first operand, and only the same one.
-/

namespace FormulaTree

/-! ## The parts of a term -/

/-- The sign of an inline operator. -/
def Operator.sign? : Operator → Option Sign
  | .add => some .plus
  | .subtract => some .minus
  | .divide => some .slash
  | .multiply => some .star
  | .less => some .less
  | .lessOrEqual => some .lessOrEqual
  | .greater => some .greater
  | .greaterOrEqual => some .greaterOrEqual
  | .equal => some .equal
  | .notEqual => some .notEqual
  | _ => none

lemma Operator.symbol_of_sign? {op : Operator} {sign : Sign} (h : op.sign? = some sign) :
    op.symbol = sign.text := by
  cases op <;> cases h <;> rfl

lemma Operator.exists_sign? {op : Operator} (h : op.isInline = true) :
    ∃ sign, op.sign? = some sign := by
  cases op <;> simp_all [isInline, sign?]

namespace Field

/-- The part of the token of a field before the dot, or all of it. -/
def name (f : Field) : String := String.ofList (f.token.toList.takeWhile (· != '.'))

/-- The part of the token of a field after the dot. -/
def property? (f : Field) : Option String :=
  match f.token.toList.dropWhile (· != '.') with
  | [] => none
  | _ :: property => some (String.ofList property)

/-- The tokens of a field. -/
def kinds (f : Field) : List Token.Kind :=
  match f.property? with
  | none => [.field f.name]
  | some property => [.field f.name, .dot, .identifier property]

end Field

/-- The tokens of a number. -/
def Number.kinds : Number → List Token.Kind
  | .finite negative m =>
    if isBelowZero negative m then [.operator .minus, .number (.finite false m)]
    else [.number (.finite false m)]
  | n => [.number n]

namespace Term

open Token (EndsName EndsNumber EndsSign IsName Kind Lexes)

mutual

/-- The tokens of a term. -/
def kinds : Term → List Kind
  | .blank => []
  | .text s => [.text s]
  | .number n => n.kinds
  | .boolean b => [.boolean b]
  | .field f => f.kinds
  | .group inner => .openParen :: (kinds inner ++ [.closeParen])
  | .between op left right => kinds left ++ (op.sign?.toList.map .operator ++ kinds right)
  | .call name arguments =>
    .identifier name :: .openParen :: (kindsOfArguments arguments ++ [.closeParen])

/-- The tokens of the arguments of a call. -/
def kindsOfArguments : List Term → List Kind
  | [] => []
  | [term] => kinds term
  | term :: terms => kinds term ++ (.comma :: kindsOfArguments terms)

end

/-! ## Readable terms -/

/-- The operator that a term has outside of any parentheses. -/
def operator? : Term → Option Operator
  | .between op _ _ => some op
  | _ => none

/-- What a call may be written by: a name, and not one that says something else. -/
def IsCallName (name : String) : Prop :=
  IsName name.toList ∧ Kind.ofName name.toList = .identifier name

instance (name : String) : Decidable (IsCallName name) := inferInstanceAs (Decidable (_ ∧ _))

/-- The term can be read as it is laid out. -/
inductive Readable : Term → Prop
  | text (s : String) : Readable (.text s)
  | number (negative : Bool) (m : Magnitude) : Readable (.number (.finite negative m))
  | boolean (b : Bool) : Readable (.boolean b)
  | field (f : Field) : Readable (.field f)
  | group {inner : Term} (inside : Readable inner) : Readable (.group inner)
  | between {op : Operator} {left right : Term} (inline : op.isInline = true)
      (first : Readable left) (second : Readable right)
      (same : ∀ child ∈ left.operator?, child = op) (apart : right.operator? = none) :
      Readable (.between op left right)
  | call {name : String} {arguments : List Term} {k : Keyword} (written : IsCallName name)
      (resolves : Keyword.ofWord? name = some k)
      (count : k.callArity.admits arguments.length = true)
      (inside : ∀ a ∈ arguments, Readable a) : Readable (.call name arguments)

/-! ## Where a term ends -/

/-- What may come after a term: nothing, a comma, a closing parenthesis or a blank. -/
def Separated (rest : List Char) : Prop := ∀ c ∈ rest.head?, c ∈ [',', ')', ' ']

namespace Separated

lemma nil : Separated [] := by
  rintro c ⟨⟩

lemma cons {c : Char} (h : c ∈ [',', ')', ' ']) (cs : List Char) : Separated (c :: cs) := by
  rintro d ⟨⟩
  exact h

lemma endsNumber {rest : List Char} (h : Separated rest) : EndsNumber rest := by
  intro c hc
  have hmem := h c hc
  simp only [List.mem_cons, List.not_mem_nil, or_false] at hmem
  rcases hmem with rfl | rfl | rfl <;> decide

lemma endsName {rest : List Char} (h : Separated rest) : EndsName rest :=
  fun c hc => (h.endsNumber c hc).1

end Separated

/-! ## Reading a spelled term -/

lemma lexes_mark {c : Char} {kind : Kind} (h : Kind.ofMark? c = some kind) (hc : c ≠ '.')
    (rest : List Char) : Lexes [c] [kind] rest :=
  (Token.scans_mark h fun hpoint => absurd hpoint hc).lexes

/-- A digit does not go on with a sign. -/
lemma endsSign_plain {n : Numeral} (hplain : n.IsPlain) (rest : List Char) :
    EndsSign (n.text ++ rest) := by
  obtain ⟨c, cs, htext, hdigit⟩ := hplain.text_eq_cons
  rw [htext]
  rintro d ⟨⟩ hd
  simp only [List.mem_cons, List.not_mem_nil, or_false] at hd
  rcases hd with rfl | rfl | rfl | rfl | rfl <;> exact absurd hdigit (by decide)

lemma lexes_number {rest : List Char} (negative : Bool) (m : Magnitude) (hrest : Separated rest) :
    Lexes (Number.finite negative m).formulaText (Number.finite negative m).kinds rest := by
  obtain ⟨n, hplain, hvalue, htext⟩ := Number.formulaText_finite negative m
  have hdigits := (Token.scans_number hplain hvalue hrest.endsNumber).lexes
  have hminus := (Token.scans_sign (endsSign_plain hplain rest) .minus).lexes
  rw [htext, Number.signText, Number.kinds]
  split_ifs with hsign
  · exact hminus.append hdigits
  · exact hdigits

lemma lexes_boolean {rest : List Char} (b : Bool) (hrest : Separated rest) :
    Lexes (spell (.boolean b)) [.boolean b] rest := by
  have htrue : IsName "true".toList := by decide
  have hfalse : IsName "false".toList := by decide
  cases b with
  | true => exact (Token.scans_name htrue hrest.endsName).lexes
  | false => exact (Token.scans_name hfalse hrest.endsName).lexes

/-- The token of a field is a name after an at sign, perhaps with a dot and another name. -/
lemma token_field (f : Field) : f.name = String.ofList ('@' :: f.name.toList.tail) ∧
    IsName f.name.toList.tail ∧ (∀ property ∈ f.property?, IsCallName property) ∧
      f.token.toList = '@' :: f.name.toList.tail ++ f.property?.elim [] ('.' :: ·.toList) := by
  cases f <;> decide +kernel

lemma lexes_field {rest : List Char} (f : Field) (hrest : Separated rest) :
    Lexes f.token.toList f.kinds rest := by
  obtain ⟨hname, hletters, hcall, htoken⟩ := token_field f
  generalize f.name.toList.tail = letters at hname hletters htoken
  rw [htoken, Field.kinds, hname]
  cases hproperty : f.property? with
  | none =>
    rw [Option.elim_none, List.append_nil]
    exact (Token.scans_field hletters hrest.endsName).lexes
  | some property =>
    obtain ⟨hproperty, hword⟩ := hcall property hproperty
    have hlast := (Token.scans_name hproperty hrest.endsName).lexes
    rw [hword] at hlast
    have hdot : Lexes ['.'] [.dot] (property.toList ++ rest) := by
      refine (Token.scans_mark rfl fun _ d hd => ?_).lexes
      obtain ⟨⟨c, hc, hstart⟩, _⟩ := hproperty
      obtain ⟨cs, hcs⟩ := List.head?_eq_some_iff.1 hc
      rw [hcs] at hd
      cases hd
      exact Token.isDigit_of_isNameStart hstart
    have hpoint : EndsName ('.' :: (property.toList ++ rest)) := by
      rintro d ⟨⟩
      rfl
    exact (Token.scans_field hletters hpoint).lexes.append (hdot.append hlast)

/-- The term is read as its tokens wherever it may end. -/
def IsLexed (term : Term) : Prop := ∀ rest, Separated rest → Lexes term.spell term.kinds rest

lemma IsLexed.group {inner : Term} (h : IsLexed inner) : IsLexed (.group inner) := by
  intro rest _
  have hinner := h (')' :: rest) (.cons (by decide) rest)
  rw [spell, kinds]
  exact (lexes_mark rfl (by decide) _).append (hinner.append (lexes_mark rfl (by decide) rest))

lemma IsLexed.between {op : Operator} {left right : Term} (hop : op.isInline = true)
    (hleft : IsLexed left) (hright : IsLexed right) : IsLexed (.between op left right) := by
  intro rest hrest
  obtain ⟨sign, hsign⟩ := Operator.exists_sign? hop
  rw [spell, kinds, hsign, Operator.symbol_of_sign? hsign]
  have hspace {cs : List Char} : Lexes [' '] [] cs := .blank rfl cs
  have hends (cs : List Char) : EndsSign (' ' :: cs) := by
    rintro d ⟨⟩
    decide
  refine (hleft _ (.cons (by decide) _)).append (hspace.append ?_)
  exact (Token.scans_sign (hends _) sign).lexes.append (hspace.append (hright rest hrest))

/-- Arguments are separated by commas and end at a closing parenthesis. -/
lemma lexes_arguments (rest : List Char) : ∀ arguments : List Term,
    (∀ a ∈ arguments, IsLexed a) →
      Lexes (spellArguments arguments) (kindsOfArguments arguments) (')' :: rest)
  | [], _ => .nil _
  | [term], h => h term (List.mem_singleton_self term) _ (.cons (by decide) rest)
  | term :: next :: terms, h => by
    rw [List.forall_mem_cons] at h
    have hnext := lexes_arguments rest (next :: terms) h.2
    have hspace {cs : List Char} : Lexes [' '] [] cs := .blank rfl cs
    refine (h.1 _ (.cons (by decide) _)).append ?_
    exact (lexes_mark rfl (by decide) _).append (hspace.append hnext)

lemma IsLexed.call {name : String} {arguments : List Term} (hname : IsCallName name)
    (h : ∀ a ∈ arguments, IsLexed a) : IsLexed (.call name arguments) := by
  intro rest _
  have hparen : EndsName ('(' :: (spellArguments arguments ++ [')'] ++ rest)) := by
    rintro d ⟨⟩
    rfl
  have hword := (Token.scans_name hname.1 hparen).lexes
  rw [hname.2] at hword
  rw [spell, kinds]
  refine hword.append ((lexes_mark rfl (by decide) _).append ?_)
  exact (lexes_arguments rest arguments h).append (lexes_mark rfl (by decide) rest)

/-- The characters of a readable term are read as its tokens. -/
lemma Readable.isLexed {term : Term} (h : Readable term) : IsLexed term := by
  induction h with
  | text s => exact fun rest _ => (Token.scans_text s rest).lexes
  | number negative m => exact fun rest hrest => lexes_number negative m hrest
  | boolean b => exact fun rest hrest => lexes_boolean b hrest
  | field f => exact fun rest hrest => lexes_field f hrest
  | group _ ih => exact ih.group
  | between hop _ _ _ _ hleft hright => exact .between hop hleft hright
  | call hname _ _ _ ih => exact .call hname ih

/-! ## The whole formula -/

/-- The text begins with a token, and not with an equals sign. -/
def BeginsTerm (cs : List Char) : Prop :=
  ∃ c rest, cs = c :: rest ∧ Text.isBlank c = false ∧ c ≠ '/' ∧ c ≠ '='

lemma BeginsTerm.append {cs : List Char} (h : BeginsTerm cs) (ds : List Char) :
    BeginsTerm (cs ++ ds) := by
  obtain ⟨c, rest, rfl, hc⟩ := h
  exact ⟨c, rest ++ ds, rfl, hc⟩

lemma beginsTerm_number (negative : Bool) (m : Magnitude) :
    BeginsTerm (Number.finite negative m).formulaText := by
  obtain ⟨n, hplain, _, htext⟩ := Number.formulaText_finite negative m
  obtain ⟨c, cs, hcons, hdigit⟩ := hplain.text_eq_cons
  rw [htext, Number.signText]
  split_ifs
  · exact ⟨'-', n.text, rfl, rfl, by decide, by decide⟩
  · have hpart := Token.isNamePart_of_isDigit hdigit
    refine ⟨c, cs, hcons, Token.isBlank_of_isNamePart hpart, ?_, ?_⟩
    · rintro rfl
      cases hdigit
    · rintro rfl
      cases hdigit

lemma beginsTerm_name {name : List Char} (h : IsName name) : BeginsTerm name := by
  obtain ⟨⟨c, hc, hstart⟩, hparts⟩ := h
  obtain ⟨cs, rfl⟩ := List.head?_eq_some_iff.1 hc
  refine ⟨c, cs, rfl, Token.isBlank_of_isNamePart (hparts c (List.mem_cons_self ..)), ?_, ?_⟩
  · rintro rfl
    cases hstart
  · rintro rfl
    cases hstart

lemma Readable.beginsTerm {term : Term} (h : Readable term) : BeginsTerm term.spell := by
  induction h with
  | text s => exact ⟨'"', _, rfl, rfl, by decide, by decide⟩
  | number negative m => exact beginsTerm_number negative m
  | boolean b => cases b <;> exact ⟨_, _, rfl, rfl, by decide, by decide⟩
  | field f =>
    obtain ⟨_, _, _, htoken⟩ := token_field f
    rw [spell, htoken]
    exact ⟨'@', _, rfl, rfl, by decide, by decide⟩
  | group => exact ⟨'(', _, rfl, rfl, by decide, by decide⟩
  | between _ _ _ _ _ ih _ => exact ih.append _
  | call hname _ _ _ _ => exact (beginsTerm_name hname.1).append _

/-- An equals sign before a formula only moves it. -/
lemma BeginsTerm.ofText {cs : List Char} (h : BeginsTerm cs) (equals : Bool) :
    ∃ p, Token.ofText (String.ofList (if equals then '=' :: cs else cs)) =
      Token.tokensFrom p cs := by
  obtain ⟨c, rest, rfl, hblank, hslash, hequal⟩ := h
  cases equals with
  | false =>
    have hbegins : Token.BeginsToken (c :: rest) := .of_ne_slash rest hblank hslash
    have hlead : Token.skipLead (.start, c :: rest) = (.start, c :: rest) := by
      rw [Token.skipLead]
      · rintro _ ⟨⟩
        exact hequal rfl
      · rintro _ ⟨⟩
        exact hequal rfl
    refine ⟨.start, ?_⟩
    rw [Token.ofText, String.toList_ofList, if_neg (by decide), hbegins.skipTrivia]
    dsimp only
    rw [hlead]
  | true =>
    have hbegins : Token.BeginsToken ('=' :: c :: rest) := .of_ne_slash _ rfl (by decide)
    have hlead : Token.skipLead (.start, '=' :: c :: rest) =
        (Position.start.next '=', c :: rest) := by
      rw [Token.skipLead]
      rintro _ ⟨⟩
      exact hequal rfl
    refine ⟨Position.start.next '=', ?_⟩
    rw [Token.ofText, String.toList_ofList, if_pos rfl, hbegins.skipTrivia]
    dsimp only
    rw [hlead]

/-- The tokens of a formula that spells a readable term, with or without an equals sign before it,
are those of the term. -/
lemma Readable.ofText {term : Term} (h : Readable term) (equals : Bool) :
    ∃ ts, ts.map Token.kind = term.kinds ∧
      Token.ofText (String.ofList (if equals then '=' :: term.spell else term.spell)) = .ok ts := by
  obtain ⟨p, hstart⟩ := h.beginsTerm.ofText equals
  obtain ⟨ts, hkinds, hread⟩ := (h.isLexed [] .nil).tokensFrom_eq_ok p
  exact ⟨ts, hkinds, hstart.trans hread⟩

end Term

end FormulaTree
