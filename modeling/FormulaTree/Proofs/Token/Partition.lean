import FormulaTree.Proofs.Position
import FormulaTree.Proofs.Token.Spelling
import Mathlib.Data.List.TakeWhile

/-!
# The text of the tokens

The tokens of a formula and the gaps between them make up the formula.  A `Piece` is a token with
the characters it was read from, its **slice**, and the gap before them; `ofText_pieces` says that a
formula that can be read is a run of such pieces, after perhaps a single equals sign and before a
last gap.

## Gaps

`Trivia` is what may stand before a token: blanks and comments, each comment closed.  After the last
token a comment to the end of the line need not be closed by a line feed (`Trailing`).

## Slices

A slice is read as its token whatever stood around it in the formula.  For each scanner this is one
lemma: from a successful reading it takes the characters that were read, and says that they alone
give the same answer.  The scanners look ahead by one character or two, so that this holds has to be
seen case by case.
-/

namespace FormulaTree

/-! ## Numerals -/

namespace Numeral

/-- A numeral that is read and has a value is as it is written. -/
lemma isWritten_read {cs : List Char} {v : Number} (h : (read cs).1.value? = some v) :
    (read cs).1.IsWritten := by
  have htake {c : Char} {ds : List Char} (hc : c ∈ ds.takeWhile Char.isDigit) :
      c.isDigit = true := List.all_eq_true.1 List.all_takeWhile c hc
  refine ⟨fun c hc => htake hc, ?_, ?_⟩
  · intro c hc
    simp only [read, fraction] at hc
    generalize cs.dropWhile Char.isDigit = ds at hc
    revert hc
    fun_cases readFraction ds with
    | case1 ds => exact fun hc => htake hc
    | case2 => exact fun hc => absurd hc List.not_mem_nil
  · intro e he
    have hvalue : (exponentValue? (read cs).1.exponent?).isSome = true := by
      rw [value?] at h
      split_ifs at h
      obtain ⟨i, hi, -⟩ := Option.map_eq_some_iff.1 h
      rw [hi]
      rfl
    rw [he, exponentValue?] at hvalue
    have hne : e.digits ≠ [] := by
      intro hnil
      rw [if_pos hnil] at hvalue
      cases hvalue
    simp only [read] at he
    generalize (readFraction (cs.dropWhile Char.isDigit)).2 = ds at he
    revert he
    fun_cases readExponent ds with
    | case1 => intro he; cases he
    | case2 c ds hmark =>
      rintro ⟨⟩
      refine ⟨hmark, ?_, hne, fun c hc => htake hc⟩
      show ∀ c ∈ (readSign ds).1, _
      fun_cases readSign ds <;> simp
    | case3 => intro he; cases he

end Numeral

/-! ## Quoted text -/

namespace Text

/-- The state with another place for the escape that is being read. -/
def QuoteState.moved (start : Position) : QuoteState → QuoteState
  | .code _ missing value => .code start missing value
  | state => state

/-- The characters give the value and nothing is left, wherever they stand. -/
def ReadsAlone (mark : Char) (state : QuoteState) (taken value : List Char) : Prop :=
  ∀ opened start q, readQuoted opened mark (state.moved start) q taken =
    .ok ⟨value, q.after taken, []⟩

/-- A character that only changes the state. -/
lemma ReadsAlone.cons {mark : Char} {state next : QuoteState} {c : Char} {taken value : List Char}
    (h : ReadsAlone mark next taken value)
    (hstep : ∀ opened start q, ∃ start',
      readQuoted opened mark (state.moved start) q (c :: taken) =
        readQuoted opened mark (next.moved start') (q.next c) taken) :
    ReadsAlone mark state (c :: taken) value := by
  intro opened start q
  obtain ⟨start', hread⟩ := hstep opened start q
  rw [hread, h opened start' (q.next c)]
  rfl

/-- A character that ends what stands for the character `d`. -/
lemma ReadsAlone.emit {mark : Char} {state : QuoteState} {c d : Char} {taken value : List Char}
    (h : ReadsAlone mark .plain taken value)
    (hstep : ∀ opened start q, readQuoted opened mark (state.moved start) q (c :: taken) =
      (readQuoted opened mark .plain (q.next c) taken).map (·.map (d :: ·))) :
    ReadsAlone mark state (c :: taken) (d :: value) := by
  intro opened start q
  have hread : readQuoted opened mark .plain (q.next c) taken = _ := h opened start (q.next c)
  rw [hstep opened start q, hread]
  rfl

/-- The characters up to the closing quote, and with it, are read alike wherever they stand. -/
lemma readQuoted_taken {opened p : Position} {mark : Char} {state : QuoteState} {cs : List Char}
    {s : Scanned (List Char)} (h : readQuoted opened mark state p cs = .ok s) :
    ∃ taken, cs = taken ++ s.rest ∧ s.position = p.after taken ∧
      ReadsAlone mark state taken s.value := by
  fun_induction readQuoted opened mark state p cs generalizing s with
  | case1 | case2 | case6 | case10 | case11 | case14 => cases h
  | case3 p cs hfeed =>
    cases h
    refine ⟨[mark], rfl, rfl, fun opened' start q => ?_⟩
    simp [QuoteState.moved, readQuoted, hfeed]
  | case4 p cs hfeed hmark ih =>
    obtain ⟨taken, rfl, hposition, hread⟩ := ih h
    refine ⟨'\\' :: taken, rfl, hposition, hread.cons fun opened' start q => ⟨start, ?_⟩⟩
    simp [QuoteState.moved, readQuoted, hmark]
  | case5 p c cs hfeed hmark hescape ih =>
    obtain ⟨t, ht, rfl⟩ := map_eq_ok.1 h
    obtain ⟨taken, rfl, hposition, hread⟩ := ih ht
    refine ⟨c :: taken, rfl, hposition, hread.emit fun opened' start q => ?_⟩
    simp [QuoteState.moved, readQuoted, hfeed, hmark, hescape]
  | case7 p cs ih =>
    -- In the state `code` the place is that of the escape: it changes with the place of the text.
    obtain ⟨taken, rfl, hposition, hread⟩ := ih h
    refine ⟨'x' :: taken, rfl, hposition, hread.cons fun opened' start q => ⟨q, ?_⟩⟩
    simp [QuoteState.moved, readQuoted]
  | case8 p cs hx ih =>
    obtain ⟨taken, rfl, hposition, hread⟩ := ih h
    refine ⟨'u' :: taken, rfl, hposition, hread.cons fun opened' start q => ⟨q, ?_⟩⟩
    simp [QuoteState.moved, readQuoted]
  | case9 p c cs hx hu ih =>
    obtain ⟨t, ht, rfl⟩ := map_eq_ok.1 h
    obtain ⟨taken, rfl, hposition, hread⟩ := ih ht
    refine ⟨c :: taken, rfl, hposition, hread.emit fun opened' start q => ?_⟩
    simp [QuoteState.moved, readQuoted, hx, hu]
  | case12 =>
    rename_i c cs digit hdigit _ hmore ih
    obtain ⟨taken, rfl, hposition, hread⟩ := ih h
    refine ⟨c :: taken, rfl, hposition, hread.cons fun opened' start' q => ⟨start', ?_⟩⟩
    rw [QuoteState.moved, readQuoted, hdigit]
    exact if_pos hmore
  | case13 =>
    rename_i c cs digit hdigit _ hlast hvalid ih
    obtain ⟨t, ht, rfl⟩ := map_eq_ok.1 h
    obtain ⟨taken, rfl, hposition, hread⟩ := ih ht
    refine ⟨c :: taken, rfl, hposition, hread.emit fun opened' start' q => ?_⟩
    rw [QuoteState.moved, readQuoted, hdigit]
    exact (if_neg hlast).trans (if_pos hvalid)

end Text

namespace Token

/-! ## Numbers -/

lemma closeNumber_eq_ok {start stop : Position} {lead written rest : List Char}
    {value? : Option Number} {s : Scanned Kind}
    (h : closeNumber start stop lead written rest value? = .ok s) :
    ∃ v, value? = some v ∧ s = ⟨.number v, stop, rest⟩ := by
  revert h
  fun_cases closeNumber start stop lead written rest value? with
  | case1 v => exact fun h => ⟨v, rfl, (Except.ok.inj h).symm⟩
  | case4 c cs hpart v => exact fun h => ⟨v, rfl, (Except.ok.inj h).symm⟩
  | case2 | case3 | case5 => exact fun h => by cases h

/-- The digits of a hexadecimal number alone are the same number. -/
lemma scanHex_slice {start stop : Position} {cs : List Char} {s : Scanned Kind}
    (h : scanHex start stop cs = .ok s) :
    ∃ digits, cs = digits ++ s.rest ∧ s.position = stop.after digits ∧
      ∀ start' stop', scanHex start' stop' digits = .ok ⟨s.value, stop'.after digits, []⟩ := by
  obtain ⟨v, hvalue, rfl⟩ := closeNumber_eq_ok h
  have hdigits : ∀ c ∈ cs.takeWhile Text.isHexDigit, Text.isHexDigit c = true :=
    List.all_eq_true.1 List.all_takeWhile
  have htake := List.takeWhile_eq_self_iff.2 hdigits
  have hdrop := List.dropWhile_eq_nil_iff.2 hdigits
  refine ⟨cs.takeWhile Text.isHexDigit, List.takeWhile_append_dropWhile.symm, rfl,
    fun start' stop' => ?_⟩
  simp only [scanHex, htake, hdrop, hvalue]
  rfl

/-- A decimal numeral alone is the same number. -/
lemma scanDecimal_slice {start : Position} {cs : List Char} {s : Scanned Kind}
    (h : scanDecimal start cs = .ok s) :
    cs = (Numeral.read cs).1.text ++ s.rest ∧
      s.position = start.after (Numeral.read cs).1.text ∧
      ∀ q, scanDecimal q (Numeral.read cs).1.text =
        .ok ⟨s.value, q.after (Numeral.read cs).1.text, []⟩ := by
  obtain ⟨v, hvalue, rfl⟩ := closeNumber_eq_ok h
  have hstops : Numeral.Stops [] := by simp [Numeral.Stops]
  have hread := Numeral.read_append (Numeral.isWritten_read hvalue) hstops
  rw [List.append_nil] at hread
  refine ⟨(Numeral.read_text cs).symm, rfl, fun q => ?_⟩
  simp only [scanDecimal, hread, hvalue]
  rfl

/-- Where a number begins, the numeral that is read begins with the same characters. -/
lemma read_text_begins {c : Char} {cs : List Char} (h : startsNumber (c :: cs) = true) :
    ∃ tail, (Numeral.read (c :: cs)).1.text = c :: tail ∧ startsNumber (c :: tail) = true := by
  by_cases hpoint : c = '.'
  · subst hpoint
    cases cs with
    | nil => cases h
    | cons d cs =>
      have hd : d.isDigit = true := h
      have htext : (Numeral.read ('.' :: d :: cs)).1.text =
          '.' :: d :: (cs.takeWhile Char.isDigit ++
            Numeral.exponentText (Numeral.readExponent (cs.dropWhile Char.isDigit)).1) := by
        simp [Numeral.read, Numeral.text, Numeral.readFraction, Numeral.fractionText, hd]
      exact ⟨_, htext, hd⟩
  · have hdigit : c.isDigit = true := startsNumber_eq_isDigit hpoint cs ▸ h
    have htext : (Numeral.read (c :: cs)).1.text = c :: (cs.takeWhile Char.isDigit ++
        (Numeral.fractionText (Numeral.read (c :: cs)).1.fraction? ++
          Numeral.exponentText (Numeral.read (c :: cs)).1.exponent?)) := by
      simp [Numeral.read, Numeral.text, hdigit]
    exact ⟨_, htext, (startsNumber_eq_isDigit hpoint _).trans hdigit⟩

/-- A number alone is the same number. -/
lemma scanNumber_slice {start : Position} {c : Char} {cs : List Char} {s : Scanned Kind}
    (begins : startsNumber (c :: cs) = true) (h : scanNumber start (c :: cs) = .ok s) :
    ∃ tail, cs = tail ++ s.rest ∧ s.position = start.after (c :: tail) ∧
      startsNumber (c :: tail) = true ∧
      ∀ q, scanNumber q (c :: tail) = .ok ⟨s.value, q.after (c :: tail), []⟩ := by
  obtain ⟨tail, htext, hbegins⟩ := read_text_begins begins
  revert h
  generalize hw : c :: cs = word
  fun_cases scanNumber start word with
  | case1 ds =>
    intro h
    obtain ⟨rfl, rfl⟩ := List.cons.inj hw
    obtain ⟨digits, rfl, hposition, hscan⟩ := scanHex_slice h
    exact ⟨'x' :: digits, rfl, hposition, rfl, fun q => hscan q _⟩
  | case2 ds =>
    intro h
    obtain ⟨rfl, rfl⟩ := List.cons.inj hw
    obtain ⟨digits, rfl, hposition, hscan⟩ := scanHex_slice h
    exact ⟨'X' :: digits, rfl, hposition, rfl, fun q => hscan q _⟩
  | case3 word hx hX =>
    intro h
    subst hw
    obtain ⟨hword, hposition, hscan⟩ := scanDecimal_slice h
    rw [htext] at hword hposition hscan
    have htail : cs = tail ++ s.rest := (List.cons.inj hword).2
    refine ⟨tail, htail, hposition, hbegins, fun q => ?_⟩
    rw [← hscan q]
    -- What alone would be hexadecimal would be so in front of the rest.
    unfold scanNumber
    split
    · rename_i ds heq
      exact absurd (by rw [hword, heq]; rfl) (hx (ds ++ s.rest))
    · rename_i ds heq
      exact absurd (by rw [hword, heq]; rfl) (hX (ds ++ s.rest))
    · rfl

/-! ## Tokens -/

lemma isNamePart_of_isNameStart {c : Char} (h : isNameStart c = true) : isNamePart c = true := by
  simp only [isNameStart, isNamePart, Bool.or_eq_true] at h ⊢
  tauto

/-- The characters of a name up to its end are a name. -/
lemma isName_takeWhile {c : Char} (cs : List Char) (h : isNameStart c = true) :
    IsName (c :: cs.takeWhile isNamePart) := by
  have hparts : ∀ d ∈ cs.takeWhile isNamePart, isNamePart d = true :=
    List.all_eq_true.1 List.all_takeWhile
  exact ⟨⟨c, rfl, h⟩, List.forall_mem_cons.2 ⟨isNamePart_of_isNameStart h, hparts⟩⟩

lemma Scans.scan_eq {c : Char} {tail : List Char} {kind : Kind} (h : Scans (c :: tail) kind [])
    (q : Position) : scan q c tail = .ok ⟨kind, q.after (c :: tail), []⟩ := by
  obtain ⟨d, ds, htext, -, hscan⟩ := h
  obtain ⟨rfl, rfl⟩ := List.cons.inj htext
  have hscan' := hscan q
  rwa [List.append_nil] at hscan'

/-- A token alone is the same token: what was read beyond its slice did not matter. -/
lemma scan_slice {p : Position} {c : Char} {cs : List Char} {s : Scanned Kind}
    (h : scan p c cs = .ok s) :
    ∃ tail, cs = tail ++ s.rest ∧ s.position = p.after (c :: tail) ∧
      ∀ q, scan q c tail = .ok ⟨s.value, q.after (c :: tail), []⟩ := by
  have hname : EndsName [] := by simp [EndsName]
  have hsign : EndsSign [] := by simp [EndsSign]
  revert h
  fun_cases scan p c cs with
  | case1 hquote =>
    intro h
    obtain ⟨t, ht, rfl⟩ := map_eq_ok.1 h
    obtain ⟨taken, rfl, hposition, hread⟩ := Text.readQuoted_taken ht
    refine ⟨taken, rfl, hposition, fun q => ?_⟩
    have hread' : Text.readQuoted q c .plain (q.next c) taken = _ := hread q q (q.next c)
    rw [scan, if_pos hquote, hread']
    rfl
  | case2 hquote begins =>
    intro h
    obtain ⟨tail, htail, hposition, hbegins, hscan⟩ := scanNumber_slice begins h
    refine ⟨tail, htail, hposition, fun q => ?_⟩
    rw [scan, if_neg hquote, if_pos hbegins, hscan]
  | case3 hquote hnumber hat hstart =>
    rintro ⟨⟩
    subst hat
    obtain ⟨d, hd, hstart⟩ := (Option.any_eq_true ..).1 hstart
    obtain ⟨ds, rfl⟩ := List.head?_eq_some_iff.1 hd
    have hfield : IsName ((d :: ds).takeWhile isNamePart) := by
      rw [List.takeWhile_cons_of_pos (isNamePart_of_isNameStart hstart)]
      exact isName_takeWhile ds hstart
    exact ⟨(d :: ds).takeWhile isNamePart, List.takeWhile_append_dropWhile.symm, rfl,
      (scans_field hfield hname).scan_eq⟩
  | case5 hquote hnumber hat hstart =>
    rintro ⟨⟩
    exact ⟨cs.takeWhile isNamePart, List.takeWhile_append_dropWhile.symm, rfl,
      (scans_name (isName_takeWhile cs hstart) hname).scan_eq⟩
  | case6 hquote hnumber hat hstart kind hmark =>
    rintro ⟨⟩
    exact ⟨[], rfl, rfl, (scans_mark hmark (fun _ => by simp)).scan_eq⟩
  | case7 hquote hnumber hat hstart sign rest htake hmark =>
    rintro ⟨⟩
    obtain ⟨d, tail, htext, -⟩ := sign_first sign
    have hword := takeSign_eq_some htake
    have hscans := scans_sign hsign sign
    simp only [htext, List.cons_append] at hword hscans ⊢
    obtain ⟨rfl, rfl⟩ := List.cons.inj hword
    exact ⟨tail, rfl, rfl, hscans.scan_eq⟩
  | case4 | case8 | case9 => intro h; cases h

/-! ## Gaps -/

/-- Blanks and comments, with every comment closed. -/
inductive Trivia : List Char → Prop
  | nil : Trivia []
  | blank {c : Char} {cs : List Char} (hc : Text.isBlank c = true) (hcs : Trivia cs) :
      Trivia (c :: cs)
  | line {body cs : List Char} (hbody : '\n' ∉ body) (hcs : Trivia cs) :
      Trivia ('/' :: '/' :: (body ++ '\n' :: cs))
  | block {body cs : List Char} (hbody : ¬['*', '/'] <:+: body) (hcs : Trivia cs) :
      Trivia ('/' :: '*' :: (body ++ '*' :: '/' :: cs))

/-- Blanks and comments at the end of a text, where no line feed need close the last comment. -/
inductive Trailing : List Char → Prop
  | closed {cs : List Char} (hcs : Trivia cs) : Trailing cs
  | line {gap body : List Char} (hgap : Trivia gap) (hbody : '\n' ∉ body) :
      Trailing (gap ++ '/' :: '/' :: body)

lemma Trivia.append {as bs : List Char} (has : Trivia as) (hbs : Trivia bs) :
    Trivia (as ++ bs) := by
  induction has with
  | nil => exact hbs
  | blank hc _ ih => exact .blank hc ih
  | line hbody _ ih => simpa using Trivia.line hbody ih
  | block hbody _ ih => simpa using Trivia.block hbody ih

/-- The gap before the rest of a text. -/
structure Fills (gap rest : List Char) : Prop where
  trailing : Trailing gap
  closed : rest ≠ [] → Trivia gap

lemma Fills.of_trivia {gap : List Char} (h : Trivia gap) (rest : List Char) : Fills gap rest :=
  ⟨.closed h, fun _ => h⟩

/-- More blanks and closed comments before a gap. -/
lemma Fills.append {as bs rest : List Char} (has : Trivia as) (hbs : Fills bs rest) :
    Fills (as ++ bs) rest := by
  refine ⟨?_, fun hrest => has.append (hbs.closed hrest)⟩
  cases hbs.trailing with
  | closed h => exact .closed (has.append h)
  | line hgap hbody =>
    rw [← List.append_assoc]
    exact .line (has.append hgap) hbody

/-- What is left of a gap to be skipped, given what is being skipped. -/
def Gap.Covers : Gap → List Char → List Char → Prop
  | .blanks, skipped, rest => Fills skipped rest
  | .lineComment, skipped, rest => ∃ body, '\n' ∉ body ∧
      ((skipped = body ∧ rest = []) ∨ ∃ more, skipped = body ++ '\n' :: more ∧ Fills more rest)
  | .blockComment _, skipped, rest => ∃ body more, ¬['*', '/'] <:+: body ∧
      skipped = body ++ '*' :: '/' :: more ∧ Fills more rest

/-- Skipping takes off a gap, and stops where a token begins. -/
lemma skipGap_covers {gap : Gap} {p q : Position} {cs rest : List Char}
    (h : skipGap gap p cs = .ok (q, rest)) :
    ∃ skipped, cs = skipped ++ rest ∧ q = p.after skipped ∧ gap.Covers skipped rest ∧
      (rest ≠ [] → BeginsToken rest) := by
  fun_induction skipGap gap p cs with
  | case1 p =>
    cases h
    exact ⟨[], rfl, rfl, .of_trivia .nil _, fun hne => absurd rfl hne⟩
  | case2 p cs ih =>
    obtain ⟨skipped, rfl, rfl, ⟨body, hbody, hend⟩, hbegins⟩ := ih h
    refine ⟨'/' :: '/' :: skipped, rfl, rfl, ?_, hbegins⟩
    rcases hend with ⟨rfl, rfl⟩ | ⟨more, rfl, hmore⟩
    · exact ⟨.line .nil hbody, fun hne => absurd rfl hne⟩
    · have hline : Trivia ('/' :: '/' :: (body ++ ['\n'])) := .line hbody .nil
      simpa [Gap.Covers] using Fills.append hline hmore
  | case3 p cs ih =>
    obtain ⟨skipped, rfl, rfl, ⟨body, more, hbody, rfl, hmore⟩, hbegins⟩ := ih h
    refine ⟨'/' :: '*' :: (body ++ '*' :: '/' :: more), rfl, rfl, ?_, hbegins⟩
    have hblock : Trivia ('/' :: '*' :: (body ++ ['*', '/'])) := .block hbody .nil
    simpa [Gap.Covers] using Fills.append hblock hmore
  | case4 p c cs hline hblock hblank ih =>
    obtain ⟨skipped, rfl, rfl, hskipped, hbegins⟩ := ih h
    exact ⟨c :: skipped, rfl, rfl, Fills.append (.blank hblank .nil) hskipped, hbegins⟩
  | case5 p c cs hline hblock hblank =>
    cases h
    refine ⟨[], rfl, rfl, .of_trivia .nil _, fun _ => ⟨c, cs, rfl, by simpa using hblank, ?_⟩⟩
    intro hslash d hd
    obtain ⟨ds, rfl⟩ := List.head?_eq_some_iff.1 hd
    constructor
    · rintro rfl
      exact hline ds hslash rfl
    · rintro rfl
      exact hblock ds hslash rfl
  | case6 p =>
    cases h
    exact ⟨[], rfl, rfl, ⟨[], by simp, .inl ⟨rfl, rfl⟩⟩, fun hne => absurd rfl hne⟩
  | case7 p cs ih =>
    obtain ⟨skipped, rfl, rfl, hskipped, hbegins⟩ := ih h
    exact ⟨'\n' :: skipped, rfl, rfl, ⟨[], by simp, .inr ⟨skipped, rfl, hskipped⟩⟩, hbegins⟩
  | case8 p c cs hc ih =>
    obtain ⟨skipped, rfl, rfl, ⟨body, hbody, hend⟩, hbegins⟩ := ih h
    refine ⟨c :: skipped, rfl, rfl, ⟨c :: body, ?_, ?_⟩, hbegins⟩
    · simp [hbody, Ne.symm hc]
    · rcases hend with ⟨rfl, rfl⟩ | ⟨more, rfl, hmore⟩
      · exact .inl ⟨rfl, rfl⟩
      · exact .inr ⟨more, rfl, hmore⟩
  | case9 => cases h
  | case10 opened p cs ih =>
    obtain ⟨skipped, rfl, rfl, hskipped, hbegins⟩ := ih h
    exact ⟨'*' :: '/' :: skipped, rfl, rfl, ⟨[], skipped, by simp, rfl, hskipped⟩, hbegins⟩
  | case11 opened p c cs hclose ih =>
    obtain ⟨skipped, rfl, rfl, ⟨body, more, hbody, rfl, hmore⟩, hbegins⟩ := ih h
    refine ⟨c :: (body ++ '*' :: '/' :: more), rfl, rfl, ⟨c :: body, more, ?_, rfl, hmore⟩, hbegins⟩
    rw [List.infix_cons_iff, not_or]
    refine ⟨fun hclosed => ?_, hbody⟩
    -- The comment would have been closed by `c` and the first character of the body.
    rw [List.cons_prefix_cons] at hclosed
    obtain ⟨rfl, ds, rfl⟩ := hclosed
    exact hclose _ rfl rfl

/-! ## A slice on its own -/

/-- A sign that begins with an equals sign goes on with one. -/
lemma sign_equals {sign : Sign} {cs rest : List Char} (h : '=' :: cs = sign.text.toList ++ rest) :
    ∃ ds, cs = '=' :: ds := by
  cases sign with
  | equal => exact ⟨rest, (List.cons.inj h).2⟩
  | strictEqual => exact ⟨'=' :: rest, (List.cons.inj h).2⟩
  | _ => exact absurd (List.cons.inj h).1 (by decide)

/-- An equals sign begins a token only if another one comes after it. -/
lemma scan_equals {p : Position} {cs : List Char} {s : Scanned Kind}
    (h : scan p '=' cs = .ok s) : ∃ ds, cs = '=' :: ds := by
  rw [scan, if_neg (by decide), startsNumber_eq_isDigit (by decide), if_neg (by decide),
    if_neg (by decide), if_neg (by decide)] at h
  cases htake : takeSign ('=' :: cs) with
  | none => simp [htake, Kind.ofMark?] at h
  | some taken => exact sign_equals (takeSign_eq_some htake)

/-- A token is not taken for the equals sign that a formula may begin with. -/
lemma skipLead_of_scan {p : Position} {c : Char} {cs : List Char} {s : Scanned Kind}
    (h : scan p c cs = .ok s) (q : Position) : skipLead (q, c :: cs) = (q, c :: cs) := by
  by_cases hc : c = '='
  · subst hc
    obtain ⟨ds, rfl⟩ := scan_equals h
    rfl
  · unfold skipLead
    split <;> simp_all

/-- The slice of a token is a formula of that token only. -/
lemma ofText_slice {p : Position} {c : Char} {cs : List Char} {s : Scanned Kind}
    (hbegins : BeginsToken (c :: cs)) (h : scan p c cs = .ok s) :
    ∃ tail, cs = tail ++ s.rest ∧ s.position = p.after (c :: tail) ∧
      ∃ l, ofText (String.ofList (c :: tail)) = .ok [⟨s.value, l⟩] := by
  obtain ⟨tail, rfl, hposition, hscan⟩ := scan_slice h
  have hbegins' : BeginsToken (c :: tail) := by
    obtain ⟨d, ds, heq, hblank, hslash⟩ := hbegins
    obtain ⟨rfl, rfl⟩ := List.cons.inj heq
    refine ⟨c, tail, rfl, hblank, fun hc d hd => hslash hc d ?_⟩
    rw [Option.mem_def] at hd
    simp [List.head?_append, hd]
  refine ⟨tail, rfl, hposition, ⟨.start, Position.start.after (c :: tail)⟩, ?_⟩
  rw [ofText, String.toList_ofList, hbegins'.skipTrivia]
  dsimp only
  rw [skipLead_of_scan (hscan .start)]
  dsimp only
  rw [tokensFrom_eq, hbegins'.skipTrivia]
  dsimp only
  rw [hscan]
  dsimp only
  rw [tokensFrom_nil]
  rfl

/-! ## Pieces -/

/-- A token with the characters it is read from and the gap before them. -/
structure Piece where
  gap : List Char
  slice : List Char
  token : Token

namespace Piece

/-- The characters of a piece. -/
def text (x : Piece) : List Char := x.gap ++ x.slice

/-- The characters of a run of pieces. -/
def textOf (pieces : List Piece) : List Char := pieces.flatMap text

/-- The gap is blanks and closed comments, and the slice on its own is a formula of the same token
and no other. -/
structure IsRead (x : Piece) : Prop where
  gap : Trivia x.gap
  slice_ne_nil : x.slice ≠ []
  slice : ∃ l, ofText (String.ofList x.slice) = .ok [⟨x.token.kind, l⟩]

end Piece

/-- The tokens that are read from a place on, with the text between them. -/
lemma tokensFrom_pieces {p : Position} {cs : List Char} {ts : List Token}
    (h : tokensFrom p cs = .ok ts) :
    ∃ pieces tail, cs = Piece.textOf pieces ++ tail ∧ pieces.map Piece.token = ts ∧
      (∀ x ∈ pieces, x.IsRead) ∧ Trailing tail ∧
      ∀ left x right, pieces = left ++ x :: right → x.token.location =
        ⟨p.after (Piece.textOf left ++ x.gap), p.after (Piece.textOf left ++ x.text)⟩ := by
  fun_induction tokensFrom p cs generalizing ts with
  | case1 | case3 => cases h
  | case2 p cs q hskip =>
    cases h
    obtain ⟨tail, rfl, -, hfills, -⟩ := skipGap_covers hskip
    refine ⟨[], tail, by simp [Piece.textOf], rfl, by simp, hfills.trailing, ?_⟩
    intro left x right heq
    simp at heq
  | case4 p cs q c rest hskip s hscan ih =>
    obtain ⟨ts', hrest, rfl⟩ := map_eq_ok.1 h
    obtain ⟨gap, rfl, rfl, hfills, hbegins⟩ := skipGap_covers hskip
    have hne : c :: rest ≠ [] := List.cons_ne_nil c rest
    obtain ⟨slice, rfl, hposition, hslice⟩ := ofText_slice (hbegins hne) hscan
    obtain ⟨pieces, tail, hrest', rfl, hread, htail, hplaces⟩ := ih hrest
    let first : Piece := ⟨gap, c :: slice, ⟨s.value, ⟨p.after gap, s.position⟩⟩⟩
    have hfirst : s.position = p.after first.text := by
      rw [hposition, Piece.text, Position.after_append]
    refine ⟨first :: pieces, tail, ?_, rfl, ?_, htail, ?_⟩
    · rw [hrest']
      simp [Piece.textOf, Piece.text, first]
    · exact List.forall_mem_cons.2 ⟨⟨hfills.closed hne, List.cons_ne_nil _ _, hslice⟩, hread⟩
    · intro left x right heq
      cases left with
      | nil =>
        obtain ⟨rfl, rfl⟩ := List.cons.inj heq
        show Location.mk (p.after gap) s.position = _
        rw [hfirst]
        rfl
      | cons y left =>
        obtain ⟨rfl, heq'⟩ := List.cons.inj heq
        rw [hplaces left x right heq', hfirst]
        simp only [Piece.textOf, List.flatMap_cons, List.append_assoc, Position.after_append]

/-- A gap that is skipped already is not missed. -/
lemma tokensFrom_skip {p q : Position} {cs rest : List Char}
    (h : skipTrivia p cs = .ok (q, rest)) : tokensFrom p cs = tokensFrom q rest := by
  have hskip : skipTrivia q rest = .ok (q, rest) := by
    obtain ⟨-, -, -, -, hbegins⟩ := skipGap_covers h
    by_cases hne : rest = []
    · rw [hne]
      rfl
    · exact (hbegins hne).skipTrivia q
  rw [tokensFrom_eq p, tokensFrom_eq q, h, hskip]

/-- What is left out before the first gap: nothing, or an equals sign with the gap before it. -/
def IsLead (lead : List Char) : Prop := lead = [] ∨ ∃ gap, Trivia gap ∧ lead = gap ++ ['=']

/-- Reading a formula is reading tokens from a place, but for the equals sign. -/
lemma ofText_eq_ok {s : String} {ts : List Token} (h : ofText s = .ok ts) :
    ∃ lead body, s.toList = lead ++ body ∧ IsLead lead ∧
      tokensFrom (Position.start.after lead) body = .ok ts := by
  unfold ofText at h
  split at h
  · cases h
  · rename_i place hskip
    obtain ⟨q, rest⟩ := place
    obtain ⟨gap, hgap, rfl, hfills, -⟩ := skipGap_covers hskip
    revert h
    dsimp only
    generalize hplace : (Position.start.after gap, rest) = place
    fun_cases skipLead place with
    | case1 p cs | case3 p cs =>
      intro h
      cases hplace
      exact ⟨[], s.toList, rfl, .inl rfl, (tokensFrom_skip hskip).trans h⟩
    | case2 p cs =>
      intro h
      cases hplace
      refine ⟨gap ++ ['='], cs, by simp [hgap], .inr ⟨gap, hfills.closed (by simp), rfl⟩, ?_⟩
      rw [Position.after_append]
      exact h

/-- A way to cut a formula into the tokens and what lies between them. -/
structure Partition (s : String) (tokens : List Token) where
  lead : List Char
  pieces : List Piece
  tail : List Char
  text_eq : s.toList = lead ++ (Piece.textOf pieces ++ tail)
  tokens_eq : pieces.map Piece.token = tokens
  isLead : IsLead lead
  isRead : ∀ x ∈ pieces, x.IsRead
  trailing : Trailing tail
  /-- A token stands between the place before its slice and the place after it. -/
  location_eq : ∀ left x right, pieces = left ++ x :: right → x.token.location =
    ⟨Position.reached (lead ++ (Piece.textOf left ++ x.gap)),
      Position.reached (lead ++ (Piece.textOf left ++ (x.gap ++ x.slice)))⟩

/-- **The tokens and the gaps between them are the text.**  A formula that can be read is a run of
pieces, one for each token, between perhaps an equals sign and a last gap.  The location of a token
is told by the line feeds and the characters before its slice and up to the end of it. -/
theorem nonempty_partition (s : String) (tokens : List Token) (h : ofText s = .ok tokens) :
    Nonempty (Partition s tokens) := by
  obtain ⟨lead, body, hs, hlead, hbody⟩ := ofText_eq_ok h
  obtain ⟨pieces, tail, rfl, htokens, hread, htail, hplaces⟩ := tokensFrom_pieces hbody
  refine ⟨lead, pieces, tail, hs, htokens, hlead, hread, htail, fun left x right heq => ?_⟩
  rw [hplaces left x right heq]
  simp only [← Position.after_start, Position.after_append, Piece.text]

/-- An equals sign before the first token, comments of both kinds, a number that a point ends, and
a text over two lines. -/
def commented : String := "= /* = */ .5e1.x // note\n=== 'a\\\nb' //"

/-- The tokens of `commented`. -/
def commentedTokens : List Token :=
  [⟨.number (.ofNat 5), ⟨⟨1, 10⟩, ⟨1, 14⟩⟩⟩, ⟨.dot, ⟨⟨1, 14⟩, ⟨1, 15⟩⟩⟩,
    ⟨.identifier "x", ⟨⟨1, 15⟩, ⟨1, 16⟩⟩⟩, ⟨.operator .strictEqual, ⟨⟨2, 0⟩, ⟨2, 3⟩⟩⟩,
    ⟨.text "a\nb", ⟨⟨2, 4⟩, ⟨3, 2⟩⟩⟩]

theorem nonempty_partition_commented :
    ofText commented = .ok commentedTokens ∧ Nonempty (Partition commented commentedTokens) := by
  have h : ofText commented = .ok commentedTokens := by decide +kernel
  exact ⟨h, nonempty_partition commented commentedTokens h⟩

end Token

end FormulaTree
