import FormulaTree.Proofs.Token.Partition
import FormulaTree.Text.Lines

/-!
# Line ends after a formula

A text may end with line ends, and a formula is read alike with and without them.  Line ends are
blank, so this is plain where a formula ends between two tokens; but a formula can end anywhere:
within a comment or a text between quotes, after a backslash, within an escape, or after a character
that would begin a longer token if another one came next.

For each scanner there is one lemma: it gives the same answer if line ends are added to the text,
except that it leaves them, too (`Scanned.before`).  Errors are the same, except that a text or a
comment without an end is blamed up to another place (`ScanError.Alike`).
-/

namespace FormulaTree

open Text (isLineEnd)

/-! ## Line ends -/

/-- There are only line ends. -/
def Text.LineEnds (ends : List Char) : Prop := ∀ c ∈ ends, isLineEnd c = true

open Text (LineEnds)

variable {ends cs : List Char} {c : Char} {p start stop : Position}

lemma Text.eq_of_isLineEnd (h : isLineEnd c = true) : c = '\n' ∨ c = '\r' := by
  simpa [isLineEnd] using h

/-- What holds of neither of the two characters that end a line holds of no line end. -/
lemma Text.eq_false_of_isLineEnd {f : Char → Bool} (hfeed : f '\n' = false)
    (hreturn : f '\r' = false) (h : isLineEnd c = true) : f c = false := by
  rcases eq_of_isLineEnd h with rfl | rfl
  · exact hfeed
  · exact hreturn

lemma Text.ne_of_isLineEnd {d : Char} (h : isLineEnd c = true) (hd : isLineEnd d = false) :
    c ≠ d := by
  rintro rfl
  rw [h] at hd
  cases hd

namespace Text.LineEnds

variable {f : Char → Bool}

/-- A character that ends no line and comes first among characters and line ends is one of the
characters. -/
lemma eq_cons_of_append (h : LineEnds ends) {d : Char} {ds : List Char}
    (hd : isLineEnd d = false) (heq : cs ++ ends = d :: ds) :
    ∃ es, cs = d :: es ∧ ds = es ++ ends := by
  cases cs with
  | nil =>
    obtain rfl : ends = d :: ds := heq
    rw [h d List.mem_cons_self] at hd
    cases hd
  | cons e es =>
    obtain ⟨rfl, rfl⟩ := List.cons.inj heq
    exact ⟨es, rfl, rfl⟩

/-- Line ends do not add what is not there. -/
lemma append_ne_cons (h : LineEnds ends) {d : Char} (hd : isLineEnd d = false)
    (hne : ∀ ds, cs = d :: ds → False) (ds : List Char) : cs ++ ends = d :: ds → False := by
  intro heq
  obtain ⟨es, hcs, -⟩ := h.eq_cons_of_append hd heq
  exact hne es hcs

lemma append_ne_cons_cons (h : LineEnds ends) {d e : Char} (hd : isLineEnd d = false)
    (he : isLineEnd e = false) (hne : ∀ ds, cs = d :: e :: ds → False) (ds : List Char) :
    cs ++ ends = d :: e :: ds → False := by
  intro heq
  obtain ⟨es, rfl, hes⟩ := h.eq_cons_of_append hd heq
  obtain ⟨fs, rfl, -⟩ := h.eq_cons_of_append he hes.symm
  exact hne fs rfl

lemma takeWhile_append (h : LineEnds ends) (hfeed : f '\n' = false) (hreturn : f '\r' = false)
    (cs : List Char) : (cs ++ ends).takeWhile f = cs.takeWhile f := by
  induction cs with
  | nil =>
    cases ends with
    | nil => rfl
    | cons e ends =>
      have he := eq_false_of_isLineEnd hfeed hreturn (h e List.mem_cons_self)
      simp [he]
  | cons c cs ih => simp [List.takeWhile_cons, ih]

lemma dropWhile_append (h : LineEnds ends) (hfeed : f '\n' = false) (hreturn : f '\r' = false)
    (cs : List Char) : (cs ++ ends).dropWhile f = cs.dropWhile f ++ ends := by
  induction cs with
  | nil =>
    cases ends with
    | nil => rfl
    | cons e ends =>
      have he := eq_false_of_isLineEnd hfeed hreturn (h e List.mem_cons_self)
      simp [he]
  | cons c cs ih =>
    rw [List.cons_append, List.dropWhile_cons, List.dropWhile_cons, ih]
    split <;> rfl

lemma any_head_append (h : LineEnds ends) (hfeed : f '\n' = false) (hreturn : f '\r' = false)
    (cs : List Char) : (cs ++ ends).head?.any f = cs.head?.any f := by
  cases cs with
  | cons c cs => rfl
  | nil =>
    cases ends with
    | nil => rfl
    | cons e ends => exact eq_false_of_isLineEnd hfeed hreturn (h e List.mem_cons_self)

end Text.LineEnds

/-! ## Answers that agree -/

/-- The same error, but for the end of what is blamed if that is a text or a comment without an
end. -/
structure ScanError.Alike (e f : ScanError) : Prop where
  cause : e.cause = f.cause
  start : e.location.start = f.location.start
  stop : e.location.stop = f.location.stop ∨ e.cause = .unterminatedText ∨
    e.cause = .unterminatedComment

lemma ScanError.Alike.refl (e : ScanError) : e.Alike e := ⟨rfl, rfl, .inl rfl⟩

/-- Two scanners both succeed, with related values, or both fail, with errors that are alike. -/
inductive Agree {α β : Type} (Q : α → β → Prop) : Except ScanError α → Except ScanError β → Prop
  | ok {a : α} {b : β} (h : Q a b) : Agree Q (.ok a) (.ok b)
  | error {e f : ScanError} (h : e.Alike f) : Agree Q (.error e) (.error f)

lemma Agree.exists_ok {α β : Type} {Q : α → β → Prop} {a : α} {y : Except ScanError β}
    (h : Agree Q (.ok a) y) : ∃ b, y = .ok b ∧ Q a b := by
  cases h with
  | ok hab => exact ⟨_, rfl, hab⟩

lemma Agree.exists_error {α β : Type} {Q : α → β → Prop} {e : ScanError} {y : Except ScanError β}
    (h : Agree Q (.error e) y) : ∃ f, y = .error f ∧ e.Alike f := by
  cases h with
  | error hef => exact ⟨_, rfl, hef⟩

lemma Agree.map {α β γ δ : Type} {Q : α → β → Prop} {R : γ → δ → Prop} {x : Except ScanError α}
    {y : Except ScanError β} {f : α → γ} {g : β → δ} (h : Agree Q x y)
    (hfg : ∀ a b, Q a b → R (f a) (g b)) : Agree R (x.map f) (y.map g) := by
  cases h with
  | ok h => exact .ok (hfg _ _ h)
  | error h => exact .error h

/-- The same reading of a text that goes on with more characters. -/
def Scanned.before {α : Type} (more : List Char) (s : Scanned α) : Scanned α :=
  ⟨s.value, s.position, s.rest ++ more⟩

/-- The second answer is the first one, but for line ends that are left. -/
abbrev AgreeBefore {α : Type} (ends : List Char) :
    Except ScanError (Scanned α) → Except ScanError (Scanned α) → Prop :=
  Agree fun s t => t = s.before ends

lemma AgreeBefore.of_eq {α : Type} {x y : Except ScanError (Scanned α)}
    (h : y = x.map (Scanned.before ends)) : AgreeBefore ends x y := by
  subst h
  cases x with
  | ok s => exact .ok rfl
  | error e => exact .error (.refl e)

lemma AgreeBefore.map {α β : Type} {x y : Except ScanError (Scanned α)} (f : α → β)
    (h : AgreeBefore ends x y) : AgreeBefore ends (x.map (·.map f)) (y.map (·.map f)) :=
  Agree.map h fun s t hst => by rw [hst]; rfl

/-! ## Quoted text -/

namespace Text

variable {mark : Char}

/-- A text does not end with the line. -/
lemma readQuoted_plain_ends (h : LineEnds ends) (hmark : isLineEnd mark = false)
    (opened p : Position) :
    ∃ q, readQuoted opened mark .plain p ends = .error ⟨.unterminatedText, ⟨opened, q⟩⟩ := by
  induction ends generalizing p with
  | nil => exact ⟨p, rfl⟩
  | cons c ends ih =>
    obtain ⟨hc, hends⟩ := List.forall_mem_cons.1 h
    rw [readQuoted]
    split_ifs with hfeed hquote hbackslash
    · exact ⟨p, rfl⟩
    · exact absurd hquote (ne_of_isLineEnd hc hmark)
    · exact absurd hbackslash (ne_of_isLineEnd hc rfl)
    · obtain ⟨q, hq⟩ := ih hends (p.next c)
      exact ⟨q, by rw [hq]; rfl⟩

/-- A line end after a backslash stands for itself, and the text goes on. -/
lemma readQuoted_escaped_ends (h : LineEnds ends) (hmark : isLineEnd mark = false)
    (opened p : Position) :
    ∃ q, readQuoted opened mark .escaped p ends = .error ⟨.unterminatedText, ⟨opened, q⟩⟩ := by
  cases ends with
  | nil => exact ⟨p, rfl⟩
  | cons c ends =>
    obtain ⟨hc, hends⟩ := List.forall_mem_cons.1 h
    obtain ⟨q, hq⟩ := readQuoted_plain_ends hends hmark opened (p.next c)
    refine ⟨q, ?_⟩
    rw [readQuoted, if_neg (ne_of_isLineEnd hc rfl), if_neg (ne_of_isLineEnd hc rfl), hq]
    rfl

lemma readQuoted_append_ends (h : LineEnds ends) (hmark : isLineEnd mark = false)
    (opened p : Position) (state : QuoteState) (cs : List Char) :
    AgreeBefore ends (readQuoted opened mark state p cs)
      (readQuoted opened mark state p (cs ++ ends)) := by
  fun_induction readQuoted opened mark state p cs with
  | case1 p =>
    obtain ⟨q, hq⟩ := readQuoted_plain_ends h hmark opened p
    rw [List.nil_append, hq]
    exact .error ⟨rfl, rfl, .inr (.inl rfl)⟩
  | case2 p cs => exact .error (.refl _)
  | case3 p cs hfeed =>
    rw [List.cons_append, readQuoted, if_neg hfeed, if_pos rfl]
    exact .ok rfl
  | case4 p cs hfeed hquote ih =>
    rw [List.cons_append, readQuoted, if_neg hfeed, if_neg hquote, if_pos rfl]
    exact ih
  | case5 p c cs hfeed hquote hbackslash ih =>
    rw [List.cons_append, readQuoted, if_neg hfeed, if_neg hquote, if_neg hbackslash]
    exact ih.map _
  | case6 p =>
    obtain ⟨q, hq⟩ := readQuoted_escaped_ends h hmark opened p
    rw [List.nil_append, hq]
    exact .error ⟨rfl, rfl, .inr (.inl rfl)⟩
  | case7 p cs ih => exact ih
  | case8 p cs hx ih => exact ih
  | case9 p c cs hx hu ih =>
    rw [List.cons_append, readQuoted, if_neg hx, if_neg hu]
    exact ih.map _
  | case10 start missing value p =>
    -- No digit is a line end, so that the escape fails at the same place.
    cases ends with
    | nil => exact .error (.refl _)
    | cons c ends =>
      have hnone : hexValue? c = none := by
        rcases eq_of_isLineEnd (h c List.mem_cons_self) with rfl | rfl <;> rfl
      rw [List.nil_append, readQuoted, hnone]
      exact .error (.refl _)
  | case11 start missing value p c cs hnone =>
    rw [List.cons_append, readQuoted, hnone]
    exact .error (.refl _)
  | case12 =>
    rename_i hdigit _ hmore ih
    rw [List.cons_append, readQuoted, hdigit]
    dsimp only
    rw [if_pos hmore]
    exact ih
  | case13 =>
    rename_i hdigit _ hlast hvalid ih
    rw [List.cons_append, readQuoted, hdigit]
    dsimp only
    rw [if_neg hlast, if_pos hvalid]
    exact ih.map _
  | case14 =>
    rename_i hdigit _ hlast hvalid
    rw [List.cons_append, readQuoted, hdigit]
    dsimp only
    rw [if_neg hlast, if_neg hvalid]
    exact .error (.refl _)

end Text

namespace Token

/-! ## Gaps -/

lemma isBlank_of_isLineEnd (h : isLineEnd c = true) : Text.isBlank c = true := by
  rcases Text.eq_of_isLineEnd h with rfl | rfl <;> rfl

/-- Line ends are skipped, whether or not a comment ends with them. -/
lemma skipGap_ends (h : LineEnds ends) {gap : Gap} (hgap : gap = .blanks ∨ gap = .lineComment)
    (p : Position) : ∃ q, skipGap gap p ends = .ok (q, []) := by
  induction ends generalizing gap p with
  | nil => rcases hgap with rfl | rfl <;> exact ⟨p, rfl⟩
  | cons c ends ih =>
    obtain ⟨hc, hends⟩ := List.forall_mem_cons.1 h
    have hslash : c ≠ '/' := Text.ne_of_isLineEnd hc rfl
    rcases hgap with rfl | rfl
    · rw [skipGap, if_pos (isBlank_of_isLineEnd hc)]
      · exact ih hends (.inl rfl) (p.next c)
      · exact fun _ heq => absurd heq hslash
      · exact fun _ heq => absurd heq hslash
    · rw [skipGap]
      split_ifs
      · exact ih hends (.inl rfl) (p.next c)
      · exact ih hends (.inr rfl) (p.next c)

/-- A comment that is still open is not closed by line ends. -/
lemma skipGap_blockComment_ends (h : LineEnds ends) (opened p : Position) :
    ∃ q, skipGap (.blockComment opened) p ends =
      .error ⟨.unterminatedComment, ⟨opened, q⟩⟩ := by
  induction ends generalizing p with
  | nil => exact ⟨p, rfl⟩
  | cons c ends ih =>
    obtain ⟨hc, hends⟩ := List.forall_mem_cons.1 h
    rw [skipGap]
    · exact ih hends (p.next c)
    · exact fun _ heq => absurd heq (Text.ne_of_isLineEnd hc rfl)

/-- The same place with the same characters ahead, but for line ends; at the end of the text, some
place with nothing ahead. -/
def SamePlace (ends : List Char) (a b : Position × List Char) : Prop :=
  (a.2 = [] ∧ b.2 = []) ∨ (a.2 ≠ [] ∧ b = (a.1, a.2 ++ ends))

lemma skipGap_append_ends (h : LineEnds ends) (gap : Gap) (p : Position) (cs : List Char) :
    Agree (SamePlace ends) (skipGap gap p cs) (skipGap gap p (cs ++ ends)) := by
  fun_induction skipGap gap p cs with
  | case1 p =>
    obtain ⟨q, hq⟩ := skipGap_ends h (.inl rfl) p
    rw [List.nil_append, hq]
    exact .ok (.inl ⟨rfl, rfl⟩)
  | case2 p cs ih | case3 p cs ih | case10 opened p cs ih => exact ih
  | case4 p c cs hline hblock hblank ih =>
    have hslash : c ≠ '/' := by
      rintro rfl
      cases hblank
    rw [List.cons_append, skipGap, if_pos hblank]
    · exact ih
    · exact fun _ heq => absurd heq hslash
    · exact fun _ heq => absurd heq hslash
  | case5 p c cs hline hblock hblank =>
    rw [List.cons_append, skipGap, if_neg hblank]
    · exact .ok (.inr ⟨List.cons_ne_nil c cs, rfl⟩)
    · exact fun ds hc => h.append_ne_cons rfl (fun es => hline es hc) ds
    · exact fun ds hc => h.append_ne_cons rfl (fun es => hblock es hc) ds
  | case6 p =>
    obtain ⟨q, hq⟩ := skipGap_ends h (.inr rfl) p
    rw [List.nil_append, hq]
    exact .ok (.inl ⟨rfl, rfl⟩)
  | case7 p cs ih => exact ih
  | case8 p c cs hc ih =>
    rw [List.cons_append, skipGap, if_neg hc]
    exact ih
  | case9 opened p =>
    obtain ⟨q, hq⟩ := skipGap_blockComment_ends h opened p
    rw [List.nil_append, hq]
    exact .error ⟨rfl, rfl, .inr (.inr rfl)⟩
  | case11 opened p c cs hclose ih =>
    rw [List.cons_append, skipGap]
    · exact ih
    · exact fun ds hc => h.append_ne_cons rfl (fun es => hclose es hc) ds

end Token

/-! ## Numbers -/

namespace Numeral

lemma readFraction_append_ends (h : LineEnds ends) (cs : List Char) :
    readFraction (cs ++ ends) = ((readFraction cs).1, (readFraction cs).2 ++ ends) := by
  fun_cases readFraction cs with
  | case1 cs =>
    rw [List.cons_append, readFraction, h.takeWhile_append rfl rfl, h.dropWhile_append rfl rfl]
  | case2 cs hpoint =>
    rw [readFraction]
    exact h.append_ne_cons rfl hpoint

lemma readSign_append_ends (h : LineEnds ends) (cs : List Char) :
    readSign (cs ++ ends) = ((readSign cs).1, (readSign cs).2 ++ ends) := by
  fun_cases readSign cs with
  | case1 cs | case2 cs => rfl
  | case3 cs hplus hminus =>
    rw [readSign]
    · exact h.append_ne_cons rfl hplus
    · exact h.append_ne_cons rfl hminus

lemma readExponent_append_ends (h : LineEnds ends) (cs : List Char) :
    readExponent (cs ++ ends) = ((readExponent cs).1, (readExponent cs).2 ++ ends) := by
  cases cs with
  | nil =>
    cases ends with
    | nil => rfl
    | cons e ends =>
      have he := h e List.mem_cons_self
      have hmark : ¬(e = 'e' ∨ e = 'E') :=
        not_or.2 ⟨Text.ne_of_isLineEnd he rfl, Text.ne_of_isLineEnd he rfl⟩
      show readExponent (e :: ends) = (none, e :: ends)
      rw [readExponent, if_neg hmark]
  | cons c cs =>
    rw [List.cons_append, readExponent, readExponent]
    split_ifs
    · dsimp only
      rw [readSign_append_ends h, h.takeWhile_append rfl rfl, h.dropWhile_append rfl rfl]
    · rfl

/-- A numeral goes on to the same character, whether or not it has a value. -/
lemma read_append_ends (h : LineEnds ends) (cs : List Char) :
    read (cs ++ ends) = ((read cs).1, (read cs).2 ++ ends) := by
  have htake := h.takeWhile_append (f := Char.isDigit) rfl rfl cs
  have hdrop := h.dropWhile_append (f := Char.isDigit) rfl rfl cs
  simp only [read, htake, hdrop, readFraction_append_ends h, readExponent_append_ends h]

end Numeral

namespace Token

lemma isNamePart_of_isLineEnd (h : isLineEnd c = true) : isNamePart c = false :=
  isNamePart_of_isBlank (isBlank_of_isLineEnd h)

lemma closeNumber_append_ends (h : LineEnds ends) (lead written rest : List Char)
    (value? : Option Number) : closeNumber start stop lead written (rest ++ ends) value? =
      (closeNumber start stop lead written rest value?).map (Scanned.before ends) := by
  cases rest with
  | nil =>
    cases ends with
    | nil => cases value? <;> rfl
    | cons e ends =>
      have he := isNamePart_of_isLineEnd (h e List.mem_cons_self)
      cases value? <;> simp [closeNumber, he, Except.map, Scanned.before]
  | cons c cs =>
    rw [List.cons_append]
    by_cases hpart : isNamePart c = true
    · simp [closeNumber, hpart, Except.map]
    · cases value? <;> simp [closeNumber, hpart, Except.map, Scanned.before]

lemma scanHex_append_ends (h : LineEnds ends) (cs : List Char) :
    scanHex start stop (cs ++ ends) = (scanHex start stop cs).map (Scanned.before ends) := by
  rw [scanHex, scanHex, h.takeWhile_append rfl rfl, h.dropWhile_append rfl rfl]
  exact closeNumber_append_ends h _ _ _ _

lemma scanDecimal_append_ends (h : LineEnds ends) (p : Position) (cs : List Char) :
    scanDecimal p (cs ++ ends) = (scanDecimal p cs).map (Scanned.before ends) := by
  rw [scanDecimal, scanDecimal, Numeral.read_append_ends h]
  exact closeNumber_append_ends h _ _ _ _

lemma scanNumber_append_ends (h : LineEnds ends) (p : Position) (cs : List Char) :
    scanNumber p (cs ++ ends) = (scanNumber p cs).map (Scanned.before ends) := by
  fun_cases scanNumber p cs with
  | case1 cs | case2 cs => exact scanHex_append_ends h cs
  | case3 cs hx hX =>
    rw [scanNumber]
    · exact scanDecimal_append_ends h p cs
    · exact h.append_ne_cons_cons rfl rfl hx
    · exact h.append_ne_cons_cons rfl rfl hX

lemma startsNumber_append_ends (h : LineEnds ends) (c : Char) (cs : List Char) :
    startsNumber (c :: (cs ++ ends)) = startsNumber (c :: cs) := by
  by_cases hpoint : c = '.'
  · subst hpoint
    have hdigit : ∀ ds : List Char, startsNumber ('.' :: ds) = ds.head?.any Char.isDigit := by
      intro ds
      cases ds <;> rfl
    rw [hdigit, hdigit, h.any_head_append rfl rfl]
  · rw [startsNumber_eq_isDigit hpoint, startsNumber_eq_isDigit hpoint]

/-! ## Signs -/

lemma takeSign_append_ends (h : LineEnds ends) (cs : List Char) :
    takeSign (cs ++ ends) = (takeSign cs).map fun taken => (taken.1, taken.2 ++ ends) := by
  fun_cases takeSign cs with
  | case1 cs | case2 cs | case3 cs | case4 cs | case5 cs | case6 cs | case8 cs | case10 cs
  | case12 cs | case14 cs | case16 cs => rfl
  | case7 cs hne | case9 cs hne | case11 cs hne | case13 cs hne | case15 cs hne | case17 cs hne =>
    simp only [List.cons_append]
    rw [takeSign]
    · rfl
    · exact h.append_ne_cons rfl hne
  | case18 cs hstrict hne =>
    rw [List.cons_append, takeSign]
    · rfl
    · exact fun ds => h.append_ne_cons rfl hne ('=' :: ds)
    · exact h.append_ne_cons rfl hne
  | case19 cs _ _ _ _ _ _ _ _ _ _ _ _ _ _ hequal =>
    have hequals := h.append_ne_cons_cons rfl rfl hequal
    show takeSign (cs ++ ends) = none
    rw [takeSign]
    -- Every sign is ruled out by its first character, but an equals sign can stand alone.
    all_goals first
      | exact hequals
      | exact fun ds => hequals ('=' :: ds)
      | exact fun ds => h.append_ne_cons rfl (by assumption) _

/-! ## Tokens -/

lemma scan_append_ends (h : LineEnds ends) (p : Position) (c : Char) (cs : List Char) :
    AgreeBefore ends (scan p c cs) (scan p c (cs ++ ends)) := by
  have hnumber := startsNumber_append_ends h c cs
  have hstart := h.any_head_append (f := isNameStart) rfl rfl cs
  have htake := h.takeWhile_append (f := isNamePart) rfl rfl cs
  have hdrop := h.dropWhile_append (f := isNamePart) rfl rfl cs
  have hsign := takeSign_append_ends h (c :: cs)
  rw [List.cons_append] at hsign
  fun_cases scan p c cs with
  | case1 hquote =>
    rw [scan, if_pos hquote]
    refine (Text.readQuoted_append_ends h ?_ p (p.next c) .plain cs).map _
    rcases hquote with rfl | rfl <;> rfl
  | case2 hquote hbegins =>
    rw [scan, if_neg hquote, hnumber, if_pos hbegins]
    exact .of_eq (scanNumber_append_ends h p (c :: cs))
  | case3 hquote hbegins hat hname =>
    rw [scan, if_neg hquote, hnumber, if_neg hbegins, if_pos hat, hstart, if_pos hname, htake,
      hdrop]
    exact .ok rfl
  | case4 hquote hbegins hat hname =>
    rw [scan, if_neg hquote, hnumber, if_neg hbegins, if_pos hat, hstart, if_neg hname]
    exact .error (.refl _)
  | case5 hquote hbegins hat hname =>
    rw [scan, if_neg hquote, hnumber, if_neg hbegins, if_neg hat, if_pos hname, htake, hdrop]
    exact .ok rfl
  | case6 hquote hbegins hat hname kind hmark =>
    rw [scan, if_neg hquote, hnumber, if_neg hbegins, if_neg hat, if_neg hname, hmark]
    exact .ok rfl
  | case7 hquote hbegins hat hname sign rest htaken hmark =>
    rw [scan, if_neg hquote, hnumber, if_neg hbegins, if_neg hat, if_neg hname, hmark, hsign,
      htaken]
    exact .ok rfl
  | case8 hquote hbegins hat hname hnone hmark hequal =>
    rw [scan, if_neg hquote, hnumber, if_neg hbegins, if_neg hat, if_neg hname, hmark, hsign, hnone]
    dsimp only [Option.map_none]
    rw [if_pos hequal]
    exact .error (.refl _)
  | case9 hquote hbegins hat hname hnone hmark hequal =>
    rw [scan, if_neg hquote, hnumber, if_neg hbegins, if_neg hat, if_neg hname, hmark, hsign, hnone]
    dsimp only [Option.map_none]
    rw [if_neg hequal]
    exact .error (.refl _)

lemma skipTrivia_append_ends (h : LineEnds ends) (p : Position) (cs : List Char) :
    Agree (SamePlace ends) (skipTrivia p cs) (skipTrivia p (cs ++ ends)) :=
  skipGap_append_ends h .blanks p cs

/-- Line ends add no token, and take none away. -/
lemma tokensFrom_append_ends (h : LineEnds ends) (p : Position) (cs : List Char) :
    Agree Eq (tokensFrom p cs) (tokensFrom p (cs ++ ends)) := by
  have hgap := skipTrivia_append_ends h p cs
  fun_induction tokensFrom p cs with
  | case1 p cs e hskip =>
    rw [hskip] at hgap
    obtain ⟨f, hskip', halike⟩ := hgap.exists_error
    rw [tokensFrom_eq, hskip']
    exact .error halike
  | case2 p cs q hskip =>
    rw [hskip] at hgap
    obtain ⟨⟨q', rest⟩, hskip', hplace⟩ := hgap.exists_ok
    rcases hplace with ⟨-, hnil⟩ | ⟨hne, -⟩
    · obtain rfl : rest = [] := hnil
      rw [tokensFrom_eq, hskip']
      exact .ok rfl
    · exact absurd rfl hne
  | case3 p cs q c rest hskip e hscan =>
    rw [hskip] at hgap
    obtain ⟨_, hskip', hplace⟩ := hgap.exists_ok
    have htoken := scan_append_ends h q c rest
    rw [hscan] at htoken
    obtain ⟨f, hscan', halike⟩ := htoken.exists_error
    rcases hplace with ⟨hnil, -⟩ | ⟨-, rfl⟩
    · cases hnil
    · rw [tokensFrom_eq, hskip']
      dsimp only [List.cons_append]
      rw [hscan']
      exact .error halike
  | case4 p cs q c rest hskip s hscan ih =>
    rw [hskip] at hgap
    obtain ⟨_, hskip', hplace⟩ := hgap.exists_ok
    have htoken := scan_append_ends h q c rest
    rw [hscan] at htoken
    obtain ⟨_, hscan', rfl⟩ := htoken.exists_ok
    rcases hplace with ⟨hnil, -⟩ | ⟨-, rfl⟩
    · cases hnil
    · rw [tokensFrom_eq p (cs ++ ends), hskip']
      dsimp only [List.cons_append]
      rw [hscan']
      refine (ih (skipTrivia_append_ends h s.position s.rest)).map fun ts us hts => ?_
      rw [hts]
      rfl

lemma skipLead_append_ends (h : LineEnds ends) (p : Position) (cs : List Char) :
    skipLead (p, cs ++ ends) = ((skipLead (p, cs)).1, (skipLead (p, cs)).2 ++ ends) := by
  generalize hplace : (p, cs) = place
  fun_cases skipLead place with
  | case1 q ds =>
    cases hplace
    rfl
  | case2 q ds hne =>
    cases hplace
    rw [List.cons_append, skipLead]
    exact h.append_ne_cons rfl hne
  | case3 q ds hdouble hsingle =>
    cases hplace
    rw [skipLead]
    · exact fun es => h.append_ne_cons rfl hsingle ('=' :: es)
    · exact h.append_ne_cons rfl hsingle

/-- **Line ends after a formula make no difference to its tokens**, nor, if it has none, to what is
wrong with it. -/
theorem ofText_append_ends (h : LineEnds ends) (cs : List Char) :
    Agree Eq (ofText (String.ofList cs)) (ofText (String.ofList (cs ++ ends))) := by
  have hgap := skipTrivia_append_ends h .start cs
  simp only [ofText, String.toList_ofList]
  cases hskip : skipTrivia .start cs with
  | error e =>
    rw [hskip] at hgap
    obtain ⟨f, hskip', halike⟩ := hgap.exists_error
    rw [hskip']
    exact .error halike
  | ok place =>
    rw [hskip] at hgap
    obtain ⟨place', hskip', hsame⟩ := hgap.exists_ok
    rw [hskip']
    dsimp only
    rcases hsame with ⟨hnil, hnil'⟩ | ⟨-, rfl⟩
    · obtain ⟨q, _⟩ := place
      obtain ⟨q', _⟩ := place'
      obtain rfl : _ = [] := hnil
      obtain rfl : _ = [] := hnil'
      show Agree Eq (tokensFrom q []) (tokensFrom q' [])
      rw [tokensFrom_nil, tokensFrom_nil]
      exact .ok rfl
    · rw [skipLead_append_ends h]
      exact tokensFrom_append_ends h _ _

end Token

end FormulaTree
