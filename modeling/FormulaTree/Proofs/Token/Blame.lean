import FormulaTree.Proofs.Text.Lines
import FormulaTree.Proofs.Token.Partition

/-!
# Where reading text fails

A scanner stands at a place of the text and has the rest of it ahead (`Position.Faces`).  When it
fails it blames a stretch of the text, from a place where it stood to the one where it stands.  This
stretch begins on a line: with a quote, the letter of an escape, the slash of a comment, the first
character of a number, or a character that begins no token.  None of these ends a line, and no
character of a token does, but for those between quotes.  So a token begins and ends on a line.

`Answers` says this of every scanner, whether it succeeds or fails.
-/

namespace FormulaTree

open Position (reached)
open Text (IsOnLine isLineEnd)

/-! ## Places of a text -/

namespace Position

variable {text ahead cs : List Char} {p : Position} {c : Char}

/-- At this place of the text these characters are ahead. -/
def Faces (text : List Char) (p : Position) (ahead : List Char) : Prop :=
  ∃ passed, text = passed ++ ahead ∧ p = reached passed

/-- This place of the text is on a line. -/
def OnLine (text : List Char) (p : Position) : Prop :=
  ∃ before after, text = before ++ after ∧ p = reached before ∧ IsOnLine before after

lemma le_next {q : Position} (h : q ≤ p) (c : Char) : q ≤ p.next c := h.trans (p.lt_next c).le

lemma faces_start (text : List Char) : Faces text .start text := ⟨[], rfl, rfl⟩

lemma onLine_start (text : List Char) : OnLine text .start := ⟨[], text, rfl, rfl, .nil text⟩

namespace Faces

lemma after (h : Faces text p (cs ++ ahead)) : Faces text (p.after cs) ahead := by
  obtain ⟨passed, rfl, rfl⟩ := h
  refine ⟨passed ++ cs, (List.append_assoc ..).symm, ?_⟩
  rw [← after_start, ← after_start, after_append]

lemma next (h : Faces text p (c :: cs)) : Faces text (p.next c) cs := by
  have hstep : Faces text p ([c] ++ cs) := h
  exact hstep.after

/-- Before a character that ends no line, one is on a line. -/
lemma onLine (h : Faces text p (c :: cs)) (hc : isLineEnd c = false) : OnLine text p := by
  obtain ⟨passed, htext, hp⟩ := h
  exact ⟨passed, c :: cs, htext, hp, .of_head hc passed cs⟩

/-- After a character that ends no line, one is still on its line. -/
lemma onLine_next (h : Faces text p (c :: cs)) (hc : isLineEnd c = false) :
    OnLine text (p.next c) := by
  obtain ⟨passed, rfl, rfl⟩ := h
  refine ⟨passed ++ [c], cs, by simp, ?_, .of_last hc passed cs⟩
  rw [reached_append_singleton]

lemma onLine_after (h : Faces text p (cs ++ ahead)) (hp : OnLine text p)
    (hcs : ∀ c ∈ cs, isLineEnd c = false) : OnLine text (p.after cs) := by
  induction cs generalizing p with
  | nil => exact hp
  | cons c cs ih =>
    obtain ⟨hc, hcs⟩ := List.forall_mem_cons.1 hcs
    exact ih h.next (h.onLine_next hc) hcs

end Faces

end Position

open Position (Faces OnLine)

/-- The location is a stretch of the text and starts on a line. -/
structure Location.PointsInto (l : Location) (text : List Char) : Prop where
  start : OnLine text l.start
  stop : ∃ ahead, Faces text l.stop ahead
  le : l.start ≤ l.stop

/-- The answer is as it should be, or the error points into the text. -/
def Answers {α : Type} (text : List Char) (Q : α → Prop) : Except ScanError α → Prop
  | .ok a => Q a
  | .error e => e.location.PointsInto text

variable {text cs rest : List Char} {p start stop : Position} {c : Char}

lemma Answers.map {α β : Type} {Q : α → Prop} {R : β → Prop} {x : Except ScanError α} {f : α → β}
    (h : Answers text Q x) (hf : ∀ a, Q a → R (f a)) : Answers text R (x.map f) := by
  cases x with
  | error e => exact h
  | ok a => exact hf a h

/-! ## Characters that end no line -/

lemma isLineEnd_eq_false_of {f : Char → Bool} (hfeed : f '\n' = false) (hreturn : f '\r' = false)
    (h : f c = true) : isLineEnd c = false := by
  rw [isLineEnd, Bool.or_eq_false_iff, beq_eq_false_iff_ne, beq_eq_false_iff_ne]
  constructor
  · rintro rfl
    rw [hfeed] at h
    cases h
  · rintro rfl
    rw [hreturn] at h
    cases h

lemma isLineEnd_of_isBlank (h : Text.isBlank c = false) : isLineEnd c = false :=
  isLineEnd_eq_false_of (f := fun c => !Text.isBlank c) rfl rfl (by simpa using h)

lemma isLineEnd_of_mem_takeWhile {f : Char → Bool} (hfeed : f '\n' = false)
    (hreturn : f '\r' = false) (h : c ∈ cs.takeWhile f) : isLineEnd c = false :=
  isLineEnd_eq_false_of hfeed hreturn (List.all_eq_true.1 List.all_takeWhile c h)

/-! ## Quoted text -/

/-- An escape that is being read began on a line, and not later than here. -/
def Text.QuoteState.Began (text : List Char) (p : Position) : QuoteState → Prop
  | .code first _ _ => OnLine text first ∧ first ≤ p
  | _ => True

/-- Reading up to a closing quote ends behind it, or blames the opening one or an escape. -/
lemma Text.readQuoted_answers {opened : Position} {mark : Char} {state : QuoteState}
    (hmark : isLineEnd mark = false) (hopened : OnLine text opened) (hle : opened ≤ p)
    (hstate : state.Began text p) (hp : Faces text p cs) :
    Answers text (fun s => OnLine text s.position) (readQuoted opened mark state p cs) := by
  fun_induction readQuoted opened mark state p cs with
  | case1 | case2 | case6 => exact ⟨hopened, ⟨_, hp⟩, hle⟩
  | case3 => exact hp.onLine_next hmark
  | case4 p cs _ _ ih => exact ih (Position.le_next hle _) trivial hp.next
  | case5 p c cs _ _ _ ih | case9 p c cs _ _ ih =>
    exact (ih (Position.le_next hle c) trivial hp.next).map fun _ h => h
  | case7 p cs ih | case8 p cs _ ih =>
    -- An escape is blamed from its letter on, not from the backslash.
    exact ih (Position.le_next hle _) ⟨hp.onLine rfl, (p.lt_next _).le⟩ hp.next
  | case10 | case11 => exact ⟨hstate.1, ⟨_, hp⟩, hstate.2⟩
  | case12 =>
    rename_i p c cs digit _ _ _ ih
    exact ih (Position.le_next hle c) ⟨hstate.1, Position.le_next hstate.2 c⟩ hp.next
  | case13 =>
    rename_i p c cs digit _ _ _ _ ih
    exact (ih (Position.le_next hle c) trivial hp.next).map fun _ h => h
  | case14 =>
    rename_i p c cs _ _ _ _ _
    exact ⟨hstate.1, ⟨_, hp.next⟩, Position.le_next hstate.2 c⟩

namespace Token

/-! ## Gaps -/

/-- A comment that is being skipped began on a line, and not later than here. -/
def Gap.Began (text : List Char) (p : Position) : Gap → Prop
  | .blockComment opened => OnLine text opened ∧ opened ≤ p
  | _ => True

/-- Skipping a gap ends at a later place of the text, or blames a comment that is not closed. -/
lemma skipGap_answers {gap : Gap} (hgap : gap.Began text p) (hp : Faces text p cs) :
    Answers text (fun place => Faces text place.1 place.2) (skipGap gap p cs) := by
  fun_induction skipGap gap p cs with
  | case1 | case5 | case6 => exact hp
  | case2 p cs ih => exact ih trivial hp.next.next
  | case3 p cs ih =>
    exact ih ⟨hp.onLine rfl, Position.le_next (p.lt_next _).le _⟩ hp.next.next
  | case4 p c cs _ _ _ ih => exact ih trivial hp.next
  | case7 p cs ih => exact ih trivial hp.next
  | case8 p c cs _ ih => exact ih trivial hp.next
  | case9 => exact ⟨hgap.1, ⟨_, hp⟩, hgap.2⟩
  | case10 opened p cs ih => exact ih trivial hp.next.next
  | case11 opened p c cs _ ih => exact ih ⟨hgap.1, Position.le_next hgap.2 c⟩ hp.next

/-! ## Numbers -/

lemma closeNumber_answers {lead written : List Char} {value? : Option Number}
    (hstart : OnLine text start) (hle : start ≤ stop) (hline : OnLine text stop)
    (hstop : Faces text stop rest) : Answers text (fun s => OnLine text s.position)
      (closeNumber start stop lead written rest value?) := by
  fun_cases closeNumber start stop lead written rest value? with
  | case1 | case4 => exact hline
  | case2 | case5 => exact ⟨hstart, ⟨_, hstop⟩, hle⟩
  | case3 c => exact ⟨hstart, ⟨_, hstop.next⟩, Position.le_next hle c⟩

lemma scanHex_answers (hstart : OnLine text start) (hle : start ≤ stop)
    (hline : OnLine text stop) (hstop : Faces text stop cs) :
    Answers text (fun s => OnLine text s.position) (scanHex start stop cs) := by
  rw [← List.takeWhile_append_dropWhile (p := Text.isHexDigit) (l := cs)] at hstop
  refine closeNumber_answers hstart (hle.trans (stop.le_after _)) ?_ hstop.after
  exact hstop.onLine_after hline fun c hc => isLineEnd_of_mem_takeWhile rfl rfl hc

lemma isLineEnd_of_mem_fraction
    (h : c ∈ Numeral.fractionText (Numeral.readFraction cs).1) : isLineEnd c = false := by
  revert h
  fun_cases Numeral.readFraction cs with
  | case1 cs =>
    intro h
    rcases List.mem_cons.1 h with rfl | h
    · rfl
    · exact isLineEnd_of_mem_takeWhile rfl rfl h
  | case2 => exact fun h => absurd h List.not_mem_nil

lemma isLineEnd_of_mem_exponent
    (h : c ∈ Numeral.exponentText (Numeral.readExponent cs).1) : isLineEnd c = false := by
  revert h
  fun_cases Numeral.readExponent cs with
  | case1 | case3 => exact fun h => absurd h List.not_mem_nil
  | case2 mark cs hmark signed =>
    intro h
    rcases List.mem_cons.1 h with rfl | h
    · rcases hmark with rfl | rfl <;> rfl
    · rcases List.mem_append.1 h with h | h
      · have hsign : c = '+' ∨ c = '-' := by
          simp only [signed] at h
          revert h
          fun_cases Numeral.readSign cs <;> simp +contextual
        rcases hsign with rfl | rfl <;> rfl
      · exact isLineEnd_of_mem_takeWhile rfl rfl h

/-- A numeral is written without line ends, whether it has a value or not. -/
lemma isLineEnd_of_mem_numeral (h : c ∈ (Numeral.read cs).1.text) : isLineEnd c = false := by
  rcases List.mem_append.1 h with h | h
  · exact isLineEnd_of_mem_takeWhile rfl rfl h
  · rcases List.mem_append.1 h with h | h
    · exact isLineEnd_of_mem_fraction h
    · exact isLineEnd_of_mem_exponent h

lemma scanDecimal_answers (hstart : OnLine text start) (hp : Faces text start cs) :
    Answers text (fun s => OnLine text s.position) (scanDecimal start cs) := by
  rw [← Numeral.read_text cs] at hp
  refine closeNumber_answers hstart (start.le_after _) ?_ hp.after
  exact hp.onLine_after hstart fun c hc => isLineEnd_of_mem_numeral hc

lemma scanNumber_answers (hstart : OnLine text p) (hp : Faces text p cs) :
    Answers text (fun s => OnLine text s.position) (scanNumber p cs) := by
  fun_cases scanNumber p cs with
  | case1 cs | case2 cs =>
    exact scanHex_answers hstart (Position.le_next (p.lt_next _).le _)
      (hp.next.onLine_next rfl) hp.next.next
  | case3 => exact scanDecimal_answers hstart hp

/-! ## Tokens -/

lemma isLineEnd_of_mem_sign {sign : Sign} (h : c ∈ sign.text.toList) : isLineEnd c = false := by
  have hall : sign.text.toList.all (fun c => !isLineEnd c) = true := by cases sign <;> rfl
  simpa using List.all_eq_true.1 hall c h

/-- A token that begins on a line ends on one, and if none can be read, that is blamed on a stretch
of the text. -/
lemma scan_answers (hc : isLineEnd c = false) (hp : Faces text p (c :: cs)) :
    Answers text (fun s => OnLine text s.position) (scan p c cs) := by
  have hstart := hp.onLine hc
  fun_cases scan p c cs with
  | case1 hquote =>
    refine Answers.map ?_ fun _ h => h
    exact Text.readQuoted_answers hc hstart (p.lt_next c).le trivial hp.next
  | case2 => exact scanNumber_answers hstart hp
  | case3 | case5 =>
    have hname := hp.next
    rw [← List.takeWhile_append_dropWhile (p := isNamePart) (l := cs)] at hname
    exact hname.onLine_after (hp.onLine_next hc) fun d hd => isLineEnd_of_mem_takeWhile rfl rfl hd
  | case6 => exact hp.onLine_next hc
  | case7 _ _ _ _ sign rest htake =>
    rw [takeSign_eq_some htake] at hp
    exact hp.onLine_after hstart fun d hd => isLineEnd_of_mem_sign hd
  | case4 | case8 | case9 => exact ⟨hstart, ⟨_, hp.next⟩, (p.lt_next _).le⟩

/-- The token is a stretch of the text, and begins and ends on a line. -/
structure LiesIn (t : Token) (text : List Char) : Prop extends t.location.PointsInto text where
  onLine_stop : OnLine text t.location.stop

lemma skipTrivia_answers (hp : Faces text p cs) :
    Answers text (fun place => Faces text place.1 place.2) (skipTrivia p cs) :=
  skipGap_answers trivial hp

/-- After a gap comes the end of the text, or a character that ends no line. -/
lemma isLineEnd_of_skipTrivia {q : Position} (h : skipTrivia p cs = .ok (q, c :: rest)) :
    isLineEnd c = false := by
  obtain ⟨-, -, -, -, hbegins⟩ := skipGap_covers h
  obtain ⟨d, ds, heq, hblank, -⟩ := hbegins (List.cons_ne_nil c rest)
  obtain ⟨rfl, -⟩ := List.cons.inj heq
  exact isLineEnd_of_isBlank hblank

lemma tokensFrom_answers (hp : Faces text p cs) :
    Answers text (fun ts => ∀ t ∈ ts, t.LiesIn text) (tokensFrom p cs) := by
  have hgap := skipTrivia_answers hp
  fun_induction tokensFrom p cs with
  | case1 p cs e hskip =>
    rw [hskip] at hgap
    exact hgap
  | case2 => exact fun t ht => absurd ht List.not_mem_nil
  | case3 p cs q c rest hskip e hscan =>
    rw [hskip] at hgap
    have htoken := scan_answers (isLineEnd_of_skipTrivia hskip) hgap
    rw [hscan] at htoken
    exact htoken
  | case4 p cs q c rest hskip s hscan ih =>
    rw [hskip] at hgap
    have hc := isLineEnd_of_skipTrivia hskip
    have htoken := scan_answers hc hgap
    rw [hscan] at htoken
    obtain ⟨tail, rfl, hposition, -⟩ := scan_slice hscan
    have hword : Faces text q ((c :: tail) ++ s.rest) := hgap
    have hrest : Faces text s.position s.rest := hposition ▸ hword.after
    have hle : q ≤ s.position := hposition ▸ q.le_after _
    refine (ih hrest (skipTrivia_answers hrest)).map fun ts hts => ?_
    exact List.forall_mem_cons.2 ⟨⟨⟨hgap.onLine hc, ⟨_, hrest⟩, hle⟩, htoken⟩, hts⟩

lemma skipLead_faces {place : Position × List Char} (h : Faces text place.1 place.2) :
    Faces text (skipLead place).1 (skipLead place).2 := by
  fun_cases skipLead place with
  | case1 | case3 => exact h
  | case2 => exact h.next

/-- The tokens of a formula begin and end on lines of it; and if it has none, that is blamed on a
stretch of it. -/
lemma ofText_answers (s : String) :
    Answers s.toList (fun ts => ∀ t ∈ ts, t.LiesIn s.toList) (ofText s) := by
  have hgap := skipTrivia_answers (Position.faces_start s.toList)
  unfold ofText
  split
  · rename_i e hskip
    rw [hskip] at hgap
    exact hgap
  · rename_i place hskip
    rw [hskip] at hgap
    exact tokensFrom_answers (skipLead_faces hgap)

end Token

end FormulaTree
