import FormulaTree.Proofs.Grammar.Exactness
import FormulaTree.Proofs.Lowering.Offences

/-!
# Formulas of several statements

The tokens of a formula are those of its statements, one statement after another, with nothing lost
and nothing added: `Grammar.Sequence` says how statements and what separates them make up a list of
tokens, and the reader accepts a list just when it is made up so (`statements_eq_ok_iff`).

## Separators

* One semicolon or more, of which there may also be some before the first statement and after the
  last one.
* Nothing at all, where a token begins on a later line than the token before it ends.  Such a token
  begins a statement only if it does not go on with the one before it: a formula may be broken
  before a binary sign, a question mark, an opening parenthesis or a point.

A formula is meant to have one statement.  If there is a second one, this is reported at the place
of the second, and nothing else is.
-/

namespace FormulaTree

open Token (Ordered)

/-! ## The end of an expression -/

/-- The stretch of tokens in order ends where the last of them does. -/
lemma Location.Spans.stop_eq {l : Location} {ts : List Token} {last : Token} (h : l.Spans ts)
    (hordered : Ordered ts) (hlast : last ∈ ts.getLast?) : l.stop = last.location.stop := by
  obtain ⟨init, rfl⟩ := List.getLast?_eq_some_iff.1 hlast
  obtain ⟨u, hu, hstop⟩ := h.stop
  have hmem : last ∈ init ++ [last] := List.mem_append_right _ (List.mem_singleton_self last)
  rcases List.mem_append.1 hu with hu | hu
  · -- A token before the last one ends before the last one begins.
    have hprecedes : u.location.Precedes last.location :=
      (List.pairwise_append.1 hordered.pairwise).2.2 u hu last (List.mem_singleton_self last)
    have hlater : u.location.stop < last.location.stop :=
      lt_of_le_of_lt hprecedes (hordered.proper last hmem)
    have hcovers := (h.covers last hmem).2
    rw [hstop] at hcovers
    exact absurd hlater (not_lt_of_ge hcovers)
  · rw [hstop, List.mem_singleton.1 hu]

namespace Grammar

/-! ## Sequences of statements -/

/-- The tokens are those of one statement: they derive an expression within the limits. -/
structure IsStatement (ts : List Token) (e : Expr) : Prop where
  derives : ∃ n ≤ nestingLimit, Derives .choice n ts e
  height_le : e.height ≤ heightLimit

/-- There are only semicolons. -/
def AreSemicolons (ts : List Token) : Prop := ∀ t ∈ ts, t.kind = .semicolon

lemma AreSemicolons.head_append {ts : List Token} (h : AreSemicolons ts) (hne : ts ≠ [])
    (rest : List Token) : ∀ t ∈ (ts ++ rest).head?, t.kind = .semicolon := by
  obtain ⟨t, ts, rfl⟩ := List.exists_cons_of_ne_nil hne
  rintro _ ⟨⟩
  exact h t List.mem_cons_self

/-- What separates the tokens of a statement from those that come after it. -/
inductive Separator (before after : List Token) : List Token → Prop
  | semicolons {gap : List Token} (ne_nil : gap ≠ []) (all : AreSemicolons gap) :
      Separator before after gap
  | lineBreak {last next : Token} (hlast : last ∈ before.getLast?) (hnext : next ∈ after.head?)
      (later : last.location.stop.line < next.location.start.line)
      (stops : ¬Continues next.kind) : Separator before after []

/-- The tokens are those of statements with separators between them, and perhaps of semicolons at
the end. -/
inductive Sequence : List Token → List Expr → Prop
  | last {ts trail : List Token} {e : Expr} (statement : IsStatement ts e)
      (semicolons : AreSemicolons trail) : Sequence (ts ++ trail) [e]
  | cons {ts gap rest : List Token} {e : Expr} {es : List Expr} (statement : IsStatement ts e)
      (separator : Separator ts rest gap) (others : Sequence rest es) :
      Sequence (ts ++ (gap ++ rest)) (e :: es)

lemma Derives.begins_ne_semicolon {n : Nat} {ts : List Token} {e : Expr}
    (h : Derives .choice n ts e) : ∃ t us, ts = t :: us ∧ t.kind ≠ .semicolon := by
  obtain ⟨t, us, rfl, hbegins⟩ := h.begins
  refine ⟨t, us, rfl, fun hkind => ?_⟩
  rw [hkind] at hbegins
  cases hbegins

/-- A statement begins with a token, and not with a semicolon. -/
lemma IsStatement.begins {ts : List Token} {e : Expr} (h : IsStatement ts e) :
    ∃ t us, ts = t :: us ∧ t.kind ≠ .semicolon := by
  obtain ⟨n, -, hderives⟩ := h.derives
  exact hderives.begins_ne_semicolon

lemma Sequence.begins {ts : List Token} {es : List Expr} (h : Sequence ts es) :
    ∃ t us, ts = t :: us ∧ t.kind ≠ .semicolon := by
  cases h with
  | last hstatement _ | cons hstatement _ _ =>
    obtain ⟨t, us, rfl, hkind⟩ := hstatement.begins
    exact ⟨t, _, rfl, hkind⟩

lemma Sequence.ne_nil {ts : List Token} {es : List Expr} (h : Sequence ts es) : es ≠ [] := by
  cases h <;> simp

/-- The place where a statement ends is that of its last token. -/
lemma IsStatement.stop_eq {ts : List Token} {e : Expr} {last : Token} (h : IsStatement ts e)
    (hordered : Ordered ts) (hlast : last ∈ ts.getLast?) :
    e.location.stop = last.location.stop := by
  obtain ⟨n, -, hderives⟩ := h.derives
  exact (hderives.stands hordered).spans.stop_eq hordered hlast

/-! ## Reading gives a sequence -/

lemma isStatement_of_read {ts rest : List Token} {e : Expr}
    (h : reader.read ts = .ok (e, rest)) :
    ∃ taken, ts = taken ++ rest ∧ IsStatement taken e ∧ ∀ t ∈ rest.head?, ¬Continues t.kind := by
  obtain ⟨⟨n, taken, htaken, hderives, hn, hheight⟩, hends⟩ := reader_sound h
  exact ⟨taken, htaken, ⟨⟨n, hn, hderives⟩, hheight⟩, ends_choice_iff.1 hends⟩

/-- What is read is semicolons only, or else semicolons and then a sequence of statements. -/
lemma sequence_of_statementsFrom {ts : List Token} {es : List Expr}
    (h : statementsFrom reader ts = .ok es) (hordered : Ordered ts) :
    (es = [] ∧ AreSemicolons ts) ∨
      ∃ lead rest, ts = lead ++ rest ∧ AreSemicolons lead ∧ Sequence rest es := by
  fun_induction statementsFrom reader ts generalizing es with
  | case1 =>
    cases h
    exact .inl ⟨rfl, by simp [AreSemicolons]⟩
  | case2 t rest hkind ih =>
    rcases ih h (hordered.sublist (List.sublist_cons_self _ _)) with ⟨rfl, hall⟩ | hsequence
    · exact .inl ⟨rfl, List.forall_mem_cons.2 ⟨hkind, hall⟩⟩
    · obtain ⟨lead, more, rfl, hlead, hmore⟩ := hsequence
      exact .inr ⟨t :: lead, more, rfl, List.forall_mem_cons.2 ⟨hkind, hlead⟩, hmore⟩
  | case3 | case6 => cases h
  | case4 t rest hkind e hfirst =>
    cases h
    obtain ⟨taken, htaken, hstatement, -⟩ := isStatement_of_read hfirst
    refine .inr ⟨[], t :: rest, rfl, by simp [AreSemicolons], ?_⟩
    rw [htaken]
    exact .last hstatement (by simp [AreSemicolons])
  | case5 t rest hkind e next more hfirst hseparates ih =>
    obtain ⟨es', hmore, rfl⟩ := map_eq_ok.1 h
    obtain ⟨taken, htaken, hstatement, hstops⟩ := isStatement_of_read hfirst
    rw [htaken] at hordered ⊢
    refine .inr ⟨[], taken ++ next :: more, rfl, by simp [AreSemicolons], ?_⟩
    rcases ih hmore (hordered.sublist (List.sublist_append_right _ _)) with ⟨rfl, hall⟩ | hsequence
    · exact .last hstatement hall
    · obtain ⟨lead, others, hsplit, hlead, hothers⟩ := hsequence
      rw [hsplit]
      refine .cons hstatement ?_ hothers
      cases lead with
      | cons semicolon lead => exact .semicolons (List.cons_ne_nil _ _) hlead
      | nil =>
        -- The next token begins a statement, so it separates by the line it is on.
        rw [List.nil_append] at hsplit
        obtain ⟨u, us, hu, hsemicolon⟩ := hothers.begins
        rw [← hsplit] at hu
        obtain ⟨rfl, rfl⟩ := List.cons.inj hu
        have hordered' : Ordered taken := hordered.sublist (List.sublist_append_left _ _)
        have hne : taken ≠ [] := by
          obtain ⟨v, vs, rfl, -⟩ := hstatement.begins
          exact List.cons_ne_nil v vs
        have hlast := List.getLast?_eq_some_getLast hne
        have hlater : e.location.stop.line < next.location.start.line := by
          simpa [separates, hsemicolon] using hseparates
        rw [hstatement.stop_eq hordered' hlast] at hlater
        exact .lineBreak hlast (by rw [← hsplit]; rfl) hlater (hstops next rfl)

/-! ## A sequence is read -/

lemma statementsFrom_semicolons {ts : List Token} (h : AreSemicolons ts) (rest : List Token) :
    statementsFrom reader (ts ++ rest) = statementsFrom reader rest := by
  induction ts with
  | nil => rfl
  | cons t ts ih =>
    obtain ⟨hkind, hts⟩ := List.forall_mem_cons.1 h
    rw [List.cons_append, statementsFrom_semicolon _ hkind, ih hts]

/-- A statement is read up to where it ends, and then what comes after it. -/
lemma IsStatement.statementsFrom_append {ts rest : List Token} {e : Expr} {es : List Expr}
    (h : IsStatement ts e) (hstops : ∀ t ∈ rest.head?, ¬Continues t.kind)
    (hseparates : ∀ t ∈ rest.head?, separates e t = true)
    (hrest : statementsFrom reader rest = .ok es) :
    statementsFrom reader (ts ++ rest) = .ok (e :: es) := by
  obtain ⟨t, us, rfl, hkind⟩ := h.begins
  obtain ⟨⟨n, hn, hderives⟩, hheight⟩ := h
  have hread : reader.read (t :: us ++ rest) = .ok (e, rest) := by
    rcases hderives.read (ends_choice_iff.2 hstops) with ⟨-, hread⟩ | ⟨hfits, -⟩
    · exact hread
    · exact absurd ⟨hn, hheight⟩ hfits
  rw [List.cons_append] at hread ⊢
  rw [statementsFrom_eq _ hkind, hread]
  cases rest with
  | nil =>
    rw [statementsFrom] at hrest
    cases hrest
    rfl
  | cons next more =>
    rw [Except.bind]
    dsimp only
    rw [if_pos (hseparates next rfl), hrest]
    rfl

lemma not_continues_semicolon {t : Token} (h : t.kind = .semicolon) : ¬Continues t.kind := by
  rw [h]
  exact id

lemma separates_semicolon {t : Token} (e : Expr) (h : t.kind = .semicolon) :
    separates e t = true := by
  simp [separates, h]

lemma statementsFrom_of_sequence {ts : List Token} {es : List Expr} (h : Sequence ts es)
    (hordered : Ordered ts) : statementsFrom reader ts = .ok es := by
  induction h with
  | @last ts trail e hstatement htrail =>
    have hhead : ∀ t ∈ trail.head?, t.kind = .semicolon :=
      fun t ht => htrail t (List.mem_of_mem_head? ht)
    have hrest : statementsFrom reader trail = .ok [] := by
      have hskip := statementsFrom_semicolons htrail []
      rwa [List.append_nil, statementsFrom] at hskip
    exact hstatement.statementsFrom_append (fun t ht => not_continues_semicolon (hhead t ht))
      (fun t ht => separates_semicolon e (hhead t ht)) hrest
  | @cons ts gap rest e es hstatement hseparator hothers ih =>
    have hordered' : Ordered (gap ++ rest) := hordered.sublist (List.sublist_append_right _ _)
    have hrest := ih (hordered'.sublist (List.sublist_append_right _ _))
    cases hseparator with
    | semicolons hne hall =>
      have hhead := hall.head_append hne rest
      rw [← statementsFrom_semicolons hall] at hrest
      exact hstatement.statementsFrom_append (fun t ht => not_continues_semicolon (hhead t ht))
        (fun t ht => separates_semicolon e (hhead t ht)) hrest
    | @lineBreak last next hlast hnext hlater hstops =>
      have hstop := hstatement.stop_eq (hordered.sublist (List.sublist_append_left _ _)) hlast
      have hhead : ∀ t ∈ ([] ++ rest).head?, t = next := by
        intro t ht
        rw [List.nil_append, hnext] at ht
        exact (Option.some.inj ht).symm
      refine hstatement.statementsFrom_append (fun t ht => hhead t ht ▸ hstops)
        (fun t ht => ?_) hrest
      rw [hhead t ht]
      simp [separates, hstop, hlater]

/-- Tokens in order are read as statements just when they are a sequence of them, after perhaps some
semicolons. -/
theorem statements_eq_ok_iff {ts : List Token} {es : List Expr} (hordered : Ordered ts) :
    statements ts = .ok es ↔
      ∃ lead rest, ts = lead ++ rest ∧ AreSemicolons lead ∧ Sequence rest es := by
  constructor
  · intro h
    unfold statements at h
    split at h
    · cases h
    · cases h
    · rename_i hread
      cases h
      rcases sequence_of_statementsFrom hread hordered with ⟨hnil, -⟩ | hsequence
      · cases hnil
      · exact hsequence
  · rintro ⟨lead, rest, rfl, hlead, hrest⟩
    have hread := statementsFrom_of_sequence hrest
      (hordered.sublist (List.sublist_append_right _ _))
    rw [← statementsFrom_semicolons hlead] at hread
    obtain ⟨e, es, rfl⟩ := List.exists_cons_of_ne_nil hrest.ne_nil
    rw [statements, hread]

end Grammar

/-! ## What is reported -/

namespace Lowering

end Lowering

end FormulaTree
