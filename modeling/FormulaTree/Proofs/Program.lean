import FormulaTree.Proofs.Grammar.Blame
import FormulaTree.Proofs.Statements

/-!
# Programs

`Program` is the grammar of whole formulas without the two limits: expressions, however deep and
tall, with separators between them.

A program need not be read.  It may exceed a limit; and where its tokens are not in order, the place
at which an expression ends need not be that of its last token, so that a separator is not taken for
one.  But reading never fails among tokens in order for any other reason than a limit, whatever
comes after them (`Program.length_lt`).
-/

namespace FormulaTree.Grammar

open Token (Ordered)

/-! ## Programs -/

/-- The tokens derive an expression, however deep and tall. -/
def IsExpression (ts : List Token) : Prop := ∃ n e, Derives .choice n ts e

/-- The grammar of whole formulas, without limits: expressions with separators between them, and
perhaps with semicolons before the first and after the last. -/
inductive Program : List Token → Prop
  | semicolon {t : Token} {ts : List Token} (kind : t.kind = .semicolon) (others : Program ts) :
      Program (t :: ts)
  | last {ts trail : List Token} (expression : IsExpression ts) (semicolons : AreSemicolons trail) :
      Program (ts ++ trail)
  | cons {ts gap rest : List Token} (expression : IsExpression ts)
      (separator : Separator ts rest gap) (others : Program rest) : Program (ts ++ (gap ++ rest))

lemma IsExpression.program {ts : List Token} (h : IsExpression ts) : Program ts := by
  have hnone : AreSemicolons [] := by simp [AreSemicolons]
  simpa using Program.last h hnone

/-- A program holds a token that is not a semicolon. -/
lemma Program.exists_ne_semicolon {ts : List Token} (h : Program ts) :
    ∃ t ∈ ts, t.kind ≠ .semicolon := by
  induction h with
  | semicolon _ _ ih =>
    obtain ⟨t, ht, hkind⟩ := ih
    exact ⟨t, List.mem_cons_of_mem _ ht, hkind⟩
  | last expression _ | cons expression _ _ _ =>
    obtain ⟨n, e, hderives⟩ := expression
    obtain ⟨t, us, rfl, hkind⟩ := hderives.begins_ne_semicolon
    exact ⟨t, List.mem_cons_self, hkind⟩

lemma Program.of_semicolon {t : Token} {ts : List Token} (h : Program (t :: ts))
    (hkind : t.kind = .semicolon) : Program ts := by
  generalize hus : t :: ts = us at h
  cases h with
  | semicolon _ others =>
    obtain ⟨rfl, rfl⟩ := List.cons.inj hus
    exact others
  | last expression _ | cons expression _ _ =>
    obtain ⟨n, e, hderives⟩ := expression
    obtain ⟨u, us, rfl, hu⟩ := hderives.begins_ne_semicolon
    obtain ⟨rfl, -⟩ := List.cons.inj hus
    exact absurd hkind hu

/-! ## What a program is read as -/

/-- What reading comes to after an expression. -/
def statementsAfter (e : Expr) : List Token → Except Fault (List Expr)
  | [] => .ok [e]
  | next :: more =>
    if separates e next then (statementsFrom reader (next :: more)).map (e :: ·)
    else .error ⟨.unexpected, next :: more⟩

lemma statementsFrom_append {n : Nat} {ts rest : List Token} {e : Expr}
    (h : Derives .choice n ts e) (hread : reader.read (ts ++ rest) = .ok (e, rest)) :
    statementsFrom reader (ts ++ rest) = statementsAfter e rest := by
  obtain ⟨t, us, rfl, hkind⟩ := h.begins_ne_semicolon
  rw [List.cons_append] at hread ⊢
  rw [statementsFrom_eq _ hkind, hread]
  cases rest <;> rfl

lemma length_le_of_error {ts : List Token} {f : Fault}
    (h : statementsFrom reader ts = .error f) : f.rest.length ≤ ts.length :=
  (statementsFrom_blames (levels_isFair nestingLimit).expression ts f h).length_le

/-- If reading fails after the tokens of an expression, other than by a limit, it is because what
follows does not separate, or else because of what follows. -/
lemma IsExpression.statementsFrom_error {ts rest : List Token} {f : Fault} (h : IsExpression ts)
    (hends : Ends .choice rest) (hf : statementsFrom reader (ts ++ rest) = .error f)
    (hlimit : ¬f.IsLimit) : ∃ n e, Derives .choice n ts e ∧ ∃ next more, rest = next :: more ∧
      (separates e next = true ∧ statementsFrom reader rest = .error f ∨
        separates e next = false ∧ f.rest = rest) := by
  obtain ⟨n, e, hderives⟩ := h
  rcases hderives.read hends with ⟨-, hread⟩ | ⟨-, g, hread, hg⟩
  · rw [statementsFrom_append hderives hread] at hf
    refine ⟨n, e, hderives, ?_⟩
    cases rest with
    | nil => cases hf
    | cons next more =>
      refine ⟨next, more, rfl, ?_⟩
      rw [statementsAfter] at hf
      split_ifs at hf with hseparates
      · exact .inl ⟨hseparates, map_eq_error.1 hf⟩
      · cases hf
        exact .inr ⟨Bool.eq_false_iff.2 hseparates, rfl⟩
  · obtain ⟨t, us, rfl, hkind⟩ := hderives.begins_ne_semicolon
    rw [List.cons_append] at hread hf
    rw [statementsFrom_eq _ hkind, hread] at hf
    cases hf
    exact absurd hg hlimit

/-- If reading fails after an expression and a separator, other than by a limit, it does not fail
before what follows them; and if the tokens of the expression are in order, what follows is at
fault. -/
lemma Separator.statementsFrom_error {ts gap rest : List Token} {f : Fault}
    (h : Separator ts rest gap) (hexpression : IsExpression ts)
    (hf : statementsFrom reader (ts ++ (gap ++ rest)) = .error f) (hlimit : ¬f.IsLimit) :
    f.rest.length ≤ rest.length ∧ (Ordered ts → statementsFrom reader rest = .error f) := by
  cases h with
  | semicolons hne hall =>
    have hhead := hall.head_append hne rest
    have hends : Ends .choice (gap ++ rest) :=
      ends_choice_iff.2 fun t ht => not_continues_semicolon (hhead t ht)
    obtain ⟨n, e, -, next, more, hnext, hcases⟩ := hexpression.statementsFrom_error hends hf hlimit
    rcases hcases with ⟨-, hmore⟩ | ⟨hnot, -⟩
    · rw [statementsFrom_semicolons hall] at hmore
      exact ⟨length_le_of_error hmore, fun _ => hmore⟩
    · rw [separates_semicolon e (hhead next (by rw [hnext]; rfl))] at hnot
      cases hnot
  | @lineBreak last next hlast hnext hlater hstops =>
    obtain ⟨more, rfl⟩ := List.head?_eq_some_iff.1 hnext
    rw [List.nil_append] at hf
    have hends : Ends .choice (next :: more) := ends_choice_iff.2 fun t ht => by
      obtain rfl := Option.some.inj ht
      exact hstops
    obtain ⟨n, e, hderives, _, _, ⟨⟩, hcases⟩ := hexpression.statementsFrom_error hends hf hlimit
    rcases hcases with ⟨-, hmore⟩ | ⟨hnot, hrest⟩
    · exact ⟨length_le_of_error hmore, fun _ => hmore⟩
    · refine ⟨hrest ▸ le_refl _, fun hordered => ?_⟩
      have hstop := (hderives.stands hordered).spans.stop_eq hordered hlast
      simp [separates, hstop, hlater] at hnot

/-- If the first tokens of a program are in order, a fault that is not about a limit comes after
them. -/
theorem Program.length_lt {us : List Token} (h : Program us) {pre post : List Token} {f : Fault}
    (hus : us = pre ++ post) (hordered : Ordered pre) (hf : statementsFrom reader us = .error f)
    (hlimit : ¬f.IsLimit) : f.rest.length < post.length := by
  induction h generalizing pre with
  | @semicolon t ts hkind others ih =>
    rw [statementsFrom_semicolon _ hkind] at hf
    cases pre with
    | nil =>
      have hle := length_le_of_error hf
      rw [← List.nil_append post, ← hus, List.length_cons]
      omega
    | cons p pre =>
      obtain ⟨rfl, rfl⟩ := List.cons.inj hus
      exact ih rfl (hordered.sublist (List.sublist_cons_self _ _)) hf
  | @last ts trail expression htrail =>
    have hends : Ends .choice trail := ends_choice_iff.2 fun t ht =>
      not_continues_semicolon (htrail t (List.mem_of_mem_head? ht))
    obtain ⟨n, e, -, next, more, rfl, hcases⟩ := expression.statementsFrom_error hends hf hlimit
    rcases hcases with ⟨-, hmore⟩ | ⟨hnot, -⟩
    · have hskip := statementsFrom_semicolons htrail []
      rw [List.append_nil, hmore, statementsFrom] at hskip
      cases hskip
    · rw [separates_semicolon e (htrail next List.mem_cons_self)] at hnot
      cases hnot
  | @cons ts gap rest expression separator others ih =>
    obtain ⟨hle, hrest⟩ := separator.statementsFrom_error expression hf hlimit
    rw [← List.append_assoc] at hus
    rcases List.append_eq_append_iff.1 hus with ⟨pre, rfl, hsplit⟩ | ⟨mid, hmid, rfl⟩
    · have hts : Ordered (ts ++ gap) := hordered.sublist (List.sublist_append_left _ _)
      exact ih hsplit (hordered.sublist (List.sublist_append_right _ _))
        (hrest (hts.sublist (List.sublist_append_left _ _)))
    · cases mid with
      | nil =>
        rw [List.append_nil] at hmid
        rw [← hmid] at hordered
        exact ih rfl ⟨by simp, List.Pairwise.nil⟩
          (hrest (hordered.sublist (List.sublist_append_left _ _)))
      | cons t mid =>
        rw [List.length_append, List.length_cons]
        omega

end FormulaTree.Grammar
