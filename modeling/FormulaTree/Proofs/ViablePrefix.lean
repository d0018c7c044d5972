import FormulaTree.Proofs.Grammar.Stalling
import FormulaTree.Proofs.Program

/-!
# Syntax errors are reported at the earliest token

A list of tokens is a **viable prefix** if a formula begins with it.  Every list is cut by the first
token that makes it lose this property, and that is the token a syntax error is reported at; if
there is no such token, the error is reported after the last one (`statements_earliest`).

That nothing can be made of the tokens up to the fault follows from how programs are read: a reader
fails in the same way whatever comes after the token at fault, and reading a program does not fail
among tokens in order, but for a limit.

The tokens before the fault are completed by tokens that are in order again.  Derivations look at
the kinds of tokens only (`Derives.of_kinds`), so the missing tokens can be put after the last one.
-/

namespace FormulaTree

open Token (Ordered)

/-! ## More tokens in order -/

namespace Token

/-- Tokens of some kinds, each a character wide, one after another from a place on. -/
def rowFrom (p : Position) : List Kind → List Token
  | [] => []
  | kind :: kinds => ⟨kind, ⟨p, p.next ' '⟩⟩ :: rowFrom (p.next ' ') kinds

lemma map_kind_rowFrom (p : Position) (kinds : List Kind) :
    (rowFrom p kinds).map kind = kinds := by
  induction kinds generalizing p with
  | nil => rfl
  | cons kind kinds ih => rw [rowFrom, List.map_cons, ih]

lemma rowFrom_ordered (p : Position) (kinds : List Kind) :
    Ordered (rowFrom p kinds) ∧ ∀ t ∈ rowFrom p kinds, p ≤ t.location.start := by
  induction kinds generalizing p with
  | nil => exact ⟨⟨by simp [rowFrom], List.Pairwise.nil⟩, by simp [rowFrom]⟩
  | cons kind kinds ih =>
    obtain ⟨hordered, hlater⟩ := ih (p.next ' ')
    have hstep : p < p.next ' ' := p.lt_next ' '
    refine ⟨⟨List.forall_mem_cons.2 ⟨hstep, hordered.proper⟩,
      List.pairwise_cons.2 ⟨hlater, hordered.pairwise⟩⟩, List.forall_mem_cons.2 ⟨le_refl p, ?_⟩⟩
    exact fun t ht => hstep.le.trans (hlater t ht)

/-- There is a place after all tokens of a list. -/
lemma exists_stop_le (ts : List Token) : ∃ p, ∀ t ∈ ts, t.location.stop ≤ p := by
  induction ts with
  | nil => exact ⟨.start, by simp⟩
  | cons t ts ih =>
    obtain ⟨p, hp⟩ := ih
    refine ⟨max t.location.stop p, List.forall_mem_cons.2 ⟨le_max_left _ _, fun u hu => ?_⟩⟩
    exact (hp u hu).trans (le_max_right _ _)

/-- Tokens in order can be followed by tokens of any kinds. -/
lemma Ordered.exists_append {ts : List Token} (h : Ordered ts) (kinds : List Kind) :
    ∃ tail : List Token, tail.map kind = kinds ∧ Ordered (ts ++ tail) := by
  obtain ⟨p, hp⟩ := exists_stop_le ts
  obtain ⟨hordered, hlater⟩ := rowFrom_ordered p kinds
  refine ⟨rowFrom p kinds, map_kind_rowFrom p kinds, ⟨fun t ht => ?_, ?_⟩⟩
  · rcases List.mem_append.1 ht with ht | ht
    · exact h.proper t ht
    · exact hordered.proper t ht
  · exact List.pairwise_append.2 ⟨h.pairwise, hordered.pairwise, fun t ht u hu =>
      (hp t ht).trans (hlater u hu)⟩

/-- Tokens in order stand at different places. -/
lemma Ordered.index_eq {ts : List Token} (h : Ordered ts) {i j : Nat} {t u : Token}
    (hi : ts[i]? = some t) (hj : ts[j]? = some u) (heq : t.location = u.location) : i = j := by
  have hnot {i j : Nat} {t u : Token} (hi : ts[i]? = some t) (hj : ts[j]? = some u)
      (heq : t.location = u.location) : ¬i < j := by
    intro hlt
    obtain ⟨hi', rfl⟩ := List.getElem?_eq_some_iff.1 hi
    obtain ⟨hj', rfl⟩ := List.getElem?_eq_some_iff.1 hj
    have hprecedes := List.pairwise_iff_getElem.1 h.pairwise i j hi' hj' hlt
    rw [← heq] at hprecedes
    exact absurd (h.proper _ (List.getElem_mem hi')) (not_lt_of_ge hprecedes)
  exact Nat.le_antisymm (Nat.not_lt.1 (hnot hj hi heq.symm)) (Nat.not_lt.1 (hnot hi hj heq))

end Token

namespace Grammar

/-! ## Derivations without locations -/

lemma exists_of_kinds_cons {kind : Token.Kind} {l : Location} {ts us : List Token}
    (h : us.map Token.kind = (⟨kind, l⟩ :: ts).map Token.kind) :
    ∃ l' vs, us = ⟨kind, l'⟩ :: vs ∧ vs.map Token.kind = ts.map Token.kind := by
  obtain ⟨⟨kind', l'⟩, vs, rfl, hkind, hvs⟩ := List.map_eq_cons_iff.1 h
  exact ⟨l', vs, congrArg (⟨·, l'⟩ :: vs) hkind, hvs⟩

lemma exists_of_kinds_append {ts ts' us : List Token}
    (h : us.map Token.kind = (ts ++ ts').map Token.kind) :
    ∃ vs vs', us = vs ++ vs' ∧ vs.map Token.kind = ts.map Token.kind ∧
      vs'.map Token.kind = ts'.map Token.kind := by
  rw [List.map_append] at h
  exact List.map_eq_append_iff.1 h

lemma exists_of_kinds_singleton {kind : Token.Kind} {l : Location} {us : List Token}
    (h : us.map Token.kind = [(⟨kind, l⟩ : Token)].map Token.kind) : ∃ l', us = [⟨kind, l'⟩] := by
  obtain ⟨l', vs, rfl, hvs⟩ := exists_of_kinds_cons h
  exact ⟨l', congrArg (_ :: ·) (List.map_eq_nil_iff.1 hvs)⟩

mutual

/-- Tokens of the same kinds are derived just as well, wherever they stand. -/
theorem Derives.of_kinds {c : Category} {n : Nat} {ts us : List Token} {e : Expr} :
    Derives c n ts e → us.map Token.kind = ts.map Token.kind → ∃ e', Derives c n us e'
  | .number, h => by
    obtain ⟨l, rfl⟩ := exists_of_kinds_singleton h
    exact ⟨_, .number⟩
  | .text, h => by
    obtain ⟨l, rfl⟩ := exists_of_kinds_singleton h
    exact ⟨_, .text⟩
  | .boolean, h => by
    obtain ⟨l, rfl⟩ := exists_of_kinds_singleton h
    exact ⟨_, .boolean⟩
  | .identifier, h => by
    obtain ⟨l, rfl⟩ := exists_of_kinds_singleton h
    exact ⟨_, .identifier⟩
  | .field, h => by
    obtain ⟨l, rfl⟩ := exists_of_kinds_singleton h
    exact ⟨_, .field⟩
  | .group inside, h => by
    obtain ⟨opening, us, rfl, hrest⟩ := exists_of_kinds_cons h
    obtain ⟨us, vs, rfl, hus, hvs⟩ := exists_of_kinds_append hrest
    obtain ⟨closing, rfl⟩ := exists_of_kinds_singleton hvs
    obtain ⟨e', hinside⟩ := inside.of_kinds hus
    exact ⟨_, .group hinside⟩
  | .primary alone, h => by
    obtain ⟨e', halone⟩ := alone.of_kinds h
    exact ⟨e', .primary halone⟩
  | .call applied inside, h => by
    obtain ⟨us, vs, rfl, hus, hopen⟩ := exists_of_kinds_append h
    obtain ⟨opening, vs, rfl, hrest⟩ := exists_of_kinds_cons hopen
    obtain ⟨vs, ws, rfl, hvs, hws⟩ := exists_of_kinds_append hrest
    obtain ⟨closing, rfl⟩ := exists_of_kinds_singleton hws
    obtain ⟨callee, happlied⟩ := applied.of_kinds hus
    obtain ⟨es, hinside⟩ := inside.of_kinds hvs
    exact ⟨_, .call happlied hinside⟩
  | .member applied, h => by
    obtain ⟨us, vs, rfl, hus, hdot⟩ := exists_of_kinds_append h
    obtain ⟨point, vs, rfl, hvs⟩ := exists_of_kinds_cons hdot
    obtain ⟨l, rfl⟩ := exists_of_kinds_singleton hvs
    obtain ⟨object, happlied⟩ := applied.of_kinds hus
    exact ⟨_, .member happlied⟩
  | .applied alone, h => by
    obtain ⟨e', halone⟩ := alone.of_kinds h
    exact ⟨e', .applied halone⟩
  | .signed hmem inside, h => by
    obtain ⟨place, us, rfl, hus⟩ := exists_of_kinds_cons h
    obtain ⟨operand, hinside⟩ := inside.of_kinds hus
    exact ⟨_, .signed hmem hinside⟩
  | .operand alone, h => by
    obtain ⟨e', halone⟩ := alone.of_kinds h
    exact ⟨e', .operand halone⟩
  | .level alone, h => by
    obtain ⟨e', halone⟩ := alone.of_kinds h
    exact ⟨e', .level halone⟩
  | .chain first hmem second, h => by
    obtain ⟨us, vs, rfl, hus, hsign⟩ := exists_of_kinds_append h
    obtain ⟨place, vs, rfl, hvs⟩ := exists_of_kinds_cons hsign
    obtain ⟨left, hfirst⟩ := first.of_kinds hus
    obtain ⟨right, hsecond⟩ := second.of_kinds hvs
    exact ⟨_, .chain hfirst hmem hsecond⟩
  | .test alone, h => by
    obtain ⟨e', halone⟩ := alone.of_kinds h
    exact ⟨e', .test halone⟩
  | .choice condition yes no, h => by
    obtain ⟨us, vs, rfl, hus, hquestion⟩ := exists_of_kinds_append h
    obtain ⟨question, vs, rfl, hrest⟩ := exists_of_kinds_cons hquestion
    obtain ⟨vs, ws, rfl, hvs, hcolon⟩ := exists_of_kinds_append hrest
    obtain ⟨colon, ws, rfl, hws⟩ := exists_of_kinds_cons hcolon
    obtain ⟨test, hcondition⟩ := condition.of_kinds hus
    obtain ⟨consequent, hyes⟩ := yes.of_kinds hvs
    obtain ⟨alternate, hno⟩ := no.of_kinds hws
    exact ⟨_, .choice hcondition hyes hno⟩

lemma DerivesArguments.of_kinds {n : Nat} {ts us : List Token} {es : List Expr} :
    DerivesArguments n ts es → us.map Token.kind = ts.map Token.kind →
      ∃ es', DerivesArguments n us es'
  | .none, h => ⟨[], List.map_eq_nil_iff.1 h ▸ .none⟩
  | .some first others, h => by
    obtain ⟨us, vs, rfl, hus, hvs⟩ := exists_of_kinds_append h
    obtain ⟨e, hfirst⟩ := first.of_kinds hus
    obtain ⟨es, hothers⟩ := others.of_kinds hvs
    exact ⟨e :: es, .some hfirst hothers⟩

lemma DerivesMore.of_kinds {n : Nat} {ts us : List Token} {es : List Expr} :
    DerivesMore n ts es → us.map Token.kind = ts.map Token.kind → ∃ es', DerivesMore n us es'
  | .none, h => ⟨[], List.map_eq_nil_iff.1 h ▸ .none⟩
  | .some first others, h => by
    obtain ⟨comma, us, rfl, hrest⟩ := exists_of_kinds_cons h
    obtain ⟨us, vs, rfl, hus, hvs⟩ := exists_of_kinds_append hrest
    obtain ⟨e, hfirst⟩ := first.of_kinds hus
    obtain ⟨es, hothers⟩ := others.of_kinds hvs
    exact ⟨e :: es, .some hfirst hothers⟩

end

/-! ## Programs that can be completed -/

/-- The tokens become a program by tokens of some kinds, wherever these stand. -/
def CompletableProgram (ts : List Token) : Prop :=
  ∃ kinds : List Token.Kind, ∀ tail : List Token, tail.map Token.kind = kinds → Program (ts ++ tail)

namespace CompletableProgram

lemma of_completable {ts : List Token} (h : Completable .choice ts) : CompletableProgram ts := by
  obtain ⟨tail, n, e, hderives⟩ := h
  refine ⟨tail.map Token.kind, fun us hus => ?_⟩
  have hkinds : (ts ++ us).map Token.kind = (ts ++ tail).map Token.kind := by
    rw [List.map_append, List.map_append, hus]
  obtain ⟨e', hderives'⟩ := hderives.of_kinds hkinds
  exact IsExpression.program ⟨n, e', hderives'⟩

lemma of_program {ts : List Token} (h : Program ts) : CompletableProgram ts := by
  refine ⟨[], fun tail htail => ?_⟩
  rwa [List.map_eq_nil_iff.1 htail, List.append_nil]

lemma semicolon {t : Token} {ts : List Token} (hkind : t.kind = .semicolon)
    (h : CompletableProgram ts) : CompletableProgram (t :: ts) := by
  obtain ⟨kinds, hkinds⟩ := h
  exact ⟨kinds, fun tail htail => .semicolon hkind (hkinds tail htail)⟩

lemma of_semicolons {ts : List Token} (h : AreSemicolons ts) : CompletableProgram ts := by
  induction ts with
  | nil => exact of_completable ⟨[filler], 0, _, derives_filler⟩
  | cons t ts ih =>
    obtain ⟨hkind, hts⟩ := List.forall_mem_cons.1 h
    exact (ih hts).semicolon hkind

end CompletableProgram

/-! ## Where reading a program stalls -/

lemma reader_local (ts : List Token) : Local (Completable .choice) reader.read ts := by
  rw [reader, expression_levels]
  exact (viable nestingLimit).1 ts

/-- What is read as an expression is derived, stops before a token that does not go on with it, and
is read again with something else after that token. -/
lemma exists_of_read {ts rest : List Token} {e : Expr} (h : reader.read ts = .ok (e, rest)) :
    ∃ n taken, ts = taken ++ rest ∧ Derives .choice n taken e ∧
      (∀ t ∈ rest.head?, ¬Continues t.kind) ∧
      ∀ us, us.head? = rest.head? → reader.read (taken ++ us) = .ok (e, us) := by
  obtain ⟨⟨n, taken, rfl, hderives, -, -⟩, hends⟩ := reader_sound h
  obtain ⟨taken', hts, hagain⟩ := (reader_local _).ok e rest h
  obtain rfl := List.append_cancel_right hts
  exact ⟨n, taken, rfl, hderives, ends_choice_iff.1 hends, hagain⟩

/-- An expression that was read comes before a program that can be completed. -/
lemma CompletableProgram.cons {n : Nat} {taken before : List Token} {e : Expr} {next : Token}
    (h : Derives .choice n taken e) (hordered : Ordered taken) (hstops : ¬Continues next.kind)
    (hseparates : separates e next = true) (hbefore : CompletableProgram (next :: before)) :
    CompletableProgram (taken ++ next :: before) := by
  obtain ⟨kinds, hkinds⟩ := hbefore
  refine ⟨kinds, fun tail htail => ?_⟩
  have hprogram := hkinds tail htail
  rw [List.append_assoc]
  by_cases hsemicolon : next.kind = .semicolon
  · have hgap : Separator taken (before ++ tail) [next] :=
      .semicolons (List.cons_ne_nil _ _) (by simpa [AreSemicolons] using hsemicolon)
    have hwhole : Program (taken ++ ([next] ++ (before ++ tail))) :=
      .cons ⟨n, e, h⟩ hgap (hprogram.of_semicolon hsemicolon)
    exact hwhole
  · have hlast := List.getLast?_eq_some_getLast h.ne_nil
    have hlater : e.location.stop.line < next.location.start.line := by
      simpa [separates, hsemicolon] using hseparates
    rw [(h.stands hordered).spans.stop_eq hordered hlast] at hlater
    have hwhole : Program (taken ++ ([] ++ (next :: before ++ tail))) :=
      .cons ⟨n, e, h⟩ (.lineBreak hlast rfl hlater hstops) hprogram
    exact hwhole

/-- Reading a program that fails, other than by a limit, would fail in the same way whatever comes
after the token at fault, and the tokens before it can be completed. -/
lemma statementsFrom_stalls {ts : List Token} {f : Fault} (hordered : Ordered ts)
    (h : statementsFrom reader ts = .error f) (hlimit : ¬f.IsLimit) :
    ∃ before, ts = before ++ f.rest ∧ CompletableProgram before ∧
      ∀ rest, rest.head? = f.rest.head? →
        statementsFrom reader (before ++ rest) = .error ⟨f.cause, rest⟩ := by
  fun_induction statementsFrom reader ts with
  | case1 => cases h
  | case2 t rest hkind ih =>
    obtain ⟨before, hrest, hbefore, hagain⟩ :=
      ih (hordered.sublist (List.sublist_cons_self _ _)) h
    refine ⟨t :: before, congrArg (t :: ·) hrest, hbefore.semicolon hkind, fun us hus => ?_⟩
    rw [List.cons_append, statementsFrom_semicolon _ hkind, hagain us hus]
  | case3 t rest hkind _ hfirst =>
    cases h
    obtain ⟨before, hts, hbefore, hagain⟩ := (reader_local _).error f hfirst hlimit
    refine ⟨before, hts, .of_completable hbefore, fun us hus => ?_⟩
    obtain ⟨vs, hvs⟩ := List.head?_eq_some_iff.1 (head?_append_eq hts hus)
    have hread := hagain us hus
    rw [hvs] at hread ⊢
    rw [statementsFrom_eq _ hkind, hread]
    rfl
  | case4 => cases h
  | case5 t rest hkind e next more hfirst hseparates ih =>
    obtain ⟨n, taken, hts, hderives, hstops, hread⟩ := exists_of_read hfirst
    rw [hts] at hordered ⊢
    have hmore : Ordered (next :: more) := hordered.sublist (List.sublist_append_right _ _)
    obtain ⟨before, hsplit, hbefore, hagain⟩ := ih hmore (map_eq_error.1 h)
    refine ⟨taken ++ before, by rw [hsplit, List.append_assoc], ?_, fun us hus => ?_⟩
    · cases before with
      | nil =>
        rw [List.append_nil]
        exact .of_program (IsExpression.program ⟨n, e, hderives⟩)
      | cons u before =>
        obtain ⟨rfl, -⟩ := List.cons.inj hsplit
        exact .cons hderives (hordered.sublist (List.sublist_append_left _ _)) (hstops next rfl)
          hseparates hbefore
    · have hhead := head?_append_eq hsplit hus
      obtain ⟨vs, hvs⟩ := List.head?_eq_some_iff.1 hhead
      have hfault := hagain us hus
      rw [List.append_assoc, statementsFrom_append hderives (hread _ hhead)]
      rw [hvs] at hfault ⊢
      rw [statementsAfter, if_pos hseparates, hfault]
      rfl
  | case6 t rest hkind e next more hfirst hseparates =>
    cases h
    obtain ⟨n, taken, hts, hderives, -, hread⟩ := exists_of_read hfirst
    refine ⟨taken, hts, .of_program (IsExpression.program ⟨n, e, hderives⟩), fun us hus => ?_⟩
    rw [statementsFrom_append hderives (hread us hus)]
    obtain ⟨vs, rfl⟩ := List.head?_eq_some_iff.1 hus
    rw [statementsAfter, if_neg hseparates]

/-! ## Syntax errors -/

/-- The place after the last token is not that of a token. -/
lemma endOf_ne (ts : List Token) {l : Location} (h : l.IsProper) : SyntaxError.endOf ts ≠ l := by
  have hempty : (SyntaxError.endOf ts).start = (SyntaxError.endOf ts).stop := by
    unfold SyntaxError.endOf
    split <;> rfl
  rintro rfl
  exact absurd hempty (ne_of_lt h)

lemma CompletableProgram.exists_ordered {ts : List Token} (h : CompletableProgram ts)
    (hordered : Ordered ts) : ∃ rest, Ordered (ts ++ rest) ∧ Program (ts ++ rest) := by
  obtain ⟨kinds, hkinds⟩ := h
  obtain ⟨tail, htail, hall⟩ := hordered.exists_append kinds
  exact ⟨tail, hall, hkinds tail htail⟩

/-- The tokens before the fault can be completed, those up to it cannot. -/
lemma statements_stalls {ts : List Token} {e : SyntaxError} (hordered : Ordered ts)
    (h : statements ts = .error e) (hlimit : ¬e.toFault.IsLimit) :
    ∃ before, ts = before ++ e.rest ∧ e = .locate ts e.toFault ∧ CompletableProgram before ∧
      (∀ t more, e.rest = t :: more → ∀ rest, ¬Program (before ++ t :: rest)) ∧
      (e.rest = [] → ¬Program before) := by
  unfold statements at h
  split at h
  · rename_i f hf
    cases h
    obtain ⟨before, hts, hbefore, hagain⟩ := statementsFrom_stalls hordered hf hlimit
    refine ⟨before, hts, rfl, hbefore, ?_, ?_⟩
    · intro t more hrest rest hprogram
      have hfault := hagain (t :: rest) (congrArg List.head? hrest).symm
      have hsplit : before ++ t :: rest = (before ++ [t]) ++ rest := by simp
      have hpre : Ordered (before ++ [t]) := by
        refine hordered.sublist ?_
        rw [hts, show f.rest = t :: more from hrest]
        exact List.Sublist.append_left (List.singleton_sublist.2 List.mem_cons_self) before
      have hlt := hprogram.length_lt hsplit hpre hfault hlimit
      rw [List.length_cons] at hlt
      omega
    · intro hrest hprogram
      have hsplit : ts = ts ++ [] := (List.append_nil ts).symm
      have hwhole : ts = before := by rw [hts, show f.rest = [] from hrest, List.append_nil]
      rw [← hwhole] at hprogram
      exact absurd (hprogram.length_lt hsplit hordered hf hlimit) (Nat.not_lt_zero _)
  · rename_i hf
    cases h
    have hall : AreSemicolons ts := by
      rcases sequence_of_statementsFrom hf hordered with ⟨-, hall⟩ | ⟨lead, rest, -, -, hsequence⟩
      · exact hall
      · exact absurd rfl hsequence.ne_nil
    refine ⟨ts, (List.append_nil ts).symm, rfl, .of_semicolons hall, nofun, fun _ hprogram => ?_⟩
    obtain ⟨t, ht, hkind⟩ := hprogram.exists_ne_semicolon
    exact hkind (hall t ht)
  · cases h

/-- **Syntax errors are reported at the earliest token.**  An error that is not about a limit is at
a token or after the last one.  If it is at a token, no program begins with the tokens up to this
one, wherever its other tokens stand, but one begins with those before it.  If it is after the last
token, the tokens are not a program but begin one. -/
theorem statements_earliest (ts : List Token) (e : SyntaxError) (hordered : Ordered ts)
    (h : statements ts = .error e)
    (hnesting : e.message ≠ "Formula is nested more than 128 levels deep")
    (hheight : e.message ≠ "Expression is nested more than 256 operators deep") :
    ((∃ (i : Nat) (t : Token), ts[i]? = some t ∧ e.location = t.location) ∨
      e.location = SyntaxError.endOf ts) ∧
    (∀ (i : Nat) (t : Token), ts[i]? = some t → e.location = t.location →
      (∀ rest, ¬Program (ts.take (i + 1) ++ rest)) ∧
      ∃ rest, Ordered (ts.take i ++ rest) ∧ Program (ts.take i ++ rest)) ∧
    (e.location = SyntaxError.endOf ts →
      ¬Program ts ∧ ∃ rest, Ordered (ts ++ rest) ∧ Program (ts ++ rest)) := by
  have hlimit : ¬e.toFault.IsLimit := by
    rintro (hcause | hcause)
    · exact hnesting (by rw [SyntaxError.message, hcause]; rfl)
    · exact hheight (by rw [SyntaxError.message, hcause]; rfl)
  obtain ⟨before, hts, hlocate, hbefore, hfault, hend⟩ := statements_stalls hordered h hlimit
  cases hrest : e.rest with
  | nil =>
    have hlocation : e.location = SyntaxError.endOf ts := by
      rw [hlocate, SyntaxError.locate, hrest]
    rw [hrest, List.append_nil] at hts
    rw [← hts] at hbefore hend
    refine ⟨.inr hlocation, fun i t ht heq => ?_, fun _ => ⟨hend hrest, ?_⟩⟩
    · have hproper := hordered.proper t (List.mem_of_getElem? ht)
      exact absurd (hlocation.symm.trans heq) (endOf_ne ts hproper)
    · exact hbefore.exists_ordered hordered
  | cons t more =>
    have hlocation : e.location = t.location := by
      rw [hlocate, SyntaxError.locate, hrest]
    rw [hrest] at hts
    have hindex : ts[before.length]? = some t := by
      rw [hts, List.getElem?_append_right (le_refl _), Nat.sub_self]
      rfl
    refine ⟨.inl ⟨before.length, t, hindex, hlocation⟩, fun i u hu heq => ?_, fun heq => ?_⟩
    · obtain rfl : i = before.length :=
        hordered.index_eq hu hindex (heq.symm.trans hlocation)
      have htake : ts.take before.length = before := by rw [hts, List.take_left]
      have htake' : ts.take (before.length + 1) = before ++ [t] := by
        rw [hts, ← List.singleton_append, ← List.append_assoc]
        exact List.take_left' List.length_append
      rw [htake, htake']
      refine ⟨fun rest hprogram => ?_, ?_⟩
      · rw [List.append_assoc] at hprogram
        exact hfault t more hrest rest hprogram
      · rw [hts] at hordered
        exact hbefore.exists_ordered (hordered.sublist (List.sublist_append_left _ _))
    · have hproper := hordered.proper t (List.mem_of_getElem? hindex)
      exact absurd (heq.symm.trans hlocation) (endOf_ne ts hproper)

/-- The tokens of a text, and what is wrong with them as a formula. -/
def syntaxErrorOf? (s : String) : Option (List Token × SyntaxError) :=
  match Token.ofText s with
  | .error _ => none
  | .ok ts =>
    match statements ts with
    | .error e => some (ts, e)
    | .ok _ => none

lemma exists_of_syntaxErrorOf? {s : String} {p : List Token × SyntaxError → Bool}
    (h : (syntaxErrorOf? s).any p = true) :
    ∃ ts e, Token.ofText s = .ok ts ∧ statements ts = .error e ∧ p (ts, e) = true := by
  obtain ⟨r, hsome, hp⟩ := (Option.any_eq_true _ _).1 h
  unfold syntaxErrorOf? at hsome
  split at hsome
  · cases hsome
  · rename_i ts htokens
    split at hsome
    · rename_i e hstatements
      cases hsome
      exact ⟨ts, e, htokens, hstatements, hp⟩
    · cases hsome

/-- A second number where a parenthesis should close, in the second of two statements. -/
def unclosed : String := "1\nIF(2, (3 4), 5)"

/-- A formula that ends in the middle of a choice. -/
def unfinished : String := "; 1 > 2 ?"

theorem statements_earliest_unclosed :
    (∃ ts e, Token.ofText unclosed = .ok ts ∧ statements ts = .error e ∧
      e.message = "Expected ')' after expression, found number 4" ∧
      (∀ rest, ¬Program (ts.take 8 ++ rest)) ∧
      ∃ rest, Ordered (ts.take 7 ++ rest) ∧ Program (ts.take 7 ++ rest)) ∧
    ∃ ts e, Token.ofText unfinished = .ok ts ∧ statements ts = .error e ∧
      e.message = "Unexpected end of formula" ∧
      ¬Program ts ∧ ∃ rest, Ordered (ts ++ rest) ∧ Program (ts ++ rest) := by
  have hunclosed : (syntaxErrorOf? unclosed).any (fun r =>
      r.2.message = "Expected ')' after expression, found number 4" ∧
        r.1[7]?.map Token.location = some r.2.location) = true := by decide +kernel
  have hunfinished : (syntaxErrorOf? unfinished).any (fun r =>
      r.2.message = "Unexpected end of formula" ∧
        r.2.location = SyntaxError.endOf r.1) = true := by decide +kernel
  constructor
  · obtain ⟨ts, e, htokens, hstatements, hfound⟩ := exists_of_syntaxErrorOf? hunclosed
    obtain ⟨hmessage, hat⟩ := of_decide_eq_true hfound
    obtain ⟨t, ht, hlocation⟩ := Option.map_eq_some_iff.1 hat
    obtain ⟨-, hearliest, -⟩ := statements_earliest ts e (Token.ofText_ordered htokens) hstatements
      (by rw [hmessage]; decide) (by rw [hmessage]; decide)
    exact ⟨ts, e, htokens, hstatements, hmessage, hearliest 7 t ht hlocation.symm⟩
  · obtain ⟨ts, e, htokens, hstatements, hfound⟩ := exists_of_syntaxErrorOf? hunfinished
    obtain ⟨hmessage, hat⟩ := of_decide_eq_true hfound
    obtain ⟨-, -, hearliest⟩ := statements_earliest ts e (Token.ofText_ordered htokens) hstatements
      (by rw [hmessage]; decide) (by rw [hmessage]; decide)
    exact ⟨ts, e, htokens, hstatements, hmessage, hearliest hat⟩

end Grammar

end FormulaTree
