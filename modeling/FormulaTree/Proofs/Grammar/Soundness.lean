import FormulaTree.Proofs.Grammar.Steps

/-!
# What is read is derived

Whatever a reader of the grammar gives is derived by the tokens it took off, nests no deeper than
the reader may go down, is within the height limit, and was read to its end: the token that comes
next cannot go on with it.  `read_sound` says so for every category.

The proof goes up the levels of nesting, and on each level from the tightest category to the
loosest.  A loop keeps a derivation of what it has read so far (`Explained`) and each round adds
one rule to it.
-/

namespace FormulaTree.Grammar

open FormulaTree.Expr (ofBinary ofCall ofConditional ofMember ofUnary signed)

/-- The tokens taken off `ts` to leave `rest` derive the expression within the limits. -/
def Explained (c : Category) (m : Nat) (ts : List Token) (e : Expr) (rest : List Token) : Prop :=
  ∃ n taken, ts = taken ++ rest ∧ Derives c n taken e ∧ n ≤ m ∧ e.height ≤ heightLimit

/-- The reader of a category gives what is derived, up to where it ends. -/
def Sound (m : Nat) (c : Category) : Prop :=
  ∀ {ts rest : List Token} {e : Expr}, (c.reader m).read ts = .ok (e, rest) →
    Explained c m ts e rest ∧ Ends c rest

/-- The same for the arguments of a call. -/
def ExplainedArguments (m : Nat) (ts : List Token) (es : List Expr) (rest : List Token) : Prop :=
  ∃ n taken, ts = taken ++ rest ∧ DerivesArguments n taken es ∧ n ≤ m ∧
    ∀ e ∈ es, e.height ≤ heightLimit

/-- The same for further arguments. -/
def ExplainedMore (m : Nat) (ts : List Token) (es : List Expr) (rest : List Token) : Prop :=
  ∃ n taken, ts = taken ++ rest ∧ DerivesMore n taken es ∧ n ≤ m ∧
    ∀ e ∈ es, e.height ≤ heightLimit

/-- A rule with one part, which leaves tokens, depth and expression as they are. -/
lemma Explained.imp {c d : Category} {m : Nat} {ts rest : List Token} {e : Expr}
    (h : Explained c m ts e rest) (himp : ∀ {n us}, Derives c n us e → Derives d n us e) :
    Explained d m ts e rest := by
  obtain ⟨n, taken, hts, hderives, hn, hheight⟩ := h
  exact ⟨n, taken, hts, himp hderives, hn, hheight⟩

/-! ## What the steps of the readers give -/

lemma groupTail_eq_ok {m : Nat} {opening : Location} {ts rest : List Token} {e : Expr}
    (h : groupTail (below m) opening ts = .ok (e, rest)) :
    ∃ k e' closing, m = k + 1 ∧
      (Category.choice.reader k).read ts = .ok (e', ⟨.closeParen, closing⟩ :: rest) ∧
      e = e'.relocate (opening.cover closing) := by
  cases m with
  | zero => cases h
  | succ k =>
    rw [below, groupTail_some, expression_levels] at h
    obtain ⟨⟨e', rest'⟩, hinside, htail⟩ := bind_eq_ok.1 h
    obtain ⟨⟨closing, rest''⟩, hclose, heq⟩ := map_eq_ok.1 htail
    cases heq
    obtain rfl : rest' = _ := expect_eq_ok.1 hclose
    exact ⟨k, e', closing, rfl, hinside, rfl⟩

lemma callTail_eq_ok {m : Nat} {callee e : Expr} {opening ts rest : List Token}
    (h : callTail (below m) callee opening ts = .ok (e, rest)) :
    ∃ k es closing, m = k + 1 ∧
      arguments (Category.choice.reader k) ts = .ok (es, ⟨.closeParen, closing⟩ :: rest) ∧
      e = ofCall callee es closing ∧ e.height ≤ heightLimit := by
  cases m with
  | zero => cases h
  | succ k =>
    rw [below, callTail_some, expression_levels] at h
    obtain ⟨⟨es, rest'⟩, hargs, htail⟩ := bind_eq_ok.1 h
    obtain ⟨⟨closing, rest''⟩, hclose, htail⟩ := bind_eq_ok.1 htail
    obtain ⟨e', hheight, heq⟩ := map_eq_ok.1 htail
    cases heq
    obtain ⟨rfl, hle⟩ := ensureHeight_eq_ok.1 hheight
    obtain rfl : rest' = _ := expect_eq_ok.1 hclose
    exact ⟨k, es, closing, rfl, hargs, rfl, hle⟩

lemma memberTail_eq_ok {object e : Expr} {ts rest : List Token}
    (h : memberTail object ts = .ok (e, rest)) :
    ∃ name l, ts = ⟨.identifier name, l⟩ :: rest ∧ e = ofMember object name l ∧
      e.height ≤ heightLimit := by
  cases ts with
  | nil => cases h
  | cons t ts =>
    obtain ⟨kind, l⟩ := t
    cases kind with
    | identifier name =>
      obtain ⟨e', hheight, heq⟩ := map_eq_ok.1 h
      cases heq
      obtain ⟨rfl, hle⟩ := ensureHeight_eq_ok.1 hheight
      exact ⟨name, l, rfl, rfl, hle⟩
    | _ => cases h

lemma unaryTail_eq_ok {m : Nat} {sign : Sign} {place : Location} {e : Expr}
    {blamed ts rest : List Token} (h : unaryTail (below m) sign place blamed ts = .ok (e, rest)) :
    ∃ k operand, m = k + 1 ∧ (Category.unary.reader k).read ts = .ok (operand, rest) ∧
      e = signed sign place operand ∧ e.height ≤ heightLimit := by
  cases m with
  | zero => cases h
  | succ k =>
    rw [below, unaryTail_some, unary_levels] at h
    obtain ⟨⟨operand, rest'⟩, hinside, htail⟩ := bind_eq_ok.1 h
    obtain ⟨e', hheight, heq⟩ := map_eq_ok.1 htail
    cases heq
    obtain ⟨rfl, hle⟩ := ensureHeight_eq_ok.1 hheight
    exact ⟨k, operand, rfl, hinside, rfl, hle⟩

lemma choiceTail_eq_ok {m : Nat} {test e : Expr} {blamed ts rest : List Token}
    (h : choiceTail (below m) test blamed ts = .ok (e, rest)) :
    ∃ k consequent colon us alternate, m = k + 1 ∧
      (Category.choice.reader k).read ts = .ok (consequent, ⟨.colon, colon⟩ :: us) ∧
      (Category.choice.reader k).read us = .ok (alternate, rest) ∧
      e = ofConditional test consequent alternate ∧ e.height ≤ heightLimit := by
  cases m with
  | zero => cases h
  | succ k =>
    rw [below, choiceTail_some, expression_levels] at h
    obtain ⟨⟨consequent, rest'⟩, hyes, htail⟩ := bind_eq_ok.1 h
    obtain ⟨⟨colon, us⟩, hcolon, htail⟩ := bind_eq_ok.1 htail
    obtain ⟨⟨alternate, rest''⟩, hno, htail⟩ := bind_eq_ok.1 htail
    obtain ⟨e', hheight, heq⟩ := map_eq_ok.1 htail
    cases heq
    obtain ⟨rfl, hle⟩ := ensureHeight_eq_ok.1 hheight
    obtain rfl : rest' = _ := expect_eq_ok.1 hcolon
    exact ⟨k, consequent, colon, us, alternate, rfl, hyes, hno, rfl, hle⟩

/-! ## Primary expressions -/

/-- A token that is an expression by itself. -/
lemma explained_token {m : Nat} {t : Token} {e : Expr} {rest : List Token}
    (h : Derives .primary 0 [t] e) (hheight : e.height = 1) :
    Explained .primary m (t :: rest) e rest :=
  ⟨0, [t], rfl, h, Nat.zero_le m, by rw [hheight]; decide⟩

lemma primary_sound {m : Nat} (hinner : ∀ k, m = k + 1 → Sound k .choice) :
    Sound m .primary := by
  intro ts rest e h
  refine ⟨?_, ends_primary rest⟩
  cases ts with
  | nil => cases h
  | cons t ts =>
    obtain ⟨kind, l⟩ := t
    cases kind with
    | number v => cases h; exact explained_token .number rfl
    | text s => cases h; exact explained_token .text rfl
    | boolean b => cases h; exact explained_token .boolean rfl
    | identifier name => cases h; exact explained_token .identifier rfl
    | field name => cases h; exact explained_token .field rfl
    | openParen =>
      obtain ⟨k, e', closing, rfl, hread, rfl⟩ := groupTail_eq_ok h
      obtain ⟨n, taken, rfl, hderives, hn, hheight⟩ := (hinner k rfl hread).1
      refine ⟨n + 1, ⟨.openParen, l⟩ :: (taken ++ [⟨.closeParen, closing⟩]), ?_,
        .group hderives, Nat.succ_le_succ hn, ?_⟩
      · rw [List.cons_append, List.append_assoc, List.singleton_append]
      · rw [height_relocate]
        exact hheight
    | _ => cases h

/-! ## Arguments -/

lemma moreArguments_sound {m : Nat} (hchoice : Sound m .choice) {ts rest : List Token}
    {es : List Expr} (h : moreArguments (Category.choice.reader m) ts = .ok (es, rest)) :
    ExplainedMore m ts es rest := by
  fun_induction moreArguments (Category.choice.reader m) ts generalizing es with
  | case1 =>
    cases h
    exact ⟨0, [], rfl, .none, Nat.zero_le m, by simp⟩
  | case2 => cases h
  | case3 t _ hkind e rest' hfirst ih =>
    obtain ⟨⟨es', rest''⟩, hmore, heq⟩ := map_eq_ok.1 h
    cases heq
    obtain ⟨kind, l⟩ := t
    obtain rfl : kind = .comma := hkind
    obtain ⟨n, taken, rfl, hderives, hn, hheight⟩ := (hchoice hfirst).1
    obtain ⟨n', taken', rfl, hderives', hn', hheight'⟩ := ih hmore
    refine ⟨max n n', ⟨.comma, l⟩ :: (taken ++ taken'), ?_, .some hderives hderives',
      Nat.max_le.2 ⟨hn, hn'⟩, ?_⟩
    · rw [List.cons_append, List.append_assoc]
    · exact List.forall_mem_cons.2 ⟨hheight, hheight'⟩
  | case4 =>
    cases h
    exact ⟨0, [], rfl, .none, Nat.zero_le m, by simp⟩

lemma arguments_sound {m : Nat} (hchoice : Sound m .choice) {ts rest : List Token}
    {es : List Expr} (h : arguments (Category.choice.reader m) ts = .ok (es, rest)) :
    ExplainedArguments m ts es rest := by
  by_cases hclose : ts.head?.map Token.kind = some .closeParen
  · rw [arguments, if_pos hclose] at h
    cases h
    exact ⟨0, [], rfl, .none, Nat.zero_le m, by simp⟩
  · rw [arguments_of_ne _ hclose] at h
    obtain ⟨⟨e, rest'⟩, hfirst, htail⟩ := bind_eq_ok.1 h
    obtain ⟨⟨es', rest''⟩, hmore, heq⟩ := map_eq_ok.1 htail
    cases heq
    obtain ⟨n, taken, rfl, hderives, hn, hheight⟩ := (hchoice hfirst).1
    obtain ⟨n', taken', hrest, hderives', hn', hheight'⟩ := moreArguments_sound hchoice hmore
    obtain rfl : rest' = _ := hrest
    refine ⟨max n n', taken ++ taken', ?_, .some hderives hderives',
      Nat.max_le.2 ⟨hn, hn'⟩, ?_⟩
    · rw [List.append_assoc]
    · exact List.forall_mem_cons.2 ⟨hheight, hheight'⟩

/-! ## Calls and member accesses -/

lemma Explained.call {m : Nat} {ts us rest : List Token} {callee : Expr} {es : List Expr}
    {opening closing : Location}
    (h : Explained .applied (m + 1) ts callee (⟨.openParen, opening⟩ :: us))
    (hargs : ExplainedArguments m us es (⟨.closeParen, closing⟩ :: rest))
    (hheight : (ofCall callee es closing).height ≤ heightLimit) :
    Explained .applied (m + 1) ts (ofCall callee es closing) rest := by
  obtain ⟨k, taken, rfl, hderives, hk, -⟩ := h
  obtain ⟨n, taken', rfl, hderives', hn, -⟩ := hargs
  refine ⟨max k (n + 1), taken ++ ⟨.openParen, opening⟩ :: (taken' ++ [⟨.closeParen, closing⟩]),
    ?_, .call hderives hderives', ?_, hheight⟩
  · rw [List.append_assoc, List.cons_append, List.append_assoc, List.singleton_append]
  · exact Nat.max_le.2 ⟨hk, Nat.succ_le_succ hn⟩

lemma Explained.member {m : Nat} {ts rest : List Token} {object : Expr} {name : String}
    {point l : Location}
    (h : Explained .applied m ts object (⟨.dot, point⟩ :: ⟨.identifier name, l⟩ :: rest))
    (hheight : (ofMember object name l).height ≤ heightLimit) :
    Explained .applied m ts (ofMember object name l) rest := by
  obtain ⟨n, taken, rfl, hderives, hn, -⟩ := h
  refine ⟨n, taken ++ [⟨.dot, point⟩, ⟨.identifier name, l⟩], ?_, .member hderives, hn, hheight⟩
  rw [List.append_assoc]
  rfl

/-- The invariant of the loop: what it has read is derived by the tokens before the rest. -/
lemma applications_sound {m : Nat} (hinner : ∀ k, m = k + 1 → Sound k .choice) {e e' : Expr}
    {ts us rest : List Token} (hbefore : Explained .applied m ts e us)
    (h : applications (below m) e us = .ok (e', rest)) :
    Explained .applied m ts e' rest ∧ Ends .applied rest := by
  fun_induction applications (below m) e us with
  | case1 =>
    cases h
    exact ⟨hbefore, ends_nil _⟩
  | case2 | case4 => cases h
  | case3 e t us hkind call rest' hcall ih =>
    obtain ⟨kind, opening⟩ := t
    obtain rfl : kind = .openParen := hkind
    obtain ⟨k, es, closing, rfl, hargs, rfl, hheight⟩ := callTail_eq_ok hcall
    exact ih (hbefore.call (arguments_sound (hinner k rfl) hargs) hheight) h
  | case5 e t us hkind access rest' hmember ih =>
    obtain ⟨kind, point⟩ := t
    obtain rfl : kind = .dot := hkind
    obtain ⟨name, l, rfl, rfl, hheight⟩ := memberTail_eq_ok hmember
    exact ih (hbefore.member hheight) h
  | case6 e t us hopen hdot =>
    cases h
    refine ⟨hbefore, ends_cons.2 ?_⟩
    obtain ⟨kind, l⟩ := t
    cases kind <;> simp_all [Category.continues, applies]

lemma applied_sound {m : Nat} (hinner : ∀ k, m = k + 1 → Sound k .choice) :
    Sound m .applied := by
  intro ts rest e h
  have hread := (applied_read (below m) ts).symm.trans h
  obtain ⟨⟨e', rest'⟩, hprimary, htail⟩ := bind_eq_ok.1 hread
  have hbefore : Explained .primary m ts e' rest' := (primary_sound hinner hprimary).1
  exact applications_sound hinner (hbefore.imp .primary) htail

/-! ## Signs -/

lemma unary_sound {m : Nat} (hinner : ∀ k, m = k + 1 → Sound k .choice ∧ Sound k .unary) :
    Sound m .unary := by
  have happlied : Sound m .applied := applied_sound fun k hk => (hinner k hk).1
  have hplain {ts rest : List Token} {e : Expr}
      (h : (Category.applied.reader m).read ts = .ok (e, rest)) :
      Explained .unary m ts e rest ∧ Ends .unary rest :=
    ⟨(happlied h).1.imp .applied, (happlied h).2⟩
  intro ts rest e h
  cases ts with
  | nil => exact hplain h
  | cons t ts =>
    obtain ⟨kind, place⟩ := t
    cases kind with
    | operator sign =>
      by_cases hmem : sign ∈ leadingSigns
      · rw [Category.reader, unary_sign hmem] at h
        obtain ⟨k, operand, rfl, hread, rfl, hheight⟩ := unaryTail_eq_ok h
        obtain ⟨⟨n, taken, rfl, hderives, hn, -⟩, hends⟩ := (hinner k rfl).2 hread
        exact ⟨⟨n + 1, _, rfl, .signed hmem hderives, Nat.succ_le_succ hn, hheight⟩, hends⟩
      · exact hplain ((unary_of_notMem hmem).symm.trans h)
    | _ => exact hplain h

/-! ## Binary signs -/

lemma Explained.chain {m : Nat} {ts us rest : List Token} {left right : Expr}
    {signs : List Sign} {tighter : List (List Sign)} {sign : Sign} {place : Location}
    (hleft : Explained (.binary (signs :: tighter)) m ts left (⟨.operator sign, place⟩ :: us))
    (hmem : sign ∈ signs) (hright : Explained (.binary tighter) m us right rest)
    (hheight : (ofBinary sign left right).height ≤ heightLimit) :
    Explained (.binary (signs :: tighter)) m ts (ofBinary sign left right) rest := by
  obtain ⟨k, taken, rfl, hderives, hk, -⟩ := hleft
  obtain ⟨n, taken', rfl, hderives', hn, -⟩ := hright
  refine ⟨max k n, taken ++ ⟨.operator sign, place⟩ :: taken', ?_,
    .chain hderives hmem hderives', Nat.max_le.2 ⟨hk, hn⟩, hheight⟩
  rw [List.append_assoc, List.cons_append]

/-- A token that ends an operand and is none of the signs ends the chain. -/
lemma ends_binary_cons {signs : List Sign} {tighter : List (List Sign)} {rest : List Token}
    (h : Ends (.binary tighter) rest)
    (hsigns : ∀ t ∈ rest.head?, ∀ sign ∈ signs, t.kind ≠ .operator sign) :
    Ends (.binary (signs :: tighter)) rest := by
  intro t ht
  have hjoins : joins tighter t.kind = false := h t ht
  have hkind := hsigns t ht
  show joins (signs :: tighter) t.kind = false
  cases hk : t.kind with
  | operator sign =>
    rw [hk] at hjoins hkind
    have hmem : sign ∉ signs := fun hmem => hkind sign hmem rfl
    simpa [joins, hmem] using hjoins
  | _ =>
    rw [hk] at hjoins
    exact hjoins

lemma chain_sound {m : Nat} {signs : List Sign} {tighter : List (List Sign)}
    (htighter : Sound m (.binary tighter)) {left e : Expr} {ts us rest : List Token}
    (hbefore : Explained (.binary (signs :: tighter)) m ts left us)
    (hends : Ends (.binary tighter) us)
    (h : Grammar.chain signs ((Category.binary tighter).reader m) left us = .ok (e, rest)) :
    Explained (.binary (signs :: tighter)) m ts e rest ∧
      Ends (.binary (signs :: tighter)) rest := by
  fun_induction Grammar.chain signs ((Category.binary tighter).reader m) left us with
  | case1 =>
    cases h
    exact ⟨hbefore, ends_nil _⟩
  | case2 | case3 => cases h
  | case4 left t us sign hkind hmem right rest' hright e' hheight ih =>
    obtain ⟨kind, place⟩ := t
    obtain rfl : kind = .operator sign := hkind
    obtain ⟨rfl, hle⟩ := ensureHeight_eq_ok.1 hheight
    obtain ⟨hexplained, hends'⟩ := htighter hright
    exact ih (hbefore.chain hmem hexplained hle) hends' h
  | case5 left t us sign hkind hmem =>
    cases h
    refine ⟨hbefore, ends_binary_cons hends ?_⟩
    rintro t' ⟨⟩ sign' hsign' heq
    rw [hkind] at heq
    cases heq
    exact hmem hsign'
  | case6 left t us hkind =>
    cases h
    refine ⟨hbefore, ends_binary_cons hends ?_⟩
    rintro t' ⟨⟩ sign' _
    exact hkind sign'

lemma binary_sound {m : Nat} (hunary : Sound m .unary) :
    ∀ levels : List (List Sign), Sound m (.binary levels)
  | [], ts, rest, e, h => by
    obtain ⟨hexplained, hends⟩ := hunary h
    refine ⟨hexplained.imp .operand, hends.mono fun kind hkind => ?_⟩
    cases kind <;> simp_all [Category.continues, joins]
  | signs :: tighter, ts, rest, e, h => by
    have htighter : Sound m (.binary tighter) := binary_sound hunary tighter
    have hread := (leftAssoc_read signs ((Category.binary tighter).reader m) ts).symm.trans h
    obtain ⟨⟨left, rest'⟩, hleft, htail⟩ := bind_eq_ok.1 hread
    obtain ⟨hexplained, hends⟩ := htighter hleft
    exact chain_sound htighter (hexplained.imp .level) hends htail

/-! ## Choices -/

lemma choice_sound {m : Nat} (hinner : ∀ k, m = k + 1 → Sound k .choice)
    (hbinary : Sound m (.binary binaryLevels)) : Sound m .choice := by
  intro ts rest e h
  have hread := (expression_read (below m) _ ts).symm.trans h
  obtain ⟨⟨test, us⟩, htest, htail⟩ := bind_eq_ok.1 hread
  obtain ⟨hexplained, hends⟩ := hbinary htest
  cases us with
  | nil =>
    cases htail
    exact ⟨hexplained.imp .test, ends_nil _⟩
  | cons t us =>
    obtain ⟨kind, question⟩ := t
    by_cases hkind : kind = .question
    · subst hkind
      obtain ⟨k, consequent, colon, vs, alternate, rfl, hyes, hno, rfl, hheight⟩ :=
        choiceTail_eq_ok htail
      obtain ⟨n, taken, rfl, hderives, hn, -⟩ := hexplained
      obtain ⟨n₁, taken₁, rfl, hderives₁, hn₁, -⟩ := (hinner k rfl hyes).1
      obtain ⟨⟨n₂, taken₂, rfl, hderives₂, hn₂, -⟩, hends₂⟩ := hinner k rfl hno
      refine ⟨⟨max n (max (n₁ + 1) (n₂ + 1)),
        taken ++ ⟨.question, question⟩ :: (taken₁ ++ ⟨.colon, colon⟩ :: taken₂), ?_,
        .choice hderives hderives₁ hderives₂, ?_, hheight⟩, hends₂⟩
      · rw [List.append_assoc, List.cons_append, List.append_assoc, List.cons_append]
      · omega
    · have hend : Ends .choice (⟨kind, question⟩ :: us) := by
        have hjoins : joins binaryLevels kind = false := ends_cons.1 hends
        simp [Category.continues, hkind, hjoins]
      rw [choice_of_ends hend] at htail
      cases htail
      exact ⟨hexplained.imp .test, hend⟩

/-! ## All levels together -/

/-- Every reader of every level is sound. -/
theorem read_sound (m : Nat) : Sound m .choice ∧ Sound m .unary := by
  induction m with
  | zero =>
    have hunary : Sound 0 .unary := unary_sound fun k hk => absurd hk (by omega)
    exact ⟨choice_sound (fun k hk => absurd hk (by omega)) (binary_sound hunary _), hunary⟩
  | succ m ih =>
    have hunary : Sound (m + 1) .unary := unary_sound fun k hk => by
      cases hk
      exact ih
    refine ⟨choice_sound (fun k hk => ?_) (binary_sound hunary _), hunary⟩
    cases hk
    exact ih.1

/-- What is read off the front of tokens as a whole expression is derived within the limits, and
ends there. -/
lemma reader_sound {ts rest : List Token} {e : Expr} (h : reader.read ts = .ok (e, rest)) :
    Explained .choice nestingLimit ts e rest ∧ Ends .choice rest := by
  rw [reader, expression_levels] at h
  exact (read_sound nestingLimit).1 h

end FormulaTree.Grammar
