import FormulaTree.Proofs.Grammar.Blame
import FormulaTree.Proofs.Statements

/-!
# The tokens that an expression is read from

Every token of a formula but the semicolons belongs to one expression.  An expression has the signs
and marks between its parts, the parentheses around it and, if it is a number, the minus signs
before it; the other tokens are those of its parts.

`Expr.ReadFrom` says this of an expression and a list of tokens, and it says where the expression
and all of its parts stand: from the start of the first of their own tokens to the end of the last
(`Location.IsExtent`).  Locations are built step by step when expressions are, by covering the
locations of parts and marks.  That the result is the extent is due to the order of the tokens.
-/

namespace FormulaTree

open Token (Ordered)

/-! ## Extents -/

/-- The stretch begins where the first of the tokens does, and ends where the last one does. -/
structure Location.IsExtent (l : Location) (ts : List Token) : Prop where
  start : ts.head?.map (·.location.start) = some l.start
  stop : ts.getLast?.map (·.location.stop) = some l.stop

/-- The stretch of tokens in order begins where the first of them does. -/
lemma Location.Spans.start_eq {l : Location} {ts : List Token} {first : Token} (h : l.Spans ts)
    (hordered : Ordered ts) (hfirst : first ∈ ts.head?) : l.start = first.location.start := by
  obtain ⟨rest, rfl⟩ := List.head?_eq_some_iff.1 hfirst
  obtain ⟨u, hu, hstart⟩ := h.start
  have hmem : first ∈ first :: rest := List.mem_cons_self
  rcases List.mem_cons.1 hu with rfl | hu
  · exact hstart
  · -- A token after the first one begins after the first one ends.
    have hprecedes : first.location.Precedes u.location :=
      (List.pairwise_cons.1 hordered.pairwise).1 u hu
    have hlater : first.location.start < u.location.start :=
      lt_of_lt_of_le (hordered.proper first hmem) hprecedes
    have hcovers := (h.covers first hmem).1
    rw [hstart] at hcovers
    exact absurd hlater (not_lt_of_ge hcovers)

/-- What spans tokens in order is their extent. -/
lemma Location.Spans.isExtent {l : Location} {ts : List Token} (h : l.Spans ts)
    (hordered : Ordered ts) : l.IsExtent ts := by
  obtain ⟨t, ht, -⟩ := h.start
  have hne : ts ≠ [] := List.ne_nil_of_mem ht
  have hfirst := List.head?_eq_some_head hne
  have hlast := List.getLast?_eq_some_getLast hne
  refine ⟨?_, ?_⟩
  · rw [hfirst, Option.map_some, h.start_eq hordered hfirst]
  · rw [hlast, Option.map_some, h.stop_eq hordered hlast]

/-! ## Expressions and their tokens -/

namespace Expr

mutual

/-- The expression is read from the tokens and stands just where they do, and so does each of its
parts. -/
inductive ReadFrom : Expr → List Token → Prop
  | intro {e : Expr} {ts : List Token} (extent : e.location.IsExtent ts)
      (consists : ConsistsOf e ts) : ReadFrom e ts

/-- The tokens are those that the parts of the expression are read from, with the expression's own
ones between and around them.  Neither its location nor its height plays a role. -/
inductive ConsistsOf : Expr → List Token → Prop
  | number {v : Number} {l place : Location} : ConsistsOf (.number v l) [⟨.number v, place⟩]
  | text {s : String} {l place : Location} : ConsistsOf (.text s l) [⟨.text s, place⟩]
  | boolean {b : Bool} {l place : Location} : ConsistsOf (.boolean b l) [⟨.boolean b, place⟩]
  | identifier {name : String} {l place : Location} :
      ConsistsOf (.identifier name l) [⟨.identifier name, place⟩]
  | field {name : String} {l place : Location} :
      ConsistsOf (.identifier name l) [⟨.field name, place⟩]
  | group {e : Expr} {ts : List Token} {l opening closing : Location}
      (inside : ConsistsOf e ts) :
      ConsistsOf (e.relocate l) (⟨.openParen, opening⟩ :: (ts ++ [⟨.closeParen, closing⟩]))
  | negative {v : Number} {ts : List Token} {inner l place : Location}
      (inside : ConsistsOf (.number v inner) ts) :
      ConsistsOf (.number v.negate l) (⟨.operator .minus, place⟩ :: ts)
  | member {object : Expr} {name : String} {height : Nat} {ts : List Token}
      {l point place : Location} (first : ReadFrom object ts) :
      ConsistsOf (.member object name height l)
        (ts ++ [⟨.dot, point⟩, ⟨.identifier name, place⟩])
  | call {callee : Expr} {arguments : List Expr} {height : Nat} {ts us : List Token}
      {l opening closing : Location} (first : ReadFrom callee ts)
      (others : ListedIn arguments us) :
      ConsistsOf (.call callee arguments height l)
        (ts ++ ⟨.openParen, opening⟩ :: (us ++ [⟨.closeParen, closing⟩]))
  | binary {sign : Sign} {left right : Expr} {height : Nat} {ts us : List Token}
      {l place : Location} (first : ReadFrom left ts) (second : ReadFrom right us) :
      ConsistsOf (.binary sign left right height l) (ts ++ ⟨.operator sign, place⟩ :: us)
  | unary {sign : Sign} {operand : Expr} {height : Nat} {ts : List Token} {l place : Location}
      (inside : ReadFrom operand ts) :
      ConsistsOf (.unary sign operand height l) (⟨.operator sign, place⟩ :: ts)
  | conditional {test consequent alternate : Expr} {height : Nat} {ts us vs : List Token}
      {l question colon : Location} (first : ReadFrom test ts) (second : ReadFrom consequent us)
      (third : ReadFrom alternate vs) :
      ConsistsOf (.conditional test consequent alternate height l)
        (ts ++ ⟨.question, question⟩ :: (us ++ ⟨.colon, colon⟩ :: vs))

/-- The tokens are those that the expressions of a list are read from, with commas between them. -/
inductive ListedIn : List Expr → List Token → Prop
  | none : ListedIn [] []
  | one {e : Expr} {ts : List Token} (last : ReadFrom e ts) : ListedIn [e] ts
  | more {e next : Expr} {es : List Expr} {ts us : List Token} {comma : Location}
      (first : ReadFrom e ts) (others : ListedIn (next :: es) us) :
      ListedIn (e :: next :: es) (ts ++ ⟨.comma, comma⟩ :: us)

end

end Expr

/-! ## Derivations -/

namespace Grammar

open FormulaTree.Expr (ConsistsOf ListedIn ReadFrom)

/-- What a derived expression is made of is known here, so that it can come from the recursion
below. -/
lemma Derives.readFrom_of_consistsOf {c : Category} {n : Nat} {ts : List Token} {e : Expr}
    (h : Derives c n ts e) (hordered : Ordered ts) (hconsists : e.ConsistsOf ts) :
    e.ReadFrom ts :=
  .intro ((h.stands hordered).spans.isExtent hordered) hconsists

mutual

/-- What is derived from tokens in order is made of them. -/
lemma Derives.consistsOf {c : Category} {n : Nat} {ts : List Token} {e : Expr} :
    Derives c n ts e → Ordered ts → e.ConsistsOf ts
  | .number, _ => .number
  | .text, _ => .text
  | .boolean, _ => .boolean
  | .identifier, _ => .identifier
  | .field, _ => .field
  | .group inside, h => by
    refine .group (inside.consistsOf (h.sublist ?_))
    exact (List.sublist_append_left _ _).trans (List.sublist_cons_self _ _)
  | .call applied inside, h => by
    have hfirst := h.sublist (List.sublist_append_left _ _)
    refine .call (applied.readFrom_of_consistsOf hfirst (applied.consistsOf hfirst))
      (inside.listedIn (h.sublist ?_))
    exact (List.sublist_append_left _ _).trans
      ((List.sublist_cons_self _ _).trans (List.sublist_append_right _ _))
  | .member applied, h => by
    have hfirst := h.sublist (List.sublist_append_left _ _)
    exact .member (applied.readFrom_of_consistsOf hfirst (applied.consistsOf hfirst))
  | .signed _ inside, h => by
    have hinside := h.sublist (List.sublist_cons_self _ _)
    have hoperand := inside.consistsOf hinside
    unfold Expr.signed
    split
    · exact .negative hoperand
    · exact .unary (inside.readFrom_of_consistsOf hinside hoperand)
  | .chain first _ second, h => by
    have hfirst := h.sublist (List.sublist_append_left _ _)
    have hsecond := h.sublist ((List.sublist_cons_self _ _).trans (List.sublist_append_right _ _))
    exact .binary (first.readFrom_of_consistsOf hfirst (first.consistsOf hfirst))
      (second.readFrom_of_consistsOf hsecond (second.consistsOf hsecond))
  | .choice condition yes no, h => by
    have htest := h.sublist (List.sublist_append_left _ _)
    have hbranches := h.sublist ((List.sublist_cons_self _ _).trans (List.sublist_append_right _ _))
    have hyes := hbranches.sublist (List.sublist_append_left _ _)
    have hno := hbranches.sublist
      ((List.sublist_cons_self _ _).trans (List.sublist_append_right _ _))
    exact .conditional (condition.readFrom_of_consistsOf htest (condition.consistsOf htest))
      (yes.readFrom_of_consistsOf hyes (yes.consistsOf hyes))
      (no.readFrom_of_consistsOf hno (no.consistsOf hno))
  | .primary alone, h | .applied alone, h | .operand alone, h | .level alone, h | .test alone, h =>
    alone.consistsOf h

lemma DerivesArguments.listedIn {n : Nat} {ts : List Token} {es : List Expr} :
    DerivesArguments n ts es → Ordered ts → ListedIn es ts
  | .none, _ => .none
  | .some first others, h => by
    have hfirst := h.sublist (List.sublist_append_left _ _)
    refine others.listedIn (h.sublist (List.sublist_append_right _ _)) ?_
    exact first.readFrom_of_consistsOf hfirst (first.consistsOf hfirst)

lemma DerivesMore.listedIn {n : Nat} {ts us : List Token} {e : Expr} {es : List Expr} :
    DerivesMore n us es → Ordered us → e.ReadFrom ts → ListedIn (e :: es) (ts ++ us)
  | .none, _, he => by
    rw [List.append_nil]
    exact .one he
  | .some next others, h, he => by
    have hnext := h.sublist ((List.sublist_append_left _ _).trans (List.sublist_cons_self _ _))
    refine .more he (others.listedIn (h.sublist ?_) ?_)
    · exact (List.sublist_append_right _ _).trans (List.sublist_cons_self _ _)
    · exact next.readFrom_of_consistsOf hnext (next.consistsOf hnext)

end

/-- What is derived from tokens in order is read from them. -/
lemma Derives.readFrom {c : Category} {n : Nat} {ts : List Token} {e : Expr}
    (h : Derives c n ts e) (hordered : Ordered ts) : e.ReadFrom ts :=
  h.readFrom_of_consistsOf hordered (h.consistsOf hordered)

lemma IsStatement.stands {ts : List Token} {e : Expr} (h : IsStatement ts e)
    (hordered : Ordered ts) : e.Stands ts := by
  obtain ⟨n, -, hderives⟩ := h.derives
  exact hderives.stands hordered

lemma IsStatement.readFrom {ts : List Token} {e : Expr} (h : IsStatement ts e)
    (hordered : Ordered ts) : e.ReadFrom ts := by
  obtain ⟨n, -, hderives⟩ := h.derives
  exact hderives.readFrom hordered

/-! ## Statements -/

mutual

/-- No token of an expression is a semicolon. -/
lemma Derives.ne_semicolon {c : Category} {n : Nat} {ts : List Token} {e : Expr} :
    Derives c n ts e → ∀ t ∈ ts, t.kind ≠ .semicolon
  | .number | .text | .boolean | .identifier | .field => by simp
  | .group inside => by simpa [or_imp, forall_and] using inside.ne_semicolon
  | .call applied inside => by
    simpa [or_imp, forall_and] using ⟨applied.ne_semicolon, inside.ne_semicolon⟩
  | .member applied => by simpa [or_imp, forall_and] using applied.ne_semicolon
  | .signed _ inside => by simpa using inside.ne_semicolon
  | .chain first _ second => by
    simpa [or_imp, forall_and] using ⟨first.ne_semicolon, second.ne_semicolon⟩
  | .choice condition yes no => by
    simpa [or_imp, forall_and] using
      ⟨condition.ne_semicolon, yes.ne_semicolon, no.ne_semicolon⟩
  | .primary alone | .applied alone | .operand alone | .level alone | .test alone =>
    alone.ne_semicolon

lemma DerivesArguments.ne_semicolon {n : Nat} {ts : List Token} {es : List Expr} :
    DerivesArguments n ts es → ∀ t ∈ ts, t.kind ≠ .semicolon
  | .none => by simp
  | .some first others => by
    simpa [or_imp, forall_and] using ⟨first.ne_semicolon, others.ne_semicolon⟩

lemma DerivesMore.ne_semicolon {n : Nat} {ts : List Token} {es : List Expr} :
    DerivesMore n ts es → ∀ t ∈ ts, t.kind ≠ .semicolon
  | .none => by simp
  | .some first others => by
    simpa [or_imp, forall_and] using ⟨first.ne_semicolon, others.ne_semicolon⟩

end

/-- The tokens that are not semicolons. -/
def withoutSemicolons (ts : List Token) : List Token := ts.filter fun t => t.kind ≠ .semicolon

lemma withoutSemicolons_append (ts us : List Token) :
    withoutSemicolons (ts ++ us) = withoutSemicolons ts ++ withoutSemicolons us :=
  List.filter_append ts us

lemma AreSemicolons.withoutSemicolons_eq {ts : List Token} (h : AreSemicolons ts) :
    withoutSemicolons ts = [] :=
  List.filter_eq_nil_iff.2 fun t ht => by simpa using h t ht

lemma IsStatement.withoutSemicolons_eq {ts : List Token} {e : Expr} (h : IsStatement ts e) :
    withoutSemicolons ts = ts := by
  obtain ⟨n, -, hderives⟩ := h.derives
  exact List.filter_eq_self.2 fun t ht => by simpa using hderives.ne_semicolon t ht

lemma Separator.withoutSemicolons_eq {before after gap : List Token}
    (h : Separator before after gap) : withoutSemicolons gap = [] := by
  cases h with
  | semicolons _ hall => exact hall.withoutSemicolons_eq
  | lineBreak => rfl

/-- The tokens of a sequence that are not semicolons are those of its statements. -/
lemma Sequence.exists_runs {ts : List Token} {es : List Expr} (h : Sequence ts es)
    (hordered : Ordered ts) :
    ∃ runs, List.Forall₂ ReadFrom es runs ∧ runs.flatten = withoutSemicolons ts := by
  induction h with
  | @last ts trail e hstatement htrail =>
    have hread := hstatement.readFrom (hordered.sublist (List.sublist_append_left _ _))
    refine ⟨[ts], .cons hread .nil, ?_⟩
    rw [withoutSemicolons_append, hstatement.withoutSemicolons_eq, htrail.withoutSemicolons_eq]
    simp
  | @cons ts gap rest e es hstatement hseparator _ ih =>
    have hread := hstatement.readFrom (hordered.sublist (List.sublist_append_left _ _))
    obtain ⟨runs, hruns, hflatten⟩ := ih (hordered.sublist
      ((List.sublist_append_right _ _).trans (List.sublist_append_right _ _)))
    refine ⟨ts :: runs, .cons hread hruns, ?_⟩
    rw [withoutSemicolons_append, withoutSemicolons_append, hstatement.withoutSemicolons_eq,
      hseparator.withoutSemicolons_eq, List.flatten_cons, hflatten, List.nil_append]

/-- The statements of a sequence stand one after another. -/
lemma Sequence.row {ts : List Token} {es : List Expr} (h : Sequence ts es)
    (hordered : Ordered ts) : Expr.Row es ts := by
  induction h with
  | last hstatement _ =>
    have hstands := hstatement.stands (hordered.sublist (List.sublist_append_left _ _))
    exact hstands.row.mono (List.subset_append_left _ _)
  | cons hstatement _ _ ih =>
    have hstands := hstatement.stands (hordered.sublist (List.sublist_append_left _ _))
    have hrest := ih (hordered.sublist
      ((List.sublist_append_right _ _).trans (List.sublist_append_right _ _)))
    exact .cons hstands (hrest.mono (List.subset_append_right _ _)) hordered

lemma Sequence.derivedWithin {ts : List Token} {es : List Expr} {e x : Expr}
    (h : Sequence ts es) (he : e ∈ es) (hx : e.Holds x) : DerivedWithin ts x := by
  induction h with
  | last hstatement _ =>
    obtain ⟨n, -, hderives⟩ := hstatement.derives
    rw [List.mem_singleton.1 he] at hx
    exact (hderives.of_holds hx).mono (List.prefix_append _ _).isInfix
  | cons hstatement _ _ ih =>
    rcases List.mem_cons.1 he with rfl | he
    · obtain ⟨n, -, hderives⟩ := hstatement.derives
      exact (hderives.of_holds hx).mono (List.prefix_append _ _).isInfix
    · exact (ih he).mono ((List.suffix_append _ _).trans (List.suffix_append _ _)).isInfix

/-- **The place of an expression is that of the tokens it was read from.**  The tokens of a formula
are shared out among its statements, and those of a statement among its parts: each of them stands
from the start of the first of its tokens to the end of the last one, with the parentheses around it
and the minus signs of a number among them.  So what an expression is made of stands within it,
apart and in order, and so do the statements. -/
theorem statements_readFrom (s : String) (tokens : List Token) (es : List Expr)
    (htokens : Token.ofText s = .ok tokens) (hstatements : statements tokens = .ok es) :
    (∃ runs, List.Forall₂ ReadFrom es runs ∧ runs.flatten = withoutSemicolons tokens) ∧
    (∀ e ∈ es, ∀ x, e.Holds x →
      (∃ run, run <:+: tokens ∧ x.ReadFrom run) ∧ x.location.IsProper ∧
      (∀ y ∈ x.children, y.location.Within x.location) ∧
      x.children.Pairwise fun y z => y.location.Precedes z.location) ∧
    es.Pairwise fun x y => x.location.Precedes y.location := by
  have hordered := Token.ofText_ordered htokens
  obtain ⟨lead, rest, rfl, hlead, hsequence⟩ := (statements_eq_ok_iff hordered).1 hstatements
  have hrest : Ordered rest := hordered.sublist (List.sublist_append_right _ _)
  refine ⟨?_, fun e he x hx => ?_, (hsequence.row hrest).pairwise⟩
  · rw [withoutSemicolons_append, hlead.withoutSemicolons_eq, List.nil_append]
    exact hsequence.exists_runs hrest
  · obtain ⟨c, n, run, hrun, hderives⟩ := hsequence.derivedWithin he hx
    have hrun' : Ordered run := hrest.sublist hrun.sublist
    obtain ⟨hproper, hwithin, hpairwise, -, -⟩ := (hderives.stands hrun').placed
    have hsub : run <:+: lead ++ rest := hrun.trans (List.suffix_append _ _).isInfix
    exact ⟨⟨run, hsub, hderives.readFrom hrun'⟩, hproper, hwithin, hpairwise⟩

/-- Two statements, with parentheses around parts of either and a minus before a number. -/
def enclosed : String := "(a) + -(2) ; f((1), x ? y : z).p"

theorem statements_readFrom_enclosed : ∃ tokens es, Token.ofText enclosed = .ok tokens ∧
    statements tokens = .ok es ∧ es.length = 2 ∧
    (∃ runs, List.Forall₂ ReadFrom es runs ∧ runs.flatten = withoutSemicolons tokens) ∧
    (∀ e ∈ es, ∀ x, e.Holds x → ∃ run, run <:+: tokens ∧ x.ReadFrom run) ∧
    es.Pairwise fun x y => x.location.Precedes y.location := by
  have hcount : Lowering.statementCount? enclosed = some 2 := by decide +kernel
  obtain ⟨tokens, es, htokens, hstatements, hlength⟩ := Lowering.exists_statements hcount
  obtain ⟨hruns, hparts, hpairwise⟩ :=
    statements_readFrom enclosed tokens es htokens hstatements
  exact ⟨tokens, es, htokens, hstatements, hlength, hruns, fun e he x hx => (hparts e he x hx).1,
    hpairwise⟩

end Grammar

end FormulaTree
