import FormulaTree.Proofs.Grammar.Soundness
import FormulaTree.Proofs.Token.Partition

/-!
# Where expressions stand

The tokens of a formula are not empty and come one after another.  So do the parts of an expression
that is derived from them: every node stands from the start of its first token to the end of its
last one, the nodes below it stand within it, and those next to each other stand apart
(`Expr.Placed`).

The proof keeps account of which tokens an expression was derived from: its location `Spans` them.
-/

namespace FormulaTree

/-! ## Tokens in order -/

namespace Token

/-- Tokens that are not empty and come one after another. -/
structure Ordered (ts : List Token) : Prop where
  proper : ∀ t ∈ ts, t.location.IsProper
  pairwise : ts.Pairwise fun t u => t.location.Precedes u.location

lemma Ordered.sublist {ts us : List Token} (h : Ordered us) (hsub : ts.Sublist us) : Ordered ts :=
  ⟨fun t ht => h.proper t (hsub.subset ht), h.pairwise.sublist hsub⟩

lemma tokensFrom_ordered {p : Position} {cs : List Char} {ts : List Token}
    (h : tokensFrom p cs = .ok ts) : Ordered ts ∧ ∀ t ∈ ts, p ≤ t.location.start := by
  fun_induction tokensFrom p cs generalizing ts with
  | case1 | case3 => cases h
  | case2 =>
    cases h
    exact ⟨⟨by simp, List.Pairwise.nil⟩, by simp⟩
  | case4 p cs q c rest hskip s hscan ih =>
    obtain ⟨ts', hrest, rfl⟩ := map_eq_ok.1 h
    obtain ⟨gap, rfl, rfl, -, hbegins⟩ := skipGap_covers hskip
    obtain ⟨slice, rfl, hposition, -⟩ := ofText_slice (hbegins (List.cons_ne_nil c rest)) hscan
    obtain ⟨hordered, hlater⟩ := ih hrest
    have hgap : p ≤ p.after gap := p.le_after gap
    have hproper : p.after gap < s.position := by
      rw [hposition]
      exact Position.lt_after _ (List.cons_ne_nil _ _)
    refine ⟨⟨List.forall_mem_cons.2 ⟨hproper, hordered.proper⟩,
      List.pairwise_cons.2 ⟨hlater, hordered.pairwise⟩⟩, List.forall_mem_cons.2 ⟨hgap, ?_⟩⟩
    exact fun t ht => hgap.trans (hproper.le.trans (hlater t ht))

/-- The tokens of a formula are in order. -/
lemma ofText_ordered {s : String} {ts : List Token} (h : ofText s = .ok ts) : Ordered ts := by
  obtain ⟨lead, body, -, -, hbody⟩ := ofText_eq_ok h
  exact (tokensFrom_ordered hbody).1

end Token

open Token (Ordered)

/-! ## Stretches of tokens -/

namespace Location

variable {a b l : Location} {ts us vs : List Token}

/-- The stretch begins where a token of the list does, and ends where one does. -/
structure RestsOn (l : Location) (ts : List Token) : Prop where
  start : ∃ t ∈ ts, l.start = t.location.start
  stop : ∃ t ∈ ts, l.stop = t.location.stop

/-- The stretch is that of the tokens, from the first to the last. -/
structure Spans (l : Location) (ts : List Token) : Prop extends RestsOn l ts where
  covers : ∀ t ∈ ts, t.location.Within l

lemma RestsOn.mono (h : l.RestsOn ts) (hsub : ts ⊆ us) : l.RestsOn us := by
  obtain ⟨⟨t, ht, hstart⟩, u, hu, hstop⟩ := h
  exact ⟨⟨t, hsub ht, hstart⟩, u, hsub hu, hstop⟩

lemma RestsOn.within (h : a.RestsOn ts) (hl : l.Spans ts) : a.Within l := by
  obtain ⟨⟨t, ht, hstart⟩, u, hu, hstop⟩ := h
  exact ⟨hstart ▸ (hl.covers t ht).1, hstop ▸ (hl.covers u hu).2⟩

/-- What rests on earlier tokens is before what rests on later ones. -/
lemma RestsOn.precedes (ha : a.RestsOn ts) (hb : b.RestsOn us) (h : Ordered (ts ++ us)) :
    a.Precedes b := by
  obtain ⟨-, t, ht, hstop⟩ := ha
  obtain ⟨⟨u, hu, hstart⟩, -⟩ := hb
  have htu := (List.pairwise_append.1 h.pairwise).2.2 t ht u hu
  rw [Precedes, hstop, hstart]
  exact htu

lemma Spans.isProper (hl : l.Spans ts) (h : Ordered ts) : l.IsProper := by
  obtain ⟨t, ht, -⟩ := hl.start
  exact ((hl.covers t ht).1.trans_lt (h.proper t ht)).trans_le (hl.covers t ht).2

lemma spans_singleton (t : Token) : t.location.Spans [t] where
  start := ⟨t, List.mem_singleton_self t, rfl⟩
  stop := ⟨t, List.mem_singleton_self t, rfl⟩
  covers u hu := by
    rw [List.mem_singleton.1 hu]
    exact Within.refl _

/-- What covers the first tokens and the last ones spans all that lies between them. -/
lemma Spans.cover (ha : a.Spans ts) (hb : b.Spans us) (h : Ordered (ts ++ (vs ++ us))) :
    (a.cover b).Spans (ts ++ (vs ++ us)) := by
  have hts : Ordered ts := h.sublist (List.sublist_append_left _ _)
  have hvs : Ordered (vs ++ us) := h.sublist (List.sublist_append_right _ _)
  have hus : Ordered us := hvs.sublist (List.sublist_append_right _ _)
  have hrest : b.RestsOn (vs ++ us) := hb.toRestsOn.mono (List.subset_append_right _ _)
  have hproper : a.IsProper := ha.isProper hts
  have hproper' : b.IsProper := hb.isProper hus
  have hab : a.Precedes b := ha.toRestsOn.precedes hrest h
  rw [cover_of_precedes hab hproper hproper']
  refine ⟨⟨?_, ?_⟩, fun t ht => ?_⟩
  · obtain ⟨t, ht, hstart⟩ := ha.start
    exact ⟨t, List.mem_append_left _ ht, hstart⟩
  · obtain ⟨t, ht, hstop⟩ := hrest.stop
    exact ⟨t, List.mem_append_right _ ht, hstop⟩
  -- The tokens `vs` are only known to be after `a` and before `b`, which is enough.
  · rcases List.mem_append.1 ht with ht | ht
    · have hwithin := ha.covers t ht
      exact ⟨hwithin.1, hwithin.2.trans (hab.trans hproper'.le)⟩
    · have hlater : a.Precedes t.location :=
        ha.toRestsOn.precedes ⟨⟨t, ht, rfl⟩, t, ht, rfl⟩ h
      refine ⟨hproper.le.trans hlater, ?_⟩
      rcases List.mem_append.1 ht with ht | ht
      · have hearlier : t.location.Precedes b :=
          RestsOn.precedes ⟨⟨t, ht, rfl⟩, t, ht, rfl⟩ hb.toRestsOn hvs
        exact LE.le.trans hearlier hproper'.le
      · exact (hb.covers t ht).2

end Location

/-! ## Expressions on tokens -/

namespace Expr

/-- The expressions that an expression is made of, from left to right. -/
def children : Expr → List Expr
  | .member object _ _ _ => [object]
  | .call callee arguments _ _ => callee :: arguments
  | .binary _ left right _ _ => [left, right]
  | .unary _ operand _ _ => [operand]
  | .conditional test consequent alternate _ _ => [test, consequent, alternate]
  | _ => []

/-- Every node of the expression stands somewhere, around its children, which stand apart and in
order; and it is higher than they are. -/
inductive Placed : Expr → Prop
  | intro {e : Expr} (isProper : e.location.IsProper)
      (within : ∀ x ∈ e.children, x.location.Within e.location)
      (pairwise : e.children.Pairwise fun x y => x.location.Precedes y.location)
      (lower : ∀ x ∈ e.children, x.height < e.height)
      (below : ∀ x ∈ e.children, Placed x) : Placed e

lemma Placed.isProper {e : Expr} : e.Placed → e.location.IsProper
  | .intro hproper _ _ _ _ => hproper

/-- The expression is well placed on the tokens of a list. -/
structure Stands (e : Expr) (ts : List Token) : Prop where
  placed : e.Placed
  spans : e.location.Spans ts

/-- Expressions that are well placed on some of the tokens of a list, one after another. -/
structure Row (es : List Expr) (ts : List Token) : Prop where
  placed : ∀ e ∈ es, e.Placed
  restsOn : ∀ e ∈ es, e.location.RestsOn ts
  pairwise : es.Pairwise fun x y => x.location.Precedes y.location

variable {e : Expr} {es : List Expr} {ts us vs : List Token} {t u : Token}

lemma Row.nil (ts : List Token) : Row [] ts := ⟨by simp, by simp, List.Pairwise.nil⟩

lemma Row.mono (h : Row es ts) (hsub : ts ⊆ us) : Row es us :=
  ⟨h.placed, fun e he => (h.restsOn e he).mono hsub, h.pairwise⟩

lemma Row.cons (h : e.Stands ts) (hrow : Row es us) (hordered : Ordered (ts ++ us)) :
    Row (e :: es) (ts ++ us) where
  placed := List.forall_mem_cons.2 ⟨h.placed, hrow.placed⟩
  restsOn := List.forall_mem_cons.2 ⟨h.spans.toRestsOn.mono (List.subset_append_left _ _),
    fun x hx => (hrow.restsOn x hx).mono (List.subset_append_right _ _)⟩
  pairwise := List.pairwise_cons.2
    ⟨fun x hx => h.spans.toRestsOn.precedes (hrow.restsOn x hx) hordered, hrow.pairwise⟩

lemma Stands.row (h : e.Stands ts) : Row [e] ts where
  placed := by simpa using h.placed
  restsOn := by simpa using h.spans.toRestsOn
  pairwise := List.pairwise_singleton _ _

/-- A node that spans the tokens on which its children are. -/
lemma Stands.node (hordered : Ordered ts) (hspans : e.location.Spans ts)
    (hrow : Row e.children ts) (hlower : ∀ x ∈ e.children, x.height < e.height) : e.Stands ts where
  placed := .intro (hspans.isProper hordered) (fun x hx => (hrow.restsOn x hx).within hspans)
    hrow.pairwise hlower hrow.placed
  spans := hspans

/-! ### One lemma for each kind of node -/

lemma Stands.leaf (hchildren : e.children = []) (hlocation : e.location = t.location)
    (hordered : Ordered [t]) : e.Stands [t] := by
  refine .node hordered ?_ ?_ ?_
  · rw [hlocation]
    exact Location.spans_singleton t
  · rw [hchildren]
    exact Row.nil _
  · simp [hchildren]

lemma children_relocate (e : Expr) (l : Location) : (e.relocate l).children = e.children := by
  cases e <;> rfl

lemma location_relocate (e : Expr) (l : Location) : (e.relocate l).location = l := by
  cases e <;> rfl

lemma Stands.group (h : e.Stands ts) (hordered : Ordered (t :: (ts ++ [u]))) :
    (e.relocate (t.location.cover u.location)).Stands (t :: (ts ++ [u])) := by
  have hspans : (t.location.cover u.location).Spans (t :: (ts ++ [u])) :=
    (Location.spans_singleton t).cover (Location.spans_singleton u) hordered
  obtain ⟨hproper, hwithin, hpairwise, hlower, hbelow⟩ := h.placed
  have houter : e.location.Within (t.location.cover u.location) :=
    (h.spans.toRestsOn.mono (by simp)).within hspans
  refine ⟨.intro ?_ ?_ ?_ ?_ ?_, ?_⟩
  all_goals simp only [children_relocate, location_relocate, Grammar.height_relocate]
  · exact hspans.isProper hordered
  · exact fun x hx => (hwithin x hx).trans houter
  · exact hpairwise
  · exact hlower
  · exact hbelow
  · exact hspans

lemma Stands.call {callee : Expr} {arguments : List Expr} (h : callee.Stands ts)
    (hrow : Row arguments us) (hordered : Ordered (ts ++ t :: (us ++ [u]))) :
    (ofCall callee arguments u.location).Stands (ts ++ t :: (us ++ [u])) := by
  have hordered' : Ordered (ts ++ ((t :: us) ++ [u])) := hordered
  have hspans := h.spans.cover (Location.spans_singleton u) hordered'
  have hrow' : Row arguments (t :: (us ++ [u])) :=
    hrow.mono fun x hx => List.mem_cons_of_mem _ (List.mem_append_left _ hx)
  refine .node hordered hspans (Row.cons h hrow' hordered) ?_
  have htallest := Grammar.tallest_le_iff.1 (le_refl (tallest callee.height arguments))
  intro x hx
  rw [Grammar.height_ofCall]
  rcases List.mem_cons.1 hx with rfl | hx
  · omega
  · have := htallest.2 x hx
    omega

lemma Stands.member {object : Expr} {name : String} (h : object.Stands ts)
    (hordered : Ordered (ts ++ [t, u])) :
    (ofMember object name u.location).Stands (ts ++ [t, u]) := by
  have hordered' : Ordered (ts ++ ([t] ++ [u])) := hordered
  have hspans := h.spans.cover (Location.spans_singleton u) hordered'
  refine .node hordered hspans (h.row.mono (List.subset_append_left _ _)) ?_
  intro x hx
  rw [Grammar.height_ofMember, List.mem_singleton.1 hx]
  omega

lemma Stands.signed {operand : Expr} {sign : Sign} (h : operand.Stands ts)
    (hordered : Ordered (t :: ts)) : (signed sign t.location operand).Stands (t :: ts) := by
  have hordered' : Ordered ([t] ++ ([] ++ ts)) := hordered
  have hspans := (Location.spans_singleton t).cover h.spans hordered'
  unfold Expr.signed
  split
  · exact .node hordered hspans (Row.nil _) (by simp [children])
  · refine .node hordered hspans (h.row.mono (List.subset_cons_self _ _)) ?_
    intro x hx
    rw [List.mem_singleton.1 hx]
    show operand.height < 1 + operand.height
    omega

lemma Stands.binary {left right : Expr} {sign : Sign} (hleft : left.Stands ts)
    (hright : right.Stands us) (hordered : Ordered (ts ++ t :: us)) :
    (ofBinary sign left right).Stands (ts ++ t :: us) := by
  have hordered' : Ordered (ts ++ ([t] ++ us)) := hordered
  have hspans := hleft.spans.cover hright.spans hordered'
  have hrow := hright.row.mono (List.subset_cons_self t us)
  refine .node hordered hspans (Row.cons hleft hrow hordered) ?_
  intro x hx
  rw [Grammar.height_ofBinary]
  simp only [ofBinary, children, List.mem_cons, List.not_mem_nil, or_false] at hx
  rcases hx with rfl | rfl <;> omega

lemma Stands.conditional {test consequent alternate : Expr} (htest : test.Stands ts)
    (hyes : consequent.Stands us) (hno : alternate.Stands vs)
    (hordered : Ordered (ts ++ t :: (us ++ u :: vs))) :
    (ofConditional test consequent alternate).Stands (ts ++ t :: (us ++ u :: vs)) := by
  have heq : ts ++ t :: (us ++ u :: vs) = ts ++ ((t :: us ++ [u]) ++ vs) := by simp
  have hspans : (test.location.cover alternate.location).Spans (ts ++ t :: (us ++ u :: vs)) := by
    rw [heq] at hordered ⊢
    exact htest.spans.cover hno.spans hordered
  have hbranches : Ordered (us ++ u :: vs) :=
    hordered.sublist ((List.sublist_cons_self _ _).trans (List.sublist_append_right _ _))
  have hrow := Row.cons hyes (hno.row.mono (List.subset_cons_self u vs)) hbranches
  refine .node hordered hspans
    (Row.cons htest (hrow.mono (List.subset_cons_self t _)) hordered) ?_
  intro x hx
  rw [Grammar.height_ofConditional]
  simp only [ofConditional, children, List.mem_cons, List.not_mem_nil, or_false] at hx
  rcases hx with rfl | rfl | rfl <;> omega

end Expr

/-! ## Derivations -/

namespace Grammar

open FormulaTree.Expr (Row Stands)

mutual

/-- What is derived from tokens in order is well placed on them. -/
lemma Derives.stands {c : Category} {n : Nat} {ts : List Token} {e : Expr} :
    Derives c n ts e → Ordered ts → e.Stands ts
  | .number, h | .text, h | .boolean, h | .identifier, h | .field, h => .leaf rfl rfl h
  | .group inside, h => by
    refine .group (inside.stands (h.sublist ?_)) h
    exact (List.sublist_append_left _ _).trans (List.sublist_cons_self _ _)
  | .call applied inside, h => by
    refine .call (applied.stands (h.sublist (List.sublist_append_left _ _))) (inside.row ?_) h
    exact h.sublist ((List.sublist_append_left _ _).trans
      ((List.sublist_cons_self _ _).trans (List.sublist_append_right _ _)))
  | .member applied, h => .member (applied.stands (h.sublist (List.sublist_append_left _ _))) h
  | .signed _ inside, h => .signed (inside.stands (h.sublist (List.sublist_cons_self _ _))) h
  | .chain first _ second, h =>
    .binary (first.stands (h.sublist (List.sublist_append_left _ _)))
      (second.stands (h.sublist
        ((List.sublist_cons_self _ _).trans (List.sublist_append_right _ _)))) h
  | .choice condition yes no, h => by
    have hbranches := h.sublist
      ((List.sublist_cons_self _ _).trans (List.sublist_append_right _ _))
    refine .conditional (condition.stands (h.sublist (List.sublist_append_left _ _)))
      (yes.stands (hbranches.sublist (List.sublist_append_left _ _))) (no.stands ?_) h
    exact hbranches.sublist ((List.sublist_cons_self _ _).trans (List.sublist_append_right _ _))
  | .primary alone, h | .applied alone, h | .operand alone, h | .level alone, h | .test alone, h =>
    alone.stands h

lemma DerivesArguments.row {n : Nat} {ts : List Token} {es : List Expr} :
    DerivesArguments n ts es → Ordered ts → Row es ts
  | .none, _ => .nil _
  | .some first others, h =>
    .cons (first.stands (h.sublist (List.sublist_append_left _ _)))
      (others.row (h.sublist (List.sublist_append_right _ _))) h

lemma DerivesMore.row {n : Nat} {ts : List Token} {es : List Expr} :
    DerivesMore n ts es → Ordered ts → Row es ts
  | .none, _ => .nil _
  | .some first others, h => by
    have hmore := h.sublist (List.sublist_cons_self _ _)
    refine Row.mono (.cons (first.stands (hmore.sublist (List.sublist_append_left _ _)))
      (others.row (hmore.sublist (List.sublist_append_right _ _))) hmore) ?_
    exact List.subset_cons_self _ _

end

/-! ## Statements -/

/-- Every statement is derived from some of the tokens, within the limits. -/
lemma statementsFrom_derives {ts : List Token} {es : List Expr}
    (h : statementsFrom reader ts = .ok es) : ∀ e ∈ es, ∃ n taken, taken.Sublist ts ∧
      Derives .choice n taken e ∧ n ≤ nestingLimit ∧ e.height ≤ heightLimit := by
  have hread {ts rest : List Token} {e : Expr} (h : reader.read ts = .ok (e, rest)) :
      ∃ n taken, taken.Sublist ts ∧ Derives .choice n taken e ∧ n ≤ nestingLimit ∧
        e.height ≤ heightLimit := by
    obtain ⟨⟨n, taken, rfl, hderives, hn, hheight⟩, -⟩ := reader_sound h
    exact ⟨n, taken, List.sublist_append_left _ _, hderives, hn, hheight⟩
  fun_induction statementsFrom reader ts generalizing es with
  | case1 =>
    cases h
    simp
  | case2 t rest hkind ih =>
    intro e he
    obtain ⟨n, taken, hsub, hderived⟩ := ih h e he
    exact ⟨n, taken, hsub.trans (List.sublist_cons_self _ _), hderived⟩
  | case3 | case6 => cases h
  | case4 t rest hkind e hfirst =>
    cases h
    simpa using hread hfirst
  | case5 t rest hkind e next more hfirst hseparates ih =>
    obtain ⟨es', hmore, rfl⟩ := map_eq_ok.1 h
    have hrest : (next :: more).Sublist (t :: rest) := (reader.follows hfirst).suffix.sublist
    refine List.forall_mem_cons.2 ⟨hread hfirst, fun x hx => ?_⟩
    obtain ⟨n, taken, hsub, hderived⟩ := ih hmore x hx
    exact ⟨n, taken, hsub.trans hrest, hderived⟩

lemma statements_derives {ts : List Token} {es : List Expr} (h : statements ts = .ok es) :
    ∀ e ∈ es, ∃ n taken, taken.Sublist ts ∧ Derives .choice n taken e ∧ n ≤ nestingLimit ∧
      e.height ≤ heightLimit := by
  unfold statements at h
  split at h
  · cases h
  · cases h
  · rename_i hstatements
    cases h
    exact statementsFrom_derives hstatements

/-- The expressions of a formula are well placed, and none is too high. -/
lemma statements_placed {ts : List Token} {es : List Expr} (h : statements ts = .ok es)
    (hordered : Ordered ts) : ∀ e ∈ es, e.Placed ∧ e.height ≤ heightLimit := by
  intro e he
  obtain ⟨n, taken, hsub, hderives, -, hheight⟩ := statements_derives h e he
  exact ⟨(hderives.stands (hordered.sublist hsub)).placed, hheight⟩

lemma single_placed {s : String} {tokens : List Token} {e : Expr}
    (htokens : Token.ofText s = .ok tokens) (h : statements tokens = .ok [e]) :
    e.Placed ∧ e.height ≤ heightLimit :=
  statements_placed h (Token.ofText_ordered htokens) e (List.mem_singleton_self e)

end Grammar

end FormulaTree
