import FormulaTree.Proofs.Grammar.Placement
import FormulaTree.Proofs.Lowering.Outcome
import Mathlib.Data.List.Forall2

/-!
# What is reported of a formula

An expression is **offending** if no tree stands for it, whatever its parts are: a call of something
that is no function or with a wrong number of arguments, an operator sign without an operator, an
unknown name or property, a sign before an operand.  Nothing below an offending expression is looked
at, so what counts are the outermost offences (`Expr.IsOutermost`).

There is one diagnostic for each outermost offence, in the order of the text, and no other
(`Lowering.exists_account`).  Since expressions next to each other stand apart, so do the
diagnostics.
-/

namespace FormulaTree

/-! ## Offences -/

/-- Only three names are fields on their own. -/
lemma Field.ofName?_eq_none_iff {name : String} :
    ofName? name = none ↔ ["@currentField", "@me", "@now"].contains name = false := by
  unfold ofName?
  split <;> simp_all

namespace Expr

/-- The parts of an expression that are lowered like itself.  The name of a function and the object
of a member access are not. -/
def parts : Expr → List Expr
  | .call _ arguments _ _ => arguments
  | .binary _ left right _ _ => [left, right]
  | .unary _ operand _ _ => [operand]
  | .conditional test consequent alternate _ _ => [test, consequent, alternate]
  | _ => []

/-- No tree stands for the expression, whatever its parts are. -/
def isOffending : Expr → Bool
  | .call (.identifier name _) arguments _ _ =>
    !(Keyword.ofWord? name).any fun k => k.callArity.admits arguments.length
  | .call _ _ _ _ => true
  | .binary sign _ _ _ _ => (Keyword.ofWord? sign.text).isNone
  | .identifier name _ => !(["@currentField", "@me", "@now"].contains name)
  | .member (.identifier name _) property _ _ =>
    !(Field.hasMembers name && (Field.member? name property).isSome)
  | .member _ _ _ _ => true
  | .unary _ _ _ _ => true
  | _ => false

/-- The node is reached from an expression by going from parts to parts, through the expressions
above it. -/
inductive Reaches : Expr → List Expr → Expr → Prop
  | root (e : Expr) : Reaches e [] e
  | part {e x node : Expr} {above : List Expr} (mem : x ∈ e.parts) (inside : Reaches x above node) :
      Reaches e (e :: above) node

/-- The node is an offending part of an expression, and none above it is. -/
def IsOutermost (e node : Expr) : Prop :=
  ∃ above, Reaches e above node ∧ node.isOffending = true ∧ ∀ a ∈ above, a.isOffending = false

lemma parts_sublist (e : Expr) : e.parts.Sublist e.children := by
  cases e <;> simp [parts, children]

/-- Below an offending expression nothing is outermost. -/
lemma isOutermost_of_offending {e node : Expr} (h : e.isOffending = true) :
    e.IsOutermost node ↔ node = e := by
  constructor
  · rintro ⟨above, hreaches, -, habove⟩
    cases hreaches with
    | root => rfl
    | part =>
      have hclean := habove e (List.mem_cons_self ..)
      rw [h] at hclean
      cases hclean
  · rintro rfl
    exact ⟨[], .root node, h, by simp⟩

/-- The outermost offences of an expression that does not offend are those of its parts. -/
lemma isOutermost_of_not_offending {e node : Expr} (h : e.isOffending = false) :
    e.IsOutermost node ↔ ∃ x ∈ e.parts, x.IsOutermost node := by
  constructor
  · rintro ⟨above, hreaches, hnode, habove⟩
    cases hreaches with
    | root =>
      rw [h] at hnode
      cases hnode
    | part hx hinside =>
      exact ⟨_, hx, _, hinside, hnode, fun a ha => habove a (List.mem_cons_of_mem _ ha)⟩
  · rintro ⟨x, hx, above, hinside, hnode, habove⟩
    exact ⟨e :: above, .part hx hinside, hnode, List.forall_mem_cons.2 ⟨h, habove⟩⟩

/-- Where there is an offence, there is an outermost one. -/
lemma Reaches.exists_isOutermost {e node : Expr} {above : List Expr} (h : Reaches e above node)
    (hnode : node.isOffending = true) : ∃ outer, e.IsOutermost outer := by
  induction h with
  | root e => exact ⟨e, (isOutermost_of_offending hnode).2 rfl⟩
  | @part e x node above hx _ ih =>
    cases he : e.isOffending with
    | true => exact ⟨e, (isOutermost_of_offending he).2 rfl⟩
    | false =>
      obtain ⟨outer, houter⟩ := ih hnode
      exact ⟨outer, (isOutermost_of_not_offending he).2 ⟨x, hx, houter⟩⟩

lemma Placed.height_pos {e : Expr} (h : e.Placed) : 0 < e.height := by
  obtain ⟨-, -, -, hlower, -⟩ := h
  cases e with
  | number | text | boolean | identifier => exact Nat.one_pos
  | member | call | binary | unary | conditional =>
    exact Nat.zero_lt_of_lt (hlower _ (List.mem_cons_self ..))

end Expr

namespace Lowering

/-! ## Reports -/

/-- What is reported of an offending expression. -/
inductive Reports : Expr → Diagnostic → Prop
  | callee {callee : Expr} {arguments : List Expr} {height : Nat} {l : Location}
      (unnamed : ∀ name place, callee ≠ .identifier name place) :
      Reports (.call callee arguments height l) (.unsupported callee.location)
  | function {name : String} {place : Location} {arguments : List Expr} {height : Nat}
      {l : Location} (unknown : Keyword.ofWord? name = none) :
      Reports (.call (.identifier name place) arguments height l) (.unknownFunction name place)
  | arity {name : String} {place : Location} {k : Keyword} {arguments : List Expr} {height : Nat}
      {l : Location} (known : Keyword.ofWord? name = some k)
      (wrong : k.callArity.admits arguments.length = false) :
      Reports (.call (.identifier name place) arguments height l) (wrongArity name k.callArity l)
  | sign {sign : Sign} {left right : Expr} {height : Nat} {l : Location}
      (unknown : Keyword.ofWord? sign.text = none) :
      Reports (.binary sign left right height l) (.unknownOperator sign.text l)
  | identifier {name : String} {l : Location} (unknown : Field.ofName? name = none) :
      Reports (.identifier name l) (.unknownIdentifier name l)
  | object {object : Expr} {property : String} {height : Nat} {l : Location}
      (unnamed : ∀ name place, object ≠ .identifier name place) :
      Reports (.member object property height l) (.unsupported object.location)
  | objectName {name property : String} {place : Location} {height : Nat} {l : Location}
      (memberless : Field.hasMembers name = false) :
      Reports (.member (.identifier name place) property height l) (.unknownIdentifier name place)
  | property {name property : String} {place : Location} {height : Nat} {l : Location}
      (known : Field.hasMembers name = true) (unknown : Field.member? name property = none) :
      Reports (.member (.identifier name place) property height l) (.unknownProperty property l)
  | unary {sign : Sign} {operand : Expr} {height : Nat} {l : Location} :
      Reports (.unary sign operand height l) (.unsupported l)

/-- A report is never that the depth limit was reached. -/
lemma Reports.kind_ne {e : Expr} {d : Diagnostic} (h : Reports e d) : d.kind ≠ .internal := by
  cases h <;> exact nofun

/-- A report is about a stretch of text, within the expression it is about. -/
lemma Reports.located {e : Expr} {d : Diagnostic} (h : Reports e d) (he : e.Placed) :
    ∃ l, d.location? = some l ∧ l.IsProper ∧ l.Within e.location := by
  obtain ⟨hproper, hwithin, -, -, hbelow⟩ := he
  cases h with
  | callee | function | object | objectName =>
    exact ⟨_, rfl, (hbelow _ (List.mem_cons_self ..)).isProper, hwithin _ (List.mem_cons_self ..)⟩
  | arity | sign | identifier | property | unary => exact ⟨_, rfl, hproper, .refl _⟩

/-! ## One expression -/

section Step

variable {limit depth : Nat} {e : Expr}

lemma reports_callee {arguments : List Expr} {height : Nat} {l : Location}
    (h : (Expr.call e arguments height l).isOffending = true) :
    ∃ d, Reports (.call e arguments height l) d ∧ callee e arguments.length l = .error d := by
  cases e with
  | identifier name place =>
    cases hword : Keyword.ofWord? name with
    | none => exact ⟨_, .function hword, by simp [callee, hword]⟩
    | some k =>
      have hwrong : k.callArity.admits arguments.length = false := by
        simpa [Expr.isOffending, hword] using h
      exact ⟨_, .arity hword hwrong, by simp [callee, hword, hwrong]⟩
  | _ => exact ⟨_, .callee nofun, rfl⟩

lemma reports_member {property : String} {height : Nat} {l : Location}
    (h : (Expr.member e property height l).isOffending = true) :
    ∃ d, Reports (.member e property height l) d ∧ member e property l = failed d := by
  cases e with
  | identifier name place =>
    cases hmembers : Field.hasMembers name with
    | false => exact ⟨_, .objectName hmembers, by simp [member, hmembers]⟩
    | true =>
      have hunknown : Field.member? name property = none := by
        simpa [Expr.isOffending, hmembers] using h
      exact ⟨_, .property hmembers hunknown, by simp [member, hmembers, hunknown]⟩
  | _ => exact ⟨_, .object nofun, rfl⟩

lemma callee_eq_ok_of_not_offending {arguments : List Expr} {height : Nat} {l : Location}
    (h : (Expr.call e arguments height l).isOffending = false) :
    ∃ k, callee e arguments.length l = .ok k := by
  cases e with
  | identifier name place =>
    cases hword : Keyword.ofWord? name with
    | none => simp [Expr.isOffending, hword] at h
    | some k =>
      have hadmits : k.callArity.admits arguments.length = true := by
        simpa [Expr.isOffending, hword] using h
      exact ⟨k, by simp [callee, hword, hadmits]⟩
  | _ => cases h

lemma member_eq_done_of_not_offending {property : String} {height : Nat} {l : Location}
    (h : (Expr.member e property height l).isOffending = false) :
    ∃ f, member e property l = done (.field f) := by
  cases e with
  | identifier name place =>
    simp only [Expr.isOffending, Bool.not_eq_false', Bool.and_eq_true,
      Option.isSome_iff_exists] at h
    obtain ⟨hmembers, f, hf⟩ := h
    exact ⟨f, by simp [member, hmembers, hf]⟩
  | _ => cases h

/-- An offending expression is reported, and nothing else is done. -/
lemma ofExpr_of_offending (hdepth : depth < limit) (h : e.isOffending = true) :
    ∃ d, Reports e d ∧ ∀ reported, ofExpr limit depth reported e = failed d := by
  have hlimit : ¬limit ≤ depth := Nat.not_le.2 hdepth
  cases e with
  | number | text | boolean | conditional => cases h
  | identifier name l =>
    have hunknown : Field.ofName? name = none := by
      rw [Field.ofName?_eq_none_iff]
      simpa [Expr.isOffending] using h
    refine ⟨_, .identifier hunknown, fun reported => ?_⟩
    rw [ofExpr, if_neg hlimit, identifier, hunknown]
  | member object property height l =>
    obtain ⟨d, hreports, hmember⟩ := reports_member h
    exact ⟨d, hreports, fun reported => by rw [ofExpr, if_neg hlimit, hmember]⟩
  | call callee arguments height l =>
    obtain ⟨d, hreports, hcallee⟩ := reports_callee h
    exact ⟨d, hreports, fun reported => by rw [ofExpr, if_neg hlimit, hcallee]⟩
  | binary sign left right height l =>
    have hunknown : Keyword.ofWord? sign.text = none := Option.isNone_iff_eq_none.1 h
    exact ⟨_, .sign hunknown, fun reported => by rw [ofExpr, if_neg hlimit, hunknown]⟩
  | unary sign operand height l =>
    exact ⟨_, .unary, fun reported => by rw [ofExpr, if_neg hlimit]⟩

lemma diagnostics_call (k : Keyword) (o : Operands) : (call k o).diagnostics = o.diagnostics := by
  unfold call
  split_ifs with hempty
  · exact (List.isEmpty_iff.1 hempty).symm
  · rfl

/-- Of an expression that does not offend all that is reported comes from its parts. -/
lemma diagnostics_ofExpr (hdepth : depth < limit) (h : e.isOffending = false) (reported : Bool) :
    (ofExpr limit depth reported e).diagnostics =
      (operands reported (ofExprs limit (depth + 1) e.parts)).diagnostics := by
  have hlimit : ¬limit ≤ depth := Nat.not_le.2 hdepth
  cases e with
  | number | text | boolean =>
    rw [ofExpr, if_neg hlimit]
    rfl
  | identifier name l =>
    cases hname : Field.ofName? name with
    | none =>
      rw [Expr.isOffending, Field.ofName?_eq_none_iff.1 hname] at h
      cases h
    | some f =>
      rw [ofExpr, if_neg hlimit, identifier, hname]
      rfl
  | member object property height l =>
    obtain ⟨f, hmember⟩ := member_eq_done_of_not_offending h
    rw [ofExpr, if_neg hlimit, hmember]
    rfl
  | call callee arguments height l =>
    obtain ⟨k, hcallee⟩ := callee_eq_ok_of_not_offending h
    rw [ofExpr, if_neg hlimit, hcallee]
    exact diagnostics_call k _
  | binary sign left right height l =>
    cases hword : Keyword.ofWord? sign.text with
    | none => simp [Expr.isOffending, hword] at h
    | some k =>
      rw [ofExpr, if_neg hlimit, hword]
      rfl
  | unary sign operand height l => cases h
  | conditional =>
    rw [ofExpr, if_neg hlimit]
    rfl

end Step

/-! ## Accounts -/

/-- The reports are those on the outermost offences of some expressions, one for each and in
order. -/
structure Account (roots : List Expr) (rs : List (Expr × Diagnostic)) : Prop where
  mem_iff : ∀ node, node ∈ rs.map Prod.fst ↔ ∃ x ∈ roots, x.IsOutermost node
  reports : ∀ r ∈ rs, Reports r.1 r.2
  placed : ∀ r ∈ rs, r.1.Placed
  within : ∀ r ∈ rs, ∃ x ∈ roots, r.1.location.Within x.location
  pairwise : rs.Pairwise fun r s => r.1.location.Precedes s.1.location

namespace Account

variable {e : Expr} {es : List Expr} {d : Diagnostic} {rs ss : List (Expr × Diagnostic)}

lemma nil : Account [] [] := ⟨by simp, by simp, by simp, by simp, List.Pairwise.nil⟩

lemma offender (he : e.Placed) (h : e.isOffending = true) (hreports : Reports e d) :
    Account [e] [(e, d)] where
  mem_iff node := by simp [Expr.isOutermost_of_offending h]
  reports := by simpa using hreports
  placed := by simpa using he
  within := by simpa using Location.Within.refl _
  pairwise := List.pairwise_singleton _ _

/-- What stands in earlier expressions is reported before what stands in later ones. -/
lemma append (hfirst : Account [e] rs) (hothers : Account es ss)
    (hpairwise : ∀ x ∈ es, e.location.Precedes x.location) : Account (e :: es) (rs ++ ss) where
  mem_iff node := by
    rw [List.map_append, List.mem_append, hfirst.mem_iff, hothers.mem_iff]
    simp
  reports := List.forall_mem_append.2 ⟨hfirst.reports, hothers.reports⟩
  placed := List.forall_mem_append.2 ⟨hfirst.placed, hothers.placed⟩
  within := by
    refine List.forall_mem_append.2 ⟨fun r hr => ?_, fun r hr => ?_⟩
    · obtain ⟨x, hx, hwithin⟩ := hfirst.within r hr
      exact ⟨e, List.mem_cons_self .., List.mem_singleton.1 hx ▸ hwithin⟩
    · obtain ⟨x, hx, hwithin⟩ := hothers.within r hr
      exact ⟨x, List.mem_cons_of_mem _ hx, hwithin⟩
  pairwise := by
    refine List.pairwise_append.2 ⟨hfirst.pairwise, hothers.pairwise, fun r hr s hs => ?_⟩
    obtain ⟨x, hx, hwithin⟩ := hfirst.within r hr
    obtain ⟨y, hy, hwithin'⟩ := hothers.within s hs
    rw [List.mem_singleton.1 hx] at hwithin
    exact (hpairwise y hy).mono hwithin hwithin'

/-- An expression that does not offend answers for its parts. -/
lemma inner (he : e.Placed) (h : e.isOffending = false) (hparts : Account e.parts rs) :
    Account [e] rs where
  mem_iff node := by
    rw [hparts.mem_iff, ← Expr.isOutermost_of_not_offending h]
    simp
  reports := hparts.reports
  placed := hparts.placed
  within r hr := by
    obtain ⟨-, hwithin, -, -, -⟩ := he
    obtain ⟨x, hx, hinside⟩ := hparts.within r hr
    exact ⟨e, List.mem_singleton_self e, hinside.trans (hwithin x (e.parts_sublist.subset hx))⟩
  pairwise := hparts.pairwise

/-- The depth limit is not among the reports. -/
lemma reportsDepth (h : Account es rs) {l : Lowering} (hl : l.diagnostics = rs.map Prod.snd) :
    l.reportsDepth = false := by
  rw [Lowering.reportsDepth, hl, List.any_map, List.any_eq_false]
  intro r hr
  simpa using (h.reports r hr).kind_ne

/-- No two reports are about the same expression. -/
lemma nodup (h : Account es rs) : (rs.map Prod.fst).Nodup := by
  refine List.pairwise_map.2 (h.pairwise.imp_of_mem fun {r s} hr _ hprecedes heq => ?_)
  rw [← heq] at hprecedes
  exact absurd (h.placed r hr).isProper (not_lt_of_ge hprecedes)

lemma forall₂ (h : Account es rs) :
    List.Forall₂ Reports (rs.map Prod.fst) (rs.map Prod.snd) := by
  rw [List.forall₂_map_left_iff, List.forall₂_map_right_iff, List.forall₂_same]
  exact h.reports

/-- Every report is about a stretch of text. -/
lemma located (h : Account es rs) :
    ∀ d ∈ rs.map Prod.snd, ∃ l, d.location? = some l ∧ l.IsProper := by
  intro d hd
  obtain ⟨r, hr, rfl⟩ := List.mem_map.1 hd
  obtain ⟨l, hl, hproper, -⟩ := (h.reports r hr).located (h.placed r hr)
  exact ⟨l, hl, hproper⟩

/-- As the expressions come one after another, so do the places of the reports. -/
lemma pairwise_located (h : Account es rs) : (rs.map Prod.snd).Pairwise fun c d =>
    ∃ l m, c.location? = some l ∧ d.location? = some m ∧ l.Precedes m := by
  refine List.pairwise_map.2 (h.pairwise.imp_of_mem fun {r s} hr hs hprecedes => ?_)
  obtain ⟨l, hl, -, hwithin⟩ := (h.reports r hr).located (h.placed r hr)
  obtain ⟨m, hm, -, hwithin'⟩ := (h.reports s hs).located (h.placed s hs)
  exact ⟨l, m, hl, hm, hprecedes.mono hwithin hwithin'⟩

/-- Nothing is reported just when nothing that is looked at offends. -/
lemma eq_nil_iff (h : Account [e] rs) :
    rs = [] ↔ ∀ above node, e.Reaches above node → node.isOffending = false := by
  constructor
  · rintro rfl above node hreaches
    by_contra hnode
    obtain ⟨outer, houter⟩ := hreaches.exists_isOutermost (Bool.eq_true_of_not_eq_false hnode)
    have hmem := (h.mem_iff outer).2 ⟨e, List.mem_singleton_self e, houter⟩
    cases hmem
  · intro hclean
    rw [List.eq_nil_iff_forall_not_mem]
    intro r hr
    obtain ⟨x, hx, above, hreaches, hnode, -⟩ := (h.mem_iff r.1).1 (List.mem_map_of_mem hr)
    rw [List.mem_singleton.1 hx] at hreaches
    rw [hclean above r.1 hreaches] at hnode
    cases hnode

end Account

/-- Siblings are accounted for if each of them is. -/
lemma exists_account_operands {limit depth : Nat} {es : List Expr}
    (hpairwise : es.Pairwise fun x y => x.location.Precedes y.location)
    (hes : ∀ e ∈ es, ∃ rs, Account [e] rs ∧
      (ofExpr limit depth false e).diagnostics = rs.map Prod.snd) :
    ∃ rs, Account es rs ∧
      (operands false (ofExprs limit depth es)).diagnostics = rs.map Prod.snd := by
  induction es with
  | nil => exact ⟨[], .nil, rfl⟩
  | cons e es ih =>
    obtain ⟨hprecedes, hpairwise⟩ := List.pairwise_cons.1 hpairwise
    obtain ⟨⟨rs, hfirst, hrs⟩, hes⟩ := List.forall_mem_cons.1 hes
    obtain ⟨ss, hothers, hss⟩ := ih hpairwise hes
    refine ⟨rs ++ ss, hfirst.append hothers hprecedes, ?_⟩
    -- What is reported of the first does not silence the others.
    rw [ofExprs, operands, hfirst.reportsDepth hrs]
    simp only [Bool.or_self]
    rw [hrs, hss, List.map_append]

/-- Every expression that is well placed and not too high is accounted for. -/
lemma exists_account {limit : Nat} {e : Expr} (he : e.Placed) :
    ∀ depth, depth + e.height ≤ limit → ∃ rs, Account [e] rs ∧
      (ofExpr limit depth false e).diagnostics = rs.map Prod.snd := by
  induction he with
  | @intro e isProper within pairwise lower below ih =>
    intro depth hheight
    have he : e.Placed := .intro isProper within pairwise lower below
    -- Each level down takes one off the height, so the depth limit is never reached.
    have hdepth : depth < limit := by
      have := he.height_pos
      omega
    cases h : e.isOffending with
    | true =>
      obtain ⟨d, hreports, heq⟩ := ofExpr_of_offending hdepth h
      exact ⟨[(e, d)], .offender he h hreports, by rw [heq]; rfl⟩
    | false =>
      obtain ⟨rs, hparts, hrs⟩ := exists_account_operands (pairwise.sublist e.parts_sublist)
        fun x hx => ih x (e.parts_sublist.subset hx) (depth + 1) (by
          have := lower x (e.parts_sublist.subset hx)
          omega)
      exact ⟨rs, hparts.inner he h, (diagnostics_ofExpr hdepth h false).trans hrs⟩

/-- All that is reported of an expression that is not too high is about an offence in it. -/
lemma exists_reports {limit depth : Nat} {e : Expr} {d : Diagnostic} (he : e.Placed)
    (hheight : depth + e.height ≤ limit) (hd : d ∈ (ofExpr limit depth false e).diagnostics) :
    ∃ node, Reports node d := by
  obtain ⟨rs, haccount, hrs⟩ := exists_account he depth hheight
  rw [hrs] at hd
  obtain ⟨r, hr, rfl⟩ := List.mem_map.1 hd
  exact ⟨r.1, haccount.reports r hr⟩

/-! ## Formulas -/

/-- The formula is accepted just when nothing is reported. -/
lemma isOk_iff_diagnostics_eq_nil (s : String) :
    (ofText s).isOk = true ↔ (ofText s).diagnostics = [] := by
  rw [isOk_iff]
  constructor
  · rintro ⟨t, -, hclean⟩
    exact hclean
  · intro hclean
    obtain ⟨t, htree, -⟩ := (ofTextWithin_spec heightLimit s).2 hclean
    exact ⟨t, htree, hclean⟩

/-- **Every outermost offence of a formula is reported, once and in order, and nothing else is.**
The places of the reports are not empty and come one after another.  A formula is accepted just when
nothing that is looked at offends. -/
theorem reports_outermost (s : String) (tokens : List Token) (e : Expr)
    (htokens : Token.ofText s = .ok tokens) (hstatements : Grammar.statements tokens = .ok [e]) :
    (∃ offenders : List Expr, offenders.Nodup ∧ (∀ node, node ∈ offenders ↔ e.IsOutermost node) ∧
      offenders.Pairwise (fun x y => x.location.Precedes y.location) ∧
      List.Forall₂ Reports offenders (ofText s).diagnostics) ∧
    (∀ d ∈ (ofText s).diagnostics, ∃ l, d.location? = some l ∧ l.IsProper) ∧
    ((ofText s).diagnostics.Pairwise fun c d =>
      ∃ l m, c.location? = some l ∧ d.location? = some m ∧ l.Precedes m) ∧
    ((ofText s).isOk = true ↔ ∀ above node, e.Reaches above node → node.isOffending = false) := by
  obtain ⟨hplaced, hheight⟩ :=
    Grammar.statements_placed hstatements (Token.ofText_ordered htokens) e
      (List.mem_singleton_self e)
  have hlower : ofText s = ofExpr heightLimit 0 false e := by
    rw [ofText, ofTextWithin, htokens]
    dsimp only
    rw [hstatements]
    rfl
  obtain ⟨rs, haccount, hrs⟩ := exists_account hplaced 0 ((Nat.zero_add _).trans_le hheight)
  rw [isOk_iff_diagnostics_eq_nil, hlower, hrs, List.map_eq_nil_iff]
  refine ⟨⟨rs.map Prod.fst, haccount.nodup, fun node => ?_, ?_, haccount.forall₂⟩, haccount.located,
    haccount.pairwise_located, haccount.eq_nil_iff⟩
  · rw [haccount.mem_iff]
    simp
  · exact List.pairwise_map.2 haccount.pairwise

/-- A call of an unknown function with an unknown name in it, an unknown name beside a sign without
an operator, and a sign before an operand. -/
def faulty : String := "AND(FOO(@x), @bogus == (1 % 2), -@me)"

theorem reports_outermost_faulty : ∃ tokens e, Token.ofText faulty = .ok tokens ∧
    Grammar.statements tokens = .ok [e] ∧ ∃ offenders : List Expr, offenders.length = 4 ∧
      (∀ node, node ∈ offenders ↔ e.IsOutermost node) ∧
      List.Forall₂ Reports offenders (ofText faulty).diagnostics := by
  have hread : ((Token.ofText faulty).toOption.bind fun tokens =>
      (Grammar.statements tokens).toOption.map List.length) = some 1 := by decide +kernel
  have hcount : (ofText faulty).diagnostics.length = 4 := by decide +kernel
  cases htokens : Token.ofText faulty with
  | error cause =>
    rw [htokens] at hread
    cases hread
  | ok tokens =>
    cases hstatements : Grammar.statements tokens with
    | error cause =>
      rw [htokens] at hread
      simp [hstatements, Except.toOption] at hread
    | ok es =>
      rw [htokens] at hread
      obtain ⟨e, rfl⟩ : ∃ e, es = [e] := by
        simpa [hstatements, Except.toOption, List.length_eq_one_iff] using hread
      obtain ⟨offenders, -, hmem, -, hreports⟩ :=
        (reports_outermost faulty tokens e htokens hstatements).1
      exact ⟨tokens, e, rfl, hstatements, offenders, hreports.length_eq.trans hcount, hmem,
        hreports⟩

end Lowering

end FormulaTree
