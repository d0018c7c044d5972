import FormulaTree.Lowering
import FormulaTree.Proofs.Tree.Shape

/-!
# What a formula comes to

Every formula is either accepted or rejected.  An accepted one has a tree, in which every operation
has as many operands as its operator takes; a rejected one has diagnostics, and each of them says
where in the text the problem is.

The operands of a call are only looked at together if none of them has a diagnostic.  That none is
missing then is not checked, and need not be in a formula that is accepted: an expression without a
tree has a diagnostic, unless the depth limit was reported before it, and then there is that
diagnostic (`Settled`).
-/

namespace FormulaTree

namespace Keyword

/-- Only the two words for conditions stand for ternaries. -/
lemma operator_ne_ternary {word : String} {k : Keyword} (h : ofWord? word = some k)
    (hplain : k.spelling = .plain) : k.operator ≠ .ternary := by
  unfold ofWord? at h
  generalize String.ofList (word.toList.map Char.toLower) = small at h
  unfold ofLowercase? at h
  split at h <;> cases h <;> revert hplain <;> decide

/-- A binary sign that stands for an operator stands for one with two operands. -/
lemma admits_two_of_sign {sign : Sign} {k : Keyword} (h : ofWord? sign.text = some k) :
    k.operator.arity.admits 2 = true ∧ k.operator ≠ .ternary := by
  cases sign <;> simp [ofWord?, ofLowercase?, Sign.text] at h
  all_goals subst h
  all_goals decide

/-- No call is without arguments. -/
lemma admits_zero (k : Keyword) : k.callArity.admits 0 = false := by
  obtain ⟨op, spelling⟩ := k
  cases spelling <;> cases op <;> rfl

end Keyword

namespace Lowering

/-- Every diagnostic has a location. -/
def Located (ds : List Diagnostic) : Prop := ∀ d ∈ ds, d.location?.isSome = true

/-- If nothing is wrong, there is a canonical tree. -/
def Settled (l : Lowering) : Prop :=
  l.diagnostics = [] → ∃ t, l.tree? = some t ∧ t.isCanonical = true

/-- A step locates its diagnostics, and is settled if the depth limit was not reported before. -/
def Reliable (step : Bool → Lowering) : Prop :=
  (∀ reported, Located (step reported).diagnostics) ∧ Settled (step false)

lemma located_append {ds es : List Diagnostic} (hds : Located ds) (hes : Located es) :
    Located (ds ++ es) := by
  intro d hd
  rcases List.mem_append.1 hd with h | h
  · exact hds d h
  · exact hes d h

lemma settled_done {t : Tree} (h : t.isCanonical = true) : Settled (done t) :=
  fun _ => ⟨t, rfl, h⟩

lemma settled_failed (d : Diagnostic) : Settled (failed d) := fun h => by cases h

lemma located_done (t : Tree) : Located (done t).diagnostics := fun _ h => by cases h

lemma located_failed {d : Diagnostic} (h : d.location?.isSome = true) :
    Located (failed d).diagnostics := by
  intro d' hd'
  cases List.mem_singleton.1 hd'
  exact h

/-! ## Siblings -/

lemma located_operands (steps : List (Bool → Lowering))
    (h : ∀ step ∈ steps, Reliable step) (reported : Bool) :
    Located (operands reported steps).diagnostics := by
  induction steps generalizing reported with
  | nil => intro d hd; cases hd
  | cons step steps ih =>
    rw [List.forall_mem_cons] at h
    exact located_append (h.1.1 reported) (ih h.2 _)

/-- Siblings with nothing wrong each have a tree: as none of them has a diagnostic, none is told
that the depth limit was reported. -/
lemma settled_operands (steps : List (Bool → Lowering)) (h : ∀ step ∈ steps, Reliable step)
    (hclean : (operands false steps).diagnostics = []) :
    (operands false steps).trees.length = steps.length ∧
      ∀ t ∈ (operands false steps).trees, t.isCanonical = true := by
  induction steps with
  | nil => exact ⟨rfl, fun t ht => by cases ht⟩
  | cons step steps ih =>
    rw [List.forall_mem_cons] at h
    simp only [operands, List.append_eq_nil_iff] at hclean ⊢
    have hreported : (step false).reportsDepth = false := by
      rw [reportsDepth, hclean.1]
      rfl
    rw [hreported] at hclean ⊢
    obtain ⟨t, htree, ht⟩ := h.1.2 hclean.1
    obtain ⟨hlength, hcanonical⟩ := ih h.2 hclean.2
    rw [htree]
    refine ⟨?_, ?_⟩
    · simp only [Option.toList_some, List.singleton_append, List.length_cons]
      exact congrArg (· + 1) hlength
    · exact List.forall_mem_cons.2 ⟨ht, hcanonical⟩

/-- An operator over as many operands as there are steps. -/
lemma settled_operation {op : Operator} {steps : List (Bool → Lowering)}
    (h : ∀ step ∈ steps, Reliable step) (hadmits : op.arity.admits steps.length = true)
    (hternary : op = .ternary → steps.length = 3) :
    Settled (operation op (operands false steps)) := by
  intro hclean
  obtain ⟨hlength, hcanonical⟩ := settled_operands steps h hclean
  refine ⟨_, rfl, Tree.isCanonical_operation.2 ⟨?_, hcanonical⟩⟩
  rw [hlength]
  exact ⟨hadmits, hternary⟩

/-! ## Calls -/

/-- Only a `SWITCH` needs an argument to have a tree. -/
lemma ofCall?_eq_none_iff {k : Keyword} {ts : List Tree} :
    Tree.ofCall? k ts = none ↔ k.spelling = .switch ∧ ts = [] := by
  obtain ⟨op, spelling⟩ := k
  cases spelling <;> cases ts <;> simp [Tree.ofCall?]

lemma isCanonical_ofCall? {k : Keyword} {ts : List Tree}
    (hplain : k.spelling = .plain → k.operator ≠ .ternary)
    (hadmits : k.callArity.admits ts.length = true) (h : ∀ t ∈ ts, t.isCanonical = true) :
    ∃ t, Tree.ofCall? k ts = some t ∧ t.isCanonical = true := by
  obtain ⟨op, spelling⟩ := k
  cases spelling with
  | switch =>
    cases ts with
    | nil => cases hadmits
    | cons pivot pairs =>
      rw [List.forall_mem_cons] at h
      refine ⟨_, rfl, Tree.isCanonical_chain (fun case hcase => ?_) pairs h.2⟩
      rw [Tree.isCanonical_operation]
      refine ⟨⟨rfl, fun h => by cases h⟩, ?_⟩
      simp only [List.forall_mem_cons]
      exact ⟨h.1, hcase, by simp⟩
  | conditional => exact ⟨_, rfl, Tree.isCanonical_chain (fun _ => id) ts h⟩
  | plain =>
    refine ⟨_, rfl, Tree.isCanonical_operation.2 ⟨⟨hadmits, ?_⟩, h⟩⟩
    exact fun hternary => absurd hternary (hplain rfl)

lemma settled_call {k : Keyword} {steps : List (Bool → Lowering)}
    (hplain : k.spelling = .plain → k.operator ≠ .ternary)
    (hadmits : k.callArity.admits steps.length = true) (h : ∀ step ∈ steps, Reliable step) :
    Settled (call k (operands false steps)) := by
  intro hclean
  by_cases hempty : (operands false steps).diagnostics.isEmpty = true
  · obtain ⟨hlength, hcanonical⟩ := settled_operands steps h (List.isEmpty_iff.1 hempty)
    rw [← hlength] at hadmits
    rw [call, if_pos hempty]
    exact isCanonical_ofCall? hplain hadmits hcanonical
  · rw [call, if_neg hempty] at hclean
    exact absurd (List.isEmpty_iff.2 hclean) hempty

lemma located_call {k : Keyword} {o : Operands} (h : Located o.diagnostics) :
    Located (call k o).diagnostics := by
  unfold call
  split
  · intro d hd
    cases hd
  · exact h

/-- The keyword that is called is one of the language, and takes so many arguments. -/
lemma callee_eq_ok {e : Expr} {count : Nat} {l : Location} {k : Keyword}
    (h : callee e count l = .ok k) :
    (k.spelling = .plain → k.operator ≠ .ternary) ∧ k.callArity.admits count = true := by
  unfold callee at h
  split at h
  · split at h
    · rename_i hword
      split at h
      · rename_i hadmits
        cases h
        exact ⟨Keyword.operator_ne_ternary hword, hadmits⟩
      · cases h
    · cases h
  · cases h

lemma callee_eq_error {e : Expr} {count : Nat} {l : Location} {d : Diagnostic}
    (h : callee e count l = .error d) : d.location?.isSome = true := by
  unfold callee at h
  split at h
  · split at h
    · split at h
      · cases h
      · cases h
        rfl
    · cases h
      rfl
  · cases h
    rfl

/-! ## Names -/

lemma identifier_cases (name : String) (l : Location) :
    (∃ f, identifier name l = done (.field f)) ∨
      identifier name l = failed (.unknownIdentifier name l) := by
  unfold identifier
  cases Field.ofName? name with
  | none => exact .inr rfl
  | some f => exact .inl ⟨f, rfl⟩

lemma member_cases (object : Expr) (property : String) (l : Location) :
    (∃ f, member object property l = done (.field f)) ∨
      ∃ d, member object property l = failed d ∧ d.location?.isSome = true := by
  unfold member
  split
  · split
    · split
      · exact .inl ⟨_, rfl⟩
      · exact .inr ⟨_, rfl, rfl⟩
    · exact .inr ⟨_, rfl, rfl⟩
  · exact .inr ⟨_, rfl, rfl⟩

/-! ## Expressions -/

/-- A step that pays no attention to earlier reports. -/
lemma reliable_of_eq {step : Bool → Lowering} {l : Lowering} (heq : ∀ reported, step reported = l)
    (hlocated : Located l.diagnostics) (hsettled : Settled l) : Reliable step := by
  refine ⟨fun reported => ?_, ?_⟩
  · rw [heq]
    exact hlocated
  · rw [heq]
    exact hsettled

lemma reliable_done {step : Bool → Lowering} {t : Tree} (heq : ∀ reported, step reported = done t)
    (h : t.isCanonical = true) : Reliable step :=
  reliable_of_eq heq (located_done t) (settled_done h)

lemma reliable_failed {step : Bool → Lowering} {d : Diagnostic}
    (heq : ∀ reported, step reported = failed d) (h : d.location?.isSome = true) : Reliable step :=
  reliable_of_eq heq (located_failed h) (settled_failed d)

/-- At the depth limit there is no tree, and a diagnostic unless it was reported before. -/
lemma ofExpr_of_le {limit depth : Nat} (h : limit ≤ depth) (reported : Bool) (e : Expr) :
    ofExpr limit depth reported e =
      ⟨none, if reported then [] else [tooDeep limit e.location]⟩ := by
  rw [ofExpr.eq_def, if_pos h]

lemma reliable_of_le {limit depth : Nat} (h : limit ≤ depth) (e : Expr) :
    Reliable (ofExpr limit depth · e) := by
  refine ⟨fun reported d hd => ?_, fun hclean => ?_⟩
  · simp only [ofExpr_of_le h] at hd
    cases reported with
    | true => cases hd
    | false =>
      cases List.mem_singleton.1 hd
      rfl
  · simp only [ofExpr_of_le h] at hclean
    cases hclean

/-- An operator over operands that are each lowered reliably. -/
lemma reliable_operation {step : Bool → Lowering} {op : Operator}
    {steps : List (Bool → Lowering)}
    (heq : ∀ reported, step reported = operation op (operands reported steps))
    (h : ∀ s ∈ steps, Reliable s) (hadmits : op.arity.admits steps.length = true)
    (hternary : op = .ternary → steps.length = 3) : Reliable step := by
  refine ⟨fun reported => ?_, ?_⟩
  · rw [heq]
    exact located_operands steps h reported
  · rw [heq]
    exact settled_operation h hadmits hternary

lemma length_ofExprs (limit depth : Nat) (es : List Expr) :
    (ofExprs limit depth es).length = es.length := by
  induction es with
  | nil => rfl
  | cons e es ih => rw [ofExprs, List.length_cons, List.length_cons, ih]

mutual

/-- Every expression is lowered reliably, at whatever depth. -/
lemma reliable_ofExpr (limit depth : Nat) (e : Expr) : Reliable (ofExpr limit depth · e) := by
  by_cases hlimit : limit ≤ depth
  · exact reliable_of_le hlimit e
  match e with
  | .number n l | .text s l | .boolean b l =>
    exact reliable_done (fun reported => by rw [ofExpr, if_neg hlimit]) rfl
  | .identifier name l =>
    rcases identifier_cases name l with ⟨f, heq⟩ | heq
    · exact reliable_done (fun reported => by rw [ofExpr, if_neg hlimit, heq]) rfl
    · exact reliable_failed (fun reported => by rw [ofExpr, if_neg hlimit, heq]) rfl
  | .member object property height l =>
    rcases member_cases object property l with ⟨f, heq⟩ | ⟨d, heq, hd⟩
    · exact reliable_done (fun reported => by rw [ofExpr, if_neg hlimit, heq]) rfl
    · exact reliable_failed (fun reported => by rw [ofExpr, if_neg hlimit, heq]) hd
  | .call e arguments height l =>
    cases hcallee : callee e arguments.length l with
    | error d =>
      refine reliable_failed (fun reported => ?_) (callee_eq_error hcallee)
      rw [ofExpr, if_neg hlimit, hcallee]
    | ok k =>
      obtain ⟨hplain, hadmits⟩ := callee_eq_ok hcallee
      have hsteps := reliable_ofExprs limit (depth + 1) arguments
      have heq (reported : Bool) : ofExpr limit depth reported (.call e arguments height l) =
          call k (operands reported (ofExprs limit (depth + 1) arguments)) := by
        rw [ofExpr, if_neg hlimit, hcallee]
      rw [← length_ofExprs limit (depth + 1)] at hadmits
      refine ⟨fun reported => ?_, ?_⟩
      · simp only [heq]
        exact located_call (located_operands _ hsteps reported)
      · simp only [heq]
        exact settled_call hplain hadmits hsteps
  | .binary sign left right height l =>
    cases hword : Keyword.ofWord? sign.text with
    | none =>
      exact reliable_failed (fun reported => by rw [ofExpr, if_neg hlimit, hword]) rfl
    | some k =>
      obtain ⟨hadmits, hternary⟩ := Keyword.admits_two_of_sign hword
      refine reliable_operation (fun reported => by rw [ofExpr, if_neg hlimit, hword]) ?_ hadmits
        fun h => absurd h hternary
      simp only [List.forall_mem_cons]
      exact ⟨reliable_ofExpr limit (depth + 1) left, reliable_ofExpr limit (depth + 1) right,
        by simp⟩
  | .unary sign operand height l =>
    exact reliable_failed (fun reported => by rw [ofExpr, if_neg hlimit]) rfl
  | .conditional test consequent alternate height l =>
    refine reliable_operation (fun reported => by rw [ofExpr, if_neg hlimit]) ?_ rfl
      fun _ => rfl
    simp only [List.forall_mem_cons]
    exact ⟨reliable_ofExpr limit (depth + 1) test, reliable_ofExpr limit (depth + 1) consequent,
      reliable_ofExpr limit (depth + 1) alternate, by simp⟩

lemma reliable_ofExprs (limit depth : Nat) (es : List Expr) :
    ∀ step ∈ ofExprs limit depth es, Reliable step := by
  match es with
  | [] =>
    intro step h
    cases h
  | e :: es =>
    rw [ofExprs]
    exact List.forall_mem_cons.2 ⟨reliable_ofExpr limit depth e, reliable_ofExprs limit depth es⟩

end

/-! ## Formulas -/

/-- A formula is not empty if it can be read. -/
lemma statements_ne_nil {ts : List Token} {es : List Expr}
    (h : Grammar.statements ts = .ok es) : es ≠ [] := by
  unfold Grammar.statements at h
  split at h
  · cases h
  · cases h
  · cases h
    exact List.cons_ne_nil _ _

lemma ofStatements_spec {limit : Nat} {es : List Expr} (hne : es ≠ []) :
    Located (ofStatements limit es).diagnostics ∧ Settled (ofStatements limit es) := by
  match es with
  | [] => exact absurd rfl hne
  | [e] =>
    obtain ⟨hlocated, hsettled⟩ := reliable_ofExpr limit 0 e
    exact ⟨hlocated false, hsettled⟩
  | _ :: second :: _ => exact ⟨located_failed rfl, settled_failed _⟩

/-- How many expressions a formula has, if it can be read. -/
def statementCount? (s : String) : Option Nat :=
  (Token.ofText s).toOption.bind fun tokens => (Grammar.statements tokens).toOption.map List.length

lemma exists_statements {s : String} {n : Nat} (h : statementCount? s = some n) :
    ∃ tokens es, Token.ofText s = .ok tokens ∧ Grammar.statements tokens = .ok es ∧
      es.length = n := by
  rw [statementCount?] at h
  cases htokens : Token.ofText s with
  | error cause =>
    rw [htokens] at h
    cases h
  | ok tokens =>
    rw [htokens] at h
    cases hstatements : Grammar.statements tokens with
    | error cause => simp [hstatements, Except.toOption] at h
    | ok es => exact ⟨tokens, es, rfl, hstatements, by simpa [hstatements, Except.toOption] using h⟩

/-- Whether a formula has just one expression, and a test holds of it. -/
def hasSingle (test : Expr → Bool) (s : String) : Bool :=
  match Token.ofText s with
  | .error _ => false
  | .ok tokens =>
    match Grammar.statements tokens with
    | .ok [e] => test e
    | _ => false

lemma exists_of_hasSingle {test : Expr → Bool} {s : String} (h : hasSingle test s = true) :
    ∃ tokens e, Token.ofText s = .ok tokens ∧ Grammar.statements tokens = .ok [e] ∧
      test e = true := by
  unfold hasSingle at h
  split at h
  · cases h
  · rename_i tokens htokens
    split at h
    · rename_i e hstatements
      exact ⟨tokens, e, htokens, hstatements, h⟩
    · cases h

/-- The tree of a formula that can be read is that of its expressions. -/
lemma ofTextWithin_eq {s : String} {tokens : List Token} {es : List Expr}
    (htokens : Token.ofText s = .ok tokens) (hstatements : Grammar.statements tokens = .ok es)
    (limit : Nat) : ofTextWithin limit s = ofStatements limit es := by
  rw [ofTextWithin, htokens]
  dsimp only
  rw [hstatements]

/-- Whatever the depth limit, diagnostics are located, and without one there is a canonical
tree. -/
lemma ofTextWithin_spec (limit : Nat) (s : String) :
    Located (ofTextWithin limit s).diagnostics ∧ Settled (ofTextWithin limit s) := by
  unfold ofTextWithin
  split
  · exact ⟨located_failed rfl, settled_failed _⟩
  · split
    · exact ⟨located_failed rfl, settled_failed _⟩
    · rename_i hstatements
      exact ofStatements_spec (statements_ne_nil hstatements)

/-- Nothing is wrong, and there is a tree in which every operation has as many operands as its
operator takes, a ternary three. -/
def IsAccepted (l : Lowering) : Prop :=
  l.diagnostics = [] ∧ ∃ t, l.tree? = some t ∧ t.isCanonical = true

/-- Something is wrong, and every diagnostic says where. -/
def IsRejected (l : Lowering) : Prop :=
  l.diagnostics ≠ [] ∧ ∀ d ∈ l.diagnostics, d.location?.isSome = true

lemma isOk_iff {l : Lowering} : l.isOk = true ↔ ∃ t, l.tree? = some t ∧ l.diagnostics = [] := by
  rw [isOk, Bool.and_eq_true, Option.isSome_iff_exists, List.isEmpty_iff]
  exact exists_and_right.symm

lemma result_eq_ok_iff {l : Lowering} {t : Tree} :
    l.result = .ok t ↔ l.tree? = some t ∧ l.diagnostics = [] := by
  unfold result
  split
  · simp_all
  · simp_all

/-- Every formula is either accepted or rejected, never both, never neither; and the two ways to
ask whether a formula is accepted agree. -/
theorem ofText_accepted_or_rejected (s : String) :
    (IsAccepted (ofText s) ∨ IsRejected (ofText s)) ∧
      ¬(IsAccepted (ofText s) ∧ IsRejected (ofText s)) ∧
      ¬((ofText s).tree? = none ∧ (ofText s).diagnostics = []) ∧
      ((ofText s).isOk = true ↔ IsAccepted (ofText s)) ∧
      ((ofText s).isOk = true ↔ ∃ t, (ofText s).result = .ok t) := by
  have hspec : Located (ofText s).diagnostics ∧ Settled (ofText s) := ofTextWithin_spec _ s
  obtain ⟨hlocated, hsettled⟩ := hspec
  refine ⟨?_, fun h => h.2.1 h.1.1, ?_, ?_, ?_⟩
  · by_cases hclean : (ofText s).diagnostics = []
    · exact .inl ⟨hclean, hsettled hclean⟩
    · exact .inr ⟨hclean, hlocated⟩
  · rintro ⟨hnone, hclean⟩
    obtain ⟨t, htree, -⟩ := hsettled hclean
    rw [hnone] at htree
    cases htree
  · rw [isOk_iff]
    constructor
    · rintro ⟨t, -, hclean⟩
      exact ⟨hclean, hsettled hclean⟩
    · rintro ⟨hclean, t, htree, -⟩
      exact ⟨t, htree, hclean⟩
  · rw [isOk_iff]
    simp only [result_eq_ok_iff]

end Lowering

end FormulaTree
