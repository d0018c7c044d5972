import FormulaTree.Proofs.Grammar.Steps

/-!
# What is derived is read

A derivation nests to some depth and its expression has some height.  If both are within the
limits, the reader of the category gives the expression and stops where the derivation does;
otherwise it fails, and for no other reason than that a limit was exceeded.  `Derives.reads` is
this statement for every category, and `Derives.read` what it says where the expression ends.

## Left recursion

A category that is left-recursive is read by a loop, which goes on from what it has read as long
as something follows.  So what is stated of a derivation is not that its expression is the result
but that the loop arrives at it: reading comes to the same as going on from the expression
(`Category.resume`).  In this form the statement holds for the left part of a longer derivation as
well, and it is proved rule by rule (`Reads.token` to `Reads.choice`).
-/

namespace FormulaTree

/-- The fault is that a formula exceeds one of the two limits. -/
def Fault.IsLimit (f : Fault) : Prop := f.cause = .nesting ∨ f.cause = .height

namespace Grammar

open FormulaTree.Expr (ofBinary ofCall ofConditional ofMember ofUnary signed)

/-! ## Attempts within limits -/

/-- An attempt that comes to what is expected if a condition holds, and otherwise fails because a
limit is exceeded. -/
def Limited {α : Type} (fits : Prop) (attempt expected : Except Fault α) : Prop :=
  (fits ∧ attempt = expected) ∨ (¬fits ∧ ∃ f, attempt = .error f ∧ f.IsLimit)

namespace Limited

variable {α β : Type} {fits fits' : Prop} {attempt : Except Fault α}

lemma of_eq {expected : Except Fault α} (hfits : fits) (h : attempt = expected) :
    Limited fits attempt expected :=
  .inl ⟨hfits, h⟩

/-- There is no level left to go down. -/
lemma nesting {expected : Except Fault α} {rest : List Token} (hfits : ¬fits)
    (h : attempt = .error ⟨.nesting, rest⟩) : Limited fits attempt expected :=
  .inr ⟨hfits, _, h, .inl rfl⟩

/-- Two attempts in a row: the first must fit if both together do. -/
lemma bind {a : α} {next : α → Except Fault β} {expected : Except Fault β}
    (h : Limited fits attempt (.ok a)) (himp : fits' → fits)
    (hnext : fits → Limited fits' (next a) expected) :
    Limited fits' (attempt.bind next) expected := by
  rcases h with ⟨hfits, rfl⟩ | ⟨hfits, f, rfl, hf⟩
  · exact hnext hfits
  · exact .inr ⟨fun h => hfits (himp h), f, rfl, hf⟩

lemma map {a : α} {f : α → β} (h : Limited fits attempt (.ok a)) :
    Limited fits (attempt.map f) (.ok (f a)) := by
  rcases h with ⟨hfits, rfl⟩ | ⟨hfits, f, rfl, hf⟩
  · exact .inl ⟨hfits, rfl⟩
  · exact .inr ⟨hfits, f, rfl, hf⟩

lemma congr {expected : Except Fault α} (h : Limited fits attempt expected)
    (hiff : fits' ↔ fits) : Limited fits' attempt expected := by
  rwa [Limited, hiff]

end Limited

lemma limited_ensureHeight (blamed : List Token) (e : Expr) :
    Limited (e.height ≤ heightLimit) (ensureHeight blamed e) (.ok e) := by
  by_cases h : e.height ≤ heightLimit
  · exact .inl ⟨h, if_pos h⟩
  · exact .inr ⟨h, _, if_neg h, .inr rfl⟩

/-! ## What is to be shown of a derivation -/

/-- Goes on from an expression of a category by the loop of its reader, if it has one. -/
def Category.resume (m : Nat) (e : Expr) (rest : List Token) :
    Category → Except Fault (Expr × List Token)
  | .binary (signs :: tighter) => chain signs (Category.reader m (.binary tighter)) e rest
  | .applied => applications (below m) e rest
  | _ => .ok (e, rest)

/-- The category of what the loop of a reader starts from. -/
def Category.start : Category → Category
  | .binary (_ :: tighter) => .binary tighter
  | .applied => .primary
  | c => c

/-- Where an expression ends, there is nothing to go on with. -/
lemma resume_of_ends {c : Category} {m : Nat} {e : Expr} {rest : List Token}
    (h : Ends c rest) : c.resume m e rest = .ok (e, rest) := by
  cases c with
  | binary levels =>
    cases levels with
    | nil => rfl
    | cons signs tighter => exact chain_of_ends h
  | applied => exact applications_of_ends h
  | choice => rfl
  | unary => rfl
  | primary => rfl

lemma Ends.start {c : Category} {rest : List Token} (h : Ends c rest) :
    Ends c.start rest := by
  cases c with
  | binary levels =>
    cases levels with
    | nil => exact h
    | cons signs tighter => exact h.tighter
  | applied => exact ends_primary rest
  | choice => exact h
  | unary => exact h
  | primary => exact h

/-- A derivation of depth `n` and its expression are within the limits where `m` levels are
left. -/
def Fits (m n : Nat) (e : Expr) : Prop := n ≤ m ∧ e.height ≤ heightLimit

/-- What the reader of a category does with the tokens of a derivation. -/
def Reads (c : Category) (n : Nat) (ts : List Token) (e : Expr) : Prop :=
  ∀ (m : Nat) (rest : List Token), Ends c.start rest →
    Limited (Fits m n e) ((c.reader m).read (ts ++ rest)) (c.resume m e rest)

/-- What `arguments` does with the tokens of arguments, up to the closing parenthesis. -/
def ReadsArguments (n : Nat) (ts : List Token) (es : List Expr) : Prop :=
  ∀ (m : Nat) (l : Location) (rest : List Token),
    Limited (n ≤ m ∧ ∀ e ∈ es, e.height ≤ heightLimit)
      (arguments (Category.choice.reader m) (ts ++ ⟨.closeParen, l⟩ :: rest))
      (.ok (es, ⟨.closeParen, l⟩ :: rest))

/-- What `moreArguments` does with the tokens of arguments, up to the closing parenthesis. -/
def ReadsMore (n : Nat) (ts : List Token) (es : List Expr) : Prop :=
  ∀ (m : Nat) (l : Location) (rest : List Token),
    Limited (n ≤ m ∧ ∀ e ∈ es, e.height ≤ heightLimit)
      (moreArguments (Category.choice.reader m) (ts ++ ⟨.closeParen, l⟩ :: rest))
      (.ok (es, ⟨.closeParen, l⟩ :: rest))

namespace Reads

lemma of_ends {c : Category} {n : Nat} {ts : List Token} {e : Expr} (h : Reads c n ts e)
    (m : Nat) {rest : List Token} (hends : Ends c rest) :
    Limited (Fits m n e) ((c.reader m).read (ts ++ rest)) (.ok (e, rest)) := by
  have hread := h m rest hends.start
  rwa [resume_of_ends hends] at hread

/-! ## Primary expressions -/

/-- An expression of one token is read by taking the token. -/
lemma token {t : Token} {e : Expr} (hheight : e.height = 1)
    (hread : ∀ (inner? : Option Level) (rest : List Token),
      (Grammar.primary inner?).read (t :: rest) = .ok (e, rest)) :
    Reads .primary 0 [t] e := by
  intro m rest _
  refine .of_eq ⟨Nat.zero_le m, ?_⟩ (hread _ rest)
  rw [hheight]
  decide

lemma group {n : Nat} {ts : List Token} {e : Expr} {opening closing : Location}
    (h : Reads .choice n ts e) :
    Reads .primary (n + 1) (⟨.openParen, opening⟩ :: (ts ++ [⟨.closeParen, closing⟩]))
      (e.relocate (opening.cover closing)) := by
  intro m rest _
  have hopen : (Category.primary.reader m).read
      ((⟨.openParen, opening⟩ :: (ts ++ [⟨.closeParen, closing⟩])) ++ rest) =
        groupTail (below m) opening (ts ++ ⟨.closeParen, closing⟩ :: rest) := by
    rw [List.cons_append, List.append_assoc, List.singleton_append]
    rfl
  rw [hopen]
  cases m with
  | zero => exact .nesting (fun hfits => Nat.not_succ_le_zero n hfits.1) rfl
  | succ m =>
    have hclose : Ends .choice (⟨.closeParen, closing⟩ :: rest) := ends_cons.2 rfl
    have hiff : Fits (m + 1) (n + 1) (e.relocate (opening.cover closing)) ↔ Fits m n e := by
      rw [Fits, Fits, height_relocate, Nat.succ_le_succ_iff]
    rw [below, groupTail_some, expression_levels]
    refine .bind (h.of_ends m hclose) hiff.1 fun hfits => ?_
    rw [expect_cons]
    exact .of_eq (hiff.2 hfits) rfl

/-! ## Calls and member accesses -/

lemma primary {n : Nat} {ts : List Token} {e : Expr} (h : Reads .primary n ts e) :
    Reads .applied n ts e := by
  intro m rest _
  have hread : (Category.applied.reader m).read (ts ++ rest) =
      ((Category.primary.reader m).read (ts ++ rest)).bind fun r =>
        applications (below m) r.1 r.2 := applied_read _ _
  rw [hread]
  exact .bind (h.of_ends m (ends_primary rest)) id fun hfits => .of_eq hfits rfl

end Reads

/-- Goes on with what the loop of `applied` has read, if that is within the limits. -/
lemma limited_applications {m n n' : Nat} {ts us : List Token} {e e' : Expr}
    {next : Except Fault (Expr × List Token)} {rest : List Token}
    (h : Reads .applied n ts e) (himp : Fits m n' e' → Fits m n e)
    (hnext : applications (below m) e us = next.bind fun r => applications (below m) r.1 r.2)
    (hfits : Fits m n e → Limited (Fits m n' e') next (.ok (e', rest))) :
    Limited (Fits m n' e') ((Category.applied.reader m).read (ts ++ us))
      (Category.applied.resume m e' rest) := by
  rcases h m us (ends_primary us) with ⟨hleft, heq⟩ | ⟨hleft, f, heq, hf⟩
  · rw [heq, Category.resume, hnext]
    exact .bind (hfits hleft) id fun h => .of_eq h rfl
  · exact .inr ⟨fun h => hleft (himp h), f, heq, hf⟩

namespace Reads

lemma member {n : Nat} {ts : List Token} {object : Expr} {name : String}
    {point l : Location} (h : Reads .applied n ts object) :
    Reads .applied n (ts ++ [⟨.dot, point⟩, ⟨.identifier name, l⟩]) (ofMember object name l) := by
  intro m rest _
  have himp : Fits m n (ofMember object name l) → Fits m n object := by
    rintro ⟨hn, hheight⟩
    rw [height_ofMember] at hheight
    exact ⟨hn, by omega⟩
  rw [List.append_assoc]
  refine limited_applications h himp (applications_dot _ _ _ _) fun hobject => ?_
  have hheight := limited_ensureHeight (⟨.identifier name, l⟩ :: rest) (ofMember object name l)
  refine (Limited.map hheight).congr ?_
  rw [Fits]
  exact and_iff_right hobject.1

lemma call {k n : Nat} {ts us : List Token} {callee : Expr} {arguments : List Expr}
    {opening closing : Location} (h : Reads .applied k ts callee)
    (hargs : ReadsArguments n us arguments) :
    Reads .applied (max k (n + 1))
      (ts ++ ⟨.openParen, opening⟩ :: (us ++ [⟨.closeParen, closing⟩]))
      (ofCall callee arguments closing) := by
  intro m rest _
  have himp : Fits m (max k (n + 1)) (ofCall callee arguments closing) →
      Fits m k callee ∧ n + 1 ≤ m ∧ ∀ e ∈ arguments, e.height ≤ heightLimit := by
    rintro ⟨hn, hheight⟩
    rw [height_ofCall] at hheight
    have htall := tallest_le_iff.1 (Nat.le_trans (Nat.le_add_left _ 1) hheight)
    exact ⟨⟨by omega, htall.1⟩, by omega, htall.2⟩
  rw [List.append_assoc, List.cons_append, List.append_assoc, List.singleton_append]
  refine limited_applications h (fun h => (himp h).1) (applications_openParen _ _ _ _)
    fun hcallee => ?_
  cases m with
  | zero => exact .nesting (fun h => Nat.not_succ_le_zero n (himp h).2.1) rfl
  | succ m =>
    rw [below, callTail_some, expression_levels]
    refine .bind (hargs m closing rest)
      (fun h => ⟨Nat.le_of_succ_le_succ (himp h).2.1, (himp h).2.2⟩) fun hinside => ?_
    rw [expect_cons]
    refine (Limited.map (limited_ensureHeight _ _)).congr ?_
    rw [Fits]
    have hmax : max k (n + 1) ≤ m + 1 := Nat.max_le.2 ⟨hcallee.1, Nat.succ_le_succ hinside.1⟩
    exact and_iff_right hmax

end Reads

/-! ## Arguments -/

lemma ReadsArguments.none : ReadsArguments 0 [] [] := by
  intro m l rest
  exact .of_eq ⟨Nat.zero_le m, by simp⟩ (arguments_closeParen _ _ _)

lemma ReadsMore.none : ReadsMore 0 [] [] := by
  intro m l rest
  exact .of_eq ⟨Nat.zero_le m, by simp⟩ (moreArguments_closeParen _ _ _)

/-- An argument ends where further arguments or the closing parenthesis begin. -/
lemma DerivesMore.ends {n : Nat} {ts : List Token} {es : List Expr} {l : Location}
    {rest : List Token} (h : DerivesMore n ts es) :
    Ends .choice (ts ++ ⟨.closeParen, l⟩ :: rest) := by
  cases h with
  | none => exact ends_cons.2 rfl
  | some _ _ => exact ends_cons.2 rfl

/-- One argument and then further ones. -/
lemma limited_arguments {k m n : Nat} {ts us rest : List Token} {e : Expr} {es : List Expr}
    {l : Location} (hends : Ends .choice (us ++ ⟨.closeParen, l⟩ :: rest))
    (h : Reads .choice k ts e) (hmore : ReadsMore n us es) :
    Limited (max k n ≤ m ∧ ∀ a ∈ e :: es, a.height ≤ heightLimit)
      (((Category.choice.reader m).read (ts ++ (us ++ ⟨.closeParen, l⟩ :: rest))).bind fun r =>
        (moreArguments (Category.choice.reader m) r.2).map fun s => (r.1 :: s.1, s.2))
      (.ok (e :: es, ⟨.closeParen, l⟩ :: rest)) := by
  have hiff : (max k n ≤ m ∧ ∀ a ∈ e :: es, a.height ≤ heightLimit) ↔
      Fits m k e ∧ n ≤ m ∧ ∀ a ∈ es, a.height ≤ heightLimit := by
    rw [List.forall_mem_cons, Nat.max_le, Fits]
    constructor
    · rintro ⟨⟨hk, hn⟩, he, hes⟩
      exact ⟨⟨hk, he⟩, hn, hes⟩
    · rintro ⟨⟨hk, he⟩, hn, hes⟩
      exact ⟨⟨hk, hn⟩, he, hes⟩
  refine .bind (h.of_ends m hends) (fun hfits => (hiff.1 hfits).1) fun hfirst => ?_
  exact (Limited.map (hmore m l rest)).congr (hiff.trans (and_iff_right hfirst))

lemma ReadsArguments.some {k n : Nat} {ts us : List Token} {e : Expr} {es : List Expr}
    (hbegins : Begins .choice ts) (h : Reads .choice k ts e) (hus : DerivesMore n us es)
    (hmore : ReadsMore n us es) : ReadsArguments (max k n) (ts ++ us) (e :: es) := by
  intro m l rest
  have hne : (ts ++ us ++ ⟨.closeParen, l⟩ :: rest).head?.map Token.kind ≠
      Option.some Token.Kind.closeParen := by
    obtain ⟨t, ts', rfl, hkind⟩ := hbegins
    intro heq
    simp only [List.cons_append, List.head?_cons, Option.map_some, Option.some.injEq] at heq
    rw [heq] at hkind
    cases hkind
  rw [arguments_of_ne _ hne, List.append_assoc]
  exact limited_arguments hus.ends h hmore

lemma ReadsMore.some {k n : Nat} {ts us : List Token} {e : Expr} {es : List Expr}
    {comma : Location} (h : Reads .choice k ts e) (hus : DerivesMore n us es)
    (hmore : ReadsMore n us es) :
    ReadsMore (max k n) (⟨.comma, comma⟩ :: (ts ++ us)) (e :: es) := by
  intro m l rest
  rw [List.cons_append, moreArguments_comma, List.append_assoc]
  exact limited_arguments hus.ends h hmore

namespace Reads

/-! ## Signs -/

lemma applied {n : Nat} {ts : List Token} {e : Expr} (hbegins : Begins .applied ts)
    (h : Reads .applied n ts e) : Reads .unary n ts e := by
  intro m rest hends
  have hread : (Category.unary.reader m).read (ts ++ rest) =
      (Category.applied.reader m).read (ts ++ rest) := by
    obtain ⟨⟨kind, l⟩, ts', rfl, hkind⟩ := hbegins
    cases kind with
    | operator sign => cases hkind
    | _ => rfl
  rw [hread]
  exact h.of_ends m hends

lemma signed {n : Nat} {ts : List Token} {operand : Expr} {sign : Sign} {place : Location}
    (hmem : sign ∈ leadingSigns) (h : Reads .unary n ts operand) :
    Reads .unary (n + 1) (⟨.operator sign, place⟩ :: ts) (signed sign place operand) := by
  intro m rest hends
  have hsign : (Category.unary.reader m).read ((⟨.operator sign, place⟩ :: ts) ++ rest) =
      unaryTail (below m) sign place (⟨.operator sign, place⟩ :: (ts ++ rest)) (ts ++ rest) :=
    unary_sign hmem
  rw [hsign]
  cases m with
  | zero => exact .nesting (fun hfits => Nat.not_succ_le_zero n hfits.1) rfl
  | succ m =>
    rw [below, unaryTail_some, unary_levels]
    refine .bind (h.of_ends m hends) ?_ fun hoperand => ?_
    · rintro ⟨hn, hheight⟩
      rcases height_signed sign place operand with hsigned | ⟨_, hone⟩
      · exact ⟨Nat.le_of_succ_le_succ hn, by omega⟩
      · exact ⟨Nat.le_of_succ_le_succ hn, by rw [hone]; decide⟩
    · refine (Limited.map (limited_ensureHeight _ _)).congr ?_
      rw [Fits]
      exact and_iff_right (Nat.succ_le_succ hoperand.1)

/-! ## Binary signs -/

lemma operand {n : Nat} {ts : List Token} {e : Expr} (h : Reads .unary n ts e) :
    Reads (.binary []) n ts e :=
  fun m _ hends => h.of_ends m (Ends.unary hends)

lemma level {n : Nat} {ts : List Token} {e : Expr} {signs : List Sign}
    {tighter : List (List Sign)} (h : Reads (.binary tighter) n ts e) :
    Reads (.binary (signs :: tighter)) n ts e := by
  intro m rest hends
  have hread : ((Category.binary (signs :: tighter)).reader m).read (ts ++ rest) =
      (((Category.binary tighter).reader m).read (ts ++ rest)).bind fun r =>
        chain signs ((Category.binary tighter).reader m) r.1 r.2 := leftAssoc_read _ _ _
  rw [hread]
  exact .bind (h.of_ends m hends) id fun hfits => .of_eq hfits rfl

/-- The sign must be of no tighter level, or it would have been read as part of the left
operand. -/
lemma chain {k n : Nat} {ts us : List Token} {left right : Expr} {signs : List Sign}
    {tighter : List (List Sign)} {sign : Sign} {place : Location}
    (hleft : Reads (.binary (signs :: tighter)) k ts left) (hmem : sign ∈ signs)
    (hnot : ∀ level ∈ tighter, sign ∉ level) (hright : Reads (.binary tighter) n us right) :
    Reads (.binary (signs :: tighter)) (max k n) (ts ++ ⟨.operator sign, place⟩ :: us)
      (ofBinary sign left right) := by
  intro m rest hends
  have hiff : Fits m (max k n) (ofBinary sign left right) ↔
      Fits m k left ∧ Fits m n right ∧ (ofBinary sign left right).height ≤ heightLimit := by
    simp only [Fits, height_ofBinary]
    omega
  have hsign : Ends (.binary tighter) (⟨.operator sign, place⟩ :: (us ++ rest)) := by
    rw [ends_cons]
    simpa [Category.continues, joins] using hnot
  rw [List.append_assoc, List.cons_append]
  rcases hleft m _ hsign with ⟨hfits, heq⟩ | ⟨hfits, f, heq, hf⟩
  · rw [heq, Category.resume, chain_operator hmem]
    refine .bind (hright.of_ends m hends) (fun h => (hiff.1 h).2.1) fun hsecond => ?_
    refine .bind (limited_ensureHeight _ _) (fun h => (hiff.1 h).2.2) fun hheight => ?_
    exact .of_eq (hiff.2 ⟨hfits, hsecond, hheight⟩) rfl
  · exact .inr ⟨fun h => hfits (hiff.1 h).1, f, heq, hf⟩

/-! ## Choices -/

lemma test {n : Nat} {ts : List Token} {e : Expr} (h : Reads (.binary binaryLevels) n ts e) :
    Reads .choice n ts e := by
  intro m rest hends
  have hread : (Category.choice.reader m).read (ts ++ rest) =
      (((Category.binary binaryLevels).reader m).read (ts ++ rest)).bind fun r =>
        Grammar.choice (below m) r.1 r.2 := expression_read _ _ _
  rw [hread]
  refine .bind (h.of_ends m (Ends.test hends)) id fun hfits => ?_
  exact .of_eq hfits (choice_of_ends hends)

lemma choice {k n j : Nat} {ts us vs : List Token} {test consequent alternate : Expr}
    {question colon : Location} (htest : Reads (.binary binaryLevels) k ts test)
    (hyes : Reads .choice n us consequent) (hno : Reads .choice j vs alternate) :
    Reads .choice (max k (max (n + 1) (j + 1)))
      (ts ++ ⟨.question, question⟩ :: (us ++ ⟨.colon, colon⟩ :: vs))
      (ofConditional test consequent alternate) := by
  intro m rest hends
  have hread (us : List Token) : (Category.choice.reader m).read (ts ++ us) =
      (((Category.binary binaryLevels).reader m).read (ts ++ us)).bind fun r =>
        Grammar.choice (below m) r.1 r.2 := expression_read _ _ _
  have hquestion : Ends (.binary binaryLevels)
      (⟨.question, question⟩ :: (us ++ ⟨.colon, colon⟩ :: (vs ++ rest))) := ends_cons.2 rfl
  have hcolon : Ends .choice (⟨.colon, colon⟩ :: (vs ++ rest)) := ends_cons.2 rfl
  rw [List.append_assoc, List.cons_append, List.append_assoc, List.cons_append, hread]
  refine .bind (htest.of_ends m hquestion) ?_ fun hfirst => ?_
  · rintro ⟨hn, hheight⟩
    rw [height_ofConditional] at hheight
    exact ⟨by omega, by omega⟩
  rw [choice_question]
  cases m with
  | zero => exact .nesting (fun hfits => absurd hfits.1 (by omega)) rfl
  | succ m =>
    have hiff : Fits (m + 1) (max k (max (n + 1) (j + 1)))
        (ofConditional test consequent alternate) ↔
          Fits (m + 1) k test ∧ Fits m n consequent ∧ Fits m j alternate ∧
            (ofConditional test consequent alternate).height ≤ heightLimit := by
      simp only [Fits, height_ofConditional]
      omega
    rw [below, choiceTail_some, expression_levels]
    refine .bind (hyes.of_ends m hcolon) (fun h => (hiff.1 h).2.1) fun hsecond => ?_
    rw [expect_cons, Except.bind]
    refine .bind (hno.of_ends m hends) (fun h => (hiff.1 h).2.2.1) fun hthird => ?_
    refine (Limited.map (limited_ensureHeight _ _)).congr (hiff.trans ?_)
    rw [and_iff_right hfirst, and_iff_right hsecond, and_iff_right hthird]

end Reads

/-! ## All rules together -/

/-- No sign is on two of the levels. -/
def Separate (levels : List (List Sign)) : Prop :=
  levels.Pairwise fun looser tighter => ∀ sign ∈ looser, sign ∉ tighter

lemma separate_binaryLevels : Separate binaryLevels := by
  unfold Separate
  decide

/-- The levels of the category have no sign in common. -/
def Category.IsSeparate : Category → Prop
  | .binary levels => Separate levels
  | _ => True

mutual

/-- Derived tokens are read, within the limits, as the derivation says. -/
theorem Derives.reads {c : Category} {n : Nat} {ts : List Token} {e : Expr}
    (hc : c.IsSeparate) : Derives c n ts e → Reads c n ts e
  | .number | .text | .boolean | .identifier | .field => .token rfl fun _ _ => rfl
  | .group h => .group (h.reads trivial)
  | .primary h => .primary (h.reads trivial)
  | .call h hargs => .call (h.reads trivial) hargs.reads
  | .member h => .member (h.reads trivial)
  | .applied h => .applied h.begins (h.reads trivial)
  | .signed hmem h => .signed hmem (h.reads trivial)
  | .operand h => .operand (h.reads trivial)
  | .level h => .level (h.reads (List.Pairwise.of_cons hc))
  | .chain hleft hmem hright =>
    .chain (hleft.reads hc) hmem (fun _ hlevel => List.rel_of_pairwise_cons hc hlevel _ hmem)
      (hright.reads (List.Pairwise.of_cons hc))
  | .test h => .test (h.reads separate_binaryLevels)
  | .choice htest hyes hno =>
    .choice (htest.reads separate_binaryLevels) (hyes.reads trivial) (hno.reads trivial)

lemma DerivesArguments.reads {n : Nat} {ts : List Token} {es : List Expr} :
    DerivesArguments n ts es → ReadsArguments n ts es
  | .none => .none
  | .some h hmore => .some h.begins (h.reads trivial) hmore hmore.reads

lemma DerivesMore.reads {n : Nat} {ts : List Token} {es : List Expr} :
    DerivesMore n ts es → ReadsMore n ts es
  | .none => .none
  | .some h hmore => .some (h.reads trivial) hmore hmore.reads

end

/-- A derived expression that ends where the derivation does is read, if it is within the limits,
and otherwise reading fails because a limit is exceeded. -/
theorem Derives.read {n : Nat} {ts : List Token} {e : Expr} (h : Derives .choice n ts e)
    {rest : List Token} (hends : Ends .choice rest) :
    Limited (Fits nestingLimit n e) (reader.read (ts ++ rest)) (.ok (e, rest)) := by
  have hreads : Reads .choice n ts e := h.reads trivial
  rw [reader, expression_levels]
  exact hreads.of_ends nestingLimit hends

end Grammar

end FormulaTree
