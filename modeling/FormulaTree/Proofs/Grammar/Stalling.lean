import FormulaTree.Proofs.Grammar.Completeness
import FormulaTree.Proofs.Grammar.Soundness

/-!
# Where reading stalls

A reader decides by the tokens it takes and by the one after them.  So if it fails, other than by a
limit, it would have failed in the same way whatever comes after the token at fault: nothing that
begins with the tokens up to this one is derived.  The tokens before it, on the other hand, can
always be completed to something that is derived.  `viable` says both for every reader.

`Local` is what is to be shown of one reader at some tokens.  It is closed under the ways in which
readers are put together, so that each reader is one lemma, in the order of the grammar.
-/

namespace FormulaTree.Grammar

/-! ## Tokens that can be completed -/

/-- The tokens are the first of those of a derivation. -/
def Completable (c : Category) (ts : List Token) : Prop :=
  ∃ tail n e, Derives c n (ts ++ tail) e

/-- The same for the arguments of a call. -/
def CompletableArguments (ts : List Token) : Prop :=
  ∃ tail n es, DerivesArguments n (ts ++ tail) es

/-- The same for further arguments. -/
def CompletableMore (ts : List Token) : Prop :=
  ∃ tail n es, DerivesMore n (ts ++ tail) es

lemma CompletableArguments.of_derives {n : Nat} {ts us : List Token} {es : List Expr}
    (tail : List Token) (h : DerivesArguments n us es) (heq : us = ts ++ tail) :
    CompletableArguments ts :=
  ⟨tail, n, es, heq ▸ h⟩

lemma CompletableMore.of_derives {n : Nat} {ts us : List Token} {es : List Expr}
    (tail : List Token) (h : DerivesMore n us es) (heq : us = ts ++ tail) : CompletableMore ts :=
  ⟨tail, n, es, heq ▸ h⟩

/-- A token that is put where an expression is missing. -/
def filler : Token := ⟨.boolean true, .initial⟩

lemma derives_filler : Derives .choice 0 [filler] (.boolean true .initial) :=
  .test (Derives.of_unary (.applied (.primary .boolean)) binaryLevels)

namespace Completable

variable {n : Nat} {ts us : List Token} {e : Expr} {l : Location}

lemma of_derives {c : Category} (tail : List Token) (h : Derives c n us e)
    (heq : us = ts ++ tail) : Completable c ts :=
  ⟨tail, n, e, heq ▸ h⟩

lemma of_whole {c : Category} (h : Derives c n ts e) : Completable c ts :=
  of_derives [] h (List.append_nil ts).symm

lemma imp {c d : Category} (h : Completable c ts)
    (himp : ∀ {n us e}, Derives c n us e → Derives d n us e) : Completable d ts := by
  obtain ⟨tail, n, e, hderives⟩ := h
  exact ⟨tail, n, e, himp hderives⟩

lemma group (h : Completable .choice ts) : Completable .primary (⟨.openParen, l⟩ :: ts) := by
  obtain ⟨tail, n, e, hderives⟩ := h
  exact of_derives (tail ++ [⟨.closeParen, .initial⟩]) (.group hderives)
    (by rw [List.cons_append, List.append_assoc])

lemma call (happlied : Derives .applied n ts e) (h : CompletableArguments us) :
    Completable .applied (ts ++ ⟨.openParen, l⟩ :: us) := by
  obtain ⟨tail, k, es, hderives⟩ := h
  exact of_derives (tail ++ [⟨.closeParen, .initial⟩]) (.call happlied hderives)
    (by rw [List.append_assoc, List.append_assoc, List.cons_append])

lemma member (hobject : Derives .applied n ts e) :
    Completable .applied (ts ++ [⟨.dot, l⟩]) :=
  of_derives [⟨.identifier "x", .initial⟩] (.member hobject)
    (by rw [List.append_assoc, List.singleton_append])

lemma signed {sign : Sign} (hmem : sign ∈ leadingSigns) (h : Completable .unary ts) :
    Completable .unary (⟨.operator sign, l⟩ :: ts) := by
  obtain ⟨tail, n, e, hderives⟩ := h
  exact of_derives tail (.signed hmem hderives) rfl

lemma chain {signs : List Sign} {tighter : List (List Sign)} {sign : Sign}
    (hleft : Derives (.binary (signs :: tighter)) n ts e) (hmem : sign ∈ signs)
    (h : Completable (.binary tighter) us) :
    Completable (.binary (signs :: tighter)) (ts ++ ⟨.operator sign, l⟩ :: us) := by
  obtain ⟨tail, k, right, hderives⟩ := h
  exact of_derives tail (.chain hleft hmem hderives) (by rw [List.append_assoc, List.cons_append])

lemma consequent (htest : Derives (.binary binaryLevels) n ts e) (h : Completable .choice us) :
    Completable .choice (ts ++ ⟨.question, l⟩ :: us) := by
  obtain ⟨tail, k, consequent, hderives⟩ := h
  exact of_derives (tail ++ [⟨.colon, .initial⟩, filler]) (.choice htest hderives derives_filler)
    (by rw [List.append_assoc, List.append_assoc, List.cons_append])

lemma alternate {k : Nat} {vs : List Token} {consequent : Expr} {colon : Location}
    (htest : Derives (.binary binaryLevels) n ts e) (hyes : Derives .choice k us consequent)
    (h : Completable .choice vs) :
    Completable .choice (ts ++ ⟨.question, l⟩ :: (us ++ ⟨.colon, colon⟩ :: vs)) := by
  obtain ⟨tail, j, alternate, hderives⟩ := h
  exact of_derives tail (.choice htest hyes hderives)
    (by rw [List.append_assoc, List.cons_append, List.append_assoc, List.cons_append])

end Completable

/-! ## What is decided by the next token -/

/-- What reading `ts` comes to does not depend on what stands after the first token that is left
over: it succeeds again, or fails again, whatever that is.  The tokens before the one at fault
satisfy `P`.  Nothing is said about the limits. -/
structure Local {α : Type} (P : List Token → Prop)
    (read : List Token → Except Fault (α × List Token)) (ts : List Token) : Prop where
  ok : ∀ a us, read ts = .ok (a, us) → ∃ taken, ts = taken ++ us ∧
    ∀ rest, rest.head? = us.head? → read (taken ++ rest) = .ok (a, rest)
  error : ∀ f, read ts = .error f → ¬f.IsLimit → ∃ before, ts = before ++ f.rest ∧ P before ∧
    ∀ rest, rest.head? = f.rest.head? → read (before ++ rest) = .error ⟨f.cause, rest⟩

section Head

variable {t : Token} {ts us rest before : List Token} {p : List Token → Prop}

/-- Tokens still begin in the same way if something else comes after the next one. -/
lemma head?_append_eq (hts : ts = before ++ us) (h : rest.head? = us.head?) :
    (before ++ rest).head? = ts.head? := by
  rw [hts, List.head?_append, List.head?_append, h]

lemma forall_head_nil (h : p []) : ∀ us, us.head? = ([] : List Token).head? → p us := by
  intro us hus
  rwa [List.head?_eq_none_iff.1 hus]

lemma forall_head_cons (h : ∀ us, p (t :: us)) : ∀ us, us.head? = (t :: ts).head? → p us := by
  intro us hus
  obtain ⟨us, rfl⟩ := List.head?_eq_some_iff.1 hus
  exact h us

end Head

namespace Local

variable {α β : Type} {P Q : List Token → Prop} {ts : List Token}
  {read read' : List Token → Except Fault (α × List Token)}

/-- Nothing is taken. -/
lemma done (a : α) (h : ∀ us, us.head? = ts.head? → read us = .ok (a, us)) :
    Local P read ts where
  ok b us hread := by
    rw [h ts rfl] at hread
    cases hread
    exact ⟨[], rfl, h⟩
  error f hread := by
    rw [h ts rfl] at hread
    cases hread

/-- The first token is at fault. -/
lemma fault (cause : SyntaxError.Cause) (hP : P [])
    (h : ∀ us, us.head? = ts.head? → read us = .error ⟨cause, us⟩) : Local P read ts where
  ok a us hread := by
    rw [h ts rfl] at hread
    cases hread
  error f hread _ := by
    rw [h ts rfl] at hread
    cases hread
    exact ⟨[], rfl, hP, h⟩

lemma limit {f : Fault} (h : read ts = .error f) (hf : f.IsLimit) : Local P read ts where
  ok a us hread := by
    rw [h] at hread
    cases hread
  error g hread hg := by
    rw [h] at hread
    cases hread
    exact absurd hf hg

lemma imp (h : Local P read ts) (himp : ∀ before, P before → Q before) : Local Q read ts where
  ok := h.ok
  error f hread hf := by
    obtain ⟨before, hts, hP, hagain⟩ := h.error f hread hf
    exact ⟨before, hts, himp before hP, hagain⟩

lemma congr (heq : ∀ us, us.head? = ts.head? → read' us = read us) (h : Local P read ts) :
    Local P read' ts where
  ok a us hread := by
    rw [heq ts rfl] at hread
    obtain ⟨taken, hts, hagain⟩ := h.ok a us hread
    refine ⟨taken, hts, fun rest hrest => ?_⟩
    rw [heq _ (head?_append_eq hts hrest), hagain rest hrest]
  error f hread hf := by
    rw [heq ts rfl] at hread
    obtain ⟨before, hts, hP, hagain⟩ := h.error f hread hf
    refine ⟨before, hts, hP, fun rest hrest => ?_⟩
    rw [heq _ (head?_append_eq hts hrest), hagain rest hrest]

/-- A token is taken, whatever comes after it. -/
lemma cons {t : Token} (heq : ∀ us, read' (t :: us) = read us)
    (h : Local (fun before => P (t :: before)) read ts) : Local P read' (t :: ts) where
  ok a us hread := by
    rw [heq] at hread
    obtain ⟨taken, rfl, hagain⟩ := h.ok a us hread
    exact ⟨t :: taken, rfl, fun rest hrest => (heq _).trans (hagain rest hrest)⟩
  error f hread hf := by
    rw [heq] at hread
    obtain ⟨before, hts, hP, hagain⟩ := h.error f hread hf
    exact ⟨t :: before, congrArg (t :: ·) hts, hP, fun rest hrest =>
      (heq _).trans (hagain rest hrest)⟩

lemma map (g : α → β) (h : Local P read ts) :
    Local P (fun us => (read us).map fun r => (g r.1, r.2)) ts where
  ok b us hread := by
    obtain ⟨⟨a, vs⟩, hread', heq⟩ := map_eq_ok.1 hread
    cases heq
    obtain ⟨taken, hts, hagain⟩ := h.ok a vs hread'
    exact ⟨taken, hts, fun rest hrest => by rw [hagain rest hrest]; rfl⟩
  error f hread hf := by
    obtain ⟨before, hts, hP, hagain⟩ := h.error f (map_eq_error.1 hread) hf
    exact ⟨before, hts, hP, fun rest hrest => by rw [hagain rest hrest]; rfl⟩

/-- Two readers in a row.  The second may know all the tokens that the first was given. -/
lemma bind {next : List Token → α × List Token → Except Fault (β × List Token)}
    (h : Local P read ts)
    (hnext : ∀ a us taken, ts = taken ++ us → read ts = .ok (a, us) →
      Local (fun before => P (taken ++ before)) (fun rest => next (taken ++ rest) (a, rest)) us) :
    Local P (fun us => (read us).bind (next us)) ts where
  ok b vs hread := by
    obtain ⟨⟨a, us⟩, hfirst, hsecond⟩ := bind_eq_ok.1 hread
    obtain ⟨taken, rfl, hagain⟩ := h.ok a us hfirst
    obtain ⟨taken', hus, hagain'⟩ := (hnext a us taken rfl hfirst).ok b vs hsecond
    refine ⟨taken ++ taken', by rw [hus, List.append_assoc], fun rest hrest => ?_⟩
    rw [List.append_assoc, hagain _ (head?_append_eq hus hrest)]
    exact hagain' rest hrest
  error f hread hf := by
    rcases bind_eq_error.1 hread with hfirst | ⟨⟨a, us⟩, hfirst, hsecond⟩
    · obtain ⟨before, hts, hP, hagain⟩ := h.error f hfirst hf
      exact ⟨before, hts, hP, fun rest hrest => by rw [hagain rest hrest]; rfl⟩
    · obtain ⟨taken, rfl, hagain⟩ := h.ok a us hfirst
      obtain ⟨before, hus, hP, hagain'⟩ := (hnext a us taken rfl hfirst).error f hsecond hf
      refine ⟨taken ++ before, by rw [hus, List.append_assoc], hP, fun rest hrest => ?_⟩
      rw [List.append_assoc, hagain _ (head?_append_eq hus hrest)]
      exact hagain' rest hrest

/-- An expression is built, unless it is too tall. -/
lemma ensureHeight {blamed : List Token → List Token} {e : Expr}
    {next : List Token → Expr → Except Fault (α × List Token)}
    (h : Local P (fun us => next us e) ts) :
    Local P (fun us => (Grammar.ensureHeight (blamed us) e).bind (next us)) ts := by
  by_cases hheight : e.height ≤ heightLimit
  · refine congr (fun us _ => ?_) h
    rw [Grammar.ensureHeight, if_pos hheight]
    rfl
  · have hfault : Grammar.ensureHeight (blamed ts) e = .error ⟨.height, blamed ts⟩ :=
      if_neg hheight
    exact limit (bind_eq_error.2 (.inl hfault)) (.inr rfl)

/-- An expression is built and nothing else is read. -/
lemma height {blamed : List Token → List Token} {e : Expr} :
    Local P (fun us => (Grammar.ensureHeight (blamed us) e).map (·, us)) ts := by
  have hbind (us : List Token) : (Grammar.ensureHeight (blamed us) e).map (·, us) =
      (Grammar.ensureHeight (blamed us) e).bind fun e => .ok (e, us) := by
    cases Grammar.ensureHeight (blamed us) e <;> rfl
  exact congr (fun us _ => hbind us) (ensureHeight (done e fun us _ => rfl))

end Local

lemma expect_local {P : List Token → Prop} (kind : Token.Kind) (what : Expectation) (hP : P [])
    (ts : List Token) : Local P (expect kind what) ts := by
  cases ts with
  | nil => exact .fault (.expected what) hP (forall_head_nil rfl)
  | cons t ts =>
    by_cases hkind : t.kind = kind
    · have htake (us : List Token) : expect kind what (t :: us) = .ok (t.location, us) :=
        if_pos hkind
      exact .cons htake (.done t.location fun us _ => rfl)
    · exact .fault (.expected what) hP (forall_head_cons fun us => if_neg hkind)

/-! ## The readers -/

/-- A loop goes on with fewer tokens than it was given. -/
lemma length_lt_of_eq {t : Token} {taken us : List Token} {length : Nat}
    (h : (t :: (taken ++ us)).length = length) : us.length < length := by
  rw [← h, List.length_cons, List.length_append]
  omega

/-- The reader of the category is local, and what it takes before a fault can be completed. -/
def Viable (m : Nat) (c : Category) : Prop :=
  ∀ ts, Local (Completable c) (c.reader m).read ts

lemma sound (m : Nat) : ∀ c, Sound m c
  | .choice => (read_sound m).1
  | .binary levels => binary_sound (read_sound m).2 levels
  | .unary => (read_sound m).2
  | .applied => applied_sound fun k _ => (read_sound k).1
  | .primary => primary_sound fun k _ => (read_sound k).1

lemma derives_of_read {c : Category} {m : Nat} {taken us : List Token} {e : Expr}
    (h : (c.reader m).read (taken ++ us) = .ok (e, us)) : ∃ n, Derives c n taken e := by
  obtain ⟨⟨n, taken', heq, hderives, -⟩, -⟩ := sound m c h
  rw [List.append_cancel_right heq]
  exact ⟨n, hderives⟩

/-! ### Arguments -/

lemma moreArguments_local {m : Nat} (hchoice : Viable m .choice) (ts : List Token) :
    Local CompletableMore (moreArguments (Category.choice.reader m)) ts := by
  induction hlength : ts.length using Nat.strongRecOn generalizing ts with
  | ind length ih =>
    by_cases hcomma : ts.head?.map Token.kind = some .comma
    · obtain ⟨⟨kind, l⟩, hhead, rfl⟩ := Option.map_eq_some_iff.1 hcomma
      obtain ⟨ts, rfl⟩ := List.head?_eq_some_iff.1 hhead
      refine .cons (moreArguments_comma _ l) (.bind ((hchoice ts).imp ?_) ?_)
      · rintro before ⟨tail, n, e, hderives⟩
        exact .of_derives tail (.some hderives .none) (by rw [List.append_nil, List.cons_append])
      · rintro e us taken rfl hread
        obtain ⟨n, hderives⟩ := derives_of_read hread
        refine ((ih _ (length_lt_of_eq hlength) us rfl).imp ?_).map (e :: ·)
        rintro before ⟨tail, k, es, hmore⟩
        exact .of_derives tail (.some hderives hmore) (by rw [List.cons_append, List.append_assoc])
    · refine .done [] fun us hus => moreArguments_of_ne ?_
      rwa [hus]

lemma arguments_local {m : Nat} (hchoice : Viable m .choice) (ts : List Token) :
    Local CompletableArguments (arguments (Category.choice.reader m)) ts := by
  by_cases hclose : ts.head?.map Token.kind = some .closeParen
  · refine .done [] fun us hus => ?_
    rw [arguments, if_pos (hus ▸ hclose)]
  · refine .congr (fun us hus => arguments_of_ne _ (hus ▸ hclose)) (.bind ((hchoice ts).imp ?_) ?_)
    · rintro before ⟨tail, n, e, hderives⟩
      exact .of_derives tail (.some hderives .none) (List.append_nil _)
    · rintro e us taken rfl hread
      obtain ⟨n, hderives⟩ := derives_of_read hread
      refine ((moreArguments_local hchoice us).imp ?_).map (e :: ·)
      rintro before ⟨tail, k, es, hmore⟩
      exact .of_derives tail (.some hderives hmore) (List.append_assoc _ _ _).symm

/-! ### Calls and member accesses -/

lemma derives_of_callTail {m n : Nat} {taken opening inside us : List Token}
    {callee call : Expr}
    (h : Derives .applied n taken callee) (l : Location)
    (hcall : callTail (below m) callee opening (inside ++ us) = .ok (call, us)) :
    ∃ k, Derives .applied k (taken ++ ⟨.openParen, l⟩ :: inside) call := by
  obtain ⟨k, es, closing, rfl, hargs, rfl, -⟩ := callTail_eq_ok hcall
  obtain ⟨j, args, heq, hderives, -⟩ := arguments_sound (sound k .choice) hargs
  rw [← List.singleton_append, ← List.append_assoc] at heq
  rw [List.append_cancel_right heq]
  exact ⟨max n (j + 1), .call h hderives⟩

lemma derives_of_memberTail {n : Nat} {taken inside us : List Token} {object access : Expr}
    (h : Derives .applied n taken object) (l : Location)
    (haccess : memberTail object (inside ++ us) = .ok (access, us)) :
    Derives .applied n (taken ++ ⟨.dot, l⟩ :: inside) access := by
  obtain ⟨name, place, heq, rfl, -⟩ := memberTail_eq_ok haccess
  rw [← List.singleton_append] at heq
  rw [List.append_cancel_right heq]
  exact .member h

section Level

variable {m : Nat} (hinner : ∀ k, m = k + 1 → Viable k .choice ∧ Viable k .unary)

include hinner

lemma callTail_local {n : Nat} {taken : List Token} {callee : Expr}
    (hcallee : Derives .applied n taken callee) (l : Location) (ts : List Token) :
    Local (fun before => Completable .applied (taken ++ ⟨.openParen, l⟩ :: before))
      (fun us => callTail (below m) callee (⟨.openParen, l⟩ :: us) us) ts := by
  cases m with
  | zero => exact .limit rfl (.inl rfl)
  | succ k =>
    have hchoice := (hinner k rfl).1
    simp only [below, callTail_some, expression_levels]
    refine .bind ((arguments_local hchoice ts).imp fun before h => .call hcallee h) ?_
    rintro es us inside rfl hread
    obtain ⟨j, inside', heq, hderives, -⟩ := arguments_sound (sound k .choice) hread
    obtain rfl := List.append_cancel_right heq
    have hclose : Completable .applied (taken ++ ⟨.openParen, l⟩ :: (inside ++ [])) :=
      .call hcallee (.of_derives [] hderives (by rw [List.append_nil, List.append_nil]))
    refine .bind (expect_local _ _ hclose us) fun closing rest _ _ _ => ?_
    dsimp only
    exact .height

omit hinner in
lemma memberTail_local {n : Nat} {taken : List Token} {object : Expr}
    (hobject : Derives .applied n taken object) (l : Location) (ts : List Token) :
    Local (fun before => Completable .applied (taken ++ ⟨.dot, l⟩ :: before))
      (memberTail object) ts := by
  cases ts with
  | nil => exact .fault (.expected .property) (.member hobject) (forall_head_nil rfl)
  | cons t ts =>
    obtain ⟨kind, place⟩ := t
    cases kind with
    | identifier name => exact .cons (fun us => rfl) .height
    | _ =>
      exact .fault (.expected .property) (.member hobject) (forall_head_cons fun us => rfl)

/-- What the loop has read so far is derived, so that what it would need after a fault can be put
behind all of it. -/
lemma applications_local {n : Nat} {taken : List Token} {e : Expr}
    (h : Derives .applied n taken e) (ts : List Token) :
    Local (fun before => Completable .applied (taken ++ before)) (applications (below m) e) ts := by
  induction hlength : ts.length using Nat.strongRecOn generalizing n taken e ts with
  | ind length ih =>
    by_cases hends : Ends .applied ts
    · refine .done e fun us hus => applications_of_ends ?_
      rwa [Ends, hus]
    · cases ts with
      | nil => exact absurd (ends_nil _) hends
      | cons t ts =>
        obtain ⟨kind, l⟩ := t
        cases kind with
        | openParen =>
          refine .cons (applications_openParen _ _ l) (.bind (callTail_local hinner h l ts) ?_)
          rintro call us inside rfl hcall
          obtain ⟨k, hderives⟩ := derives_of_callTail h l hcall
          refine (ih _ (length_lt_of_eq hlength) hderives us rfl).imp fun before hbefore => ?_
          rwa [List.append_assoc, List.cons_append] at hbefore
        | dot =>
          refine .cons (applications_dot _ _ l) (.bind (memberTail_local h l ts) ?_)
          rintro access us inside rfl haccess
          have hderives := derives_of_memberTail h l haccess
          refine (ih _ (length_lt_of_eq hlength) hderives us rfl).imp fun before hbefore => ?_
          rwa [List.append_assoc, List.cons_append] at hbefore
        | _ => exact absurd (ends_cons.2 rfl) hends

/-! ### Primary expressions -/

lemma groupTail_local (l : Location) (ts : List Token) :
    Local (fun before => Completable .primary (⟨.openParen, l⟩ :: before))
      (groupTail (below m) l) ts := by
  cases m with
  | zero => exact .limit rfl (.inl rfl)
  | succ k =>
    refine .congr (fun us _ => groupTail_some _ l us) ?_
    rw [expression_levels]
    refine .bind (((hinner k rfl).1 ts).imp fun before h => h.group) ?_
    rintro e us inside rfl hread
    obtain ⟨n, hderives⟩ := derives_of_read hread
    have hclose : Completable .primary (⟨.openParen, l⟩ :: (inside ++ [])) := by
      rw [List.append_nil]
      exact .group (.of_whole hderives)
    exact .map (fun closing => e.relocate (l.cover closing)) (expect_local _ _ hclose us)

lemma primary_viable : Viable m .primary := by
  have hstart : Completable .primary [] := ⟨[filler], 0, _, .boolean⟩
  intro ts
  cases ts with
  | nil => exact .fault .unexpected hstart (forall_head_nil rfl)
  | cons t ts =>
    obtain ⟨kind, l⟩ := t
    cases kind with
    | number v => exact .cons (fun us => rfl) (.done (.number v l) fun us _ => rfl)
    | text s => exact .cons (fun us => rfl) (.done (.text s l) fun us _ => rfl)
    | boolean b => exact .cons (fun us => rfl) (.done (.boolean b l) fun us _ => rfl)
    | identifier name => exact .cons (fun us => rfl) (.done (.identifier name l) fun us _ => rfl)
    | field name => exact .cons (fun us => rfl) (.done (.identifier name l) fun us _ => rfl)
    | openParen => exact .cons (fun us => rfl) (groupTail_local hinner l ts)
    | _ => exact .fault .unexpected hstart (forall_head_cons fun us => rfl)

lemma applied_viable : Viable m .applied := by
  intro ts
  refine .congr (fun us _ => applied_read _ us) ?_
  refine .bind ((primary_viable hinner ts).imp fun before h => h.imp .primary) ?_
  rintro e us taken rfl hread
  obtain ⟨n, hderives⟩ : ∃ n, Derives .primary n taken e := derives_of_read hread
  exact applications_local hinner (.primary hderives) us

/-! ### Signs before an operand -/

lemma unaryTail_local {sign : Sign} (hmem : sign ∈ leadingSigns) (l : Location) (ts : List Token) :
    Local (fun before => Completable .unary (⟨.operator sign, l⟩ :: before))
      (fun us => unaryTail (below m) sign l (⟨.operator sign, l⟩ :: us) us) ts := by
  cases m with
  | zero => exact .limit rfl (.inl rfl)
  | succ k =>
    simp only [below, unaryTail_some, unary_levels]
    refine .bind (((hinner k rfl).2 ts).imp fun before h => h.signed hmem) fun e us _ _ _ => ?_
    dsimp only
    exact .height

lemma unary_viable : Viable m .unary := by
  have hplain (ts : List Token) : Local (Completable .unary) (applied (below m)).read ts :=
    (applied_viable hinner ts).imp fun before h => h.imp .applied
  intro ts
  cases ts with
  | nil =>
    refine .congr ?_ (hplain [])
    exact forall_head_nil rfl
  | cons t ts =>
    obtain ⟨kind, l⟩ := t
    cases kind with
    | operator sign =>
      by_cases hmem : sign ∈ leadingSigns
      · exact .cons (fun us => unary_sign hmem) (unaryTail_local hinner hmem l ts)
      · exact .congr (forall_head_cons fun us => unary_of_notMem hmem) (hplain _)
    | _ =>
      refine .congr ?_ (hplain _)
      exact forall_head_cons fun us => rfl

end Level

/-! ### Binary signs -/

lemma chain_local {m : Nat} {signs : List Sign} {tighter : List (List Sign)}
    (htighter : Viable m (.binary tighter)) {n : Nat} {taken : List Token} {left : Expr}
    (hleft : Derives (.binary (signs :: tighter)) n taken left) (ts : List Token) :
    Local (fun before => Completable (.binary (signs :: tighter)) (taken ++ before))
      (chain signs ((Category.binary tighter).reader m) left) ts := by
  induction hlength : ts.length using Nat.strongRecOn generalizing n taken left ts with
  | ind length ih =>
    by_cases hsign : ∃ sign ∈ signs, ts.head?.map Token.kind = some (.operator sign)
    · obtain ⟨sign, hmem, hkind⟩ := hsign
      obtain ⟨⟨kind, l⟩, hhead, rfl⟩ := Option.map_eq_some_iff.1 hkind
      obtain ⟨ts, rfl⟩ := List.head?_eq_some_iff.1 hhead
      refine .cons (fun us => chain_operator hmem) (.bind ((htighter ts).imp ?_) ?_)
      · exact fun before h => .chain hleft hmem h
      · rintro right us inside rfl hright
        obtain ⟨k, hderives⟩ := derives_of_read hright
        have hjoined : Derives (.binary (signs :: tighter)) (max n k)
            (taken ++ ⟨.operator sign, l⟩ :: inside) _ := .chain hleft hmem hderives
        dsimp only
        refine .ensureHeight ?_
        refine (ih _ (length_lt_of_eq hlength) hjoined us rfl).imp fun before hbefore => ?_
        rwa [List.append_assoc, List.cons_append] at hbefore
    · refine .done left fun us hus => chain_of_ne fun sign hmem hkind => ?_
      exact hsign ⟨sign, hmem, hus ▸ hkind⟩

lemma binary_viable {m : Nat} (hunary : Viable m .unary) :
    ∀ levels : List (List Sign), Viable m (.binary levels)
  | [], ts => (hunary ts).imp fun before h => h.imp .operand
  | signs :: tighter, ts => by
    have htighter : Viable m (.binary tighter) := binary_viable hunary tighter
    refine .congr (fun us _ => leftAssoc_read signs _ us) ?_
    refine .bind ((htighter ts).imp fun before h => h.imp .level) ?_
    rintro left us taken rfl hread
    obtain ⟨n, hderives⟩ : ∃ n, Derives (.binary tighter) n taken left := derives_of_read hread
    exact chain_local htighter (.level hderives) us

/-! ### Choices -/

section Choice

variable {m : Nat} (hinner : ∀ k, m = k + 1 → Viable k .choice)

include hinner

lemma choiceTail_local {n : Nat} {taken : List Token} {test : Expr}
    (htest : Derives (.binary binaryLevels) n taken test) (l : Location) (ts : List Token) :
    Local (fun before => Completable .choice (taken ++ ⟨.question, l⟩ :: before))
      (fun us => choiceTail (below m) test (⟨.question, l⟩ :: us) us) ts := by
  cases m with
  | zero => exact .limit rfl (.inl rfl)
  | succ k =>
    have hchoice := hinner k rfl
    simp only [below, choiceTail_some, expression_levels]
    refine .bind ((hchoice ts).imp fun before h => h.consequent htest) ?_
    rintro consequent us yes rfl hyes
    obtain ⟨j, hconsequent⟩ := derives_of_read hyes
    have hcolon : Completable .choice (taken ++ ⟨.question, l⟩ :: (yes ++ [])) := by
      rw [List.append_nil]
      exact .consequent htest (.of_whole hconsequent)
    refine .bind (expect_local _ _ hcolon us) ?_
    rintro colon vs mark rfl hmark
    obtain rfl : mark = [⟨.colon, colon⟩] := List.append_cancel_right (expect_eq_ok.1 hmark)
    refine .bind ((hchoice vs).imp fun before h => .alternate htest hconsequent h)
      fun alternate rest no _ _ => ?_
    dsimp only
    exact .height

lemma choice_viable (hbinary : Viable m (.binary binaryLevels)) : Viable m .choice := by
  intro ts
  refine .congr (fun us _ => expression_read _ _ us) ?_
  refine .bind ((hbinary ts).imp fun before h => h.imp .test) ?_
  rintro test us taken rfl hread
  obtain ⟨n, hderives⟩ : ∃ n, Derives (.binary binaryLevels) n taken test := derives_of_read hread
  by_cases hquestion : us.head?.map Token.kind = some .question
  · obtain ⟨⟨kind, l⟩, hhead, rfl⟩ := Option.map_eq_some_iff.1 hquestion
    obtain ⟨us, rfl⟩ := List.head?_eq_some_iff.1 hhead
    exact .cons (choice_question _ test l) (choiceTail_local hinner hderives l us)
  · exact .done test fun rest hrest => choice_of_ne (hrest ▸ hquestion)

end Choice

theorem viable (m : Nat) : Viable m .choice ∧ Viable m .unary := by
  induction m with
  | zero =>
    have hunary : Viable 0 .unary := unary_viable fun k hk => absurd hk (by omega)
    exact ⟨choice_viable (fun k hk => absurd hk (by omega)) (binary_viable hunary _), hunary⟩
  | succ m ih =>
    have hinner : ∀ k, m + 1 = k + 1 → Viable k .choice ∧ Viable k .unary := by
      rintro k ⟨⟩
      exact ih
    have hunary : Viable (m + 1) .unary := unary_viable hinner
    exact ⟨choice_viable (fun k hk => (hinner k hk).1) (binary_viable hunary _), hunary⟩

end FormulaTree.Grammar
