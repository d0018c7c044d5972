import FormulaTree.Proofs.Tree.Stored

/-!
# Trees that are read

A stored tree may have been written by someone else, in any of the forms that reading allows.
Still, what is read can be stored again: a text that spells the token of a field is read as the
field, the limit on brackets bounds the operations, and no number is infinite if numerals refuse
overflow (`Json.Numerals.RefusesOverflow`).

An operation takes two levels of brackets, unless it has no operands, when it can do with one.  So a
tree that is read has up to 64 operations on a way from the root to a leaf, one more than can be
written and read again.
-/

namespace FormulaTree

namespace Json

/-! ## Values that are read -/

/-- A value of finite numbers with at most so many levels of brackets. -/
inductive Fits : Nat → Json → Prop
  | null (n : Nat) : Fits n .null
  | boolean (n : Nat) (b : Bool) : Fits n (.boolean b)
  | number (n : Nat) {v : Number} (finite : v.isFinite = true) : Fits n (.number v)
  | text (n : Nat) (s : String) : Fits n (.text s)
  | array {n : Nat} {items : List Json} (inside : ∀ j ∈ items, Fits n j) :
      Fits (n + 1) (.array items)
  | object {n : Nat} {members : List (String × Json)} (inside : ∀ m ∈ members, Fits n m.2) :
      Fits (n + 1) (.object members)

variable {numerals : Numerals} {value : ValueReader} {P : Json → Prop} {cs rest : List Char}

lemma readUnsigned_isFinite (hnumerals : numerals.RefusesOverflow) {negative : Bool} {v : Number}
    (h : readUnsigned numerals negative cs = .ok (v, rest)) : v.isFinite = true := by
  unfold readUnsigned at h
  repeat' split at h
  case h_2 =>
    obtain ⟨v', hv, heq⟩ := map_eq_ok.1 h
    cases heq
    unfold Numerals.read at hv
    split at hv
    · rename_i hnumber
      cases hv
      exact hnumerals _ _ _ _ _ hnumber
    · cases hv
  all_goals cases h

lemma readNumber_isFinite (hnumerals : numerals.RefusesOverflow) {v : Number}
    (h : readNumber numerals cs = .ok (v, rest)) : v.isFinite = true := by
  unfold readNumber at h
  split at h
  · exact readUnsigned_isFinite hnumerals h
  · exact readUnsigned_isFinite hnumerals h

/-! What holds of all that a reader gives holds of the items and members read by it. -/

lemma forall_moreItems (hvalue : ∀ {cs j rest}, value.read cs = .ok (j, rest) → P j)
    {items : List Json} (h : moreItems value cs = .ok (items, rest)) : ∀ j ∈ items, P j := by
  fun_induction moreItems value cs generalizing items with
  | case1 | case3 | case5 => cases h
  | case2 =>
    cases h
    exact List.forall_mem_nil _
  | case4 =>
    rename_i item rest' hitem _ _ ih
    obtain ⟨r, hr, heq⟩ := map_eq_ok.1 h
    cases heq
    exact List.forall_mem_cons.2 ⟨hvalue hitem, ih hr⟩

lemma forall_readItems (hvalue : ∀ {cs j rest}, value.read cs = .ok (j, rest) → P j)
    {items : List Json} (h : readItems value cs = .ok (items, rest)) : ∀ j ∈ items, P j := by
  unfold readItems at h
  split at h
  · cases h
    exact List.forall_mem_nil _
  · split at h
    · cases h
    · rename_i item rest' hitem
      obtain ⟨r, hr, heq⟩ := map_eq_ok.1 h
      cases heq
      exact List.forall_mem_cons.2 ⟨hvalue hitem, forall_moreItems hvalue hr⟩

lemma readMember_value (hvalue : ∀ {cs j rest}, value.read cs = .ok (j, rest) → P j)
    {m : String × Json} (h : readMember value cs = .ok (m, rest)) : P m.2 := by
  unfold readMember at h
  repeat' split at h
  case h_2 =>
    unfold readMemberValue at h
    split at h
    · cases h
    · obtain ⟨r, hr, heq⟩ := map_eq_ok.1 h
      cases heq
      exact hvalue hr
    · cases h
  all_goals cases h

lemma forall_moreMembers (hvalue : ∀ {cs j rest}, value.read cs = .ok (j, rest) → P j)
    {members : List (String × Json)} (h : moreMembers value cs = .ok (members, rest)) :
    ∀ m ∈ members, P m.2 := by
  fun_induction moreMembers value cs generalizing members with
  | case1 | case3 | case5 => cases h
  | case2 =>
    cases h
    exact List.forall_mem_nil _
  | case4 =>
    rename_i member rest' hmember _ _ ih
    obtain ⟨r, hr, heq⟩ := map_eq_ok.1 h
    cases heq
    exact List.forall_mem_cons.2 ⟨readMember_value hvalue hmember, ih hr⟩

lemma forall_readMembers (hvalue : ∀ {cs j rest}, value.read cs = .ok (j, rest) → P j)
    {members : List (String × Json)} (h : readMembers value cs = .ok (members, rest)) :
    ∀ m ∈ members, P m.2 := by
  unfold readMembers at h
  split at h
  · cases h
    exact List.forall_mem_nil _
  · split at h
    · cases h
    · rename_i member rest' hmember
      obtain ⟨r, hr, heq⟩ := map_eq_ok.1 h
      cases heq
      exact List.forall_mem_cons.2 ⟨readMember_value hvalue hmember, forall_moreMembers hvalue hr⟩

/-- A value that begins here fits, if what the reader inside gives fits one level less. -/
lemma readFrom_fits (hnumerals : numerals.RefusesOverflow) {inner? : Option ValueReader}
    {n : Nat} {c : Char} {j : Json}
    (hinner : ∀ inner, inner? = some inner → ∃ m, n = m + 1 ∧
      ∀ {cs j rest}, inner.read cs = .ok (j, rest) → Fits m j)
    (h : readFrom numerals inner? c cs = .ok (j, rest)) : Fits n j := by
  unfold readFrom at h
  repeat' split at h
  case isTrue =>
    obtain ⟨r, hr, heq⟩ := map_eq_ok.1 h
    cases heq
    exact .number n (readNumber_isFinite hnumerals hr)
  all_goals first
    | cases h
    | obtain ⟨r, hr, heq⟩ := map_eq_ok.1 h
      cases heq
  · exact .null n
  · exact .boolean n true
  · exact .boolean n false
  · exact .text n _
  · obtain ⟨m, rfl, hm⟩ := hinner _ rfl
    exact .array (forall_readItems hm hr)
  · obtain ⟨m, rfl, hm⟩ := hinner _ rfl
    exact .object (forall_readMembers hm hr)

lemma value_fits (hnumerals : numerals.RefusesOverflow) {inner? : Option ValueReader} {n : Nat}
    {j : Json}
    (hinner : ∀ inner, inner? = some inner → ∃ m, n = m + 1 ∧
      ∀ {cs j rest}, inner.read cs = .ok (j, rest) → Fits m j)
    (h : (Json.value numerals inner?).read cs = .ok (j, rest)) : Fits n j := by
  rw [Json.value] at h
  dsimp only at h
  split at h
  · cases h
  · exact readFrom_fits hnumerals hinner h

/-- A reader for `n` levels gives values that fit. -/
lemma reader_fits (hnumerals : numerals.RefusesOverflow) (n : Nat) :
    ∀ {cs j rest}, (reader numerals n).read cs = .ok (j, rest) → Fits n j := by
  induction n with
  | zero =>
    intro cs j rest h
    refine value_fits hnumerals ?_ h
    rintro inner ⟨⟩
  | succ n ih =>
    intro cs j rest h
    refine value_fits hnumerals ?_ h
    rintro inner ⟨⟩
    exact ⟨n, rfl, ih⟩

end Json

namespace Tree

/-! ## Trees of values -/

lemma mem_of_ofJsons? {js : List Json} {ts : List Tree} (h : ofJsons? js = some ts) :
    ∀ t ∈ ts, ∃ j ∈ js, ofJson? j = some t := by
  induction js generalizing ts with
  | nil =>
    cases h
    exact List.forall_mem_nil _
  | cons j js ih =>
    rw [ofJsons?, Option.bind_eq_bind, Option.bind_eq_some_iff] at h
    obtain ⟨t, ht, h⟩ := h
    rw [Option.bind_eq_bind, Option.bind_eq_some_iff] at h
    obtain ⟨us, hus, h⟩ := h
    cases h
    refine List.forall_mem_cons.2 ⟨⟨j, List.mem_cons_self .., ht⟩, fun u hu => ?_⟩
    obtain ⟨j', hj', heq⟩ := ih hus u hu
    exact ⟨j', List.mem_cons_of_mem _ hj', heq⟩

/-- A member that gives operands is an array of their values. -/
lemma mem_of_operandMembers? {members : List (String × Json)} {lists : List (List Tree)}
    (h : operandMembers? members = some lists) : ∀ ts ∈ lists, ∃ name items,
      (name, Json.array items) ∈ members ∧ ofJsons? items = some ts := by
  induction members generalizing lists with
  | nil =>
    cases h
    exact List.forall_mem_nil _
  | cons m members ih =>
    obtain ⟨name, value⟩ := m
    have hlater {ts : List Tree} (h : ∃ name' items, (name', Json.array items) ∈ members ∧
        ofJsons? items = some ts) : ∃ name' items,
          (name', Json.array items) ∈ (name, value) :: members ∧ ofJsons? items = some ts := by
      obtain ⟨name', items, hmem, hitems⟩ := h
      exact ⟨name', items, List.mem_cons_of_mem _ hmem, hitems⟩
    by_cases hname : name = "operands"
    · cases value with
      | array items =>
        rw [operandMembers?, if_pos hname, Option.bind_eq_bind, Option.bind_eq_some_iff] at h
        obtain ⟨operands, hitems, h⟩ := h
        rw [Option.bind_eq_bind, Option.bind_eq_some_iff] at h
        obtain ⟨others, hmembers, h⟩ := h
        cases h
        refine List.forall_mem_cons.2 ⟨⟨name, items, List.mem_cons_self .., hitems⟩, ?_⟩
        exact fun ts hts => hlater (ih hmembers ts hts)
      | _ =>
        simp only [operandMembers?, if_pos hname] at h
        cases h
    · have hmembers : operandMembers? members = some lists := by
        cases value <;> simpa only [operandMembers?, if_neg hname] using h
      exact fun ts hts => hlater (ih hmembers ts hts)

/-- The trees are read from values that fit one level less than `n`. -/
def ReadBelow (n : Nat) (ts : List Tree) : Prop :=
  ∃ m, n = m + 1 ∧ ∀ t ∈ ts, ∃ j, Json.Fits m j ∧ ofJson? j = some t

lemma readBelow_of_array {n : Nat} {items : List Json} {ts : List Tree}
    (hfits : (Json.array items).Fits n) (h : ofJsons? items = some ts) : ReadBelow n ts := by
  cases hfits with
  | @array m _ hinside =>
    refine ⟨m, rfl, fun t ht => ?_⟩
    obtain ⟨j, hj, heq⟩ := mem_of_ofJsons? h t ht
    exact ⟨j, hinside j hj, heq⟩

/-- A tree that is read is a leaf, or an operation.  An operation is an array or object, and its
operands are in an array inside that one, unless there are none. -/
lemma ofJson?_cases {n : Nat} {j : Json} {t : Tree} (hfits : j.Fits n) (h : ofJson? j = some t) :
    (∃ b, t = .boolean b) ∨ (∃ v : Number, v.isFinite = true ∧ t = .number v) ∨
      (∃ s, t = ofToken s) ∨
      ∃ op ts m, t = .operation op ts ∧ n = m + 1 ∧ (ts = [] ∨ ReadBelow m ts) := by
  cases hfits with
  | null => cases h
  | boolean n b => exact .inl ⟨b, (Option.some.inj h).symm⟩
  | number n hfinite => exact .inr (.inl ⟨_, hfinite, (Option.some.inj h).symm⟩)
  | text n s => exact .inr (.inr (.inl ⟨s, (Option.some.inj h).symm⟩))
  | @array m items hinside =>
    refine .inr (.inr (.inr ?_))
    obtain _ | ⟨operator, _ | ⟨second, _ | ⟨third, others⟩⟩⟩ := items
    · cases h
    · rw [ofJson?, Option.map_eq_some_iff] at h
      obtain ⟨op, -, rfl⟩ := h
      exact ⟨op, [], m, rfl, rfl, .inl rfl⟩
    · cases second with
      | array items =>
        rw [ofJson?, Option.bind_eq_bind, Option.bind_eq_some_iff] at h
        obtain ⟨op, -, h⟩ := h
        rw [Option.bind_eq_bind, Option.bind_eq_some_iff] at h
        obtain ⟨ts, hitems, h⟩ := h
        have hsecond := hinside _ (List.mem_cons_of_mem _ (List.mem_cons_self ..))
        exact ⟨op, ts, m, (Option.some.inj h).symm, rfl, .inr (readBelow_of_array hsecond hitems)⟩
      | _ => cases h
    · cases second <;> cases h
  | @object m members hinside =>
    refine .inr (.inr (.inr ?_))
    rw [ofJson?] at h
    split at h
    · rw [Option.map_eq_some_iff] at h
      obtain ⟨op, -, rfl⟩ := h
      exact ⟨op, [], m, rfl, rfl, .inl rfl⟩
    · rename_i operands _ hoperands
      rw [Option.map_eq_some_iff] at h
      obtain ⟨op, -, rfl⟩ := h
      obtain ⟨name, items, hmem, hitems⟩ :=
        mem_of_operandMembers? hoperands _ (List.mem_singleton.2 rfl)
      exact ⟨op, _, m, rfl, rfl, .inr (readBelow_of_array (hinside _ hmem) hitems)⟩
    · cases h

/-! ## What holds of every tree that is read -/

lemma operationDepths_le_iff {ts : List Tree} {bound : Nat} :
    operationDepths ts ≤ bound ↔ ∀ t ∈ ts, t.operationDepth ≤ bound := by
  induction ts with
  | nil => simp [operationDepths]
  | cons t ts ih => rw [operationDepths, Nat.max_le, ih, List.forall_mem_cons]

lemma mem_textsOf {s : String} {ts : List Tree} : s ∈ textsOf ts ↔ ∃ t ∈ ts, s ∈ t.texts := by
  induction ts with
  | nil => simp [textsOf]
  | cons t ts ih => simp [textsOf, ih]

/-- The numbers are finite and no text spells the token of a field. -/
def IsRestorable (t : Tree) : Prop :=
  t.isFinite = true ∧ ∀ s ∈ t.texts, ∀ f : Field, s ≠ f.token

lemma isRestorable_ofToken (s : String) : (ofToken s).IsRestorable := by
  rw [ofToken]
  cases htoken : Field.ofToken? s with
  | some f => exact ⟨rfl, List.forall_mem_nil _⟩
  | none => exact ⟨rfl, List.forall_mem_singleton.2 (Field.ofToken?_eq_none_iff.1 htoken)⟩

lemma IsRestorable.operation {ts : List Tree} (h : ∀ t ∈ ts, t.IsRestorable) (op : Operator) :
    (operation op ts).IsRestorable := by
  refine ⟨areFinite_iff.2 fun t ht => (h t ht).1, fun s hs => ?_⟩
  obtain ⟨t, ht, hst⟩ := mem_textsOf.1 hs
  exact (h t ht).2 s hst

/-- A tree has at most half as many operations on a way down as there are levels of brackets,
rounded up. -/
lemma isRestorable_of_fits {n : Nat} {j : Json} {t : Tree} (hfits : j.Fits n)
    (h : ofJson? j = some t) : t.IsRestorable ∧ 2 * t.operationDepth ≤ n + 1 := by
  induction n using Nat.strong_induction_on generalizing j t with
  | h n ih =>
    rcases ofJson?_cases hfits h with
      ⟨b, rfl⟩ | ⟨v, hfinite, rfl⟩ | ⟨s, rfl⟩ | ⟨op, ts, m, rfl, rfl, hnone | ⟨k, rfl, hparts⟩⟩
    · exact ⟨⟨rfl, List.forall_mem_nil _⟩, Nat.zero_le _⟩
    · exact ⟨⟨hfinite, List.forall_mem_nil _⟩, Nat.zero_le _⟩
    · refine ⟨isRestorable_ofToken s, ?_⟩
      rw [ofToken]
      split <;> exact Nat.zero_le _
    · subst hnone
      refine ⟨.operation (List.forall_mem_nil _) op, ?_⟩
      rw [operationDepth, operationDepths]
      omega
    · have hall (t : Tree) (ht : t ∈ ts) : t.IsRestorable ∧ 2 * t.operationDepth ≤ k + 1 := by
        obtain ⟨j, hj, heq⟩ := hparts t ht
        exact ih k (by omega) hj heq
      refine ⟨.operation (fun t ht => (hall t ht).1) op, ?_⟩
      have hdepths : operationDepths ts ≤ (k + 1) / 2 := operationDepths_le_iff.2 fun t ht => by
        have hdepth := (hall t ht).2
        omega
      rw [operationDepth]
      omega

lemma isRestorable_of_ofTextBy {numerals : Json.Numerals} (hnumerals : numerals.RefusesOverflow)
    {s : String} {t : Tree} (h : ofTextBy numerals s = .ok t) :
    t.IsRestorable ∧ t.operationDepth ≤ 64 := by
  unfold ofTextBy at h
  split at h
  · cases h
  · rename_i j rest hread
    split at h
    · cases h
    · rename_i u hu
      split at h
      · cases h
        obtain ⟨hrestorable, hdepth⟩ :=
          isRestorable_of_fits (Json.reader_fits hnumerals Json.depthLimit hread) hu
        rw [Json.depthLimit] at hdepth
        exact ⟨hrestorable, by omega⟩
      · cases h

/-- All that keeps such a tree from coming back is its depth. -/
lemma IsRestorable.restores_iff {t : Tree} (h : t.IsRestorable) {numerals : Json.Numerals}
    (hnumerals : numerals.RestoresWritten) {layout : Json.Layout} (hlegible : layout.IsLegible) :
    (∃ u, ofTextBy numerals (t.textIn layout) = .ok u ∧ u.beq t = true) ↔
      t.operationDepth ≤ 63 := by
  obtain ⟨hfinite, htexts⟩ := h
  rw [Tree.restores_iff hnumerals hlegible]
  exact ⟨fun h => h.2.2, fun hdepth => ⟨hfinite, htexts, hdepth⟩⟩

/-- **What is read can be stored.**  If numerals refuse overflow, then whatever form it was written
in, a tree that is read has finite numbers, no text that spells the token of a field and at most 64
operations on a way from the root to a leaf.  If they also restore what is written, the tree is read
again from its own text, compact or pretty, just when there are at most 63. -/
theorem restored_of_ofTextBy (numerals : Json.Numerals) (hnumerals : numerals.RefusesOverflow)
    (s : String) (t : Tree) (h : ofTextBy numerals s = .ok t) :
    t.isFinite = true ∧ (∀ x ∈ t.texts, ∀ f : Field, x ≠ f.token) ∧ t.operationDepth ≤ 64 ∧
      (numerals.RestoresWritten →
        ((∃ u, ofTextBy numerals (t.textIn Json.compact) = .ok u ∧ u.beq t = true) ↔
          t.operationDepth ≤ 63) ∧
        ((∃ u, ofTextBy numerals (t.textIn Json.pretty) = .ok u ∧ u.beq t = true) ↔
          t.operationDepth ≤ 63)) := by
  obtain ⟨hrestorable, hdepth⟩ := isRestorable_of_ofTextBy hnumerals h
  refine ⟨hrestorable.1, hrestorable.2, hdepth, fun hrestores => ⟨?_, ?_⟩⟩
  · exact hrestorable.restores_iff hrestores Json.isLegible_compact
  · exact hrestorable.restores_iff hrestores Json.isLegible_pretty

/-- A text in which no operation is written as it would be, and a member is skipped. -/
def liberalText : String :=
  "[\x7b\"&&\": null\x7d, [\x7b\"operands\": [\"@me\", \"a\"], \"note\": [1e3, \x7b\x7d], " ++
    "\"operation\": \"+\"\x7d, \x7b\"operator\": \"cos\"\x7d, true]] "

/-- The tree of that text. -/
def liberalTree : Tree :=
  .operation .and [.operation .add [.field .me, .text "a"], .operation .cosine [], .boolean true]

/-- Sums of one operand, `n` of them around an empty one, each an array. -/
def nestedArrays : Nat → Json
  | 0 => .array [.text "+"]
  | n + 1 => .array [.text "+", .array [nestedArrays n]]

/-- The tree of those arrays. -/
def nestedSums : Nat → Tree
  | 0 => .operation .add []
  | n + 1 => .operation .add [nestedSums n]

lemma depth_nestedArrays (n : Nat) : (nestedArrays n).depth = 2 * n + 1 := by
  induction n with
  | zero => rfl
  | succ n ih =>
    simp only [nestedArrays, Json.depth, Json.depths, ih]
    omega

lemma restored_nestedArrays (n : Nat) : (nestedArrays n).restored = nestedArrays n := by
  induction n with
  | zero => rfl
  | succ n ih => simp only [nestedArrays, Json.restored, Json.restoreds, ih]

lemma ofJson?_nestedArrays (n : Nat) : ofJson? (nestedArrays n) = some (nestedSums n) := by
  induction n with
  | zero => rfl
  | succ n ih =>
    rw [nestedArrays, ofJson?, ofJsons?, ih]
    rfl

lemma operationDepth_nestedSums (n : Nat) : (nestedSums n).operationDepth = n + 1 := by
  induction n with
  | zero => rfl
  | succ n ih =>
    simp only [nestedSums, operationDepth, operationDepths, ih]
    omega

lemma ofTextBy_nestedArrays {numerals : Json.Numerals} (hnumerals : numerals.RestoresWritten)
    {n : Nat} (h : n ≤ 63) :
    ofTextBy numerals ((nestedArrays n).textIn Json.compact) = .ok (nestedSums n) := by
  have hlimit : (nestedArrays n).depth ≤ Json.depthLimit := by
    rw [depth_nestedArrays, Json.depthLimit]
    omega
  rw [ofTextBy, Json.readValueBy_textIn Json.isLegible_compact hnumerals, Json.within,
    if_pos hlimit, restored_nestedArrays]
  dsimp only
  rw [ofJson?_nestedArrays]
  rfl

/-- With numerals read as the nearest numbers, a text in other forms comes to its tree, whose own
text comes to it again.  As arrays, 64 operations can be read, but then they are too many to be
written and read again. -/
theorem restored_of_ofTextBy_liberal :
    Json.Numerals.nearest.RefusesOverflow ∧ Json.Numerals.nearest.RestoresWritten ∧
    (∃ t, ofTextBy .nearest liberalText = .ok t ∧ t.beq liberalTree = true ∧
      ∃ u, ofTextBy .nearest (t.textIn Json.compact) = .ok u ∧ u.beq t = true) ∧
    ofTextBy .nearest ((nestedArrays 63).textIn Json.compact) = .ok (nestedSums 63) ∧
      (nestedSums 63).operationDepth = 64 ∧
      ¬∃ u, ofTextBy .nearest ((nestedSums 63).textIn Json.compact) = .ok u ∧
        u.beq (nestedSums 63) = true := by
  have hoverflow := Json.Numerals.nearest_refusesOverflow
  have hrestores := Json.Numerals.nearest_restoresWritten
  refine ⟨hoverflow, hrestores, ?_, ?_⟩
  · have hread : ((ofTextBy .nearest liberalText).toOption.any fun t =>
        t.beq liberalTree && decide (t.operationDepth ≤ 63)) = true := by decide +kernel
    cases h : ofTextBy .nearest liberalText with
    | error e =>
      rw [h] at hread
      cases hread
    | ok t =>
      rw [h] at hread
      obtain ⟨hequal, hdepth⟩ := (Bool.and_eq_true _ _).mp hread
      obtain ⟨-, -, -, hagain⟩ := restored_of_ofTextBy .nearest hoverflow liberalText t h
      exact ⟨t, rfl, hequal, (hagain hrestores).1.2 (of_decide_eq_true hdepth)⟩
  · have h := ofTextBy_nestedArrays hrestores (le_refl 63)
    have hdepth := operationDepth_nestedSums 63
    obtain ⟨-, -, -, hagain⟩ := restored_of_ofTextBy .nearest hoverflow _ _ h
    refine ⟨h, hdepth, fun hread => ?_⟩
    have hle := (hagain hrestores).1.1 hread
    omega

end Tree

end FormulaTree
