import FormulaTree.Proofs.Json.Restored
import FormulaTree.Tree.Json

/-!
# Stored trees

A tree is stored as JSON text and read again.  Three things can be lost on the way: a number that is
not finite is written as null, which is no tree; a text that spells the token of a field comes back
as the field; and each operation takes two levels of brackets, of which the reader allows 127.

A fourth is taken for granted not to happen: that a finite number is read as another one.  So
everything here is over a way to read numerals of which `Json.Numerals.RestoresWritten` is known.
Under this premise `ofTextBy_stored` says what is read in every case, and the tree that is read is
the tree that was stored just when none of the three happens (`restores_iff`).
-/

namespace FormulaTree.Tree

/-! ## Leaves and depth -/

mutual

/-- The texts at the leaves, from left to right. -/
def texts : Tree → List String
  | .text s => [s]
  | .operation _ operands => textsOf operands
  | _ => []

/-- The texts at the leaves of a list of trees. -/
def textsOf : List Tree → List String
  | [] => []
  | t :: ts => texts t ++ textsOf ts

end

mutual

/-- The largest number of operations on a way from the root to a leaf. -/
def operationDepth : Tree → Nat
  | .operation _ operands => 1 + operationDepths operands
  | _ => 0

/-- The largest such number in a list of trees. -/
def operationDepths : List Tree → Nat
  | [] => 0
  | t :: ts => max (operationDepth t) (operationDepths ts)

end

mutual

/-- Each operation is an object with an array in it. -/
lemma depth_toJson : ∀ t : Tree, t.toJson.depth = 2 * t.operationDepth
  | .text _ | .number _ | .boolean _ | .field _ => rfl
  | .operation op operands => by
    have hoperands := depths_toJsons operands
    simp only [toJson, operationDepth, Json.depth, Json.memberDepths]
    omega

lemma depths_toJsons : ∀ ts : List Tree, Json.depths (toJsons ts) = 2 * operationDepths ts
  | [] => rfl
  | t :: ts => by
    have hfirst := depth_toJson t
    have hothers := depths_toJsons ts
    simp only [toJsons, operationDepths, Json.depths]
    omega

end

/-! ## The tree that is read -/

mutual

/-- The tree that is read where a tree of finite numbers was stored. -/
def reread : Tree → Tree
  | .text s => ofToken s
  | .number n => .number n.normal
  | .operation op operands => .operation op (rereads operands)
  | t => t

/-- The trees that are read where some were stored. -/
def rereads : List Tree → List Tree
  | [] => []
  | t :: ts => reread t :: rereads ts

end

lemma ofJson?_operation (op : Operator) (items : List Json) :
    ofJson? (.object [("operator", .text op.symbol), ("operands", .array items)]) =
      (ofJsons? items).map (.operation op) := by
  have hoperator : Operator.ofJson? (.text op.symbol) = some op := Operator.ofSymbol?_symbol op
  cases hitems : ofJsons? items with
  | none => simp [ofJson?, operatorMembers, operandMembers?, hitems]
  | some operands => simp [ofJson?, operatorMembers, operandMembers?, hitems, hoperator]

mutual

/-- A number that is not finite leaves no tree, however deep it stands. -/
lemma ofJson?_restored : ∀ t : Tree,
    ofJson? t.toJson.restored = if t.isFinite then some t.reread else none
  | .text _ | .boolean _ => rfl
  | .field f => by
    show some (ofToken f.token) = some (.field f)
    rw [ofToken, Field.ofToken?_token]
  | .number n => by
    by_cases hfinite : n.isFinite = true <;>
      simp [toJson, Json.restored, isFinite, hfinite, ofJson?, reread]
  | .operation op operands => by
    show ofJson? (.object [("operator", .text op.symbol),
      ("operands", .array (Json.restoreds (toJsons operands)))]) = _
    rw [ofJson?_operation, ofJsons?_restoreds operands, apply_ite (Option.map _)]
    rfl

lemma ofJsons?_restoreds : ∀ ts : List Tree,
    ofJsons? (Json.restoreds (toJsons ts)) = if areFinite ts then some (rereads ts) else none
  | [] => rfl
  | t :: ts => by
    have hfirst := ofJson?_restored t
    have hothers := ofJsons?_restoreds ts
    rw [toJsons, Json.restoreds, ofJsons?, hfirst, hothers]
    by_cases ht : t.isFinite = true <;> by_cases hts : areFinite ts = true <;>
      simp [areFinite, ht, hts, rereads]

end

section Stored

variable {numerals : Json.Numerals} (hnumerals : numerals.RestoresWritten) {layout : Json.Layout}
  (hlegible : layout.IsLegible) (t : Tree)

include hnumerals hlegible

/-- What is read where a tree was stored, with blanks at the end. -/
theorem ofTextBy_stored {blanks : List Char} (hblanks : ∀ c ∈ blanks, Json.isSpace c = true) :
    ofTextBy numerals (String.ofList (t.toJson.write layout 0 ++ blanks)) =
      if t.operationDepth ≤ 63 then if t.isFinite then .ok t.reread else .error .notATree
      else .error (.notJson .malformed) := by
  have hstops : Numeral.Stops blanks := Json.stops_of_head fun c hc =>
    .inl (hblanks c (List.mem_of_mem_head? hc))
  have hrest := Json.skipSpace_append hblanks []
  have hlimit : 2 * t.operationDepth ≤ Json.depthLimit ↔ t.operationDepth ≤ 63 := by
    rw [Json.depthLimit]
    omega
  rw [ofTextBy, String.toList_ofList, Json.readValueBy,
    Json.reader_write hlegible hnumerals _ _ _ hstops, depth_toJson, Json.within]
  by_cases hdepth : t.operationDepth ≤ 63
  · rw [if_pos (hlimit.2 hdepth), if_pos hdepth]
    dsimp only
    rw [ofJson?_restored]
    by_cases hfinite : t.isFinite = true
    · rw [if_pos hfinite, if_pos hfinite]
      dsimp only
      rw [← List.append_nil blanks, hrest]
      rfl
    · rw [if_neg hfinite, if_neg hfinite]
  · rw [if_neg (mt hlimit.1 hdepth), if_neg hdepth]

omit hnumerals hlegible in
lemma textIn_eq (layout : Json.Layout) (t : Tree) :
    t.textIn layout = String.ofList (t.toJson.write layout 0 ++ []) := by
  rw [List.append_nil]
  rfl

lemma ofTextBy_textIn : ofTextBy numerals (t.textIn layout) =
    if t.operationDepth ≤ 63 then if t.isFinite then .ok t.reread else .error .notATree
    else .error (.notJson .malformed) := by
  rw [textIn_eq]
  exact ofTextBy_stored hnumerals hlegible t (by simp)

end Stored

/-! ## The tree that was stored -/

lemma beq_ofToken_iff (s : String) :
    (ofToken s).beq (.text s) = true ↔ ∀ f : Field, s ≠ f.token := by
  rw [← Field.ofToken?_eq_none_iff, ofToken]
  cases Field.ofToken? s with
  | none => simp [beq]
  | some f => simp [beq]

mutual

/-- The tree that is read is the one that was stored, unless a text was taken for a field. -/
lemma beq_reread_iff : ∀ {t : Tree}, t.isFinite = true →
    (t.reread.beq t = true ↔ ∀ s ∈ t.texts, ∀ f : Field, s ≠ f.token)
  | .text s, _ => by simp [reread, texts, beq_ofToken_iff]
  | .number n, hfinite => by
    have hsame : n.normal.beq n = true :=
      Number.beq_of_normal_eq (n.isFinite_normal.trans hfinite) n.normal_normal
    simp [reread, texts, beq, hsame]
  | .boolean b, _ => by simp [reread, texts, beq]
  | .field f, _ => by simp [reread, texts, beq]
  | .operation op operands, hfinite => by
    rw [reread, beq, beq_self_eq_true, Bool.true_and, texts]
    exact beqs_rereads_iff hfinite

lemma beqs_rereads_iff : ∀ {ts : List Tree}, areFinite ts = true →
    (beqs (rereads ts) ts = true ↔ ∀ s ∈ textsOf ts, ∀ f : Field, s ≠ f.token)
  | [], _ => by simp [rereads, textsOf, beqs]
  | t :: ts, hfinite => by
    rw [areFinite, Bool.and_eq_true] at hfinite
    rw [rereads, beqs, Bool.and_eq_true, beq_reread_iff hfinite.1, beqs_rereads_iff hfinite.2,
      textsOf]
    simp only [List.mem_append, or_imp, forall_and]

end

theorem restores_iff {numerals : Json.Numerals} (hnumerals : numerals.RestoresWritten)
    {layout : Json.Layout} (hlegible : layout.IsLegible) (t : Tree) :
    (∃ u, ofTextBy numerals (t.textIn layout) = .ok u ∧ u.beq t = true) ↔
      t.isFinite = true ∧ (∀ s ∈ t.texts, ∀ f : Field, s ≠ f.token) ∧ t.operationDepth ≤ 63 := by
  rw [ofTextBy_textIn hnumerals hlegible]
  constructor
  · rintro ⟨u, hread, hequal⟩
    split_ifs at hread with hdepth hfinite
    cases hread
    exact ⟨hfinite, (beq_reread_iff hfinite).1 hequal, hdepth⟩
  · rintro ⟨hfinite, htexts, hdepth⟩
    refine ⟨t.reread, ?_, (beq_reread_iff hfinite).2 htexts⟩
    rw [if_pos hdepth, if_pos hfinite]

end FormulaTree.Tree
