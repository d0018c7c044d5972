import FormulaTree.Proofs.Command.Check
import FormulaTree.Proofs.Lowering.Built
import FormulaTree.Proofs.RoundTrip
import FormulaTree.Proofs.Token.LineEnds
import Mathlib.Data.List.Forall2

/-!
# Formulas without the line ends after them

A command drops the line ends at the end of a text and reads what is left.  That makes no difference
to the answer: the tree is the same, and so is every diagnostic but for the place where a text or a
comment without an end stops being blamed (`Diagnostic.Alike`).  No command looks at that place when
it decides about success, and no message names it, so that commands answer as if they had read the
whole text.
-/

namespace FormulaTree

open Text (LineEnds)

/-! ## Diagnostics that are alike -/

/-- The two diagnostics say the same and start at the same place.  Only where a text or a comment is
not terminated may they stop at different places. -/
structure Diagnostic.Alike (d e : Diagnostic) : Prop where
  kind : d.kind = e.kind
  message : d.message = e.message
  start : d.location?.map Location.start = e.location?.map Location.start
  stop : d.location?.map Location.stop = e.location?.map Location.stop ∨
    (d.kind = .malformed ∧
      (d.message = "Unterminated string literal" ∨ d.message = "Unterminated comment"))

namespace Diagnostic.Alike

variable {d e : Diagnostic}

lemma refl (d : Diagnostic) : d.Alike d := ⟨rfl, rfl, rfl, .inl rfl⟩

lemma malformed {e f : ScanError} (h : e.Alike f) :
    (Diagnostic.malformed e.cause.message e.location).Alike
      (.malformed f.cause.message f.location) where
  kind := rfl
  message := congrArg ScanError.Cause.message h.cause
  start := congrArg some h.start
  stop := by
    rcases h.stop with hstop | hcause | hcause
    · exact .inl (congrArg some hstop)
    · exact .inr ⟨rfl, .inl (congrArg ScanError.Cause.message hcause)⟩
    · exact .inr ⟨rfl, .inr (congrArg ScanError.Cause.message hcause)⟩

/-- A message names the place where a diagnostic starts, and no other. -/
lemma text_eq (h : d.Alike e) : d.text = e.text := by
  obtain ⟨kind, message, l?⟩ := d
  obtain ⟨kind', message', m?⟩ := e
  obtain ⟨-, rfl, hstart, -⟩ := h
  cases l? with
  | none =>
    cases m? with
    | none => rfl
    | some m => cases hstart
  | some l =>
    cases m? with
    | none => cases hstart
    | some m =>
      have hplace : l.start = m.start := Option.some.inj hstart
      simp only [Diagnostic.text, hplace]

end Diagnostic.Alike

/-! ## Trees -/

namespace Lowering

/-- The same tree, if there is one, and diagnostics that are alike. -/
structure Alike (l m : Lowering) : Prop where
  tree?_eq : l.tree? = m.tree?
  diagnostics : List.Forall₂ Diagnostic.Alike l.diagnostics m.diagnostics

variable {l m : Lowering}

lemma Alike.refl (l : Lowering) : l.Alike l :=
  ⟨rfl, List.forall₂_same.2 fun d _ => .refl d⟩

/-- Without diagnostics there is no difference at all. -/
lemma Alike.eq_of_isOk (h : l.Alike m) (hok : m.isOk = true) : l = m := by
  obtain ⟨t, htree, hclean⟩ := isOk_iff.1 hok
  obtain ⟨tree?, diagnostics⟩ := l
  obtain ⟨tree?', diagnostics'⟩ := m
  obtain ⟨rfl, hdiagnostics⟩ := h
  obtain rfl : diagnostics' = [] := hclean
  cases hdiagnostics
  rfl

lemma Alike.isOk_eq (h : l.Alike m) : l.isOk = m.isOk := by
  obtain ⟨tree?, diagnostics⟩ := l
  obtain ⟨tree?', diagnostics'⟩ := m
  obtain ⟨rfl, hdiagnostics⟩ := h
  cases hdiagnostics <;> rfl

/-- What is wrong with a tree is told by its diagnostics. -/
lemma result_of_not_isOk (h : ¬l.isOk = true) : l.result = .error l.diagnostics := by
  cases hresult : l.result with
  | ok t => exact absurd (isOk_iff.2 ⟨t, result_eq_ok_iff.1 hresult⟩) h
  | error ds =>
    rw [← hresult]
    unfold result at hresult ⊢
    split at hresult <;> simp_all

/-- Line ends after a formula leave its tree as it is. -/
lemma ofTextWithin_append_ends {ends : List Char} (h : LineEnds ends) (limit : Nat)
    (cs : List Char) :
    (ofTextWithin limit (String.ofList cs)).Alike
      (ofTextWithin limit (String.ofList (cs ++ ends))) := by
  have htokens := Token.ofText_append_ends h cs
  rw [ofTextWithin, ofTextWithin]
  cases hread : Token.ofText (String.ofList cs) with
  | error e =>
    rw [hread] at htokens
    obtain ⟨f, hread', halike⟩ := htokens.exists_error
    rw [hread']
    exact ⟨rfl, .cons (.malformed halike) .nil⟩
  | ok tokens =>
    rw [hread] at htokens
    obtain ⟨_, hread', rfl⟩ := htokens.exists_ok
    rw [hread']
    exact .refl _

end Lowering

/-! ## Commands -/

namespace Command

open FormulaTree.Lowering (Alike isOk_iff result_eq_ok_iff)

/-- Dropping the line ends leaves the tree as it is. -/
lemma ofText_formulaOf (text : String) :
    (Lowering.ofText (formulaOf text)).Alike (Lowering.ofText text) := by
  obtain ⟨ends, htext, hends⟩ := (holds_formulaOf text).ends
  have hlines : LineEnds ends := fun c hc => isLineEnd_iff.2 (hends c hc)
  have halike := Lowering.ofTextWithin_append_ends hlines heightLimit (formulaOf text).toList
  rw [← htext, String.ofList_toList, String.ofList_toList] at halike
  exact halike

variable {l m : Lowering}

lemma summary_eq {ds es : List Diagnostic} (h : List.Forall₂ Diagnostic.Alike ds es) :
    Failure.summary ds = Failure.summary es := by
  cases h with
  | nil => rfl
  | cons hfirst hothers =>
    cases hothers with
    | nil => exact hfirst.text_eq
    | cons hsecond hmore =>
      simp only [Failure.summary, hfirst.text_eq, List.length_cons, hmore.length_eq]

/-- Lowerings that are alike fail with the same message, or do not fail. -/
lemma failureOf?_text (h : l.Alike m) :
    (failureOf? l).map Failure.text = (failureOf? m).map Failure.text := by
  by_cases hok : m.isOk = true
  · rw [h.eq_of_isOk hok]
  · have hok' : ¬l.isOk = true := by rwa [h.isOk_eq]
    rw [failureOf?, failureOf?, Lowering.result_of_not_isOk hok, Lowering.result_of_not_isOk hok']
    exact congrArg (fun s => some ("Translation failed: " ++ s)) (summary_eq h.diagnostics)

variable {access : Access} {source : Source} {text : String}

/-- What is printed is the tree of the whole text, and what is reported is what is wrong with it. -/
lemma run_lower_trimmed (p : Presentation) (pretty : Bool) (h : source.read access = .ok text) :
    ((Lowering.ofText text).isOk = true →
      run access p (.lower source pretty) = runLower p pretty text) ∧
    (run access p (.lower source pretty)).failure?.map Failure.text =
      (failureOf? (Lowering.ofText text)).map Failure.text := by
  have halike := ofText_formulaOf text
  constructor
  · intro hok
    obtain ⟨t, ht⟩ := isOk_iff.1 hok
    rw [run, withText, h]
    dsimp only
    rw [runLower, runLower, halike.eq_of_isOk hok, result_eq_ok_iff.2 ht]
    cases p.format <;> rfl
  · rw [failure?_lower p pretty h]
    exact failureOf?_text halike

/-- A check of one source succeeds just when the whole text is accepted. -/
lemma run_checkOf_trimmed (p : Presentation) (h : source.read access = .ok text) :
    (run access p (checkOf source)).failure? = none ↔ (Lowering.ofText text).isOk = true := by
  have hlower : (run access p (checkOf source)).failure? = none ↔
      (run access p (.lower source false)).failure? = none := by
    cases source with
    | given formula => exact failure?_check_single p p false rfl
    | file path => exact failure?_check_single p p false rfl
    | input => exact failure?_check_single p p false rfl
  rw [hlower, failure?_lower p false h, failureOf?_eq_none, (ofText_formulaOf text).isOk_eq]

/-- A faulty formula has no round trip. -/
lemma failure?_runRoundTrip_faulty (p : Presentation) {formula : String}
    (h : ¬(Lowering.ofText formula).isOk = true) : ¬(runRoundTrip p formula).failure? = none := by
  rw [runRoundTrip]
  dsimp only
  rw [Lowering.result_of_not_isOk h]
  exact Option.some_ne_none _

/-- A formula comes back from its round trip just when the whole text does. -/
lemma run_roundTrip_trimmed (p : Presentation) (h : source.read access = .ok text) :
    (run access p (.roundTrip source)).failure? = none ↔ (runRoundTrip p text).failure? = none := by
  have halike := ofText_formulaOf text
  rw [run, withText, h]
  dsimp only
  by_cases hok : (Lowering.ofText text).isOk = true
  · obtain ⟨t, htree, hclean⟩ := isOk_iff.1 hok
    have hdone := Lowering.eq_done htree hclean
    have hdone' := (halike.eq_of_isOk hok).trans hdone
    rw [Lowering.failure?_runRoundTrip p hdone, Lowering.failure?_runRoundTrip p hdone']
  · have hok' : ¬(Lowering.ofText (formulaOf text)).isOk = true := by rwa [halike.isOk_eq]
    exact iff_of_false (failure?_runRoundTrip_faulty p hok') (failure?_runRoundTrip_faulty p hok)

/-- **Line ends after a formula never change the verdict.**  With and without them, a text has the
same tree, and diagnostics that are alike, one by one and in order.  So every command that drops
them answers as it would on the whole text: an accepted formula is printed alike, a faulty one fails
with the same message, and a check and a round trip succeed on the same texts. -/
theorem ofText_formulaOf_alike (text : String) :
    (Lowering.ofText (formulaOf text)).tree? = (Lowering.ofText text).tree? ∧
    List.Forall₂ Diagnostic.Alike (Lowering.ofText (formulaOf text)).diagnostics
      (Lowering.ofText text).diagnostics ∧
    ∀ (access : Access) (p : Presentation) (source : Source), source.read access = .ok text →
      (∀ pretty, ((Lowering.ofText text).isOk = true →
          run access p (.lower source pretty) = runLower p pretty text) ∧
        (run access p (.lower source pretty)).failure?.map Failure.text =
          (failureOf? (Lowering.ofText text)).map Failure.text) ∧
      ((run access p (checkOf source)).failure? = none ↔ (Lowering.ofText text).isOk = true) ∧
      ((run access p (.roundTrip source)).failure? = none ↔
        (runRoundTrip p text).failure? = none) := by
  obtain ⟨htree, hdiagnostics⟩ := ofText_formulaOf text
  refine ⟨htree, hdiagnostics, fun access p source h => ⟨fun pretty => ?_, ?_, ?_⟩⟩
  · exact run_lower_trimmed p pretty h
  · exact run_checkOf_trimmed p h
  · exact run_roundTrip_trimmed p h

/-- A formula that breaks off after a backslash between quotes; the first line end would be the
character that is escaped. -/
def brokenOff : String := "SUM(1, \"a\\\r\n\n"

/-- Only where the text stops being blamed do the two diagnostics differ. -/
theorem ofText_formulaOf_alike_brokenOff :
    (Lowering.ofText (formulaOf brokenOff)).diagnostics.map Diagnostic.location? =
        [some ⟨⟨1, 7⟩, ⟨1, 10⟩⟩] ∧
      (Lowering.ofText brokenOff).diagnostics.map Diagnostic.location? =
        [some ⟨⟨1, 7⟩, ⟨1, 11⟩⟩] ∧
      List.Forall₂ Diagnostic.Alike (Lowering.ofText (formulaOf brokenOff)).diagnostics
        (Lowering.ofText brokenOff).diagnostics ∧
      (run folder ⟨.json, false⟩ (.lower (.given brokenOff) true)).failure?.map Failure.text =
        some "Translation failed: Unterminated string literal (at 1:7)" := by
  obtain ⟨-, halike, hrun⟩ := ofText_formulaOf_alike brokenOff
  obtain ⟨hlower, -⟩ := hrun folder ⟨.json, false⟩ (.given brokenOff) rfl
  refine ⟨by decide +kernel, by decide +kernel, halike, ?_⟩
  rw [(hlower true).2]
  decide +kernel

end Command

end FormulaTree
