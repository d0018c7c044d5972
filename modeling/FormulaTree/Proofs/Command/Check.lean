import FormulaTree.Command
import FormulaTree.Proofs.Json.Restored
import FormulaTree.Proofs.Lowering.Outcome
import Mathlib.Data.List.TakeWhile

/-!
# What a check answers

A check is about **subjects**: formulas, each under the name of the source it comes from.
`Subjects` says which they are, without a word about when sources are read, texts are looked at and
lines are printed.  The main result, `run_check`, is that nothing else has an influence:

* if a source cannot be read, the first one that cannot is the failure, and nothing is printed;
* otherwise there are subjects, and the check fails just when one of them is faulty, with the
  number of those that are, whether text or JSON is printed;
* the JSON text is an array with one report for each subject, in order, and can be read back;
* a check of one source fails just when the tree of its formula cannot be printed.
-/

namespace FormulaTree.Command

/-! ## The formula that a text holds -/

/-- A text is a formula with line ends after it, and the formula does not end with one itself. -/
structure Holds (text formula : String) : Prop where
  ends : ∃ ends, text.toList = formula.toList ++ ends ∧ ∀ c ∈ ends, c = '\n' ∨ c = '\r'
  last : ∀ c, formula.toList.getLast? = some c → c ≠ '\n' ∧ c ≠ '\r'

lemma isLineEnd_iff {c : Char} : Text.isLineEnd c = true ↔ c = '\n' ∨ c = '\r' := by
  simp [Text.isLineEnd]

lemma holds_formulaOf (text : String) : Holds text (formulaOf text) := by
  rw [formulaOf, Text.trimEnd]
  refine ⟨⟨(text.toList.reverse.takeWhile Text.isLineEnd).reverse, ?_, fun c hc => ?_⟩,
    fun c hc => ?_⟩
  · rw [String.toList_ofList, ← List.reverse_append, List.takeWhile_append_dropWhile,
      List.reverse_reverse]
  · exact isLineEnd_iff.1 (List.mem_takeWhile_imp (List.mem_reverse.1 hc))
  · rw [String.toList_ofList, List.getLast?_reverse] at hc
    have hnot := List.head?_dropWhile_not Text.isLineEnd text.toList.reverse
    rw [hc] at hnot
    simpa [Text.isLineEnd] using hnot

/-- A text holds only one formula. -/
lemma Holds.formulaOf_eq {text formula : String} (h : Holds text formula) :
    formulaOf text = formula := by
  obtain ⟨ends, htext, hends⟩ := h.ends
  have hdrop : formula.toList.reverse.dropWhile Text.isLineEnd = formula.toList.reverse := by
    rw [List.dropWhile_eq_self_iff]
    intro hlength hend
    have hlast : formula.toList.getLast? = some (formula.toList.reverse[0]) := by
      rw [← List.head?_reverse, List.head?_eq_getElem?, List.getElem?_eq_getElem]
    rcases isLineEnd_iff.1 hend with hend | hend
    · exact (h.last _ hlast).1 hend
    · exact (h.last _ hlast).2 hend
  rw [formulaOf, Text.trimEnd, htext, List.reverse_append,
    List.dropWhile_append_of_pos fun c hc => isLineEnd_iff.2 (hends c (List.mem_reverse.1 hc)),
    hdrop, List.reverse_reverse, String.ofList_toList]

/-! ## Subjects -/

/-- A named source can be read and holds a formula, which keeps the name. -/
def IsRead (access : Access) (source : String × Source) (subject : String × String) : Prop :=
  subject.1 = source.1 ∧ ∃ text, source.2.read access = .ok text ∧ Holds text subject.2

/-- The formulas that a check is about, each with a name: those that are given, numbered from one,
then those of the files, or, if there are neither, the one on the standard input. -/
inductive Subjects (access : Access) : List String → List String → List (String × String) → Prop
  | named {formulas paths : List String} {subjects : List (String × String)}
      (hsome : formulas ≠ [] ∨ paths ≠ [])
      (hread : List.Forall₂ (IsRead access)
        (formulas.mapIdx (fun i formula => (s!"argument {i + 1}", .given formula)) ++
          paths.map fun path => (path, .file path)) subjects) :
      Subjects access formulas paths subjects
  | input {subject : String × String} (hread : IsRead access ("stdin", .input) subject) :
      Subjects access [] [] [subject]

variable {access : Access} {formulas paths : List String}

lemma checkSources_nil : checkSources [] [] = [("stdin", .input)] := rfl

lemma checkSources_eq (hsome : formulas ≠ [] ∨ paths ≠ []) : checkSources formulas paths =
    formulas.mapIdx (fun i formula => (s!"argument {i + 1}", .given formula)) ++
      paths.map fun path => (path, .file path) := by
  rw [checkSources, if_neg]
  simpa [List.isEmpty_iff, imp_iff_not_or] using hsome

/-- The subjects are what is read from the sources of the check. -/
lemma subjects_iff {subjects : List (String × String)} : Subjects access formulas paths subjects ↔
    List.Forall₂ (IsRead access) (checkSources formulas paths) subjects := by
  by_cases hsome : formulas ≠ [] ∨ paths ≠ []
  · rw [checkSources_eq hsome]
    constructor
    · rintro (⟨-, hread⟩ | hread)
      · exact hread
      · simp at hsome
    · exact .named hsome
  · obtain ⟨rfl, rfl⟩ : formulas = [] ∧ paths = [] := by simpa using hsome
    rw [checkSources_nil]
    constructor
    · rintro (⟨hsome', -⟩ | hread)
      · exact absurd hsome' hsome
      · exact .cons hread .nil
    · rintro (_ | ⟨hread, ⟨⟩⟩)
      exact .input hread

/-! ## Reading the sources -/

/-- What is given can be read, so that only files matter. -/
lemma read_of_mem {source : String × Source}
    (hpaths : ∀ path ∈ paths, ∃ text, access.file path = .ok text)
    (h : source ∈ formulas.mapIdx (fun i formula => (s!"argument {i + 1}", .given formula)) ++
      paths.map fun path => (path, .file path)) : ∃ text, source.2.read access = .ok text := by
  rcases List.mem_append.1 h with h | h
  · obtain ⟨i, hi, rfl⟩ := List.mem_mapIdx.1 h
    exact ⟨_, rfl⟩
  · obtain ⟨path, hpath, rfl⟩ := List.mem_map.1 h
    exact hpaths path hpath

/-- Sources that can all be read hold formulas. -/
lemma exists_isRead {sources : List (String × Source)}
    (h : ∀ s ∈ sources, ∃ text, s.2.read access = .ok text) :
    ∃ subjects, List.Forall₂ (IsRead access) sources subjects := by
  induction sources with
  | nil => exact ⟨[], .nil⟩
  | cons source sources ih =>
    obtain ⟨text, htext⟩ := h source List.mem_cons_self
    obtain ⟨subjects, hsubjects⟩ := ih fun s hs => h s (List.mem_cons_of_mem _ hs)
    exact ⟨(source.1, formulaOf text) :: subjects,
      .cons ⟨rfl, text, htext, holds_formulaOf text⟩ hsubjects⟩

/-- What is checked where the sources can be read are the subjects. -/
lemma readAll_of_isRead {sources : List (String × Source)} {subjects : List (String × String)}
    (h : List.Forall₂ (IsRead access) sources subjects) :
    ∃ texts, readAll access sources = .ok texts ∧
      (texts.map fun t => Checked.ofText t.1 t.2) =
        subjects.map fun s => ⟨s.1, s.2, Lowering.ofText s.2⟩ := by
  induction h with
  | nil => exact ⟨[], rfl, rfl⟩
  | @cons source subject sources subjects hread _ ih =>
    obtain ⟨hname, text, htext, hholds⟩ := hread
    obtain ⟨texts, hall, hchecked⟩ := ih
    refine ⟨(source.1, text) :: texts, ?_, ?_⟩
    · simp only [readAll, htext, hall]
      rfl
    · rw [List.map_cons, hchecked, Checked.ofText, hholds.formulaOf_eq, List.map_cons, hname]

/-- Reading ends at the first source that cannot be read. -/
lemma readAll_eq_error {before after : List (String × Source)} {source : String × Source}
    {failure : InputFailure} (hbefore : ∀ s ∈ before, ∃ text, s.2.read access = .ok text)
    (hsource : source.2.read access = .error failure) :
    readAll access (before ++ source :: after) = .error failure := by
  induction before with
  | nil => simp only [List.nil_append, readAll, hsource]
  | cons first before ih =>
    obtain ⟨text, htext⟩ := hbefore first List.mem_cons_self
    have hothers := ih fun s hs => hbefore s (List.mem_cons_of_mem _ hs)
    simp only [List.cons_append, readAll, htext, hothers]
    rfl

/-! ## Reports -/

/-- The JSON report on a subject. -/
def report (subject : String × String) : Json :=
  .object [("source", .text subject.1), ("formula", .text subject.2),
    ("ok", .boolean (Lowering.ofText subject.2).isOk),
    ("diagnostics", .array ((Lowering.ofText subject.2).diagnostics.map Diagnostic.toJson))]

lemma depth_diagnostic (d : Diagnostic) : d.toJson.depth ≤ 3 := by
  obtain ⟨kind, message, _ | l⟩ := d
  · exact (by decide : 1 ≤ 3)
  · exact Nat.le_refl 3

lemma depth_report (subject : String × String) : (report subject).depth ≤ 5 := by
  have hdiagnostics : ∀ j ∈ (Lowering.ofText subject.2).diagnostics.map Diagnostic.toJson,
      j.depth ≤ 3 := by
    intro j hj
    obtain ⟨d, -, rfl⟩ := List.mem_map.1 hj
    exact depth_diagnostic d
  have hdepths := Json.depths_le hdiagnostics
  simp only [report, Json.depth, Json.memberDepths]
  omega

/-- The array of the reports can be read back. -/
lemma readValue_reports (subjects : List (String × String)) :
    Json.readValue ((Json.array (subjects.map report)).textIn Json.pretty).toList =
      .ok (.array (subjects.map fun s => (report s).restored), []) := by
  have hreports : ∀ j ∈ subjects.map report, j.depth ≤ 5 := by
    intro j hj
    obtain ⟨subject, -, rfl⟩ := List.mem_map.1 hj
    exact depth_report subject
  have hdepth : (Json.array (subjects.map report)).depth ≤ Json.depthLimit := by
    have hdepths := Json.depths_le hreports
    rw [Json.depth, Json.depthLimit]
    omega
  rw [Json.readValue,
    Json.readValueBy_textIn Json.isLegible_pretty Json.Numerals.nearest_restoresWritten,
    Json.within, if_pos hdepth, Json.restored, Json.restoreds_eq_map, List.map_map]
  rfl

/-! ## The answer -/

/-- How many of the subjects are faulty. -/
def faults (subjects : List (String × String)) : Nat :=
  subjects.countP fun s => !(Lowering.ofText s.2).isOk

/-- What the answer is if all sources can be read. -/
lemma run_check_of_isRead (p : Presentation) {subjects : List (String × String)}
    (h : List.Forall₂ (IsRead access) (checkSources formulas paths) subjects) :
    (run access p (.check formulas paths)).failure? =
        (if faults subjects = 0 then none
          else some (.invalid s!"{faults subjects} of {subjects.length} formula(s) failed")) ∧
      (p.format = .json → (run access p (.check formulas paths)).lines =
        [(Json.array (subjects.map report)).textIn Json.pretty]) := by
  obtain ⟨texts, hread, hchecked⟩ := readAll_of_isRead h
  have hrun : run access p (.check formulas paths) = runCheck p texts := by rw [run, hread]
  rw [hrun, runCheck, hchecked]
  constructor
  · rw [List.countP_map, List.length_map]
    rfl
  · intro hjson
    rw [hjson, List.map_map]
    rfl

/-- What the answer is if a source cannot be read. -/
lemma run_check_of_error (p : Presentation) {before after : List (String × Source)}
    {source : String × Source} {failure : InputFailure}
    (hsources : checkSources formulas paths = before ++ source :: after)
    (hbefore : ∀ s ∈ before, ∃ text, s.2.read access = .ok text)
    (hsource : source.2.read access = .error failure) :
    run access p (.check formulas paths) = ⟨[], some (.input failure)⟩ := by
  rw [run, hsources, readAll_eq_error hbefore hsource]
  rfl

/-! ## One source -/

lemma failureOf?_eq_none {l : Lowering} : failureOf? l = none ↔ l.isOk = true := by
  rw [failureOf?, Lowering.isOk_iff]
  simp only [← Lowering.result_eq_ok_iff]
  cases l.result <;> simp

lemma failure?_lower (p : Presentation) (pretty : Bool) {source : Source} {text : String}
    (h : source.read access = .ok text) : (run access p (.lower source pretty)).failure? =
      failureOf? (Lowering.ofText (formulaOf text)) := by
  rw [run, withText, h]
  rfl

/-- A check with only one source fails just when its formula has no tree to print. -/
lemma failure?_check_single (p q : Presentation) (pretty : Bool) {name : String}
    {source : Source} (hsource : checkSources formulas paths = [(name, source)]) :
    (run access p (.check formulas paths)).failure? = none ↔
      (run access q (.lower source pretty)).failure? = none := by
  cases hread : source.read access with
  | error failure =>
    have hsplit : checkSources formulas paths = [] ++ (name, source) :: [] := hsource
    rw [run_check_of_error p hsplit (fun s hs => absurd hs List.not_mem_nil) hread, run, withText,
      hread]
    exact iff_of_false nofun nofun
  | ok text =>
    have hsubjects : List.Forall₂ (IsRead access) (checkSources formulas paths)
        [(name, formulaOf text)] := by
      rw [hsource]
      exact .cons ⟨rfl, text, hread, holds_formulaOf text⟩ .nil
    rw [(run_check_of_isRead p hsubjects).1, failure?_lower q pretty hread, failureOf?_eq_none]
    simp [faults]

/-- The check of one source. -/
def checkOf : Source → Command
  | .given formula => .check [formula] []
  | .file path => .check [] [path]
  | .input => .check [] []

/-! ## Every check -/

/-- **A check is all or nothing on its input and exact in its answer.**  If a file cannot be read,
the first that cannot is the failure and nothing is printed, and so for the standard input where it
is the only source.  If all can be read, there are subjects.  Then the number of faulty ones alone
decides about success, in either format, and the text that is printed as JSON is that of one report
for each subject, from which they can be read back.  A check of one source succeeds just when the
tree of its formula can be printed. -/
theorem run_check (access : Access) (p : Presentation) (formulas paths : List String) :
    (∀ before path after failure, paths = before ++ path :: after →
      (∀ q ∈ before, ∃ text, access.file q = .ok text) → access.file path = .error failure →
      run access p (.check formulas paths) = ⟨[], some (.input failure)⟩) ∧
    (∀ failure, formulas = [] → paths = [] → access.input = .error failure →
      run access p (.check formulas paths) = ⟨[], some (.input failure)⟩) ∧
    ((∀ path ∈ paths, ∃ text, access.file path = .ok text) →
      (formulas = [] → paths = [] → ∃ text, access.input = .ok text) →
      ∃ subjects, Subjects access formulas paths subjects) ∧
    (∀ subjects, Subjects access formulas paths subjects →
      (run access p (.check formulas paths)).failure? =
          (if faults subjects = 0 then none
            else some (.invalid s!"{faults subjects} of {subjects.length} formula(s) failed")) ∧
        (p.format = .json → ∃ printed, (run access p (.check formulas paths)).lines = [printed] ∧
          printed = (Json.array (subjects.map report)).textIn Json.pretty ∧
          Json.readValue printed.toList =
            .ok (.array (subjects.map fun s => (report s).restored), []))) ∧
    ∀ (source : Source) (q : Presentation) (pretty : Bool),
      (run access p (checkOf source)).failure? = none ↔
        (run access q (.lower source pretty)).failure? = none := by
  refine ⟨?_, ?_, ?_, ?_, ?_⟩
  · rintro before path after failure rfl hbefore hpath
    have hsome : formulas ≠ [] ∨ before ++ path :: after ≠ [] := .inr (by simp)
    have hsources := checkSources_eq hsome
    rw [List.map_append, List.map_cons, ← List.append_assoc] at hsources
    exact run_check_of_error p hsources (fun s hs => read_of_mem hbefore hs) hpath
  · rintro failure rfl rfl hinput
    have hsources : checkSources [] [] = [] ++ ("stdin", .input) :: [] := checkSources_nil
    exact run_check_of_error p hsources (fun s hs => absurd hs List.not_mem_nil) hinput
  · intro hpaths hinput
    by_cases hsome : formulas ≠ [] ∨ paths ≠ []
    · obtain ⟨subjects, hread⟩ := exists_isRead fun s hs => read_of_mem hpaths hs
      exact ⟨subjects, .named hsome hread⟩
    · obtain ⟨rfl, rfl⟩ : formulas = [] ∧ paths = [] := by simpa using hsome
      obtain ⟨text, htext⟩ := hinput rfl rfl
      exact ⟨[("stdin", formulaOf text)], .input ⟨rfl, text, htext, holds_formulaOf text⟩⟩
  · intro subjects hsubjects
    obtain ⟨hfailure, hlines⟩ := run_check_of_isRead p (subjects_iff.1 hsubjects)
    exact ⟨hfailure, fun hjson => ⟨_, hlines hjson, rfl, readValue_reports subjects⟩⟩
  · intro source q pretty
    cases source with
    | given formula => exact failure?_check_single p q pretty rfl
    | file path => exact failure?_check_single p q pretty rfl
    | input => exact failure?_check_single p q pretty rfl

/-- A folder with two files, one of which holds a faulty formula. -/
def folder : Access where
  file path :=
    if path = "sum" then .ok "1 + 2\r\n"
    else if path = "open" then .ok "SUM(1,\n"
    else .error .missing
  input := .error .notText

/-- What a check of three formulas in this folder is about. -/
def folderSubjects : List (String × String) :=
  [("argument 1", formulaOf "1 == 2\n\n"), ("open", formulaOf "SUM(1,\n"),
    ("sum", formulaOf "1 + 2\r\n")]

lemma subjects_folder : Subjects folder ["1 == 2\n\n"] ["open", "sum"] folderSubjects :=
  .named (.inl (List.cons_ne_nil _ _))
    (.cons ⟨rfl, _, rfl, holds_formulaOf _⟩ (.cons ⟨rfl, _, rfl, holds_formulaOf _⟩
      (.cons ⟨rfl, _, rfl, holds_formulaOf _⟩ .nil)))

/-- One of three formulas is faulty; with the name of a missing file among them nothing is said
about any. -/
theorem run_check_folder :
    (run folder ⟨.json, false⟩ (.check ["1 == 2\n\n"] ["open", "sum"])).failure? =
        some (.invalid "1 of 3 formula(s) failed") ∧
      (∃ printed, (run folder ⟨.json, false⟩ (.check ["1 == 2\n\n"] ["open", "sum"])).lines =
        [printed] ∧ Json.readValue printed.toList =
          .ok (.array (folderSubjects.map fun s => (report s).restored), [])) ∧
      run folder ⟨.text, true⟩ (.check ["1 == 2"] ["open", "none", "sum"]) =
        ⟨[], some (.input .missing)⟩ ∧
      run folder ⟨.text, true⟩ (.check [] []) = ⟨[], some (.input .notText)⟩ := by
  have hfaults : faults folderSubjects = 1 := by decide +kernel
  obtain ⟨-, -, -, hanswer, -⟩ := run_check folder ⟨.json, false⟩ ["1 == 2\n\n"] ["open", "sum"]
  obtain ⟨hfailure, hlines⟩ := hanswer folderSubjects subjects_folder
  obtain ⟨printed, hprinted, -, hread⟩ := hlines rfl
  refine ⟨?_, ⟨printed, hprinted, hread⟩, ?_, ?_⟩
  · rw [hfailure, hfaults]
    rfl
  · refine (run_check folder ⟨.text, true⟩ ["1 == 2"] ["open", "none", "sum"]).1 ["open"] "none"
      ["sum"] .missing rfl (fun q hq => ⟨"SUM(1,\n", ?_⟩) rfl
    rw [List.mem_singleton.1 hq]
    rfl
  · exact (run_check folder ⟨.text, true⟩ [] []).2.1 .notText rfl rfl rfl

end FormulaTree.Command
