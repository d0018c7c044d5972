import FormulaTree.Proofs.Position
import FormulaTree.Text.Lines

/-!
# Lines and places

`Text.IsLine` says what the lines of a text are without splitting it: a line begins at column zero,
holds no line feed and runs up to a line end or the end of the text.  A carriage return belongs to
the line end if a line feed follows it.

Not every place of a text is on a line.  A place between a carriage return and its line feed is
beyond the line's last character, and after a final line feed there is no line any more.  All other
places of a text that is not empty are (`IsOnLine`), and `lines` has the line for each of them
(`exists_line`).
-/

namespace FormulaTree

open Position (reached)

namespace Position

/-- Every place has a start of its line. -/
lemma exists_lineStart (passed : List Char) : ∃ before last, passed = before ++ last ∧
    '\n' ∉ last ∧ (before = [] ∨ ∃ above, before = above ++ ['\n']) ∧
    reached before = ⟨(reached passed).line, 0⟩ ∧ (reached passed).column = last.length := by
  induction passed using List.reverseRecOn with
  | nil => exact ⟨[], [], rfl, List.not_mem_nil, .inl rfl, rfl, rfl⟩
  | append_singleton passed c ih =>
    by_cases hc : c = '\n'
    · subst hc
      refine ⟨passed ++ ['\n'], [], (List.append_nil _).symm, List.not_mem_nil, .inr ⟨passed, rfl⟩,
        ?_, ?_⟩
      · rw [reached_append_singleton, next, if_pos rfl]
      · rw [reached_append_singleton, next, if_pos rfl]
        rfl
    · obtain ⟨before, last, rfl, hlast, hbefore, hline, hcolumn⟩ := ih
      refine ⟨before, last ++ [c], List.append_assoc .., ?_, hbefore, ?_, ?_⟩
      · simp [hlast, Ne.symm hc]
      · rw [reached_append_singleton, next, if_neg hc, hline]
      · rw [reached_append_singleton, next, if_neg hc, List.length_append, hcolumn]
        rfl

end Position

namespace Text

/-! ## Lines -/

/-- What comes after a line: the end of the text, unless the line is empty, or a line end. -/
inductive Ends (line : List Char) : List Char → Prop
  | text (ne_nil : line ≠ []) : Ends line []
  | feed (rest : List Char) (last : line.getLast? ≠ some '\r') : Ends line ('\n' :: rest)
  | returnFeed (rest : List Char) : Ends line ('\r' :: '\n' :: rest)

/-- A line of a text, by its number. -/
structure IsLine (text : List Char) (number : Nat) (line : List Char) : Prop where
  noFeed : '\n' ∉ line
  split : ∃ before ahead, text = before ++ (line ++ ahead) ∧ reached before = ⟨number, 0⟩ ∧
    Ends line ahead

/-- The first line of a text. -/
lemma exists_lines_eq_cons {text : List Char} (h : text ≠ []) : ∃ line others ahead,
    lines text = line :: others ∧ text = line ++ ahead ∧ '\n' ∉ line ∧ Ends line ahead := by
  fun_induction lines text with
  | case1 => exact absurd rfl h
  | case2 cs => exact ⟨[], _, '\n' :: cs, rfl, rfl, List.not_mem_nil, .feed cs (by simp)⟩
  | case3 cs => exact ⟨[], _, '\r' :: '\n' :: cs, rfl, rfl, List.not_mem_nil, .returnFeed cs⟩
  | case4 c cs hfeed hreturn hnone ih =>
    have hcs : cs = [] := by
      by_contra hne
      obtain ⟨line, others, -, hlines, -⟩ := ih hne
      rw [hnone] at hlines
      cases hlines
    subst hcs
    exact ⟨[c], [], [], rfl, rfl, by simpa using Ne.symm hfeed, .text (List.cons_ne_nil _ _)⟩
  | case5 c cs hfeed hreturn line others hsome ih =>
    have hcs : cs ≠ [] := by
      rintro rfl
      cases hsome
    obtain ⟨line', others', ahead, hlines, rfl, hline, hends⟩ := ih hcs
    rw [hsome] at hlines
    cases hlines
    refine ⟨c :: line, others, ahead, rfl, rfl, ?_, ?_⟩
    · simp [hline, Ne.symm hfeed]
    · cases hends with
      | text => exact .text (List.cons_ne_nil _ _)
      | returnFeed rest => exact .returnFeed rest
      | feed rest hlast =>
        refine .feed rest ?_
        cases line with
        | nil =>
          -- A carriage return here would be part of the line end.
          intro heq
          cases heq
          exact hreturn rest rfl rfl
        | cons d line => simpa using hlast

/-- A carriage return makes no difference before a line feed. -/
lemma lines_return (cs : List Char) : lines ('\r' :: '\n' :: cs) = lines ('\n' :: cs) := by
  rw [lines, lines]

lemma lines_cons {c : Char} {cs line : List Char} {others : List (List Char)} (hfeed : c ≠ '\n')
    (hreturn : c = '\r' → cs.head? ≠ some '\n') (h : lines cs = line :: others) :
    lines (c :: cs) = (c :: line) :: others := by
  rw [lines, h]
  · exact hfeed
  · rintro ds rfl rfl
    exact hreturn rfl rfl

/-- After a line feed the lines are those of the rest. -/
lemma lines_append_feed (above rest : List Char) :
    ∃ first, lines (above ++ '\n' :: rest) = first ++ lines rest ∧
      first.length = above.count '\n' + 1 := by
  induction above with
  | nil =>
    refine ⟨[[]], ?_, rfl⟩
    rw [List.nil_append, lines]
    rfl
  | cons c above ih =>
    obtain ⟨first, hlines, hlength⟩ := ih
    by_cases hfeed : c = '\n'
    · subst hfeed
      refine ⟨[] :: first, ?_, ?_⟩
      · rw [List.cons_append, lines, hlines, List.cons_append]
      · rw [List.length_cons, hlength, List.count_cons_self]
    · have hcount : (c :: above).count '\n' = above.count '\n' := List.count_cons_of_ne hfeed
      rw [hcount, List.cons_append]
      by_cases hreturn : c = '\r' ∧ (above ++ '\n' :: rest).head? = some '\n'
      · obtain ⟨rfl, hhead⟩ := hreturn
        obtain ⟨ds, hds⟩ := List.head?_eq_some_iff.1 hhead
        refine ⟨first, ?_, hlength⟩
        rw [← hlines, hds, lines_return]
      · have hfirst := List.ne_nil_of_length_eq_add_one hlength
        obtain ⟨line, others, rfl⟩ := List.exists_cons_of_ne_nil hfirst
        refine ⟨(c :: line) :: others, ?_, hlength⟩
        exact lines_cons hfeed (fun hc hhead => hreturn ⟨hc, hhead⟩) hlines

/-! ## Places on lines -/

/-- The place between two parts of a text is not within a line end, and not after the last one. -/
structure IsOnLine (before after : List Char) : Prop where
  not_within : before.getLast? = some '\r' → after.head? ≠ some '\n'
  not_past : before.getLast? = some '\n' → after ≠ []

lemma IsOnLine.nil (after : List Char) : IsOnLine [] after := ⟨nofun, nofun⟩

lemma IsOnLine.of_head {c : Char} (hc : isLineEnd c = false) (before after : List Char) :
    IsOnLine before (c :: after) := by
  refine ⟨fun _ hhead => ?_, fun _ => List.cons_ne_nil _ _⟩
  cases hhead
  cases hc

lemma IsOnLine.of_last {c : Char} (hc : isLineEnd c = false) (before after : List Char) :
    IsOnLine (before ++ [c]) after := by
  constructor
  · intro hlast
    rw [List.getLast?_concat] at hlast
    cases hlast
    cases hc
  · intro hlast
    rw [List.getLast?_concat] at hlast
    cases hlast
    cases hc

/-- A place on a line is not beyond the end of the line. -/
lemma IsOnLine.length_le {before last after line ahead : List Char}
    (h : IsOnLine (before ++ last) after) (hlast : '\n' ∉ last) (hends : Ends line ahead)
    (hsplit : last ++ after = line ++ ahead) : last.length ≤ line.length := by
  rcases List.append_eq_append_iff.1 hsplit with ⟨more, rfl, -⟩ | ⟨more, rfl, rfl⟩
  · rw [List.length_append]
    exact Nat.le_add_right _ _
  · -- What is passed of the line end can only be a carriage return before the line feed.
    obtain _ | ⟨d, more⟩ := more
    · rw [List.append_nil]
    · exfalso
      rw [List.cons_append] at hends
      generalize hrest : more ++ after = rest at hends
      cases hends with
      | feed => exact hlast (by simp)
      | returnFeed rest =>
        obtain _ | ⟨e, more⟩ := more
        · refine h.not_within ?_ ?_
          · rw [← List.append_assoc, List.getLast?_concat]
          · rw [← List.nil_append after, hrest]
            rfl
        · cases hrest
          exact hlast (by simp)

/-- For each place on a line, `lines` has the line, and it reaches as far as the place. -/
theorem exists_line {before after : List Char} (h : IsOnLine before after)
    (hne : before ++ after ≠ []) : ∃ line, IsLine (before ++ after) (reached before).line line ∧
      (lines (before ++ after))[(reached before).line - 1]? = some line ∧
      (reached before).column ≤ line.length := by
  obtain ⟨start, last, rfl, hlast, hstart, hline, hcolumn⟩ := Position.exists_lineStart before
  have hnumber : (reached (start ++ last)).line = 1 + start.count '\n' :=
    (congrArg Position.line hline).symm
  have hrest : last ++ after ≠ [] := by
    intro hnil
    obtain ⟨rfl, rfl⟩ := List.append_eq_nil_iff.1 hnil
    rcases hstart with rfl | ⟨above, rfl⟩
    · exact hne rfl
    · exact h.not_past (by rw [List.append_nil, List.getLast?_concat]) rfl
  obtain ⟨line, others, ahead, hlines, hsplit, hnoFeed, hends⟩ := exists_lines_eq_cons hrest
  refine ⟨line, ⟨hnoFeed, start, ahead, ?_, hline, hends⟩, ?_, ?_⟩
  · rw [List.append_assoc, hsplit]
  · rw [List.append_assoc, hnumber, Nat.add_sub_cancel_left]
    rcases hstart with rfl | ⟨above, rfl⟩
    · rw [List.nil_append, hlines]
      rfl
    · obtain ⟨first, hfirst, hlength⟩ := lines_append_feed above (last ++ after)
      have hcount : (above ++ ['\n']).count '\n' = first.length := by
        rw [hlength, List.count_append]
        rfl
      rw [List.append_assoc, List.singleton_append, hfirst, hcount, List.getElem?_append_right
        (le_refl _), Nat.sub_self, hlines]
      rfl
  · rw [hcolumn]
    exact h.length_le hlast hends hsplit

end Text

end FormulaTree
