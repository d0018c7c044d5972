import FormulaTree.Json.Write
import FormulaTree.Proofs.Json.Numeral

/-!
# JSON text that is written and read

A value that is written can be read back if its arrays and objects are not nested too deep, and
reading gives the value itself, but for numbers: zero loses its sign, and what is not finite becomes
null.  `restored` is the value that comes back, `depth` is the number of levels, and
`reader_write` is the law: a reader for `limit` levels whose numerals restore what is written
answers the text of a value, whatever the layout, with the restored value if there are at most
`limit` levels, and finds it malformed if there are more.
-/

namespace FormulaTree.Json

/-! ## What comes back -/

mutual

/-- The number of levels of brackets. -/
def depth : Json → Nat
  | .array items => 1 + depths items
  | .object members => 1 + memberDepths members
  | _ => 0

/-- The number of levels of the deepest item. -/
def depths : List Json → Nat
  | [] => 0
  | item :: items => max (depth item) (depths items)

/-- The number of levels of the deepest member. -/
def memberDepths : List (String × Json) → Nat
  | [] => 0
  | (_, value) :: members => max (depth value) (memberDepths members)

end

mutual

/-- The value that comes back when a value is written and read. -/
def restored : Json → Json
  | .number n => if n.isFinite then .number n.normal else .null
  | .array items => .array (restoreds items)
  | .object members => .object (restoredMembers members)
  | j => j

/-- The items that come back. -/
def restoreds : List Json → List Json
  | [] => []
  | item :: items => restored item :: restoreds items

/-- The members that come back. -/
def restoredMembers : List (String × Json) → List (String × Json)
  | [] => []
  | (name, value) :: members => (name, restored value) :: restoredMembers members

end

lemma restoreds_eq_map (items : List Json) : restoreds items = items.map restored := by
  induction items with
  | nil => rfl
  | cons item items ih => rw [restoreds, ih, List.map_cons]

lemma depths_le {items : List Json} {bound : Nat} (h : ∀ j ∈ items, j.depth ≤ bound) :
    depths items ≤ bound := by
  induction items with
  | nil => exact Nat.zero_le bound
  | cons item items ih =>
    rw [depths]
    exact Nat.max_le.2 ⟨h item List.mem_cons_self, ih fun j hj => h j (List.mem_cons_of_mem _ hj)⟩

/-- The answer of a reader with a limit to something that needs a number of levels. -/
def within {α : Type} (limit needed : Nat) (a : α) : Except Fault α :=
  if needed ≤ limit then .ok a else .error .malformed

lemma map_within {α β : Type} (f : α → β) (limit needed : Nat) (a : α) :
    (within limit needed a).map f = within limit needed (f a) := by
  unfold within
  split_ifs <;> rfl

lemma within_succ {α : Type} (limit needed : Nat) (a : α) :
    within (limit + 1) (needed + 1) a = within limit needed a := by
  simp only [within, Nat.add_le_add_iff_right]

lemma within_zero {α : Type} (limit : Nat) (a : α) : within limit 0 a = .ok a :=
  if_pos (Nat.zero_le limit)

/-- Of two things in a row, the deeper one decides. -/
lemma within_bind {α β : Type} {limit first second : Nat} {a : α} {b : β}
    {f : α → Except Fault β} (h : f a = within limit second b) :
    (within limit first a).bind f = within limit (max first second) b := by
  by_cases hfirst : first ≤ limit
  · have hmax : max first second ≤ limit ↔ second ≤ limit := by omega
    rw [within, if_pos hfirst]
    show f a = _
    rw [h, within, within, if_congr hmax rfl rfl]
  · rw [within, if_neg hfirst, within, if_neg (by omega)]
    rfl

/-! ## Blanks -/

/-- A layout that puts blanks where blanks may stand, and nothing else but the colon. -/
structure Layout.IsLegible (layout : Layout) : Prop where
  newline : ∀ depth, ∀ c ∈ layout.newline depth, isSpace c = true
  colon : ∃ blanks, layout.colon = ':' :: blanks ∧ ∀ c ∈ blanks, isSpace c = true

lemma isLegible_compact : compact.IsLegible :=
  ⟨fun _ _ h => absurd h List.not_mem_nil, [], rfl, fun _ h => absurd h List.not_mem_nil⟩

lemma isLegible_pretty : pretty.IsLegible := by
  refine ⟨fun depth c hc => ?_, [' '], rfl, by simp [isSpace]⟩
  rcases List.mem_cons.1 hc with rfl | hc
  · rfl
  · rw [List.eq_of_mem_replicate hc]
    rfl

lemma skipSpace_append {blanks : List Char} (h : ∀ c ∈ blanks, isSpace c = true)
    (cs : List Char) : skipSpace (blanks ++ cs) = skipSpace cs :=
  List.dropWhile_append_of_pos h

lemma skipSpace_cons {c : Char} (h : isSpace c = false) (cs : List Char) :
    skipSpace (c :: cs) = c :: cs := by
  simp [skipSpace, h]

/-- Blanks in front of a value do not matter. -/
lemma reader_blanks {numerals : Numerals} (n : Nat) {blanks : List Char}
    (h : ∀ c ∈ blanks, isSpace c = true) (cs : List Char) :
    (reader numerals n).read (blanks ++ cs) = (reader numerals n).read cs := by
  cases n <;> simp only [reader, value, skipSpace_append h]

/-- The reader of what stands inside an array or object, if one may begin here. -/
def readerBelow (numerals : Numerals) : Nat → Option ValueReader
  | 0 => none
  | limit + 1 => some (reader numerals limit)

lemma reader_cons {numerals : Numerals} (limit : Nat) {c : Char} (h : isSpace c = false)
    (cs : List Char) : (reader numerals limit).read (c :: cs) =
      readFrom numerals (readerBelow numerals limit) c cs := by
  cases limit <;> simp only [reader, value, readerBelow, skipSpace_cons h]

/-! ## Texts -/

/-- The four digits of a code unit that is no half of a pair are read as its character. -/
lemma readText_unit {c : Char} (cs : List Char) (hc : c.toNat < 0xD800) :
    readText (.unit none 4 0) (Text.hexDigits 4 c.toNat ++ cs) =
      (readText .plain cs).map fun r => (c :: r.1, r.2) := by
  have hdigit (n : Nat) : Text.hexValue? (Nat.digitChar (n % 16)) = some (n % 16) :=
    Text.hexValue?_digitChar (Nat.mod_lt n (by decide))
  have hvalue : 16 * (16 * (16 * (c.toNat / 16 / 16 / 16 % 16) + c.toNat / 16 / 16 % 16) +
      c.toNat / 16 % 16) + c.toNat % 16 = c.toNat := by omega
  have hhigh : isHighHalf c.toNat = false := by
    simp only [isHighHalf, Bool.and_eq_false_iff, decide_eq_false_iff_not]
    omega
  have hlow : isLowHalf c.toNat = false := by
    simp only [isLowHalf, Bool.and_eq_false_iff, decide_eq_false_iff_not]
    omega
  simp only [Text.hexDigits, List.nil_append, List.cons_append, readText, hdigit, Nat.reduceLT,
    if_true, Nat.reduceSub, Nat.lt_irrefl, if_false, Nat.mul_zero, Nat.zero_add, hvalue, hhigh,
    hlow, Bool.false_eq_true, Char.ofNat_toNat]

lemma hasFourBytes_hexDigits (n : Nat) (cs : List Char) :
    hasFourBytes (Text.hexDigits 4 n ++ cs) = true := by
  have hsize (d : Nat) : 0 < (Nat.digitChar d).utf8Size := Char.utf8Size_pos _
  have h₁ := hsize (n % 16)
  have h₂ := hsize (n / 16 % 16)
  have h₃ := hsize (n / 16 / 16 % 16)
  have h₄ := hsize (n / 16 / 16 / 16 % 16)
  have htake : (Text.hexDigits 4 n ++ cs).take 4 = Text.hexDigits 4 n := rfl
  rw [hasFourBytes, htake, decide_eq_true_eq]
  simp only [Text.hexDigits, List.nil_append, List.cons_append, List.foldl_cons, List.foldl_nil]
  omega

/-- The escape of a character is read as the character. -/
lemma readText_escape (c : Char) (cs : List Char) : readText .plain (escape c ++ cs) =
    (readText .plain cs).map fun r => (c :: r.1, r.2) := by
  fun_cases escape c with
  | case1 | case2 | case3 | case4 | case5 | case6 | case7 => rfl
  | case8 c _ _ _ _ _ _ _ hcontrol =>
    have hread := readText_unit cs (hcontrol.trans (by decide : 0x20 < 0xD800))
    simp only [List.cons_append, readText, if_true]
    rw [if_pos (hasFourBytes_hexDigits _ _), hread]
    rfl
  | case9 c hquote hslash _ _ _ _ _ hcontrol =>
    simp only [List.cons_append, List.nil_append, readText]
    rw [if_neg (hquote ·), if_neg (hslash ·), if_neg hcontrol]

/-- What stands between the quotes is read in full. -/
lemma readText_escapes (s rest : List Char) :
    readText .plain (s.flatMap escape ++ '"' :: rest) = .ok (s, rest) := by
  induction s with
  | nil => rfl
  | cons c s ih =>
    rw [List.flatMap_cons, List.append_assoc, readText_escape, ih]
    rfl

/-! ## Numbers -/

lemma isSpace_of_number {c : Char} (h : c = '-' ∨ c.isDigit = true) :
    isSpace c = false ∧ c ≠ ']' := by
  rcases h with rfl | h
  · decide
  · have hne {d : Char} (hd : d.isDigit = false) : c ≠ d := by
      rintro rfl
      rw [h] at hd
      cases hd
    simp only [isSpace, Bool.or_eq_false_iff, beq_eq_false_iff_ne]
    exact ⟨⟨⟨⟨hne rfl, hne rfl⟩, hne rfl⟩, hne rfl⟩, hne rfl⟩

lemma readFrom_number {numerals : Numerals} {inner? : Option ValueReader} {c : Char}
    {cs : List Char} (h : c = '-' ∨ c.isDigit = true) : readFrom numerals inner? c cs =
      (readNumber numerals (c :: cs)).map fun r => (.number r.1, r.2) := by
  unfold readFrom
  split
  case h_7 => rw [if_pos h]
  all_goals simp_all

/-! ## Items and members -/

section Steps

variable {value : ValueReader} {cs rest : List Char}

lemma moreItems_close (h : skipSpace cs = ']' :: rest) : moreItems value cs = .ok ([], rest) := by
  unfold moreItems
  split <;> simp_all

lemma moreItems_comma (h : skipSpace cs = ',' :: rest) : moreItems value cs =
    (value.read rest).bind fun r => (moreItems value r.2).map fun s => (r.1 :: s.1, s.2) := by
  rw [moreItems]
  split
  · simp_all
  · rename_i c rest' next
    obtain ⟨rfl, rfl⟩ := List.cons.inj (h.symm.trans next)
    rw [if_neg (by decide), if_pos rfl]
    cases value.read rest <;> rfl

lemma readItems_first (h : (skipSpace cs).head? ≠ some ']') : readItems value cs =
    (value.read cs).bind fun r => (moreItems value r.2).map fun s => (r.1 :: s.1, s.2) := by
  unfold readItems
  split
  · simp_all
  · cases value.read cs <;> rfl

lemma moreMembers_close (h : skipSpace cs = '}' :: rest) :
    moreMembers value cs = .ok ([], rest) := by
  unfold moreMembers
  split <;> simp_all

lemma moreMembers_comma (h : skipSpace cs = ',' :: rest) : moreMembers value cs =
    (readMember value rest).bind fun r =>
      (moreMembers value r.2).map fun s => (r.1 :: s.1, s.2) := by
  rw [moreMembers]
  split
  · simp_all
  · rename_i c rest' next
    obtain ⟨rfl, rfl⟩ := List.cons.inj (h.symm.trans next)
    rw [if_neg (by decide), if_pos rfl]
    cases readMember value rest <;> rfl

lemma readMembers_first (h : (skipSpace cs).head? ≠ some '}') : readMembers value cs =
    (readMember value cs).bind fun r =>
      (moreMembers value r.2).map fun s => (r.1 :: s.1, s.2) := by
  unfold readMembers
  split
  · simp_all
  · cases readMember value cs <;> rfl

end Steps

/-! ## What comes after a value -/

/-- No numeral goes on with a blank, a comma or a closing bracket. -/
lemma stops_of_head {rest : List Char}
    (h : ∀ c ∈ rest.head?, isSpace c = true ∨ c = ',' ∨ c = ']' ∨ c = '}') :
    Numeral.Stops rest := by
  intro c hc
  have hchar := h c hc
  simp only [isSpace, Bool.or_eq_true, beq_iff_eq, or_assoc] at hchar
  rcases hchar with rfl | rfl | rfl | rfl | rfl | rfl | rfl <;> decide

variable {numerals : Numerals} {layout : Layout} (hlegible : layout.IsLegible)

include hlegible

lemma stops_newline (level : Nat) {c : Char} (hc : c = ']' ∨ c = '}') (rest : List Char) :
    Numeral.Stops (layout.newline level ++ c :: rest) := by
  refine stops_of_head fun d hd => ?_
  cases hline : layout.newline level with
  | nil =>
    rw [hline] at hd
    cases hd
    exact .inr (.inr hc)
  | cons b blanks =>
    rw [hline] at hd
    cases hd
    exact .inl (hlegible.newline level _ (hline ▸ List.mem_cons_self ..))

lemma stops_writeItems (items : List Json) (level outer : Nat) (rest : List Char) :
    Numeral.Stops (writeItems layout level items ++ (layout.newline outer ++ ']' :: rest)) := by
  cases items with
  | nil => exact stops_newline hlegible outer (.inl rfl) rest
  | cons item items => exact stops_of_head (by simp [writeItems])

lemma stops_writeMembers (members : List (String × Json)) (level outer : Nat)
    (rest : List Char) :
    Numeral.Stops (writeMembers layout level members ++ (layout.newline outer ++ '}' :: rest)) := by
  cases members with
  | nil => exact stops_newline hlegible outer (.inr rfl) rest
  | cons member members => exact stops_of_head (by simp [writeMembers])

/-- A member is read by reading its value. -/
lemma readMember_write (limit level : Nat) (name : String) (cs : List Char) :
    readMember (reader numerals limit)
        (layout.newline level ++ (quote name ++ (layout.colon ++ cs))) =
      ((reader numerals limit).read cs).map fun r => ((name, r.1), r.2) := by
  obtain ⟨blanks, hcolon, hblanks⟩ := hlegible.colon
  have hquote : skipSpace (layout.newline level ++ (quote name ++ (layout.colon ++ cs))) =
      '"' :: (name.toList.flatMap escape ++ '"' :: (layout.colon ++ cs)) := by
    rw [skipSpace_append (hlegible.newline level), quote, List.cons_append,
      skipSpace_cons (by decide), List.append_assoc]
    rfl
  simp only [readMember, hquote, readText_escapes]
  rw [readMemberValue, hcolon, List.cons_append, skipSpace_cons (by decide), String.ofList_toList]
  exact congrArg (Except.map _) (reader_blanks limit hblanks cs)

/-! ## Values -/

omit hlegible in
/-- A value begins neither with a blank nor with a closing bracket. -/
lemma write_eq_cons (level : Nat) (j : Json) : ∃ c cs, write layout level j = c :: cs ∧
    isSpace c = false ∧ c ≠ ']' := by
  cases j with
  | null => exact ⟨_, _, rfl, rfl, by decide⟩
  | boolean b => cases b <;> exact ⟨_, _, rfl, rfl, by decide⟩
  | number n =>
    cases n with
    | finite negative m =>
      obtain ⟨c, cs, htext, hc⟩ := Number.jsonText_eq_cons negative m
      exact ⟨c, cs, htext, isSpace_of_number hc⟩
    | infinite | notANumber => exact ⟨_, _, rfl, rfl, by decide⟩
  | text s => exact ⟨_, _, rfl, rfl, by decide⟩
  | array items => cases items <;> exact ⟨_, _, rfl, rfl, by decide⟩
  | object members => cases members <;> exact ⟨_, _, rfl, rfl, by decide⟩

omit hlegible in
/-- An array takes one level more than its items. -/
lemma readFrom_array {cs rest : List Char} {items : List Json} {needed : Nat}
    (h : ∀ limit, readItems (reader numerals limit) cs = within limit needed (items, rest))
    (limit : Nat) : readFrom numerals (readerBelow numerals limit) '[' cs =
      within limit (1 + needed) (.array items, rest) := by
  cases limit with
  | zero => rw [within, if_neg (by omega)]; rfl
  | succ limit =>
    show (readItems (reader numerals limit) cs).map _ = _
    rw [h, map_within, Nat.add_comm 1, within_succ]

omit hlegible in
/-- So does an object. -/
lemma readFrom_object {cs rest : List Char} {members : List (String × Json)} {needed : Nat}
    (h : ∀ limit, readMembers (reader numerals limit) cs = within limit needed (members, rest))
    (limit : Nat) : readFrom numerals (readerBelow numerals limit) '{' cs =
      within limit (1 + needed) (.object members, rest) := by
  cases limit with
  | zero => rw [within, if_neg (by omega)]; rfl
  | succ limit =>
    show (readMembers (reader numerals limit) cs).map _ = _
    rw [h, map_within, Nat.add_comm 1, within_succ]

omit hlegible in
/-- A number that is not finite is written as null. -/
lemma reader_number (hnumerals : numerals.RestoresWritten) (n : Number) (limit : Nat)
    {rest : List Char} (hrest : Numeral.Stops rest) :
    (reader numerals limit).read (n.jsonText ++ rest) = .ok ((number n).restored, rest) := by
  cases n with
  | finite negative m =>
    obtain ⟨c, cs, htext, hc⟩ := Number.jsonText_eq_cons negative m
    have hread := readNumber_jsonText (n := .finite negative m) hnumerals rfl hrest
    rw [htext, List.cons_append] at hread ⊢
    rw [reader_cons limit (isSpace_of_number hc).1, readFrom_number hc, hread]
    rfl
  | infinite | notANumber => exact reader_cons limit rfl _

/-- An item and the items after it, of which each is read as it is restored. -/
lemma bind_item {limit : Nat} (level : Nat) {item : Json} {items : List Json}
    {tail rest : List Char}
    (hfirst : (reader numerals limit).read (write layout level item ++ tail) =
      within limit item.depth (item.restored, tail))
    (hmore : moreItems (reader numerals limit) tail =
      within limit (depths items) (restoreds items, rest)) :
    (((reader numerals limit).read
        (layout.newline level ++ (write layout level item ++ tail))).bind fun r =>
      (moreItems (reader numerals limit) r.2).map fun s => (r.1 :: s.1, s.2)) =
        within limit (depths (item :: items)) (restoreds (item :: items), rest) := by
  rw [reader_blanks limit (hlegible.newline _), hfirst]
  refine within_bind ?_
  dsimp only
  rw [hmore, map_within]
  rfl

/-- A member and the members after it. -/
lemma bind_member {limit : Nat} (level : Nat) (name : String) {value : Json}
    {members : List (String × Json)} {tail rest : List Char}
    (hfirst : (reader numerals limit).read (write layout level value ++ tail) =
      within limit value.depth (value.restored, tail))
    (hmore : moreMembers (reader numerals limit) tail =
      within limit (memberDepths members) (restoredMembers members, rest)) :
    ((readMember (reader numerals limit) (layout.newline level ++
        (quote name ++ (layout.colon ++ (write layout level value ++ tail))))).bind fun r =>
      (moreMembers (reader numerals limit) r.2).map fun s => (r.1 :: s.1, s.2)) =
        within limit (memberDepths ((name, value) :: members))
          (restoredMembers ((name, value) :: members), rest) := by
  rw [readMember_write hlegible, hfirst, map_within]
  refine within_bind ?_
  dsimp only
  rw [hmore, map_within]
  rfl

-- By recursion on the value, for every limit at once: what stands in brackets is read with a limit
-- that is one less, and what comes after the closing bracket with the old one.
mutual

/-- A reader answers the text of a value with what the value is restored to, if it is not too
deep. -/
theorem reader_write (hnumerals : numerals.RestoresWritten) :
    ∀ (j : Json) (limit level : Nat) {rest : List Char}, Numeral.Stops rest →
      (reader numerals limit).read (write layout level j ++ rest) =
        within limit j.depth (j.restored, rest)
  | .null, limit, level, rest, _ => (reader_cons limit rfl _).trans (within_zero ..).symm
  | .boolean true, limit, level, rest, _ => (reader_cons limit rfl _).trans (within_zero ..).symm
  | .boolean false, limit, level, rest, _ => (reader_cons limit rfl _).trans (within_zero ..).symm
  | .number n, limit, level, rest, hrest =>
    (reader_number hnumerals n limit hrest).trans (within_zero ..).symm
  | .text s, limit, level, rest, _ => by
    have htext : write layout level (.text s) ++ rest =
        '"' :: (s.toList.flatMap escape ++ '"' :: rest) := by simp [write, quote]
    rw [htext, reader_cons limit rfl]
    show (readText .plain _).map _ = within limit 0 _
    rw [readText_escapes, within_zero]
    simp [Except.map, restored]
  | .array [], limit, level, rest, _ => by
    refine (reader_cons limit rfl _).trans (readFrom_array (fun n => ?_) limit)
    exact (within_zero ..).symm
  | .array (item :: items), limit, level, rest, _ => by
    obtain ⟨c, cs, htext, hspace, hclose⟩ := write_eq_cons (level + 1) item
    have hstop := stops_writeItems hlegible items (level + 1) level rest
    rw [write, List.cons_append, reader_cons limit rfl]
    refine readFrom_array (fun n => ?_) limit
    simp only [List.append_assoc, List.singleton_append]
    -- The first item does not look like the end of the array.
    rw [readItems_first]
    · exact bind_item hlegible (level + 1) (reader_write hnumerals item n (level + 1) hstop)
        (moreItems_write hnumerals items n (level + 1) level rest)
    · rw [skipSpace_append (hlegible.newline _), htext, List.cons_append, skipSpace_cons hspace]
      exact fun h => hclose (Option.some.inj h)
  | .object [], limit, level, rest, _ => by
    refine (reader_cons limit rfl _).trans (readFrom_object (fun n => ?_) limit)
    exact (within_zero ..).symm
  | .object ((name, value) :: members), limit, level, rest, _ => by
    have hstop := stops_writeMembers hlegible members (level + 1) level rest
    rw [write, List.cons_append, reader_cons limit rfl]
    refine readFrom_object (fun n => ?_) limit
    simp only [List.append_assoc, List.singleton_append]
    rw [readMembers_first]
    · exact bind_member hlegible (level + 1) name (reader_write hnumerals value n (level + 1) hstop)
        (moreMembers_write hnumerals members n (level + 1) level rest)
    · rw [skipSpace_append (hlegible.newline _), quote, List.cons_append, skipSpace_cons rfl]
      exact fun h => absurd (Option.some.inj h) (by decide)

/-- So are the items after the first, up to the bracket. -/
lemma moreItems_write (hnumerals : numerals.RestoresWritten) :
    ∀ (items : List Json) (limit level outer : Nat) (rest : List Char),
      moreItems (reader numerals limit)
          (writeItems layout level items ++ (layout.newline outer ++ ']' :: rest)) =
        within limit (depths items) (restoreds items, rest)
  | [], limit, level, outer, rest => by
    refine (moreItems_close ?_).trans (within_zero ..).symm
    exact (skipSpace_append (hlegible.newline outer) _).trans (skipSpace_cons rfl _)
  | item :: items, limit, level, outer, rest => by
    have hstop := stops_writeItems hlegible items level outer rest
    rw [writeItems, List.cons_append, moreItems_comma (skipSpace_cons rfl _)]
    simp only [List.append_assoc]
    exact bind_item hlegible level (reader_write hnumerals item limit level hstop)
      (moreItems_write hnumerals items limit level outer rest)

/-- And the members after the first. -/
lemma moreMembers_write (hnumerals : numerals.RestoresWritten) :
    ∀ (members : List (String × Json)) (limit level outer : Nat) (rest : List Char),
      moreMembers (reader numerals limit)
          (writeMembers layout level members ++ (layout.newline outer ++ '}' :: rest)) =
        within limit (memberDepths members) (restoredMembers members, rest)
  | [], limit, level, outer, rest => by
    refine (moreMembers_close ?_).trans (within_zero ..).symm
    exact (skipSpace_append (hlegible.newline outer) _).trans (skipSpace_cons rfl _)
  | (name, value) :: members, limit, level, outer, rest => by
    have hstop := stops_writeMembers hlegible members level outer rest
    rw [writeMembers, List.cons_append, moreMembers_comma (skipSpace_cons rfl _)]
    simp only [List.append_assoc]
    exact bind_member hlegible level name (reader_write hnumerals value limit level hstop)
      (moreMembers_write hnumerals members limit level outer rest)

end

/-- A whole text may nest as deep as the limit allows. -/
lemma readValueBy_textIn (hnumerals : numerals.RestoresWritten) (j : Json) :
    readValueBy numerals (j.textIn layout).toList = within depthLimit j.depth (j.restored, []) := by
  have hread := reader_write hlegible hnumerals j depthLimit 0 Numeral.stops_nil
  rw [List.append_nil] at hread
  rw [readValueBy, textIn, String.toList_ofList, hread]

end FormulaTree.Json
