import FormulaTree.Json.Basic
import FormulaTree.Reader
import FormulaTree.Text.Hex

/-!
# Reading JSON text

The reader accepts just the standard notation.  When it fails it says whether the text ended
too early or was malformed, and nothing else.

The notation does not say which number a numeral stands for: few decimals are numbers, and readers
differ in how they round.  So a reader is built over a way of reading numerals, which is a parameter
(`Numerals`), and what is said about stored values names what it takes for granted of it.  The
program reads a numeral as the number nearest to it (`Numerals.nearest`).

Arrays and objects may be nested `depthLimit` levels deep; the bracket that opens one level more
is an error whatever comes after it.  As for formulas, the reader of a level is built from the
reader of the level below.
-/

namespace FormulaTree.Json

/-- Why a text is not a JSON value. -/
inductive Fault where
  /-- The text ended before the value did. -/
  | ended
  | malformed
deriving DecidableEq

/-- How many levels deep arrays and objects may be nested. -/
def depthLimit : Nat := 127

/-! ## Blanks -/

/-- The blanks of JSON text. -/
def isSpace (c : Char) : Bool := c == ' ' || c == '\t' || c == '\n' || c == '\r'

/-- Skips blanks. -/
def skipSpace (cs : List Char) : List Char := cs.dropWhile isSpace

theorem skipSpace_suffix (cs : List Char) : skipSpace cs <:+ cs := List.dropWhile_suffix _

/-! ## Words -/

/-- Takes a given word off the front of a text. -/
def readWord : List Char → List Char → Except Fault (List Char)
  | [], cs => .ok cs
  | _ :: _, [] => .error .ended
  | w :: ws, c :: cs => if c = w then readWord ws cs else .error .malformed

theorem readWord_suffix {ws cs rest : List Char} (h : readWord ws cs = .ok rest) :
    rest <:+ cs := by
  fun_induction readWord ws cs with
  | case1 => cases h; exact List.suffix_rfl
  | case2 | case4 => cases h
  | case3 _ _ _ ih => exact (ih h).trans (List.suffix_cons _ _)

/-! ## Numbers -/

/-- Takes the digits before the point: a zero alone, or digits that do not begin with one. -/
def readWhole : List Char → Except Fault (List Char × List Char)
  | [] => .error .ended
  | c :: cs =>
    if c = '0' then
      if cs.head?.any Char.isDigit then .error .malformed else .ok (['0'], cs)
    else if c.isDigit then .ok (c :: cs.takeWhile Char.isDigit, cs.dropWhile Char.isDigit)
    else .error .malformed

/-- Takes one digit or more. -/
def readDigits (cs : List Char) : Except Fault (List Char × List Char) :=
  match cs with
  | [] => .error .ended
  | c :: _ =>
    if c.isDigit then .ok (cs.takeWhile Char.isDigit, cs.dropWhile Char.isDigit)
    else .error .malformed

/-- Takes a point and the digits after it, if there is a point. -/
def readFraction : List Char → Except Fault (List Char × List Char)
  | '.' :: cs => readDigits cs
  | cs => .ok ([], cs)

/-- Takes an exponent, if there is one. -/
def readExponent : List Char → Except Fault (Int × List Char)
  | [] => .ok (0, [])
  | c :: cs =>
    if c = 'e' ∨ c = 'E' then
      match cs with
      | '-' :: cs => (readDigits cs).map fun r => (-(valueOf r.1 : Int), r.2)
      | '+' :: cs => (readDigits cs).map fun r => (valueOf r.1, r.2)
      | cs => (readDigits cs).map fun r => (valueOf r.1, r.2)
    else .ok (0, c :: cs)

/-- A way of reading numerals. -/
structure Numerals where
  /-- The number that a sign, the digits before and after the point and an exponent stand for; there
  is none if it would be too large. -/
  number? (negative : Bool) (whole fraction : List Char) (exponent : Int) : Option Number

/-- A numeral stands for the number nearest to it, if that is finite. -/
def Numerals.nearest : Numerals where
  number? negative whole fraction exponent :=
    let n := Number.ofDecimal negative (valueOf (whole ++ fraction)) (exponent - fraction.length)
    if n.isFinite then some n else none

/-- What is read where a numeral with these parts stands.  One that stands for no number is
malformed. -/
def Numerals.read (numerals : Numerals) (negative : Bool) (whole fraction : List Char)
    (exponent : Int) : Except Fault Number :=
  match numerals.number? negative whole fraction exponent with
  | some n => .ok n
  | none => .error .malformed

/-- Takes a number without its sign. -/
def readUnsigned (numerals : Numerals) (negative : Bool) (cs : List Char) :
    Except Fault (Number × List Char) :=
  match readWhole cs with
  | .error f => .error f
  | .ok (whole, cs) =>
    match readFraction cs with
    | .error f => .error f
    | .ok (fraction, cs) =>
      match readExponent cs with
      | .error f => .error f
      | .ok (exponent, cs) => (numerals.read negative whole fraction exponent).map (·, cs)

/-- Takes a number. -/
def readNumber (numerals : Numerals) : List Char → Except Fault (Number × List Char)
  | '-' :: cs => readUnsigned numerals true cs
  | cs => readUnsigned numerals false cs

theorem readWhole_follows {cs whole rest : List Char} (h : readWhole cs = .ok (whole, rest)) :
    Follows rest cs := by
  cases cs with
  | nil => cases h
  | cons c cs =>
    simp only [readWhole] at h
    repeat' split at h
    all_goals cases h
    · exact .tail _ _
    · exact .cons _ (List.dropWhile_suffix _)

theorem readDigits_suffix {cs digits rest : List Char} (h : readDigits cs = .ok (digits, rest)) :
    rest <:+ cs := by
  unfold readDigits at h
  repeat' split at h
  all_goals cases h
  exact List.dropWhile_suffix _

theorem readFraction_suffix {cs fraction rest : List Char}
    (h : readFraction cs = .ok (fraction, rest)) : rest <:+ cs := by
  unfold readFraction at h
  split at h
  · exact (readDigits_suffix h).trans (List.suffix_cons _ _)
  · cases h
    exact List.suffix_rfl

theorem readExponent_suffix {cs rest : List Char} {e : Int}
    (h : readExponent cs = .ok (e, rest)) : rest <:+ cs := by
  cases cs with
  | nil => cases h; exact List.suffix_rfl
  | cons c cs =>
    simp only [readExponent] at h
    split at h
    · split at h
      all_goals
        obtain ⟨⟨digits, rest'⟩, hdigits, heq⟩ := map_eq_ok.1 h
        cases heq
      · exact (readDigits_suffix hdigits).trans
          ((List.suffix_cons _ _).trans (List.suffix_cons _ _))
      · exact (readDigits_suffix hdigits).trans
          ((List.suffix_cons _ _).trans (List.suffix_cons _ _))
      · exact (readDigits_suffix hdigits).trans (List.suffix_cons _ _)
    · cases h
      exact List.suffix_rfl

theorem readUnsigned_follows {numerals : Numerals} {negative : Bool} {cs rest : List Char}
    {n : Number} (h : readUnsigned numerals negative cs = .ok (n, rest)) : Follows rest cs := by
  unfold readUnsigned at h
  split at h
  · cases h
  · rename_i whole cs₁ hwhole
    split at h
    · cases h
    · rename_i fraction cs₂ hfraction
      split at h
      · cases h
      · rename_i exponent cs₃ hexponent
        obtain ⟨_, _, heq⟩ := map_eq_ok.1 h
        cases heq
        exact .trans_suffix
          ((readExponent_suffix hexponent).trans (readFraction_suffix hfraction))
          (readWhole_follows hwhole)

theorem readNumber_follows {numerals : Numerals} {cs rest : List Char} {n : Number}
    (h : readNumber numerals cs = .ok (n, rest)) : Follows rest cs := by
  unfold readNumber at h
  split at h
  · exact .cons _ (readUnsigned_follows h).suffix
  · exact readUnsigned_follows h

/-! ## Texts -/

/-- The character that an escaped character stands for, where that is a single one. -/
def unescape? : Char → Option Char
  | '"' => some '"'
  | '\\' => some '\\'
  | '/' => some '/'
  | 'b' => some '\x08'
  | 'f' => some '\x0c'
  | 'n' => some '\n'
  | 'r' => some '\r'
  | 't' => some '\t'
  | _ => none

/-- Whether a code unit is the first half of a pair. -/
def isHighHalf (unit : Nat) : Bool := 0xD800 ≤ unit && unit < 0xDC00

/-- Whether a code unit is the second half of a pair. -/
def isLowHalf (unit : Nat) : Bool := 0xDC00 ≤ unit && unit < 0xE000

/-- The character that a pair of code units stands for. -/
def combine (high low : Nat) : Char :=
  Char.ofNat (0x10000 + (high - 0xD800) * 0x400 + (low - 0xDC00))

/-- Whether at least four bytes of text are left, as the four digits of a code unit need. -/
def hasFourBytes (cs : List Char) : Bool :=
  4 ≤ (cs.take 4).foldl (fun size c => size + c.utf8Size) 0

/-- What the next character between the quotes is part of. -/
inductive TextState where
  | plain
  | escaped
  /-- A code unit, of which `missing` digits are still to come, perhaps after the first half of
  a pair.  The digits before have the value `value`. -/
  | unit (high? : Option Nat) (missing : Nat) (value : Nat)
  /-- The second half of a pair has to come. -/
  | half (high : Nat)
  | halfEscaped (high : Nat)

/-- Reads up to the closing quote, and over it. -/
def readText : TextState → List Char → Except Fault (List Char × List Char)
  | .plain, [] => .error .ended
  | .plain, c :: cs =>
    if c = '"' then .ok ([], cs)
    else if c = '\\' then readText .escaped cs
    else if c.toNat < 0x20 then .error .malformed
    else (readText .plain cs).map fun r => (c :: r.1, r.2)
  | .escaped, [] => .error .ended
  | .escaped, c :: cs =>
    if c = 'u' then
      if hasFourBytes cs then readText (.unit none 4 0) cs else .error .ended
    else match unescape? c with
      | some c => (readText .plain cs).map fun r => (c :: r.1, r.2)
      | none => .error .malformed
  | .unit _ _ _, [] => .error .ended
  | .unit high? missing value, c :: cs =>
    match Text.hexValue? c with
    | none => .error .malformed
    | some digit =>
      let value := 16 * value + digit
      if 1 < missing then readText (.unit high? (missing - 1) value) cs
      else match high? with
        | none =>
          if isHighHalf value then readText (.half value) cs
          else if isLowHalf value then .error .malformed
          else (readText .plain cs).map fun r => (Char.ofNat value :: r.1, r.2)
        | some high =>
          if isLowHalf value then
            (readText .plain cs).map fun r => (combine high value :: r.1, r.2)
          else .error .malformed
  | .half _, [] => .error .ended
  | .half high, c :: cs => if c = '\\' then readText (.halfEscaped high) cs else .error .malformed
  | .halfEscaped _, [] => .error .ended
  | .halfEscaped high, c :: cs =>
    if c = 'u' then
      if hasFourBytes cs then readText (.unit (some high) 4 0) cs else .error .ended
    else .error .malformed

theorem readText_follows {state : TextState} {cs text rest : List Char}
    (h : readText state cs = .ok (text, rest)) : Follows rest cs := by
  fun_induction readText state cs generalizing text with
  | case2 => cases h; exact .tail _ _
  | case3 | case7 | case13 | case14 | case20 | case23 =>
    rename_i ih
    exact .cons _ (ih h).suffix
  | case5 | case9 | case16 | case17 =>
    rename_i ih
    obtain ⟨r, hr, heq⟩ := map_eq_ok.1 h
    cases heq
    exact .cons _ (ih hr).suffix
  | _ => cases h

/-! ## Arrays and objects -/

/-- A reader of JSON values. -/
abbrev ValueReader := Reader Char Fault Json

/-- Reads the items after the first, and the closing bracket. -/
def moreItems (value : ValueReader) (cs : List Char) : Except Fault (List Json × List Char) :=
  match _next : skipSpace cs with
  | [] => .error .ended
  | c :: rest =>
    if c = ']' then .ok ([], rest)
    else if c = ',' then
      match _item : value.read rest with
      | .error f => .error f
      | .ok (item, rest') => (moreItems value rest').map fun r => (item :: r.1, r.2)
    else .error .malformed
termination_by cs.length
decreasing_by
  have skipped := (skipSpace_suffix cs).length_le
  have item := (value.follows _item).length_lt
  rw [_next, List.length_cons] at skipped
  omega

theorem moreItems_follows {value : ValueReader} {cs rest : List Char} {items : List Json}
    (h : moreItems value cs = .ok (items, rest)) : Follows rest cs := by
  fun_induction moreItems value cs generalizing items with
  | case1 | case3 | case5 => cases h
  | case2 cs rest' next =>
    cases h
    exact .suffix_trans (next ▸ .tail _ _) (skipSpace_suffix cs)
  | case4 =>
    rename_i cs rest' item rest'' hitem next _ ih
    obtain ⟨r, hr, heq⟩ := map_eq_ok.1 h
    cases heq
    exact .suffix_trans
      (next ▸ .cons _ ((ih hr).suffix.trans (value.follows hitem).suffix)) (skipSpace_suffix cs)

/-- Reads an array, after its opening bracket. -/
def readItems (value : ValueReader) (cs : List Char) : Except Fault (List Json × List Char) :=
  match skipSpace cs with
  | ']' :: rest => .ok ([], rest)
  | _ =>
    match value.read cs with
    | .error f => .error f
    | .ok (item, rest) => (moreItems value rest).map fun r => (item :: r.1, r.2)

theorem readItems_follows {value : ValueReader} {cs rest : List Char} {items : List Json}
    (h : readItems value cs = .ok (items, rest)) : Follows rest cs := by
  unfold readItems at h
  split at h
  · rename_i rest' next
    cases h
    exact .suffix_trans (next ▸ .tail _ _) (skipSpace_suffix cs)
  · split at h
    · cases h
    · rename_i item rest' hitem
      obtain ⟨r, hr, heq⟩ := map_eq_ok.1 h
      cases heq
      exact .trans_suffix (moreItems_follows hr).suffix (value.follows hitem)

/-- Reads the value of a member, after its name. -/
def readMemberValue (value : ValueReader) (name : List Char) (cs : List Char) :
    Except Fault ((String × Json) × List Char) :=
  match skipSpace cs with
  | [] => .error .ended
  | ':' :: rest => (value.read rest).map fun r => ((String.ofList name, r.1), r.2)
  | _ => .error .malformed

theorem readMemberValue_follows {value : ValueReader} {name cs rest : List Char}
    {member : String × Json} (h : readMemberValue value name cs = .ok (member, rest)) :
    Follows rest cs := by
  unfold readMemberValue at h
  split at h
  · cases h
  · rename_i rest' next
    obtain ⟨r, hr, heq⟩ := map_eq_ok.1 h
    cases heq
    exact .suffix_trans (next ▸ .cons _ (value.follows hr).suffix) (skipSpace_suffix cs)
  · cases h

/-- Reads a member: a name and a value. -/
def readMember (value : ValueReader) (cs : List Char) :
    Except Fault ((String × Json) × List Char) :=
  match skipSpace cs with
  | [] => .error .ended
  | '"' :: rest =>
    match readText .plain rest with
    | .error f => .error f
    | .ok (name, rest') => readMemberValue value name rest'
  | _ => .error .malformed

theorem readMember_follows {value : ValueReader} {cs rest : List Char} {member : String × Json}
    (h : readMember value cs = .ok (member, rest)) : Follows rest cs := by
  unfold readMember at h
  split at h
  · cases h
  · rename_i rest' next
    split at h
    · cases h
    · rename_i name rest'' hname
      exact .suffix_trans
        (next ▸ .cons _ ((readMemberValue_follows h).suffix.trans (readText_follows hname).suffix))
        (skipSpace_suffix cs)
  · cases h

/-- Reads the members after the first, and the closing bracket. -/
def moreMembers (value : ValueReader) (cs : List Char) :
    Except Fault (List (String × Json) × List Char) :=
  match _next : skipSpace cs with
  | [] => .error .ended
  | c :: rest =>
    if c = '}' then .ok ([], rest)
    else if c = ',' then
      match _member : readMember value rest with
      | .error f => .error f
      | .ok (member, rest') => (moreMembers value rest').map fun r => (member :: r.1, r.2)
    else .error .malformed
termination_by cs.length
decreasing_by
  have skipped := (skipSpace_suffix cs).length_le
  have member := (readMember_follows _member).length_lt
  rw [_next, List.length_cons] at skipped
  omega

theorem moreMembers_follows {value : ValueReader} {cs rest : List Char}
    {members : List (String × Json)} (h : moreMembers value cs = .ok (members, rest)) :
    Follows rest cs := by
  fun_induction moreMembers value cs generalizing members with
  | case1 | case3 | case5 => cases h
  | case2 cs rest' next =>
    cases h
    exact .suffix_trans (next ▸ .tail _ _) (skipSpace_suffix cs)
  | case4 =>
    rename_i cs rest' member rest'' hmember next _ ih
    obtain ⟨r, hr, heq⟩ := map_eq_ok.1 h
    cases heq
    exact .suffix_trans
      (next ▸ .cons _ ((ih hr).suffix.trans (readMember_follows hmember).suffix))
      (skipSpace_suffix cs)

/-- Reads an object, after its opening bracket. -/
def readMembers (value : ValueReader) (cs : List Char) :
    Except Fault (List (String × Json) × List Char) :=
  match skipSpace cs with
  | '}' :: rest => .ok ([], rest)
  | _ =>
    match readMember value cs with
    | .error f => .error f
    | .ok (member, rest) => (moreMembers value rest).map fun r => (member :: r.1, r.2)

theorem readMembers_follows {value : ValueReader} {cs rest : List Char}
    {members : List (String × Json)} (h : readMembers value cs = .ok (members, rest)) :
    Follows rest cs := by
  unfold readMembers at h
  split at h
  · rename_i rest' next
    cases h
    exact .suffix_trans (next ▸ .tail _ _) (skipSpace_suffix cs)
  · split at h
    · cases h
    · rename_i member rest' hmember
      obtain ⟨r, hr, heq⟩ := map_eq_ok.1 h
      cases heq
      exact .trans_suffix (moreMembers_follows hr).suffix (readMember_follows hmember)

/-! ## Values -/

/-- Reads a value that begins with the character `c`. -/
def readFrom (numerals : Numerals) (inner? : Option ValueReader) (c : Char) (cs : List Char) :
    Except Fault (Json × List Char) :=
  match c with
  | 'n' => (readWord "ull".toList cs).map (.null, ·)
  | 't' => (readWord "rue".toList cs).map (.boolean true, ·)
  | 'f' => (readWord "alse".toList cs).map (.boolean false, ·)
  | '"' => (readText .plain cs).map fun r => (.text (String.ofList r.1), r.2)
  | '[' =>
    match inner? with
    | none => .error .malformed
    | some inner => (readItems inner cs).map fun r => (.array r.1, r.2)
  | '{' =>
    match inner? with
    | none => .error .malformed
    | some inner => (readMembers inner cs).map fun r => (.object r.1, r.2)
  | c =>
    if c = '-' ∨ c.isDigit then (readNumber numerals (c :: cs)).map fun r => (.number r.1, r.2)
    else .error .malformed

theorem readFrom_follows {numerals : Numerals} {inner? : Option ValueReader} {c : Char}
    {cs rest : List Char} {j : Json} (h : readFrom numerals inner? c cs = .ok (j, rest)) :
    Follows rest (c :: cs) := by
  unfold readFrom at h
  repeat' split at h
  case isTrue =>
    obtain ⟨r, hr, heq⟩ := map_eq_ok.1 h
    cases heq
    exact readNumber_follows hr
  all_goals first
    | cases h
    | obtain ⟨r, hr, heq⟩ := map_eq_ok.1 h
      cases heq
      apply Follows.cons
  · exact readWord_suffix hr
  · exact readWord_suffix hr
  · exact readWord_suffix hr
  · exact (readText_follows hr).suffix
  · exact (readItems_follows hr).suffix
  · exact (readMembers_follows hr).suffix

/-- The reader of values over the reader of the values inside them. -/
def value (numerals : Numerals) (inner? : Option ValueReader) : ValueReader where
  read cs :=
    match skipSpace cs with
    | [] => .error .ended
    | c :: rest => readFrom numerals inner? c rest
  follows := by
    intro cs j rest h
    split at h
    · cases h
    · rename_i c rest' next
      exact .suffix_trans (next ▸ readFrom_follows h) (skipSpace_suffix cs)

/-- The reader of values with a given number of levels inside. -/
def reader (numerals : Numerals) : Nat → ValueReader
  | 0 => value numerals none
  | n + 1 => value numerals (some (reader numerals n))

/-- Reads a value off the front of a text, with the numerals read in a given way. -/
def readValueBy (numerals : Numerals) (cs : List Char) : Except Fault (Json × List Char) :=
  (reader numerals depthLimit).read cs

/-- Reads a value off the front of a text. -/
def readValue (cs : List Char) : Except Fault (Json × List Char) := readValueBy .nearest cs

end FormulaTree.Json
