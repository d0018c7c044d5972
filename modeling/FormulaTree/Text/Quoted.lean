import FormulaTree.Attempt
import FormulaTree.Text.Hex
import FormulaTree.Token.Scanned

/-!
# Quoted text

A formula writes a text between quotes, where a backslash gives the character after it another
meaning.  `quote` writes a text so, and `readQuoted` reads what stands between two quotes.

Reading allows more than writing uses: either kind of quote, and for any character a backslash
before it that changes nothing.  A line feed must not stand between the quotes on its own.
-/

namespace FormulaTree.Text

/-! ## Writing -/

/-- Whether a character is a control character. -/
def isControl (c : Char) : Bool := c.toNat < 0x20 || (0x7F ≤ c.toNat && c.toNat < 0xA0)

/-- A character as it is written between quotes. -/
def escape (c : Char) : List Char :=
  match c with
  | '\\' => ['\\', '\\']
  | '"' => ['\\', '"']
  | '\n' => ['\\', 'n']
  | '\r' => ['\\', 'r']
  | '\t' => ['\\', 't']
  | c => if isControl c then '\\' :: 'x' :: hexDigits 2 c.toNat else [c]

/-- A text between double quotes. -/
def quote (s : String) : List Char := '"' :: (s.toList.flatMap escape ++ ['"'])

/-! ## Reading -/

/-- The character that an escaped character stands for, where that is a single one. -/
def unescape : Char → Char
  | 'n' => '\n'
  | 't' => '\t'
  | 'r' => '\r'
  | 'b' => '\x08'
  | 'f' => '\x0c'
  | 'v' => '\x0b'
  | '0' => '\x00'
  | c => c

/-- What the next character between the quotes is part of. -/
inductive QuoteState where
  | plain
  | escaped
  /-- A character given by its code, of which `missing` digits are still to come.  The escape
  begins at `start` and the digits before have the value `value`. -/
  | code (start : Position) (missing : Nat) (value : Nat)

/-- Reads up to the closing quote, and over it. -/
def readQuoted (opened : Position) (mark : Char) :
    QuoteState → Position → List Char → Except ScanError (Scanned (List Char))
  | .plain, p, [] => .error ⟨.unterminatedText, ⟨opened, p⟩⟩
  | .plain, p, c :: cs =>
    if c = '\n' then .error ⟨.unterminatedText, ⟨opened, p⟩⟩
    else if c = mark then .ok ⟨[], p.next c, cs⟩
    else if c = '\\' then readQuoted opened mark .escaped (p.next c) cs
    else (readQuoted opened mark .plain (p.next c) cs).map (·.map (c :: ·))
  | .escaped, p, [] => .error ⟨.unterminatedText, ⟨opened, p⟩⟩
  | .escaped, p, c :: cs =>
    if c = 'x' then readQuoted opened mark (.code p 2 0) (p.next c) cs
    else if c = 'u' then readQuoted opened mark (.code p 4 0) (p.next c) cs
    else (readQuoted opened mark .plain (p.next c) cs).map (·.map (unescape c :: ·))
  | .code start _ _, p, [] => .error ⟨.invalidEscape, ⟨start, p⟩⟩
  | .code start missing value, p, c :: cs =>
    match hexValue? c with
    | none => .error ⟨.invalidEscape, ⟨start, p⟩⟩
    | some digit =>
      let value := 16 * value + digit
      if 1 < missing then
        readQuoted opened mark (.code start (missing - 1) value) (p.next c) cs
      else if value.isValidChar then
        (readQuoted opened mark .plain (p.next c) cs).map (·.map (Char.ofNat value :: ·))
      else .error ⟨.invalidEscape, ⟨start, p.next c⟩⟩

/-- Reading takes at least the closing quote. -/
theorem readQuoted_length {opened p : Position} {mark : Char} {state : QuoteState}
    {cs : List Char} {s : Scanned (List Char)}
    (h : readQuoted opened mark state p cs = .ok s) : s.rest.length < cs.length := by
  fun_induction readQuoted opened mark state p cs generalizing s with
  | case1 | case2 | case6 | case10 | case11 | case14 => simp at h
  | case3 => cases h; simp
  | case4 | case7 | case8 | case12 =>
    rename_i ih
    exact Nat.lt_succ_of_lt (ih h)
  | case5 | case9 | case13 =>
    rename_i ih
    obtain ⟨t, ht, rfl⟩ := map_eq_ok.1 h
    have shorter : t.rest.length < _ := ih ht
    exact Nat.lt_succ_of_lt shorter

end FormulaTree.Text
