import FormulaTree.Text.Alphabetic
import FormulaTree.Text.Numeric
import FormulaTree.Text.Quoted
import FormulaTree.Token.Basic
import FormulaTree.Token.Numeral
import FormulaTree.Token.Trivia

/-!
# From text to tokens

`Token.scan` reads one token off the front of a text and `Token.ofText` reads them all.  Which
kind of token comes next is decided by one character, but for a point, which begins a number if
a digit follows; how long it is, by taking as many characters as make sense.

A formula may begin with a single equals sign, as in a spreadsheet; it is skipped.
-/

namespace FormulaTree.Token

/-! ## Names -/

/-- Whether a name may begin with a character. -/
def isNameStart (c : Char) : Bool := Text.isAlphabetic c || c == '_' || c == '$'

/-- Whether a name may go on with a character. -/
def isNamePart (c : Char) : Bool :=
  Text.isAlphabetic c || Text.isNumeric c || c == '_' || c == '$'

/-- What a name says when it stands alone. -/
def Kind.ofName (name : List Char) : Kind :=
  if name = "true".toList then .boolean true
  else if name = "false".toList then .boolean false
  else .identifier (String.ofList name)

/-! ## Numbers -/

/-- Closes a number that ends at `stop`.  A number must not run into a name, and what was
written must have a value. -/
def closeNumber (start stop : Position) (lead written rest : List Char) (value? : Option Number) :
    Except ScanError (Scanned Kind) :=
  match rest, value? with
  | [], some value => .ok ⟨.number value, stop, []⟩
  | [], none => .error ⟨.invalidNumber written, ⟨start, stop⟩⟩
  | c :: cs, value? =>
    if isNamePart c then .error ⟨.invalidNumber (lead ++ [c]), ⟨start, stop.next c⟩⟩
    else match value? with
      | some value => .ok ⟨.number value, stop, c :: cs⟩
      | none => .error ⟨.invalidNumber written, ⟨start, stop⟩⟩

/-- The bound on hexadecimal numbers. -/
def hexLimit : Nat := Nat.pow 2 64

/-- Reads the digits of a hexadecimal number; `stop` is the place before them. -/
def scanHex (start stop : Position) (cs : List Char) : Except ScanError (Scanned Kind) :=
  let digits := cs.takeWhile Text.isHexDigit
  let value := Text.hexValue digits
  closeNumber start (stop.after digits) "0x".toList ("0x".toList ++ digits)
    (cs.dropWhile Text.isHexDigit)
    (if digits ≠ [] ∧ value < hexLimit then some (.ofNat value) else none)

/-- Reads a decimal number. -/
def scanDecimal (start : Position) (cs : List Char) : Except ScanError (Scanned Kind) :=
  let numeral := (Numeral.read cs).1
  closeNumber start (start.after numeral.text) numeral.text numeral.text (Numeral.read cs).2
    numeral.value?

/-- Reads a number. -/
def scanNumber (start : Position) : List Char → Except ScanError (Scanned Kind)
  | '0' :: 'x' :: cs => scanHex start ((start.next '0').next 'x') cs
  | '0' :: 'X' :: cs => scanHex start ((start.next '0').next 'X') cs
  | cs => scanDecimal start cs

/-! ## Signs and marks -/

/-- Takes the longest operator sign off the front of a text. -/
def takeSign : List Char → Option (Sign × List Char)
  | '+' :: cs => some (.plus, cs)
  | '-' :: cs => some (.minus, cs)
  | '*' :: cs => some (.star, cs)
  | '/' :: cs => some (.slash, cs)
  | '%' :: cs => some (.percent, cs)
  | '&' :: '&' :: cs => some (.doubleAmpersand, cs)
  | '&' :: cs => some (.ampersand, cs)
  | '|' :: '|' :: cs => some (.doubleBar, cs)
  | '|' :: cs => some (.bar, cs)
  | '<' :: '=' :: cs => some (.lessOrEqual, cs)
  | '<' :: cs => some (.less, cs)
  | '>' :: '=' :: cs => some (.greaterOrEqual, cs)
  | '>' :: cs => some (.greater, cs)
  | '=' :: '=' :: '=' :: cs => some (.strictEqual, cs)
  | '=' :: '=' :: cs => some (.equal, cs)
  | '!' :: '=' :: '=' :: cs => some (.strictNotEqual, cs)
  | '!' :: '=' :: cs => some (.notEqual, cs)
  | '!' :: cs => some (.bang, cs)
  | _ => none

/-- The sign and what comes after it make up the text. -/
theorem takeSign_eq_some {cs rest : List Char} {sign : Sign}
    (h : takeSign cs = some (sign, rest)) : cs = sign.text.toList ++ rest := by
  fun_cases takeSign cs <;> simp_all [takeSign] <;> (obtain ⟨rfl, rfl⟩ := h; rfl)

/-- The token that a punctuation mark is. -/
def Kind.ofMark? : Char → Option Kind
  | '(' => some .openParen
  | ')' => some .closeParen
  | ',' => some .comma
  | '.' => some .dot
  | '?' => some .question
  | ':' => some .colon
  | ';' => some .semicolon
  | _ => none

/-! ## Tokens -/

/-- Whether a number begins here. -/
def startsNumber : List Char → Bool
  | '.' :: c :: _ => c.isDigit
  | c :: _ => c.isDigit
  | [] => false

/-- Reads one token that begins with the character `c`. -/
def scan (p : Position) (c : Char) (cs : List Char) : Except ScanError (Scanned Kind) :=
  if c = '"' ∨ c = '\'' then
    (Text.readQuoted p c .plain (p.next c) cs).map (·.map fun s => .text (String.ofList s))
  else if startsNumber (c :: cs) then
    scanNumber p (c :: cs)
  else if c = '@' then
    if cs.head?.any isNameStart then
      let name := cs.takeWhile isNamePart
      .ok ⟨.field (String.ofList ('@' :: name)), (p.next c).after name, cs.dropWhile isNamePart⟩
    else .error ⟨.unexpectedCharacter '@', ⟨p, p.next c⟩⟩
  else if isNameStart c then
    let name := c :: cs.takeWhile isNamePart
    .ok ⟨.ofName name, p.after name, cs.dropWhile isNamePart⟩
  else match Kind.ofMark? c, takeSign (c :: cs) with
    | some kind, _ => .ok ⟨kind, p.next c, cs⟩
    | none, some (sign, rest) => .ok ⟨.operator sign, p.after sign.text.toList, rest⟩
    | none, none =>
      if c = '=' then .error ⟨.assignment, ⟨p, p.next c⟩⟩
      else .error ⟨.unexpectedCharacter c, ⟨p, p.next c⟩⟩

/-! ## Every token takes some text -/

theorem closeNumber_rest {start stop : Position} {lead written rest : List Char}
    {value? : Option Number} {s : Scanned Kind}
    (h : closeNumber start stop lead written rest value? = .ok s) : s.rest = rest := by
  revert h
  fun_cases closeNumber start stop lead written rest value? <;> intro h <;> simp_all <;>
    (subst h; rfl)

theorem length_dropWhile_le (f : Char → Bool) (cs : List Char) :
    (cs.dropWhile f).length ≤ cs.length :=
  (List.dropWhile_suffix f).length_le

theorem scanDecimal_length {start : Position} {c : Char} {cs : List Char} {s : Scanned Kind}
    (begins : c.isDigit = true ∨ c = '.') (h : scanDecimal start (c :: cs) = .ok s) :
    s.rest.length < (c :: cs).length := by
  have rest : s.rest = (Numeral.read (c :: cs)).2 := closeNumber_rest h
  have whole := congrArg List.length (Numeral.read_text (c :: cs))
  have positive := List.length_pos_iff.2 (Numeral.read_text_ne_nil cs begins)
  rw [List.length_append] at whole
  rw [rest]
  omega

theorem scanHex_length {start stop : Position} {cs : List Char} {s : Scanned Kind}
    (h : scanHex start stop cs = .ok s) : s.rest.length ≤ cs.length := by
  rw [closeNumber_rest h]
  exact length_dropWhile_le _ _

theorem startsNumber_cons {c : Char} {cs : List Char} (h : startsNumber (c :: cs) = true) :
    c.isDigit = true ∨ c = '.' := by
  revert h
  generalize hw : c :: cs = word
  fun_cases startsNumber word <;> simp_all

theorem scanNumber_length {start : Position} {c : Char} {cs : List Char} {s : Scanned Kind}
    (begins : startsNumber (c :: cs) = true) (h : scanNumber start (c :: cs) = .ok s) :
    s.rest.length < (c :: cs).length := by
  have first := startsNumber_cons begins
  revert h
  generalize hw : c :: cs = word
  fun_cases scanNumber start word with
  | case1 cs | case2 cs =>
    intro h
    have := scanHex_length h
    simp only [List.length_cons]
    omega
  | case3 word =>
    subst hw
    exact fun h => scanDecimal_length first h

/-- A token takes at least the character it begins with. -/
theorem scan_length {p : Position} {c : Char} {cs : List Char} {s : Scanned Kind}
    (h : scan p c cs = .ok s) : s.rest.length < (c :: cs).length := by
  revert h
  fun_cases scan p c cs with
  | case1 =>
    intro h
    obtain ⟨t, ht, rfl⟩ := map_eq_ok.1 h
    exact Nat.lt_succ_of_lt (Text.readQuoted_length ht)
  | case2 _ begins => exact scanNumber_length begins
  | case3 | case5 =>
    rintro ⟨⟩
    exact Nat.lt_succ_of_le (length_dropWhile_le _ _)
  | case6 => rintro ⟨⟩; exact Nat.lt_succ_self _
  | case7 =>
    rename_i sign rest signed _
    rintro ⟨⟩
    have whole := congrArg List.length (takeSign_eq_some signed)
    have positive : 0 < sign.text.toList.length := by cases sign <;> decide
    rw [List.length_append] at whole
    show rest.length < _
    omega
  | case4 | case8 | case9 => simp

/-- Reads the tokens from a place on. -/
def tokensFrom (p : Position) (cs : List Char) : Except ScanError (List Token) :=
  match _skip : skipTrivia p cs with
  | .error e => .error e
  | .ok (_, []) => .ok []
  | .ok (q, c :: rest) =>
    match _scan : scan q c rest with
    | .error e => .error e
    | .ok s => (tokensFrom s.position s.rest).map (⟨s.value, ⟨q, s.position⟩⟩ :: ·)
termination_by cs.length
decreasing_by
  have := skipGap_length _skip
  have := scan_length _scan
  omega

/-- Skips the equals sign that a formula may begin with. -/
def skipLead : Position × List Char → Position × List Char
  | (p, '=' :: '=' :: cs) => (p, '=' :: '=' :: cs)
  | (p, '=' :: cs) => (p.next '=', cs)
  | (p, cs) => (p, cs)

/-- The tokens of a formula. -/
def ofText (text : String) : Except ScanError (List Token) :=
  match skipTrivia .start text.toList with
  | .error e => .error e
  | .ok place =>
    let (p, cs) := skipLead place
    tokensFrom p cs

end FormulaTree.Token
