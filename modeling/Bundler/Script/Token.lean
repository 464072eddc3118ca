import Bundler.Text.Classes

/-!
# Tokens of scripts

`scan` reads the next token after blanks and comments. Two tokens depend on where they stand: a slash
may begin a regular expression, and a closing brace may resume a template. The reader asks for those
with `scanRegex` and `scanTemplate`. Offsets count characters.
-/

namespace Bundler.Script

structure Span where
  start : Nat
  stop : Nat
  deriving DecidableEq, Repr, Inhabited

inductive Lexeme where
  /-- An identifier or a keyword; `escaped` if it is spelt with an escape. -/
  | name (text : String) (escaped : Bool)
  | privateName (text : String)
  | number
  /-- A string with the text between its quotes, as written. -/
  | string (raw : String)
  /-- A piece of a template up to a substitution or to the end (`closed`); `valid` if every escape
  in it denotes a character. -/
  | template (valid closed : Bool)
  | mark (text : String)
  | endOfScript
  deriving DecidableEq, Repr, Inhabited

structure Token where
  lexeme : Lexeme
  span : Span
  /-- A line ends between the token before and this one. -/
  onNewLine : Bool
  deriving DecidableEq, Repr, Inhabited

/-- What is left of a script and its offset. -/
structure Rest where
  offset : Nat
  chars : List Char

namespace Rest

def drop (n : Nat) (r : Rest) : Rest := ⟨r.offset + n, r.chars.drop n⟩

def dropWhile (p : Char → Bool) (r : Rest) : Rest :=
  ⟨r.offset + (r.chars.takeWhile p).length, r.chars.dropWhile p⟩

end Rest

def isLineEnd (c : Char) : Bool := c = '\n' || c = '\r' || c.toNat = 0x2028 || c.toNat = 0x2029

def isSpace (c : Char) : Bool :=
  (Text.isBlank c && !isLineEnd c) || c.toNat = 0xFEFF || c.toNat = 0x200B

/-! ## Blanks and comments -/

inductive Gap where
  | blank
  | line
  | block

/-- Skips to the next token and tells whether a line end was passed. `<!--` begins a line comment,
and so does `-->` where only blanks and comments precede it on its line. -/
def skipGap : Gap → Bool → Nat → List Char → Option (Bool × Rest)
  | .blank, fresh, n, '/' :: '/' :: r => skipGap .line fresh (n + 2) r
  | .blank, fresh, n, '/' :: '*' :: r => skipGap .block fresh (n + 2) r
  | .blank, fresh, n, '<' :: '!' :: '-' :: '-' :: r => skipGap .line fresh (n + 4) r
  | .blank, true, n, '-' :: '-' :: '>' :: r => skipGap .line true (n + 3) r
  | .block, fresh, n, '*' :: '/' :: r => skipGap .blank fresh (n + 2) r
  | .block, _, _, [] => none
  | _, fresh, n, [] => some (fresh, ⟨n, []⟩)
  | .blank, fresh, n, c :: r =>
    if isLineEnd c then skipGap .blank true (n + 1) r
    else if isSpace c then skipGap .blank fresh (n + 1) r
    else some (fresh, ⟨n, c :: r⟩)
  | .line, fresh, n, c :: r =>
    if isLineEnd c then skipGap .blank true (n + 1) r else skipGap .line fresh (n + 1) r
  | .block, fresh, n, c :: r => skipGap .block (fresh || isLineEnd c) (n + 1) r

/-! ## Escapes -/

def hexValue? (c : Char) : Option Nat :=
  if '0' ≤ c ∧ c ≤ '9' then some (c.toNat - 48)
  else if 'a' ≤ c ∧ c ≤ 'f' then some (c.toNat - 87)
  else if 'A' ≤ c ∧ c ≤ 'F' then some (c.toNat - 55)
  else none

def isHex (c : Char) : Bool := (hexValue? c).isSome

def hexNumber (cs : List Char) : Nat := cs.foldl (fun n c => n * 16 + (hexValue? c).getD 0) 0

/-- The number of a unicode escape after its `\u`, with the length of the escape's rest. -/
def unicodeEscape? : List Char → Option (Nat × Nat)
  | '\x7b' :: r =>
    let digits := r.takeWhile isHex
    match r.dropWhile isHex with
    | '\x7d' :: _ =>
      let n := hexNumber digits
      if digits.isEmpty || 0x10FFFF < n then none else some (n, digits.length + 2)
    | _ => none
  | r =>
    let digits := r.take 4
    if digits.length = 4 ∧ digits.all isHex then some (hexNumber digits, 4) else none

/-- The character of an escape in a name after its backslash, with the length of what follows it. -/
def nameEscape? : List Char → Option (Char × Nat)
  | 'u' :: cs =>
    match unicodeEscape? cs with
    | some (n, length) => if n.isValidChar then some (Char.ofNat n, length + 1) else none
    | none => none
  | _ => none

/-- The length of an escape sequence of a string after its backslash, if it is well formed. -/
def stringEscape? : List Char → Option Nat
  | [] => none
  | 'x' :: a :: b :: _ => if isHex a && isHex b then some 3 else none
  | 'x' :: _ => none
  | 'u' :: r => (unicodeEscape? r).map fun e => e.2 + 1
  | '\r' :: '\n' :: _ => some 2
  | _ => some 1

/-- Templates admit no numeric escape but `\0` before a character that is no digit. -/
def templateEscape? : List Char → Option Nat
  | '0' :: c :: _ => if c.isDigit then none else some 1
  | cs@(c :: _) => if c.isDigit && c != '0' then none else stringEscape? cs
  | [] => none

/-! ## Names -/

/-- The rest of a name after `seen`, which is backwards. The first `skip` characters belong to an
escape that was read. -/
def scanName (skip : Nat) (seen : List Char) (escaped : Bool) (n : Nat) :
    List Char → Option (String × Bool × Rest)
  | [] => if seen.isEmpty then none else some (String.ofList seen.reverse, escaped, ⟨n, []⟩)
  | c :: cs =>
    let fits (c : Char) : Bool :=
      if seen.isEmpty then Text.isIdentifierStart c else Text.isIdentifierPart c
    match skip with
    | skip + 1 => scanName skip seen escaped (n + 1) cs
    | 0 =>
      if c = '\\' then
        match nameEscape? cs with
        | none => none
        | some (c, length) =>
          if fits c then scanName length (c :: seen) true (n + 1) cs else none
      else if fits c then scanName 0 (c :: seen) escaped (n + 1) cs
      else if seen.isEmpty then none
      else some (String.ofList seen.reverse, escaped, ⟨n, c :: cs⟩)

def readName (r : Rest) : Option (String × Bool × Rest) := scanName 0 [] false r.offset r.chars

/-! ## Numbers -/

/-- Digits that begin with a digit and separate groups by single underscores; `digit` tells that a
digit stands before. -/
def scanDigits (isDigit : Char → Bool) (digit : Bool) (n : Nat) : List Char → Option Rest
  | [] => if digit then some ⟨n, []⟩ else none
  | c :: cs =>
    if isDigit c then scanDigits isDigit true (n + 1) cs
    else if !digit then none
    else if c = '_' then scanDigits isDigit false (n + 1) cs
    else some ⟨n, c :: cs⟩

def readDigits (isDigit : Char → Bool) (r : Rest) : Option Rest :=
  scanDigits isDigit false r.offset r.chars

/-- A number ends where neither a digit nor the start of a name follows. -/
def endNumber (r : Rest) : Option Rest :=
  match r.chars with
  | c :: _ => if c.isDigit || Text.isIdentifierStart c then none else some r
  | [] => some r

def readExponentDigits (r : Rest) : Option Rest :=
  match r.chars with
  | '+' :: _ | '-' :: _ => readDigits Char.isDigit (r.drop 1)
  | _ => readDigits Char.isDigit r

def readExponent (r : Rest) : Option Rest :=
  match r.chars with
  | 'e' :: _ | 'E' :: _ => readExponentDigits (r.drop 1)
  | _ => some r

/-- What may follow the point of a number: digits and an exponent. -/
def readAfterPoint (r : Rest) : Option Rest := do
  let r ← match r.chars with
    | c :: _ => if c.isDigit then readDigits Char.isDigit r else some r
    | [] => some r
  endNumber (← readExponent r)

def readRadix (isDigit : Char → Bool) (r : Rest) : Option Rest := do
  let r ← readDigits isDigit (r.drop 2)
  match r.chars with
  | 'n' :: _ => endNumber (r.drop 1)
  | _ => endNumber r

/-- A numeral with a superfluous leading zero is octal, unless a digit 8 or 9 makes it decimal; only
then may a fraction or an exponent follow. -/
def readZeroLed (r : Rest) : Option Rest :=
  let digits := r.chars.takeWhile Char.isDigit
  let r := r.dropWhile Char.isDigit
  if digits.any fun c => c = '8' || c = '9' then
    match r.chars with
    | '.' :: _ => readAfterPoint (r.drop 1)
    | 'e' :: _ => readExponentDigits (r.drop 1) >>= endNumber
    | _ => endNumber r
  else endNumber r

/-- A decimal numeral: an integer, possibly of arbitrary size, or one with a fraction or exponent. -/
def readDecimal (r : Rest) : Option Rest := do
  let r ← readDigits Char.isDigit r
  match r.chars with
  | '.' :: _ => readAfterPoint (r.drop 1)
  | 'n' :: _ => endNumber (r.drop 1)
  | _ => endNumber (← readExponent r)

def readNumber (r : Rest) : Option Rest :=
  match r.chars with
  | '0' :: 'x' :: _ | '0' :: 'X' :: _ => readRadix isHex r
  | '0' :: 'o' :: _ | '0' :: 'O' :: _ => readRadix (fun c => '0' ≤ c && c ≤ '7') r
  | '0' :: 'b' :: _ | '0' :: 'B' :: _ => readRadix (fun c => c = '0' || c = '1') r
  | '0' :: '_' :: _ => none
  | '.' :: _ => do endNumber (← readExponent (← readDigits Char.isDigit (r.drop 1)))
  | '0' :: c :: _ => if c.isDigit then readZeroLed r else readDecimal r
  | _ => readDecimal r

/-! ## Strings, templates and regular expressions -/

/-- The rest of a string up to the quote that ends it, after the `skip` characters of an escape. -/
def scanString (quote : Char) (skip n : Nat) : List Char → Option Rest
  | [] => none
  | c :: cs =>
    match skip with
    | skip + 1 => scanString quote skip (n + 1) cs
    | 0 =>
      if c = '\\' then
        match stringEscape? cs with
        | some length => scanString quote length (n + 1) cs
        | none => none
      else if c = quote then some ⟨n + 1, cs⟩
      else if c = '\n' || c = '\r' then none
      else scanString quote 0 (n + 1) cs

/-- A piece of a template after its opening quote or the end of a substitution, after the `skip`
characters of an escape. -/
def scanTemplate (skip : Nat) (valid : Bool) (n : Nat) : List Char → Option (Lexeme × Rest)
  | [] => none
  | c :: cs =>
    match skip with
    | skip + 1 => scanTemplate skip valid (n + 1) cs
    | 0 =>
      if c = '\x60' then some (.template valid true, ⟨n + 1, cs⟩)
      else if c = '$' && cs.head? == some '\x7b' then
        some (.template valid false, ⟨n + 2, cs.drop 1⟩)
      else if c = '\\' then
        match templateEscape? cs with
        | some length => scanTemplate length valid (n + 1) cs
        | none => scanTemplate 1 false (n + 1) cs
      else scanTemplate 0 valid (n + 1) cs

def readTemplate (r : Rest) : Option (Lexeme × Rest) := scanTemplate 0 true r.offset r.chars

inductive RegexPlace where
  | plain
  | plainEscape
  | charClass
  | classEscape

/-- The body of a regular expression up to the slash that ends it. -/
def scanRegexBody : RegexPlace → Nat → List Char → Option Rest
  | _, _, [] => none
  | place, n, c :: r =>
    if isLineEnd c then none
    else match place with
      | .plainEscape => scanRegexBody .plain (n + 1) r
      | .classEscape => scanRegexBody .charClass (n + 1) r
      | .charClass =>
        if c = '\\' then scanRegexBody .classEscape (n + 1) r
        else if c = ']' then scanRegexBody .plain (n + 1) r
        else scanRegexBody .charClass (n + 1) r
      | .plain =>
        if c = '/' then some ⟨n + 1, r⟩
        else if c = '\\' then scanRegexBody .plainEscape (n + 1) r
        else if c = '[' then scanRegexBody .charClass (n + 1) r
        else scanRegexBody .plain (n + 1) r

def isFlag (c : Char) : Bool :=
  ['d', 'g', 'i', 'm', 's', 'u', 'v', 'y'].contains c

/-- The rest of a regular expression after its first slash; each flag may stand once. -/
def scanRegex (r : Rest) : Option Rest := do
  let r ← scanRegexBody .plain r.offset r.chars
  let isFlagChar (c : Char) : Bool := c.isAlphanum || c = '$' || c = '_'
  let flags := r.chars.takeWhile isFlagChar
  if flags.all isFlag && decide flags.Nodup then some (r.dropWhile isFlagChar) else none

/-! ## Tokens -/

/-- Marks of two and more characters, a longer one before those it begins with. -/
def longMarks : List (List Char) :=
  [">>>=", "...", "===", "!==", "**=", "<<=", ">>=", ">>>", "&&=", "||=", "??=", "=>", "==", "!=",
    "<=", ">=", "&&", "||", "??", "?.", "++", "--", "+=", "-=", "*=", "/=", "%=", "&=", "|=", "^=",
    "<<", ">>", "**"].map String.toList

def singleMarks : List Char := "{}()[];,<>+-*/%&|^!~?:=.@".toList

/-- `?.` before a digit is a question mark and a number. -/
def markFits (m cs : List Char) : Bool :=
  m.isPrefixOf cs && !(m == ['?', '.'] && ((cs.drop 2).head?.any Char.isDigit))

def readMark (r : Rest) : Option (Lexeme × Rest) :=
  match longMarks.find? fun m => markFits m r.chars with
  | some m => some (.mark (String.ofList m), r.drop m.length)
  | none =>
    match r.chars with
    | c :: _ => if singleMarks.contains c then some (.mark c.toString, r.drop 1) else none
    | [] => none

def readLexeme (r : Rest) : Option (Lexeme × Rest) :=
  match r.chars with
  | [] => some (.endOfScript, r)
  | '\x60' :: _ => readTemplate (r.drop 1)
  | '#' :: _ => (readName (r.drop 1)).map fun (text, _, r) => (.privateName text, r)
  | '.' :: c :: _ => if c.isDigit then (readNumber r).map (.number, ·) else readMark r
  | c :: cs =>
    if c = '\x27' || c = '\x22' then
      (scanString c 0 (r.offset + 1) cs).map fun after =>
        (.string (String.ofList (cs.take (after.offset - r.offset - 2))), after)
    else if c.isDigit then (readNumber r).map (.number, ·)
    else if c = '\\' || Text.isIdentifierStart c then
      (readName r).map fun (text, escaped, r) => (.name text escaped, r)
    else readMark r

/-- The next token and what is left after it. -/
def scan (fresh : Bool) (r : Rest) : Option (Token × Rest) := do
  let (fresh, r) ← skipGap .blank fresh r.offset r.chars
  let (lexeme, after) ← readLexeme r
  return (⟨lexeme, ⟨r.offset, after.offset⟩, fresh⟩, after)

/-- A script may begin with an interpreter line. -/
def skipInterpreterLine (r : Rest) : Rest :=
  match r.chars with
  | '#' :: '!' :: _ => r.dropWhile fun c => !isLineEnd c
  | _ => r

end Bundler.Script
