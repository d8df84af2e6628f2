import SizeAtlas.Fault
import SizeAtlas.Script.Token

/-!
# From characters to tokens

The tokens of a script are found one at a time, since where a slash starts a
regular expression and a brace resumes a template only the grammar knows.  A
reader of one kind of token takes what follows it and gives what follows that.

## Main definitions

* `Spot` — a place in a script: the characters from there on and their offset.
* `skipTrivia` — blanks, line ends and comments.
* `readWord`, `readNumber`, `readText`, `readTemplate`, `readPattern` — tokens of
  one kind each.
* `nextToken` — the token after a place.
-/

namespace SizeAtlas.Script

/-- A place in a script. -/
structure Spot where
  /-- The characters from there on. -/
  rest : List Char
  /-- How many bytes stand before it. -/
  offset : Nat
  deriving DecidableEq, Repr, Inhabited

namespace Spot

/-- The fault of a script that cannot go on as it does here. -/
def fault (s : Spot) (reason : String) : Fault :=
  .malformedScript s!"{reason} at byte offset {s.offset}"

/-- The place after `n` more characters, each of which is one byte. -/
def skip (s : Spot) (n : Nat) : Spot := ⟨s.rest.drop n, s.offset + n⟩

/-- The place after the leading characters that satisfy `p`. -/
def skipWhile (p : Char → Bool) (s : Spot) : Spot :=
  go s.rest s.offset
where
  /-- The place after the leading characters of `cs`, which start at `offset`. -/
  go : List Char → Nat → Spot
    | [], offset => ⟨[], offset⟩
    | c :: cs, offset => if p c then go cs (offset + c.utf8Size) else ⟨c :: cs, offset⟩

/-- Whether the characters of `text` come next. -/
def startsWith (s : Spot) (text : String) : Bool := text.toList.isPrefixOf s.rest

end Spot

/-! ## Between tokens -/

/-- The place after the comment whose inside starts with `cs`, and whether a
line ends before it. -/
def skipComment : List Char → (offset : Nat) → (startsLine : Bool) → Option (Spot × Bool)
  | [], _, _ => none
  | c :: cs, offset, startsLine =>
    if c = '*' ∧ cs.head? = some '/' then some (⟨cs.drop 1, offset + 2⟩, startsLine)
    else skipComment cs (offset + c.utf8Size) (startsLine || isLineEnd c)

/-- Whether a comment to the end of the line starts here.  Besides the usual one
there are those that open and close a comment of a page; the latter only counts
where a line starts. -/
def startsLineComment (s : Spot) (startsLine : Bool) : Bool :=
  s.startsWith "//" || s.startsWith "<!--" || (startsLine && s.startsWith "-->")

/-- The place after blanks, line ends and comments, and whether a line starts
there. -/
def skipTrivia : (fuel : Nat) → Spot → (startsLine : Bool) → Except Fault (Spot × Bool)
  | 0, s, _ => .error (s.fault "unexpected end")
  | fuel + 1, s, startsLine =>
    match s.rest with
    | [] => .ok (s, startsLine)
    | c :: cs =>
      if isSpace c then skipTrivia fuel ⟨cs, s.offset + c.utf8Size⟩ startsLine
      else if isLineEnd c then skipTrivia fuel ⟨cs, s.offset + c.utf8Size⟩ true
      else if s.startsWith "/*" then
        match skipComment (cs.drop 1) (s.offset + 2) startsLine with
        | some (s', startsLine') => skipTrivia fuel s' startsLine'
        | none => .error (s.fault "unterminated comment")
      else if startsLineComment s startsLine then
        skipTrivia fuel (s.skipWhile (!isLineEnd ·)) startsLine
      else .ok (s, startsLine)

/-! ## Escapes -/

/-- The number that the leading hexadecimal digits of `cs` spell, how many there
are, and what follows them. -/
def hexDigits (value count : Nat) : List Char → Nat × Nat × List Char
  | [] => (value, count, [])
  | c :: cs =>
    match Text.hexValue? c.toNat with
    | some d => hexDigits (value * 16 + d) (count + 1) cs
    | none => (value, count, c :: cs)

/-- The code point of an escape by code point, given what follows its letter: four
digits, or any number of them between braces. -/
def readCodePoint? (s : Spot) : Option (Nat × Spot) :=
  match s.rest with
  | '\x7b' :: cs =>
    match hexDigits 0 0 cs with
    | (value, count + 1, '\x7d' :: rest) =>
      if value ≤ 0x10ffff then some (value, ⟨rest, s.offset + count + 3⟩) else none
    | _ => none
  | _ =>
    match hexDigits 0 0 (s.rest.take 4) with
    | (value, 4, _) => some (value, s.skip 4)
    | _ => none

/-! ## Words -/

/-- The rest of a word of which `seen` has been read, newest first. -/
def readWordFrom : (fuel : Nat) → Spot → (seen : List Char) → (escaped : Bool) →
    Except Fault (String × Bool × Spot)
  | 0, s, _, _ => .error (s.fault "unexpected end")
  | fuel + 1, s, seen, escaped =>
    let fits := if seen.isEmpty then Text.isIdentifierStart else Text.isIdentifierPart
    match s.rest with
    | '\\' :: 'u' :: _ =>
      match readCodePoint? (s.skip 2) with
      | some (value, s') =>
        let c := Char.ofNat value
        if c.toNat = value ∧ fits c then readWordFrom fuel s' (c :: seen) true
        else .error (s.fault "invalid escape in a name")
      | none => .error (s.fault "invalid escape in a name")
    | c :: cs =>
      if c = '\\' then .error (s.fault "invalid escape in a name")
      else if fits c then readWordFrom fuel ⟨cs, s.offset + c.utf8Size⟩ (c :: seen) escaped
      else if seen.isEmpty then .error (s.fault "unexpected character")
      else .ok (String.ofList seen.reverse, escaped, s)
    | [] =>
      if seen.isEmpty then .error (s.fault "unexpected end")
      else .ok (String.ofList seen.reverse, escaped, s)

/-- The word at a place, and whether it is written with an escape. -/
def readWord (fuel : Nat) (s : Spot) : Except Fault (String × Bool × Spot) :=
  readWordFrom fuel s [] false

/-! ## Numbers -/

/-- Whether `c` is a digit in base `base`. -/
def isDigitOf (base : Nat) (c : Char) : Bool := (Text.hexValue? c.toNat).any (· < base)

/-- The place after digits in base `base` with single low lines between them. -/
def skipDigits (base : Nat) : (fuel : Nat) → Spot → Except Fault Spot
  | 0, s => .error (s.fault "unexpected end")
  | fuel + 1, s =>
    match s.rest with
    | c :: rest =>
      if isDigitOf base c then
        match rest with
        | '_' :: d :: _ =>
          if isDigitOf base d then skipDigits base fuel (s.skip 2)
          else .error (s.fault "misplaced separator")
        | '_' :: [] => .error (s.fault "misplaced separator")
        | d :: _ => if isDigitOf base d then skipDigits base fuel (s.skip 1) else .ok (s.skip 1)
        | [] => .ok (s.skip 1)
      else .error (s.fault "missing digit")
    | [] => .error (s.fault "missing digit")

/-- The place after the exponent of a number, if there is one. -/
def skipExponent (fuel : Nat) (s : Spot) : Except Fault Spot :=
  match s.rest with
  | c :: rest =>
    if c = 'e' ∨ c = 'E' then
      match rest with
      | d :: _ => skipDigits 10 fuel (if d = '+' ∨ d = '-' then s.skip 2 else s.skip 1)
      | [] => .error (s.fault "missing digit")
    else .ok s
  | [] => .ok s

/-- The place after the point and the digits that follow the integer part of a
number, and after its exponent. -/
def skipFraction (fuel : Nat) (s : Spot) : Except Fault Spot :=
  match s.rest with
  | '.' :: c :: _ => do
    if c = '_' then .error (s.fault "misplaced separator")
    else
      let s' ← if c.isDigit then skipDigits 10 fuel (s.skip 1) else .ok (s.skip 1)
      skipExponent fuel s'
  | '.' :: [] => .ok (s.skip 1)
  | _ => skipExponent fuel s

/-- The place after the letter that marks an integer without bounds, if that
comes next. -/
def skipBigMark (s : Spot) : Spot :=
  match s.rest with
  | 'n' :: _ => s.skip 1
  | _ => s

/-- The place after a decimal number that starts with a digit. -/
def skipDecimal (fuel : Nat) (s : Spot) : Except Fault Spot := do
  let s' ← skipDigits 10 fuel s
  match s'.rest with
  | 'n' :: _ => .ok (s'.skip 1)
  | _ => skipFraction fuel s'

/-- The place of what stands directly behind a number, where no name and no digit
may stand. -/
def endNumber (s : Spot) : Except Fault Spot :=
  match s.rest with
  | c :: _ =>
    if Text.isIdentifierStart c ∨ c.isDigit ∨ c = '\\' then
      .error (s.fault "unexpected character after a number")
    else .ok s
  | [] => .ok s

/-- The place after a number that starts with a zero and another digit.  If all
digits are below eight it is octal and nothing more belongs to it; otherwise a
fraction does, or an exponent with a small letter. -/
def skipOldDigits (fuel : Nat) (s : Spot) : Except Fault Spot := do
  let s' := s.skipWhile Char.isDigit
  if (s.rest.takeWhile Char.isDigit).all (isDigitOf 8) then endNumber s'
  else
    match s'.rest with
    | '.' :: _ => endNumber (← skipFraction fuel s')
    | 'e' :: _ => skipExponent fuel s'
    | _ => endNumber s'

/-- The place after the number that starts here.  A name may not follow it
directly, unless it is an integer with an exponent that starts with a zero. -/
def readNumber (fuel : Nat) (s : Spot) : Except Fault Spot := do
  match s.rest with
  | '.' :: _ => endNumber (← skipFraction fuel s)
  | '0' :: c :: _ =>
    if c = 'x' ∨ c = 'X' then endNumber (skipBigMark (← skipDigits 16 fuel (s.skip 2)))
    else if c = 'b' ∨ c = 'B' then endNumber (skipBigMark (← skipDigits 2 fuel (s.skip 2)))
    else if c = 'o' ∨ c = 'O' then endNumber (skipBigMark (← skipDigits 8 fuel (s.skip 2)))
    else if c = 'e' ∨ c = 'E' then skipExponent fuel (s.skip 1)
    else if c = '_' then .error (s.fault "misplaced separator")
    else if c.isDigit then skipOldDigits fuel s
    else endNumber (← skipDecimal fuel s)
  | _ => endNumber (← skipDecimal fuel s)

/-! ## Texts -/

/-- The place after the escape whose backslash stands here, if it is valid in a
text. -/
def skipEscape? (s : Spot) : Option Spot :=
  match s.rest.drop 1 with
  | [] => none
  | 'x' :: cs =>
    match hexDigits 0 0 (cs.take 2) with
    | (_, 2, _) => some (s.skip 4)
    | _ => none
  | 'u' :: _ => (readCodePoint? (s.skip 2)).map Prod.snd
  | '\r' :: '\n' :: _ => some (s.skip 3)
  | c :: cs => some ⟨cs, s.offset + 1 + c.utf8Size⟩

/-- The place after the text that `quote` closes. -/
def readText (quote : Char) : (fuel : Nat) → Spot → Except Fault Spot
  | 0, s => .error (s.fault "unexpected end")
  | fuel + 1, s =>
    match s.rest with
    | [] => .error (s.fault "unterminated string")
    | c :: cs =>
      if c = quote then .ok (s.skip 1)
      else if c = '\\' then
        match skipEscape? s with
        | some s' => readText quote fuel s'
        | none => .error (s.fault "invalid escape")
      else if c = '\n' ∨ c = '\r' then .error (s.fault "unterminated string")
      else readText quote fuel ⟨cs, s.offset + c.utf8Size⟩

/-- Whether the escape whose backslash stands here is an octal one, which a
template may not have. -/
def isOctalEscape (s : Spot) : Bool :=
  match s.rest.drop 1 with
  | '0' :: c :: _ => c.isDigit
  | c :: _ => c.isDigit && c != '0'
  | [] => false

/-- The place after a piece of a template, with what the piece is. -/
def readTemplate : (fuel : Nat) → Spot → (valid : Bool) → Except Fault (Lexeme × Spot)
  | 0, s, _ => .error (s.fault "unexpected end")
  | fuel + 1, s, valid =>
    match s.rest with
    | [] => .error (s.fault "unterminated template")
    | '$' :: '\x7b' :: _ => .ok (.template false valid, s.skip 2)
    | c :: cs =>
      if c = '\x60' then .ok (.template true valid, s.skip 1)
      else if c = '\\' then
        match skipEscape? s, cs with
        | some s', _ => readTemplate fuel s' (valid && !isOctalEscape s)
        | none, d :: rest => readTemplate fuel ⟨rest, s.offset + 1 + d.utf8Size⟩ false
        | none, [] => .error (s.fault "unterminated template")
      else readTemplate fuel ⟨cs, s.offset + c.utf8Size⟩ valid

/-! ## Regular expressions -/

/-- The flags that a regular expression may have. -/
def patternFlags : List Char := "dgimsuvy".toList

/-- Whether a regular expression may have the given flags: each is known, none
stands twice, and of the two that choose a kind of Unicode reading only one. -/
def areFlags (flags : List Char) : Bool :=
  flags.all patternFlags.contains && flags.Nodup && !(flags.contains 'u' && flags.contains 'v')

/-- Whether `c` belongs to the flags of a regular expression, rightly or not. -/
def isFlagLike (c : Char) : Bool := c.isAlphanum || c == '$' || c == '_'

/-- The place after the regular expression whose inside starts here.  A slash
between brackets does not end it. -/
def readPattern : (fuel : Nat) → Spot → (bracketed : Bool) → Except Fault Spot
  | 0, s, _ => .error (s.fault "unexpected end")
  | fuel + 1, s, bracketed =>
    match s.rest with
    | [] => .error (s.fault "unterminated regular expression")
    | c :: cs =>
      if isLineEnd c then .error (s.fault "unterminated regular expression")
      else if c = '\\' then
        match cs with
        | [] => .error (s.fault "unterminated regular expression")
        | d :: rest =>
          if isLineEnd d then .error (s.fault "unterminated regular expression")
          else readPattern fuel ⟨rest, s.offset + 1 + d.utf8Size⟩ bracketed
      else if c = '/' ∧ ¬bracketed then
        let s' := s.skip 1
        let flags := s'.rest.takeWhile isFlagLike
        if areFlags flags then .ok (s'.skip flags.length)
        else .error (s'.fault "invalid flag")
      else
        readPattern fuel ⟨cs, s.offset + c.utf8Size⟩ (c == '[' || (bracketed && c != ']'))

/-! ## Tokens -/

/-- The punctuator that comes next.  A question mark and a point are two of them
where a digit follows. -/
def readPunctuator (s : Spot) : Except Fault (Lexeme × Spot) :=
  match punctuators.find? (·.isPrefixOf s.rest) with
  | some text =>
    if text = ['?', '.'] ∧ (s.rest.drop 2).head?.any Char.isDigit then
      .ok (.punctuator "?", s.skip 1)
    else .ok (.punctuator (String.ofList text), s.skip text.length)
  | none => .error (s.fault "unexpected character")

/-- The token that starts with the character `c`, which comes next and is followed
by `cs`. -/
def readLexeme (fuel : Nat) (s : Spot) (c : Char) (cs : List Char) :
    Except Fault (Lexeme × Spot) :=
  if Text.isIdentifierStart c ∨ c = '\\' then
    (readWord fuel s).map fun (name, escaped, s') => (.word name escaped, s')
  else if c.isDigit ∨ (c = '.' ∧ cs.head?.any Char.isDigit) then
    (readNumber fuel s).map fun s' => (.number, s')
  else if c = '\"' ∨ c = '\x27' then
    (readText c fuel (s.skip 1)).map fun s' => (.text, s')
  else if c = '\x60' then readTemplate fuel (s.skip 1) true
  else if c = '#' then (readWord fuel (s.skip 1)).map fun (name, _, s') => (.privateName name, s')
  else readPunctuator s

/-- The token after a place, and the place after it. -/
def nextToken (fuel : Nat) (s : Spot) (startsLine : Bool) : Except Fault (Token × Spot) := do
  let (s, startsLine) ← skipTrivia fuel s startsLine
  match s.rest with
  | [] => .ok (⟨.finish, s.offset, s.offset, startsLine⟩, s)
  | c :: cs =>
    let (lexeme, s') ← readLexeme fuel s c cs
    .ok (⟨lexeme, s.offset, s'.offset, startsLine⟩, s')

/-- The token after a place for one who only looks: it may turn out not to be one,
since where a slash or a brace stands the grammar can ask for another reading. -/
def glanceToken (fuel : Nat) (s : Spot) : Token :=
  match skipTrivia fuel s false with
  | .error _ => ⟨.invalid, s.offset, s.offset, false⟩
  | .ok (s, startsLine) =>
    match nextToken fuel s startsLine with
    | .ok (token, _) => token
    | .error _ => ⟨.invalid, s.offset, s.offset, startsLine⟩

/-- The place after a first line that says how to run a script. -/
def skipFirstLine (s : Spot) : Spot :=
  if s.startsWith "#!" then s.skipWhile (!isLineEnd ·) else s

end SizeAtlas.Script
