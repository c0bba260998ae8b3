/-
Reading the JSON notation. The grammar is the strict one: no comments, no comma before a closing
bracket, no leading zeros, no control characters in strings, and nothing but blanks around the value.
-/
import LayerPage.JsonValue.Basic
import LayerPage.Text.Integer

namespace LayerPage.JsonValue

/-- Whether a character may stand between two parts of a value. -/
def isBlank (c : Char) : Bool :=
  c == ' ' || c == '\t' || c == '\n' || c == '\r'

def skipBlanks (cs : List Char) : List Char :=
  cs.dropWhile isBlank

-- ==================================================================== strings

/-- A part of a string: a character as it is, or sixteen bits given by their number. -/
inductive StringPart
  | char (c : Char)
  | unit (bits : Nat)

/-- What a backslash and a letter stand for. -/
def escaped? : Char → Option Char
  | '"' => some '"'
  | '\\' => some '\\'
  | '/' => some '/'
  | 'b' => some '\x08'
  | 'f' => some '\x0c'
  | 'n' => some '\n'
  | 'r' => some '\r'
  | 't' => some '\t'
  | _ => none

/-- The parts of a string whose opening quote is already read, and what follows its closing quote. -/
def stringParts : List Char → Option (List StringPart × List Char)
  | [] => none
  | '"' :: rest => some ([], rest)
  | '\\' :: 'u' :: a :: b :: c :: d :: rest => do
    let bits ← Text.digits? 16 [a, b, c, d]
    let (parts, rest) ← stringParts rest
    return (.unit bits :: parts, rest)
  | '\\' :: c :: rest => do
    let c ← escaped? c
    let (parts, rest) ← stringParts rest
    return (.char c :: parts, rest)
  | c :: rest => do
    guard (0x20 ≤ c.toNat && c != '\\')
    let (parts, rest) ← stringParts rest
    return (.char c :: parts, rest)

/-- Whether sixteen bits are the first half of a surrogate pair. -/
def isHighSurrogate (bits : Nat) : Bool :=
  0xD800 ≤ bits && bits < 0xDC00

/-- Whether sixteen bits are the second half of a surrogate pair. -/
def isLowSurrogate (bits : Nat) : Bool :=
  0xDC00 ≤ bits && bits < 0xE000

/-- The characters of a string; nothing if a half of a surrogate pair stands alone. -/
def decodeParts : List StringPart → Option (List Char)
  | [] => some []
  | .char c :: rest => (decodeParts rest).map (c :: ·)
  | .unit high :: .unit low :: rest =>
    if isHighSurrogate high then
      if isLowSurrogate low then
        (decodeParts rest).map
          (.ofNat (0x10000 + (high - 0xD800) * 0x400 + (low - 0xDC00)) :: ·)
      else none
    else if isLowSurrogate high then none
    else (decodeParts (.unit low :: rest)).map (.ofNat high :: ·)
  | .unit bits :: rest =>
    if isHighSurrogate bits || isLowSurrogate bits then none
    else (decodeParts rest).map (.ofNat bits :: ·)

/-- A string whose opening quote is already read. -/
def stringText (cs : List Char) : Option (Option String × List Char) := do
  let (parts, rest) ← stringParts cs
  return ((decodeParts parts).map String.ofList, rest)

-- ==================================================================== numbers

/-- A run of decimal digits and what follows it. -/
def digitRun (cs : List Char) : List Char × List Char :=
  cs.span Char.isDigit

/-- Skip a fraction, if there is one; nothing if its digits are missing. Says whether it was there. -/
def skipFraction : List Char → Option (Bool × List Char)
  | '.' :: rest =>
    match digitRun rest with
    | ([], _) => none
    | (_, rest) => some (true, rest)
  | cs => some (false, cs)

def skipSign : List Char → List Char
  | '+' :: rest => rest
  | '-' :: rest => rest
  | cs => cs

/-- Skip an exponent, if there is one; nothing if its digits are missing. Says whether it was
there. -/
def skipExponent : List Char → Option (Bool × List Char)
  | c :: rest =>
    if c == 'e' || c == 'E' then
      match digitRun (skipSign rest) with
      | ([], _) => none
      | (_, rest) => some (true, rest)
    else some (false, c :: rest)
  | [] => some (false, [])

/-- A number without its sign. Zero with a minus sign is a number but no integer. -/
def unsignedNumber (negative : Bool) (cs : List Char) : Option (JsonValue × List Char) := do
  let (digits, rest) := digitRun cs
  guard (digits.length == 1 || digits.head? != some '0')
  let value ← Text.digits? 10 digits
  let (fraction, rest) ← skipFraction rest
  let (exponent, rest) ← skipExponent rest
  let integer? :=
    if fraction || exponent then none
    else if negative then (if value = 0 then none else some (-(value : Int)))
    else some (value : Int)
  return (.number integer?, rest)

def numberValue : List Char → Option (JsonValue × List Char)
  | '-' :: rest => unsignedNumber true rest
  | cs => unsignedNumber false cs

-- ===================================================================== values

mutual

/-- A value with blanks in front of it, and what follows it. The first argument bounds the number of
nested calls. -/
def value : Nat → List Char → Option (JsonValue × List Char)
  | 0, _ => none
  | fuel + 1, cs =>
    match skipBlanks cs with
    | 'n' :: 'u' :: 'l' :: 'l' :: rest => some (.null, rest)
    | 't' :: 'r' :: 'u' :: 'e' :: rest => some (.bool true, rest)
    | 'f' :: 'a' :: 'l' :: 's' :: 'e' :: rest => some (.bool false, rest)
    | '"' :: rest => (stringText rest).map fun (text?, rest) => (.string text?, rest)
    | '[' :: rest =>
      match skipBlanks rest with
      | ']' :: rest => some (.array [], rest)
      | rest => (items fuel rest).map fun (vs, rest) => (.array vs, rest)
    | '\x7b' :: rest =>
      match skipBlanks rest with
      | '\x7d' :: rest => some (.object [], rest)
      | rest => (members fuel rest).map fun (ms, rest) => (.object ms, rest)
    | cs => numberValue cs

/-- One or more values between commas, and what follows the closing bracket. -/
def items : Nat → List Char → Option (List JsonValue × List Char)
  | 0, _ => none
  | fuel + 1, cs => do
    let (v, rest) ← value fuel cs
    match skipBlanks rest with
    | ',' :: rest =>
      let (vs, rest) ← items fuel rest
      return (v :: vs, rest)
    | ']' :: rest => return ([v], rest)
    | _ => none

/-- One or more members between commas, and what follows the closing brace. -/
def members : Nat → List Char → Option (List (Option String × JsonValue) × List Char)
  | 0, _ => none
  | fuel + 1, cs =>
    match skipBlanks cs with
    | '"' :: rest => do
      let (name, rest) ← stringText rest
      match skipBlanks rest with
      | ':' :: rest =>
        let (v, rest) ← value fuel rest
        match skipBlanks rest with
        | ',' :: rest =>
          let (ms, rest) ← members fuel rest
          return ((name, v) :: ms, rest)
        | '\x7d' :: rest => return ([(name, v)], rest)
        | _ => none
      | _ => none
    | _ => none

end

/-- Read a text that is one value. A value takes at least one character and every call two levels
at most, so the bound is never met. -/
def parse (text : String) : Option JsonValue := do
  let cs := text.toList
  let (v, rest) ← value (2 * cs.length + 2) cs
  guard (skipBlanks rest).isEmpty
  return v

end LayerPage.JsonValue
