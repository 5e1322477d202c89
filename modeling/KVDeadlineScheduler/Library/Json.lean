-- SUMMARY: JSON texts: values, the writer with sorted keys and ASCII escapes, and the parser.
import KVDeadlineScheduler.Library.Double

/-!
# JSON

`dumps` writes a value on one line in printable ASCII, with the keys of every
object sorted. `loads` skips white space and takes one value. A lone surrogate
escape has no character here and is refused, and so are the constants `NaN` and
`Infinity`. Parsing recurses on a depth that the length of the text bounds.
-/

inductive Json where
  | null
  | bool (b : Bool)
  | int (i : ℤ)
  | float (x : ℚ)
  | str (s : String)
  | arr (elements : List Json)
  | obj (members : List (String × Json))

namespace Json

open Decimal

/-! ## Writing strings -/

def hexDigit (n : ℕ) : Char := Nat.digitChar (n % 16)

/-- `\uXXXX` for a number below 2^16. -/
def unicodeEscape (n : ℕ) : List Char :=
  ['\\', 'u', hexDigit (n / 4096), hexDigit (n / 256), hexDigit (n / 16), hexDigit n]

/-- A character outside printable ASCII is escaped, beyond 2^16 as two surrogates. -/
def escapeChar (c : Char) : List Char :=
  if c = '"' then ['\\', '"']
  else if c = '\\' then ['\\', '\\']
  else if c = '\n' then ['\\', 'n']
  else if c = '\r' then ['\\', 'r']
  else if c = '\t' then ['\\', 't']
  else if c = '\x0c' then ['\\', 'f']
  else if c = '\x08' then ['\\', 'b']
  else if ' ' ≤ c ∧ c ≤ '~' then [c]
  else if c.toNat < 0x10000 then unicodeEscape c.toNat
  else
    unicodeEscape (0xd800 + (c.toNat - 0x10000) / 0x400) ++
      unicodeEscape (0xdc00 + (c.toNat - 0x10000) % 0x400)

def writeString (s : String) : List Char := '"' :: (s.toList.flatMap escapeChar ++ ['"'])

/-! ## Writing values -/

mutual

def write : Json → List Char
  | .null => ['n', 'u', 'l', 'l']
  | .bool true => ['t', 'r', 'u', 'e']
  | .bool false => ['f', 'a', 'l', 's', 'e']
  | .int i => (Literal.ofInt i).write
  | .float x => (Double.repr x).write
  | .str s => writeString s
  | .arr [] => ['[', ']']
  | .arr (v :: vs) => '[' :: (write v ++ writeElements vs)
  | .obj [] => ['{', '}']
  | .obj ((k, v) :: ms) => '{' :: (writeString k ++ (':' :: ' ' :: (write v ++ writeMembers ms)))

/-- The elements behind the first one, each after a comma, and the bracket. -/
def writeElements : List Json → List Char
  | [] => [']']
  | v :: vs => ',' :: ' ' :: (write v ++ writeElements vs)

def writeMembers : List (String × Json) → List Char
  | [] => ['}']
  | (k, v) :: ms => ',' :: ' ' :: (writeString k ++ (':' :: ' ' :: (write v ++ writeMembers ms)))

end

mutual

/-- Every object with its members in the order of their keys. -/
def sortKeys : Json → Json
  | .arr vs => .arr (sortElements vs)
  | .obj ms => .obj ((sortMembers ms).mergeSort fun a b => a.1 ≤ b.1)
  | .null => .null
  | .bool b => .bool b
  | .int i => .int i
  | .float x => .float x
  | .str s => .str s

def sortElements : List Json → List Json
  | [] => []
  | v :: vs => sortKeys v :: sortElements vs

def sortMembers : List (String × Json) → List (String × Json)
  | [] => []
  | (k, v) :: ms => (k, sortKeys v) :: sortMembers ms

end

/-- `json.dumps(value, sort_keys=True)`. -/
def dumps (v : Json) : String := String.ofList (write (sortKeys v))

/-! ## Parsing strings -/

def hexValue (c : Char) : Option ℕ :=
  if c.isDigit then some (c.toNat - '0'.toNat)
  else if 'a' ≤ c ∧ c ≤ 'f' then some (c.toNat - 'a'.toNat + 10)
  else if 'A' ≤ c ∧ c ≤ 'F' then some (c.toNat - 'A'.toNat + 10)
  else none

/-- Four hexadecimal digits at the start of a text. -/
def scanHex : List Char → Option (ℕ × List Char)
  | a :: b :: c :: d :: rest => do
    let a ← hexValue a
    let b ← hexValue b
    let c ← hexValue c
    let d ← hexValue d
    some (a * 4096 + b * 256 + c * 16 + d, rest)
  | _ => none

/-- What stands behind `\u`. A high surrogate takes the escape of a low one with it. -/
def scanUnicode (cs : List Char) : Option (Char × List Char) := do
  let (n, cs) ← scanHex cs
  if 0xd800 ≤ n ∧ n ≤ 0xdbff then
    match cs with
    | '\\' :: 'u' :: cs =>
      let (m, cs) ← scanHex cs
      if 0xdc00 ≤ m ∧ m ≤ 0xdfff then
        some (Char.ofNat (0x10000 + (n - 0xd800) * 0x400 + (m - 0xdc00)), cs)
      else
        none
    | _ => none
  else if 0xdc00 ≤ n ∧ n ≤ 0xdfff then
    none
  else
    some (Char.ofNat n, cs)

/-- What stands behind a backslash. -/
def scanEscape : List Char → Option (Char × List Char)
  | '"' :: cs => some ('"', cs)
  | '\\' :: cs => some ('\\', cs)
  | '/' :: cs => some ('/', cs)
  | 'b' :: cs => some ('\x08', cs)
  | 'f' :: cs => some ('\x0c', cs)
  | 'n' :: cs => some ('\n', cs)
  | 'r' :: cs => some ('\r', cs)
  | 't' :: cs => some ('\t', cs)
  | 'u' :: cs => scanUnicode cs
  | _ => none

/-- One character of a string, written as itself or as an escape. Control characters
have to be escaped. -/
def scanChar (c : Char) (cs : List Char) : Option (Char × List Char) :=
  if c = '\\' then scanEscape cs else if c.toNat < 0x20 then none else some (c, cs)

/-- The characters up to the closing quote, of which there are less than `fuel`. -/
def scanChars : ℕ → List Char → Option (List Char × List Char)
  | 0, _ => none
  | _ + 1, [] => none
  | fuel + 1, c :: cs =>
    if c = '"' then
      some ([], cs)
    else do
      let (c, cs) ← scanChar c cs
      let (s, cs) ← scanChars fuel cs
      some (c :: s, cs)

/-- What stands behind the opening quote of a string. -/
def scanString (cs : List Char) : Option (String × List Char) :=
  (scanChars (cs.length + 1) cs).map fun (s, cs) => (String.ofList s, cs)

/-! ## Parsing values -/

def isSpace (c : Char) : Bool := c = ' ' ∨ c = '\t' ∨ c = '\n' ∨ c = '\r'

def skipSpace (cs : List Char) : List Char := cs.dropWhile isSpace

/-- A number with a fraction or an exponent is rounded to a double, unless it is too
large for one. -/
def scanNumber (cs : List Char) : Option (Json × List Char) := do
  let (l, cs) ← Literal.scan cs
  if l.isFloat then
    if |Double.nearest l.value| < 2 ^ 1024 then some (.float (Double.nearest l.value), cs) else none
  else
    some (.int l.intValue, cs)

mutual

def parse : ℕ → List Char → Option (Json × List Char)
  | 0, _ => none
  | fuel + 1, cs =>
    match cs with
    | '"' :: cs => (scanString cs).map fun (s, cs) => (.str s, cs)
    | '{' :: cs =>
      match skipSpace cs with
      | '}' :: cs => some (.obj [], cs)
      | cs => (parseMembers fuel cs).map fun (ms, cs) => (.obj ms, cs)
    | '[' :: cs =>
      match skipSpace cs with
      | ']' :: cs => some (.arr [], cs)
      | cs => (parseElements fuel cs).map fun (vs, cs) => (.arr vs, cs)
    | 'n' :: 'u' :: 'l' :: 'l' :: cs => some (.null, cs)
    | 't' :: 'r' :: 'u' :: 'e' :: cs => some (.bool true, cs)
    | 'f' :: 'a' :: 'l' :: 's' :: 'e' :: cs => some (.bool false, cs)
    | cs => scanNumber cs

/-- At least one element, up to the closing bracket. -/
def parseElements : ℕ → List Char → Option (List Json × List Char)
  | 0, _ => none
  | fuel + 1, cs => do
    let (v, cs) ← parse fuel cs
    match skipSpace cs with
    | ']' :: cs => some ([v], cs)
    | ',' :: cs => (parseElements fuel (skipSpace cs)).map fun (vs, cs) => (v :: vs, cs)
    | _ => none

/-- At least one member, up to the closing brace. -/
def parseMembers : ℕ → List Char → Option (List (String × Json) × List Char)
  | 0, _ => none
  | fuel + 1, cs =>
    match cs with
    | '"' :: cs => do
      let (k, cs) ← scanString cs
      match skipSpace cs with
      | ':' :: cs =>
        let (v, cs) ← parse fuel (skipSpace cs)
        match skipSpace cs with
        | '}' :: cs => some ([(k, v)], cs)
        | ',' :: cs =>
          (parseMembers fuel (skipSpace cs)).map fun (ms, cs) => ((k, v) :: ms, cs)
        | _ => none
      | _ => none
    | _ => none

end

/-- `json.loads(text)`, where none is a `JSONDecodeError`. -/
def loads (text : String) : Option Json := do
  let cs := text.toList
  let (v, cs) ← parse (cs.length + 1) (skipSpace cs)
  if skipSpace cs = [] then some v else none

end Json
