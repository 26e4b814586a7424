import Mathlib.Computability.RegularExpressions
import Mathlib.Data.List.DropRight
import CryptoAggHarmonic.Python.Files
import CryptoAggHarmonic.Python.Float

/-!
# Values that `yaml.safe_load` gives

The constructed values, not the text they are read from. A key of a mapping may be any of them.
-/

namespace CryptoAggHarmonic

open PyOs (Text)

inductive Yaml
  | null
  | bool (b : Bool)
  | int (n : ℤ)
  | float (x : PyFloat)
  | str (s : Text)
  | bytes (b : List ℕ)
  /-- A `date` or a `datetime`. -/
  | date
  | seq (xs : List Yaml)
  | map (items : List (Yaml × Yaml))
  | set (xs : List Yaml)

namespace Yaml

/-- `bool(value)` -/
def truthy : Yaml → Bool
  | null => false
  | bool b => b
  | int n => n ≠ 0
  | float x => x ≠ .finite 0
  | str s => !s.isEmpty
  | bytes b => !b.isEmpty
  | date => true
  | seq xs => !xs.isEmpty
  | map items => !items.isEmpty
  | set xs => !xs.isEmpty

/-- What `for x in value` goes over; nothing where it raises a `TypeError`. -/
def iter? : Yaml → Option (List Yaml)
  | str s => some (s.map fun c => .str [c])
  | bytes b => some (b.map fun n => .int n)
  | seq xs => some xs
  | map items => some (items.map Prod.fst)
  | set xs => some xs
  | _ => none

@[simp] theorem iter?_seq {xs : List Yaml} : (seq xs).iter? = some xs := rfl

/-- The value of a key that is a text. -/
def lookup (key : Text) : List (Yaml × Yaml) → Option Yaml
  | [] => none
  | (.str k, v) :: items => if k = key then some v else lookup key items
  | _ :: items => lookup key items

end Yaml

end CryptoAggHarmonic

/-!
# YAML 1.1 as PyYAML reads it

The resolution of plain scalars, quoted scalars, flow sequences and flow mappings, and a block mapping with one of them
in each line. Everything else a text may hold is refused.
-/

namespace CryptoAggHarmonic

open PyOs (Text)

namespace Yaml

/-! ## Implicit resolution -/

open RegularExpression

/-- `[...]` -/
def oneOf : Text → RegularExpression Char
  | [] => 0
  | c :: cs => char c + oneOf cs

/-- The texts themselves. -/
def word : Text → RegularExpression Char
  | [] => 1
  | c :: cs => char c * word cs

/-- `r?` -/
def optional (r : RegularExpression Char) : RegularExpression Char := 1 + r

/-- `r+` -/
def many (r : RegularExpression Char) : RegularExpression Char := r * r.star

def digit : RegularExpression Char := oneOf "0123456789".toList

def digitOrLine : RegularExpression Char := oneOf "_0123456789".toList

def sign : RegularExpression Char := optional (oneOf "-+".toList)

/-- `(?:[eE][-+][0-9]+)?` -/
def exponent : RegularExpression Char := optional (oneOf "eE".toList * oneOf "-+".toList * many digit)

/-- `(?::[0-5]?[0-9])+` -/
def sixties : RegularExpression Char := many (char ':' * optional (oneOf "012345".toList) * digit)

def boolTexts : List Text :=
  ["yes", "Yes", "YES", "no", "No", "NO", "true", "True", "TRUE", "false", "False", "FALSE", "on", "On", "ON", "off",
    "Off", "OFF"].map String.toList

def nullTexts : List Text := ["~", "null", "Null", "NULL", ""].map String.toList

/-- `[-+]?(?:[0-9][0-9_]*)\.[0-9_]*(?:[eE][-+][0-9]+)?` -/
def pointed : RegularExpression Char := sign * digit * digitOrLine.star * char '.' * digitOrLine.star * exponent

def floatRegex : RegularExpression Char :=
  pointed + char '.' * digit * digitOrLine.star * exponent +
    sign * digit * digitOrLine.star * sixties * char '.' * digitOrLine.star +
    sign * char '.' * (word "inf".toList + word "Inf".toList + word "INF".toList) +
    char '.' * (word "nan".toList + word "NaN".toList + word "NAN".toList)

/-- `[-+]?(?:0|[1-9][0-9_]*)` -/
def decimalRegex : RegularExpression Char := sign * (char '0' + oneOf "123456789".toList * digitOrLine.star)

def intRegex : RegularExpression Char :=
  sign * word "0b".toList * many (oneOf "01_".toList) + sign * char '0' * many (oneOf "01234567_".toList) +
    decimalRegex + sign * word "0x".toList * many (oneOf "0123456789abcdefABCDEF_".toList) +
    sign * oneOf "123456789".toList * digitOrLine.star * sixties

def blanks : RegularExpression Char := oneOf " \t".toList

def timestampRegex : RegularExpression Char :=
  let one := digit * optional digit
  let two := digit * digit
  two * two * char '-' * two * char '-' * two +
    two * two * char '-' * one * char '-' * one * (oneOf "Tt".toList + many blanks) * one * char ':' * two *
      char ':' * two * optional (char '.' * digit.star) *
      optional (blanks.star * (char 'Z' + oneOf "-+".toList * one * optional (char ':' * two)))

/-- `int(text, base)` of digits below ten; nothing where there are none. -/
def ofDigits (base : ℕ) (cs : Text) : Option ℤ := if cs = [] then none else some (Nat.ofDigitChars base cs 0)

/-- `int(text, 16)` -/
def ofHexDigits (cs : Text) : Option ℤ :=
  if cs = [] then none
  else some (cs.foldl (fun n c => n * 16 + (if c.isDigit then c.toNat - 48 else c.toLower.toNat - 87)) 0)

/-- `construct_yaml_int` without the sign -/
def magnitude (cs : Text) : Option ℤ :=
  match cs with
  | ['0'] => some 0
  | '0' :: 'b' :: cs => ofDigits 2 cs
  | '0' :: 'x' :: cs => ofHexDigits cs
  | '0' :: cs => ofDigits 8 cs
  | cs =>
      ((cs.splitOn ':').mapM (ofDigits 10)).map fun digits => digits.foldl (fun n digit => n * 60 + digit) 0

/-- Nothing where `int` raises a `ValueError`. -/
def constructInt (text : Text) : Option ℤ :=
  match text.filter (· ≠ '_') with
  | '-' :: cs => (magnitude cs).map Neg.neg
  | '+' :: cs => magnitude cs
  | cs => magnitude cs

/-- `12.5` and `1.25e-07`: what `repr` makes of most floats. -/
def reprPointed : RegularExpression Char :=
  many digit * char '.' * many digit * optional (char 'e' * oneOf "-+".toList * many digit)

/-- `1e-05`: a float with one digit. -/
def reprPointless : RegularExpression Char := digit * char 'e' * oneOf "-+".toList * many digit

/-- The floats that are not negative, their `repr`, and `float` of a text. -/
structure FloatText where
  IsFloat : ℚ → Prop
  repr : ℚ → Text
  ofText : Text → ℚ
  repr_mem : ∀ x, IsFloat x → repr x ∈ (reprPointed + reprPointless).matches'
  ofText_repr : ∀ x, IsFloat x → ofText (repr x) = x

variable (ft : FloatText)

/-- `str(n)` -/
def strInt : ℤ → Text
  | .ofNat n => Nat.toDigits 10 n
  | .negSucc n => '-' :: Nat.toDigits 10 (n + 1)

/-- `str(x)` -/
def strFloat : PyFloat → Text
  | .nan => "nan".toList
  | .posInf => "inf".toList
  | .negInf => "-inf".toList
  | .finite x => if x < 0 then '-' :: ft.repr (-x) else ft.repr x

/-- `construct_yaml_float` without the sign -/
def floatMagnitude (cs : Text) : PyFloat :=
  if cs = ".inf".toList then .posInf
  else if cs = ".nan".toList then .nan
  else if cs.contains ':' then
    .finite (((cs.splitOn ':').map ft.ofText).foldl (fun x digit => x * 60 + digit) 0)
  else .finite (ft.ofText cs)

def constructFloat (text : Text) : PyFloat :=
  match (text.filter (· ≠ '_')).map Char.toLower with
  | '-' :: cs => (floatMagnitude ft cs).neg
  | '+' :: cs => floatMagnitude ft cs
  | cs => floatMagnitude ft cs

/-- The value of a plain scalar; nothing for the tags that no scalar is constructed for. -/
def resolve (text : Text) : Option Yaml :=
  if text ∈ boolTexts then some (.bool (text.map Char.toLower ∈ ["yes", "true", "on"].map String.toList))
  else if floatRegex.rmatch text then some (.float (constructFloat ft text))
  else if intRegex.rmatch text then (constructInt text).map .int
  else if text = "<<".toList then none
  else if text ∈ nullTexts then some .null
  else if timestampRegex.rmatch text then some .date
  else if text = "=".toList then none
  else some (.str text)

/-- A text that resolves to itself. -/
def isWord (text : Text) : Bool :=
  text ∉ boolTexts ∧ floatRegex.rmatch text = false ∧ intRegex.rmatch text = false ∧ text ≠ "<<".toList ∧
    text ∉ nullTexts ∧ timestampRegex.rmatch text = false ∧ text ≠ "=".toList

/-! ## Scalars -/

/-- What the reader lets pass. -/
def printable (c : Char) : Bool :=
  c = '\t' ∨ c = '\n' ∨ c = '\r' ∨ (' ' ≤ c ∧ c ≤ '~') ∨ c.toNat = 0x85 ∨ (0xa0 ≤ c.toNat ∧ c.toNat ≤ 0xd7ff) ∨
    (0xe000 ≤ c.toNat ∧ c.toNat ≤ 0xfffd) ∨ 0x10000 ≤ c.toNat

def lineBreak (c : Char) : Bool := c = '\n' ∨ c = '\r' ∨ c.toNat = 0x85 ∨ c.toNat = 0x2028 ∨ c.toNat = 0x2029

def white (c : Char) : Bool := c = ' ' ∨ c = '\t' ∨ lineBreak c

/-- `,[]\x7b\x7d` -/
def flowIndicator (c : Char) : Bool := c = ',' ∨ c = '[' ∨ c = ']' ∨ c = '\x7b' ∨ c = '\x7d'

/-- A plain scalar ends before `c`, which `next` follows. -/
def endsPlain (flow : Bool) (c : Char) (next : Option Char) : Bool :=
  lineBreak c ∨ c = '\t' ∨ (c = ':' ∧ next.all fun d => white d ∨ (flow ∧ flowIndicator d)) ∨
    (flow ∧ (c = '?' ∨ flowIndicator c)) ∨ (c = ' ' ∧ next = some '#')

def takePlain (flow : Bool) : Text → Text × Text
  | [] => ([], [])
  | c :: cs =>
      if endsPlain flow c cs.head? then ([], c :: cs) else (c :: (takePlain flow cs).1, (takePlain flow cs).2)

def indicator (c : Char) : Bool :=
  white c ∨ c ∈ "-?:,[]#&*!|>'\"%@".toList ∨ flowIndicator c ∨ c.toNat = 0x60

/-- `check_plain` -/
def startsPlain (flow : Bool) (c : Char) (next : Option Char) : Bool :=
  !indicator c ∨ (next.any (fun d => !white d) ∧ (c = '-' ∨ (!flow ∧ (c = '?' ∨ c = ':'))))

def readPlain (flow : Bool) (cs : Text) : Option (Yaml × Text) :=
  match cs with
  | [] => none
  | c :: rest =>
      if startsPlain flow c rest.head? then
        (resolve ft ((takePlain flow cs).1.rdropWhile (· = ' '))).map fun v => (v, (takePlain flow cs).2)
      else none

/-- A key that is read as it is written, without quotes. -/
def plainKey (flow : Bool) (key : Text) : Bool :=
  match key with
  | [] => false
  | c :: rest =>
      key.length ≤ 1024 ∧ key.all printable ∧ startsPlain flow c (rest ++ [':', ' ']).head? ∧
        takePlain flow (key ++ [':', ' ']) = (key, [':', ' ']) ∧ key.rdropWhile (· = ' ') = key ∧ isWord key

def hexDigit? (c : Char) : Option ℕ :=
  if c.isDigit then some (c.toNat - 48)
  else if 'a' ≤ c.toLower ∧ c.toLower ≤ 'f' then some (c.toLower.toNat - 87)
  else none

/-- `chr(int(digits, 16))`; nothing for half of a surrogate pair. -/
def hexChar? (digits : Text) : Option Char :=
  match digits.mapM hexDigit? with
  | none => none
  | some ds =>
      let n := ds.foldl (fun n d => n * 16 + d) 0
      if n.isValidChar then some (.ofNat n) else none

/-- `ESCAPE_REPLACEMENTS` -/
def escapes : List (Char × Char) :=
  [('0', '\x00'), ('a', '\x07'), ('b', '\x08'), ('t', '\t'), ('\t', '\t'), ('n', '\n'), ('v', '\x0b'), ('f', '\x0c'),
    ('r', '\r'), ('e', '\x1b'), (' ', ' '), ('"', '"'), ('\\', '\\'), ('/', '/'), ('N', '\u0085'), ('_', '\u00a0'),
    ('L', '\u2028'), ('P', '\u2029')]

/-- The rest of a text in double quotes, and what follows it. -/
def readQuoted : Text → Option (Text × Text)
  | [] => none
  | '"' :: cs => some ([], cs)
  | '\\' :: 'x' :: a :: b :: cs =>
      (hexChar? [a, b]).bind fun c => (readQuoted cs).map fun (s, rest) => (c :: s, rest)
  | '\\' :: 'u' :: a :: b :: c :: d :: cs =>
      (hexChar? [a, b, c, d]).bind fun c => (readQuoted cs).map fun (s, rest) => (c :: s, rest)
  | '\\' :: 'U' :: a :: b :: c :: d :: e :: f :: g :: h :: cs =>
      (hexChar? [a, b, c, d, e, f, g, h]).bind fun c => (readQuoted cs).map fun (s, rest) => (c :: s, rest)
  | '\\' :: e :: cs => (escapes.lookup e).bind fun c => (readQuoted cs).map fun (s, rest) => (c :: s, rest)
  | c :: cs => if lineBreak c then none else (readQuoted cs).map fun (s, rest) => (c :: s, rest)

/-! ## Collections -/

def skipSpaces : Text → Text := List.dropWhile (· = ' ')

/-- A key of a mapping that Python can hash. -/
def hashable : Yaml → Bool
  | .seq _ => false
  | .map _ => false
  | .set _ => false
  | _ => true

/-- `mapping[key] = value` for a key that is a text; other keys are kept as they come. -/
def put (items : List (Yaml × Yaml)) (key value : Yaml) : List (Yaml × Yaml) :=
  match key with
  | .str k =>
      if (lookup k items).isSome then
        items.map fun item => match item.1 with | .str k' => if k' = k then (item.1, value) else item | _ => item
      else items ++ [(key, value)]
  | _ => items ++ [(key, value)]

mutual

/-- A node of a flow collection. The first argument bounds the depth and the length. -/
def readFlow : ℕ → Text → Option (Yaml × Text)
  | 0, _ => none
  | _ + 1, '"' :: cs => (readQuoted cs).map fun (s, rest) => (.str s, rest)
  | n + 1, '[' :: cs => (readItems n cs).map fun (xs, rest) => (.seq xs, rest)
  | n + 1, '\x7b' :: cs => (readEntries n [] cs).map fun (items, rest) => (.map items, rest)
  | _ + 1, cs => readPlain ft true cs

def readItems : ℕ → Text → Option (List Yaml × Text)
  | 0, _ => none
  | n + 1, cs =>
      match skipSpaces cs with
      | ']' :: rest => some ([], rest)
      | cs =>
          match readFlow n cs with
          | none => none
          | some (x, rest) =>
              match skipSpaces rest with
              | ']' :: rest => some ([x], rest)
              | ',' :: rest => (readItems n rest).map fun (xs, rest) => (x :: xs, rest)
              | _ => none

/-- A key of more than 1024 characters is none. -/
def readEntries : ℕ → List (Yaml × Yaml) → Text → Option (List (Yaml × Yaml) × Text)
  | 0, _, _ => none
  | n + 1, items, cs =>
      match skipSpaces cs with
      | '\x7d' :: rest => some (items, rest)
      | cs =>
          match readFlow n cs with
          | none => none
          | some (key, rest) =>
              match skipSpaces rest with
              | ':' :: rest' =>
                  if hashable key ∧ cs.length ≤ 1024 + (skipSpaces rest).length then
                    match readFlow n (skipSpaces rest') with
                    | none => none
                    | some (value, rest) =>
                        match skipSpaces rest with
                        | '\x7d' :: rest => some (put items key value, rest)
                        | ',' :: rest => readEntries n (put items key value) rest
                        | _ => none
                  else none
              | _ => none

end

/-! ## Documents -/

/-- The value of a line, up to its end. -/
def readLineValue (cs : Text) : Option Yaml :=
  let node :=
    match skipSpaces cs with
    | '"' :: cs => readFlow ft (cs.length + 1) ('"' :: cs)
    | '[' :: cs => readFlow ft (cs.length + 1) ('[' :: cs)
    | '\x7b' :: cs => readFlow ft (cs.length + 1) ('\x7b' :: cs)
    | cs => readPlain ft false cs
  match node with
  | some (v, rest) => if skipSpaces rest = [] then some v else none
  | none => none

/-- `key: value` -/
def readLine (line : Text) : Option (Yaml × Yaml) :=
  match readPlain ft false line with
  | some (key, ':' :: ' ' :: cs) => if line.length ≤ 1026 + cs.length then (readLineValue ft cs).map (key, ·) else none
  | _ => none

/-- `yaml.safe_load` of a mapping that has a line for each entry. -/
def safeLoad (text : Text) : Option Yaml :=
  if text.all printable then
    (((text.splitOn '\n').filter (· ≠ [])).mapM (readLine ft)).map fun entries =>
      .map (entries.foldl (fun items entry => put items entry.1 entry.2) [])
  else none

end Yaml

end CryptoAggHarmonic
