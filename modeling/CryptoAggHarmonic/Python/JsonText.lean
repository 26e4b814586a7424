import CryptoAggHarmonic.Python.YamlText

/-!
# The text of JSON

A string as `json.dumps` writes it, and `json.loads` with what its decoder takes. The values are those of `Yaml`.
-/

namespace CryptoAggHarmonic.JsonText

open PyOs (Text)

/-! ## `json.dumps` -/

def hexDigits (n : ℕ) : Text := [n / 4096, n / 256 % 16, n / 16 % 16, n % 16].map Nat.digitChar

def unicodeEscape (n : ℕ) : Text := '\\' :: 'u' :: hexDigits n

/-- `ESCAPE_DCT` -/
def shortEscape (c : Char) : Option Char :=
  [('\\', '\\'), ('"', '"'), ('\x08', 'b'), ('\x0c', 'f'), ('\n', 'n'), ('\r', 'r'), ('\t', 't')].lookup c

def dumpsChar (c : Char) : Text :=
  match shortEscape c with
  | some e => ['\\', e]
  | none =>
      if ' ' ≤ c ∧ c ≤ '~' then [c]
      else if c.toNat < 0x10000 then unicodeEscape c.toNat
      else
        -- a pair of surrogates
        unicodeEscape (0xd800 + (c.toNat - 0x10000) / 1024) ++ unicodeEscape (0xdc00 + (c.toNat - 0x10000) % 1024)

def dumpsText (s : Text) : Text := '"' :: (s.flatMap dumpsChar ++ ['"'])

/-! ## `json.loads` -/

def space (c : Char) : Bool := c = ' ' ∨ c = '\t' ∨ c = '\n' ∨ c = '\r'

def skipSpace : Text → Text := List.dropWhile space

def hexValue? (digits : Text) : Option ℕ := (digits.mapM Yaml.hexDigit?).map (·.foldl (fun n d => n * 16 + d) 0)

/-- `BACKSLASH` -/
def backslash : List (Char × Char) :=
  [('"', '"'), ('\\', '\\'), ('/', '/'), ('b', '\x08'), ('f', '\x0c'), ('n', '\n'), ('r', '\r'), ('t', '\t')]

/-- The character of an escape; nothing for half of a surrogate pair. -/
def escapedChar? (n : ℕ) : Option Char := if n.isValidChar then some (.ofNat n) else none

/-- The rest of a string, and what follows it. -/
def readString : Text → Option (Text × Text)
  | [] => none
  | '"' :: cs => some ([], cs)
  | '\\' :: 'u' :: a :: b :: c :: d :: '\\' :: 'u' :: e :: f :: g :: h :: cs =>
      match hexValue? [a, b, c, d], hexValue? [e, f, g, h] with
      | some high, some low =>
          if 0xd800 ≤ high ∧ high < 0xdc00 ∧ 0xdc00 ≤ low ∧ low < 0xe000 then
            (readString cs).map fun (s, rest) =>
              (.ofNat (0x10000 + (high - 0xd800) * 1024 + (low - 0xdc00)) :: s, rest)
          else
            (escapedChar? high).bind fun c =>
              (readString ('\\' :: 'u' :: e :: f :: g :: h :: cs)).map fun (s, rest) => (c :: s, rest)
      | _, _ => none
  | '\\' :: 'u' :: a :: b :: c :: d :: cs =>
      ((hexValue? [a, b, c, d]).bind escapedChar?).bind fun c =>
        (readString cs).map fun (s, rest) => (c :: s, rest)
  | '\\' :: e :: cs => (backslash.lookup e).bind fun c => (readString cs).map fun (s, rest) => (c :: s, rest)
  | c :: cs => if c.toNat < 0x20 then none else (readString cs).map fun (s, rest) => (c :: s, rest)

variable (ft : Yaml.FloatText)

/-- `NUMBER_RE`: digits without a leading zero, then a fraction and an exponent, or neither. -/
def readNumber (cs : Text) : Option (Yaml × Text) :=
  let (minus, cs) := match cs with | '-' :: cs => (true, cs) | cs => (false, cs)
  let whole := match cs with | '0' :: _ => ['0'] | cs => cs.takeWhile Char.isDigit
  if whole = [] then none
  else
    let afterWhole := cs.drop whole.length
    let fraction := match afterWhole with
      | '.' :: cs => if (cs.takeWhile Char.isDigit) = [] then [] else '.' :: cs.takeWhile Char.isDigit
      | _ => []
    let afterFraction := afterWhole.drop fraction.length
    let exponent := match afterFraction with
      | e :: s :: cs =>
          if e ≠ 'e' ∧ e ≠ 'E' then []
          else if s.isDigit then e :: (s :: cs).takeWhile Char.isDigit
          else if (s = '-' ∨ s = '+') ∧ cs.takeWhile Char.isDigit ≠ [] then e :: s :: cs.takeWhile Char.isDigit
          else []
      | _ => []
    let rest := afterFraction.drop exponent.length
    if fraction = [] ∧ exponent = [] then
      let n : ℤ := Nat.ofDigitChars 10 whole 0
      some (.int (if minus then -n else n), rest)
    else
      let x := ft.ofText (whole ++ fraction ++ exponent)
      some (.float (.finite (if minus then -x else x)), rest)

/-- The constants, `NaN` and the infinities among them, and numbers. -/
def readScalar (cs : Text) : Option (Yaml × Text) :=
  let constants : List (Text × Yaml) :=
    [("null".toList, .null), ("true".toList, .bool true), ("false".toList, .bool false),
      ("NaN".toList, .float .nan), ("Infinity".toList, .float .posInf), ("-Infinity".toList, .float .negInf)]
  match constants.find? fun constant => constant.1.isPrefixOf cs with
  | some (name, v) => some (v, cs.drop name.length)
  | none => readNumber ft cs

mutual

/-- A value. The first argument bounds the depth and the length. -/
def readValue : ℕ → Text → Option (Yaml × Text)
  | 0, _ => none
  | _ + 1, '"' :: cs => (readString cs).map fun (s, rest) => (.str s, rest)
  | n + 1, '[' :: cs =>
      match skipSpace cs with
      | ']' :: rest => some (.seq [], rest)
      | cs => (readElements n cs).map fun (xs, rest) => (.seq xs, rest)
  | n + 1, '\x7b' :: cs =>
      match skipSpace cs with
      | '\x7d' :: rest => some (.map [], rest)
      | cs => (readMembers n [] cs).map fun (items, rest) => (.map items, rest)
  | _ + 1, cs => readScalar ft cs

def readElements : ℕ → Text → Option (List Yaml × Text)
  | 0, _ => none
  | n + 1, cs =>
      match readValue n (skipSpace cs) with
      | none => none
      | some (x, rest) =>
          match skipSpace rest with
          | ']' :: rest => some ([x], rest)
          | ',' :: rest => (readElements n rest).map fun (xs, rest) => (x :: xs, rest)
          | _ => none

def readMembers : ℕ → List (Yaml × Yaml) → Text → Option (List (Yaml × Yaml) × Text)
  | 0, _, _ => none
  | n + 1, items, cs =>
      match skipSpace cs with
      | '"' :: cs =>
          match readString cs with
          | none => none
          | some (key, rest) =>
              match skipSpace rest with
              | ':' :: rest =>
                  match readValue n (skipSpace rest) with
                  | none => none
                  | some (value, rest) =>
                      match skipSpace rest with
                      | '\x7d' :: rest => some (Yaml.put items (.str key) value, rest)
                      | ',' :: rest => readMembers n (Yaml.put items (.str key) value) rest
                      | _ => none
              | _ => none
      | _ => none

end

/-- Nothing where it raises a `JSONDecodeError`. -/
def loads (text : Text) : Option Yaml :=
  match readValue ft (2 * text.length + 1) (skipSpace text) with
  | some (v, rest) => if skipSpace rest = [] then some v else none
  | none => none

end CryptoAggHarmonic.JsonText
