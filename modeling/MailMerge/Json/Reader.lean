import MailMerge.Fault
/-!
# Reading JSON

A JSON text is read from the left into a value. Where it is flawed, the kind of the first flaw and
its place are told, the place by line and column. Besides the numbers of JSON the words `NaN`,
`Infinity` and `-Infinity` are read. Of a key that appears twice the last value counts. An escape
that names half of a surrogate pair stands for no character.
-/
namespace MailMerge.Json

/-- The flaws of a JSON text. -/
inductive Flaw where
  | noValue
  | noName
  | noColon
  | noComma
  | openText
  | control
  | escape
  | codeEscape
  | excess
  | mark
  deriving DecidableEq, Repr

/-- What is said about a flaw. -/
def Flaw.text : Flaw → String
  | .noValue => "Expecting value"
  | .noName => "Expecting property name enclosed in double quotes"
  | .noColon => "Expecting ':' delimiter"
  | .noComma => "Expecting ',' delimiter"
  | .openText => "Unterminated string starting at"
  | .control => "Invalid control character at"
  | .escape => "Invalid \\escape"
  | .codeEscape => "Invalid \\uXXXX escape"
  | .excess => "Extra data"
  | .mark => "Unexpected UTF-8 BOM (decode using utf-8-sig)"

/-- Why a text was not read: it is flawed at a place, or it goes beyond what is read at all. -/
inductive Stop where
  | flaw (f : Flaw) (place : Nat)
  | fault (f : Fault)
  deriving Repr

/-- What was read, with the text after it and its place. -/
abbrev Piece (α : Type) := α × Text × Nat

/-- A flaw at a place. -/
def flawAt {α : Type} (f : Flaw) (place : Nat) : Except Stop α := .error (.flaw f place)

/-- How deep lists and maps may stand in each other. -/
def maxDepth : Nat := 975

/-- Whether a character may stand between the parts of a JSON text. -/
def isSpace (c : Char) : Bool := c == ' ' || c == '\t' || c == '\n' || c == '\r'

/-- The text from the next part on, with its place. -/
def skip (t : Text) (place : Nat) : Text × Nat :=
  (t.dropWhile isSpace, place + (t.takeWhile isSpace).length)

/-- The character that a letter after a backslash stands for. -/
def escaped? (c : Char) : Option Char :=
  [('"', '"'), ('\\', '\\'), ('/', '/'), ('b', '\x08'), ('f', '\x0c'), ('n', '\n'), ('r', '\r'),
    ('t', '\t')].lookup c

/-- The value of a hexadecimal digit. -/
def hexValue? (c : Char) : Option Nat :=
  if c.isDigit then some (c.toNat - 48)
  else if 'a' ≤ c && c ≤ 'f' then some (c.toNat - 87)
  else if 'A' ≤ c && c ≤ 'F' then some (c.toNat - 55)
  else none

/-- The number of four hexadecimal digits, which must be followed by something. -/
def code? (t : Text) : Option Nat :=
  if t.length < 5 then none
  else ((t.take 4).mapM hexValue?).map fun ds => ds.foldl (fun n d => 16 * n + d) 0

/-- Whether a number is the first half of a surrogate pair. -/
def isHighHalf (n : Nat) : Bool := 0xD800 ≤ n && n < 0xDC00

/-- Whether a number is the second half of a surrogate pair. -/
def isLowHalf (n : Nat) : Bool := 0xDC00 ≤ n && n < 0xE000

/-- The characters of an escape by number, which `t` begins after the letter, and how many
characters of `t` it takes. The place is that of the letter. -/
def codeEscape (t : Text) (place : Nat) : Except Stop (Text × Nat) :=
  match code? t with
  | none => flawAt .codeEscape place
  | some n =>
    let single : Text := if isHighHalf n || isLowHalf n then [] else [Char.ofNat n]
    match isHighHalf n, t.drop 4 with
    | true, '\\' :: 'u' :: r =>
      if t.length < 11 then .ok (single, 4)
      else match code? r with
        | none => flawAt .codeEscape (place + 6)
        | some m =>
          if isLowHalf m then
            .ok ([Char.ofNat (0x10000 + (n - 0xD800) * 0x400 + (m - 0xDC00))], 10)
          else .ok (single, 4)
    | _, _ => .ok (single, 4)

/-- The rest of a text up to its closing quotation mark, after `drop` characters that were read
already. The text began at `start`. -/
def textFrom (start : Nat) : (drop place : Nat) → Text → Except Stop (Piece Text)
  | _, _, [] => flawAt .openText start
  | n + 1, place, _ :: r => textFrom start n (place + 1) r
  | 0, place, '"' :: r => .ok ([], r, place + 1)
  | 0, place, '\\' :: r =>
    match r with
    | [] => flawAt .openText start
    | 'u' :: s => do
      let (cs, n) ← codeEscape s (place + 1)
      let (more, rest) ← textFrom start (n + 1) (place + 1) r
      pure (cs ++ more, rest)
    | c :: _ =>
      match escaped? c with
      | none => flawAt .escape place
      | some d => do
        let (more, rest) ← textFrom start 1 (place + 1) r
        pure (d :: more, rest)
  | 0, place, c :: r =>
    if c.toNat < 32 then flawAt .control place
    else do
      let (more, rest) ← textFrom start 0 (place + 1) r
      pure (c :: more, rest)

/-- The digits that begin a text, and what follows. -/
def spanDigits (t : Text) : Text × Text := (t.takeWhile (·.isDigit), t.dropWhile (·.isDigit))

/-- The digits of a fraction, if there is one, and what follows. -/
def spanFraction (t : Text) : Option Text × Text :=
  match t with
  | '.' :: c :: r =>
    if c.isDigit then
      let (ds, rest) := spanDigits (c :: r)
      (some ds, rest)
    else (none, t)
  | _ => (none, t)

/-- The sign and digits of an exponent, if there is one, and what follows. -/
def spanExponent (t : Text) : Option (Bool × Text) × Text :=
  match t with
  | c :: r =>
    if c == 'e' || c == 'E' then
      let (negative, s) := Decimal.splitSign r
      let (ds, rest) := spanDigits s
      if ds.isEmpty then (none, t) else (some (negative, ds), rest)
    else (none, t)
  | [] => (none, t)

/-- The number of ASCII digits. -/
def natOf (ds : Text) : Nat := ds.foldl (fun n c => 10 * n + (c.toNat - 48)) 0

/-- The floating point number of digits before and after the point and an exponent. -/
def floatOf (negative : Bool) (whole part : Text) (exponent : Option (Bool × Text)) : Binary64 :=
  let n := natOf (whole ++ part)
  let e : Int := (match exponent with
    | none => 0
    | some (s, ds) => Binary64.signed s (natOf ds)) - part.length
  Binary64.ofDecimal (.finite negative n e)

/-- The number that begins a text. -/
def numberAt (t : Text) (place : Nat) : Except Stop (Piece Value) :=
  let (negative, body) := match t with
    | '-' :: r => (true, r)
    | _ => (false, t)
  let whole := match body with
    | '0' :: _ => ['0']
    | _ => (spanDigits body).1
  if whole.isEmpty then flawAt .noValue place
  else
    let (part, r) := spanFraction (body.drop whole.length)
    let (exponent, rest) := spanExponent r
    let after := place + (t.length - rest.length)
    if part.isNone && exponent.isNone then
      if digitLimit < whole.length then .error (.fault (.unreadableNumber whole.length))
      else .ok (.int (Binary64.signed negative (natOf whole)), rest, after)
    else .ok (.float (floatOf negative whole (part.getD []) exponent), rest, after)

/-- The words that stand for values. -/
def words : List (Text × Value) :=
  [("null".toList, .null), ("true".toList, .bool true), ("false".toList, .bool false),
    ("NaN".toList, .float .nan), ("Infinity".toList, .float (.infinite false)),
    ("-Infinity".toList, .float (.infinite true))]

/-- The value of a word or number that begins a text. -/
def plainAt (t : Text) (place : Nat) : Except Stop (Piece Value) :=
  match words.find? fun w => w.1.isPrefixOf t with
  | some (w, v) => .ok (v, t.drop w.length, place + w.length)
  | none => numberAt t place

/-- The members of a list or map, each read by `item`, up to the closing mark. -/
def separated {α : Type} (close : Char) (item : Text → Nat → Except Stop (Piece α)) :
    (fuel : Nat) → Text → Nat → Except Stop (Piece (List α))
  | 0, _, place => flawAt .noValue place
  | fuel + 1, t, place => do
    let (a, r, place) ← item t place
    let (r, place) := skip r place
    match r with
    | c :: s =>
      if c == close then pure ([a], s, place + 1)
      else if c == ',' then do
        let (s, place) := skip s (place + 1)
        let (as, rest) ← separated close item fuel s place
        pure (a :: as, rest)
      else flawAt .noComma place
    | [] => flawAt .noComma place

/-- An entry of a map, its value read by `value`. -/
def entryAt (value : Text → Nat → Except Stop (Piece Value)) (t : Text) (place : Nat) :
    Except Stop (Piece (Text × Value)) :=
  match t with
  | '"' :: r => do
    let (k, r, place) ← textFrom place 0 (place + 1) r
    let (r, place) := skip r place
    match r with
    | ':' :: s => do
      let (s, place) := skip s (place + 1)
      let (v, rest) ← value s place
      pure ((k, v), rest)
    | _ => flawAt .noColon place
  | _ => flawAt .noName place

/-- The value that begins a text, inside at most `depth` more lists and maps. -/
def valueAt : (depth : Nat) → Text → Nat → Except Stop (Piece Value)
  | depth, t, place =>
    match t with
    | '"' :: r => do
      let (s, rest) ← textFrom place 0 (place + 1) r
      pure (.text s, rest)
    | '[' :: r =>
      match depth with
      | 0 => .error (.fault (.tooDeep true))
      | depth + 1 =>
        let (r, place) := skip r (place + 1)
        match r with
        | ']' :: s => .ok (.list [], s, place + 1)
        | _ => do
          let (vs, rest) ← separated ']' (valueAt depth) r.length.succ r place
          pure (.list vs, rest)
    | '\x7b' :: r =>
      match depth with
      | 0 => .error (.fault (.tooDeep false))
      | depth + 1 =>
        let (r, place) := skip r (place + 1)
        match r with
        | '\x7d' :: s => .ok (.map [], s, place + 1)
        | _ => do
          let (es, rest) ← separated '\x7d' (entryAt (valueAt depth)) r.length.succ r place
          pure (.map (Table.ofList es), rest)
    | _ => plainAt t place

/-- The value that a text writes. -/
def read (t : Text) : Except Stop Value :=
  match t with
  | '\uFEFF' :: _ => flawAt .mark 0
  | _ => do
    let (r, place) := skip t 0
    let (v, r, place) ← valueAt maxDepth r place
    let (r, place) := skip r place
    if r.isEmpty then .ok v else flawAt .excess place

/-- What is said about a flaw at a place of a text. -/
def flawMessage (t : Text) (f : Flaw) (place : Nat) : Text :=
  let before := t.take place
  let line := before.count '\n' + 1
  let column := (before.reverse.takeWhile (· != '\n')).length + 1
  f.text.toList ++ ": line ".toList ++ Text.ofNat line ++ " column ".toList ++ Text.ofNat column ++
    " (char ".toList ++ Text.ofNat place ++ [')']

end MailMerge.Json
