import MailMerge.Fault
/-!
# Reading records

Records come as maps. Each field has a reader for its value, which is generous: digits stand for a
number, and words for a truth value. All fields are read before a verdict is given, so every misfit
is reported, in the order of the fields.
-/
namespace MailMerge

/-- A reader of values: what a value says, or why it does not fit. -/
abbrev Reader (α : Type) := Value → Except (List Misfit) α

/-- Reading field after field, with the misfits met so far. -/
abbrev Reading := StateM (List Misfit)

namespace Reader

variable {α β : Type}

/-- A value that does not fit. -/
def misfit (k : MisfitKind) : Except (List Misfit) α := .error [⟨[], k⟩]

/-- Texts. -/
def text : Reader Text
  | .text t => .ok t
  | _ => misfit .noText

/-- Paths. -/
def path : Reader Path
  | .text t => .ok (Path.ofText t)
  | _ => misfit .noPath

/-- Nothing, or what another reader reads. -/
def optional (r : Reader α) : Reader (Option α)
  | .null => .ok none
  | v => (r v).map some

/-- One of a choice of names. -/
def choice (ofName? : Text → Option α) : Reader α
  | .text t => match ofName? t with
    | some a => .ok a
    | none => misfit .noChoice
  | _ => misfit .noChoice

/-- A whole number from a fraction. -/
def wholeOf (negative : Bool) (num den : Nat) : Except (List Misfit) Int :=
  if num % den = 0 then .ok (Binary64.signed negative (num / den)) else misfit .brokenWhole

/-- The digits of a numeral, in which single underscores may stand between two others. -/
def bareDigits (t : Text) : Text :=
  let bare := t.filter (· != '_')
  if t.head? = some '_' || t.getLast? = some '_' || (Text.splitOn '_' t).any (·.isEmpty) then []
  else bare

/-- A whole number in digits, with a sign in front and a zero fraction behind, if any. -/
def wholeText (t : Text) : Except (List Misfit) Int :=
  let t := t.trim
  if digitLimit < t.length then misfit .tooLongWhole
  else
    let (negative, ds) := Decimal.splitSign t
    let (whole, part) := Text.cut '.' ds
    let bare := bareDigits whole
    if !(part.getD []).all (· == '0') || bare.isEmpty || !bare.all (·.isDigit) then
      misfit .unreadableWhole
    else .ok (Binary64.signed negative (Nat.ofDigitChars 10 bare 0))

/-- Whole numbers. -/
def whole : Reader Int
  | .int n => .ok n
  | .bool b => .ok (if b then 1 else 0)
  | .float x => match x.fraction? with
    | some (s, a, b) => wholeOf s a b
    | none => misfit .notFinite
  | .decimal (.finite s c e) =>
    if 0 ≤ e then .ok (Binary64.signed s (c * 10 ^ e.toNat)) else wholeOf s c (10 ^ e.natAbs)
  | .decimal _ => misfit .brokenWhole
  | .text t => wholeText t
  | _ => misfit .noWhole

/-- Whether a text is a decimal numeral: digits, perhaps with a point among them, and perhaps an
exponent. -/
def isNumeral (t : Text) : Bool :=
  let lower := t.map Char.toLower
  let (mantissa, exponent) := Text.cut 'e' lower
  let (whole, part) := Text.cut '.' mantissa
  let digits := whole ++ part.getD []
  !digits.isEmpty && digits.all (·.isDigit) &&
    match exponent with
    | none => true
    | some e => let ds := (Decimal.splitSign e).2; !ds.isEmpty && ds.all (·.isDigit)

/-- A number in decimal notation. -/
def numberText (t : Text) : Except (List Misfit) Binary64 :=
  let (negative, bare) := Decimal.splitSign t.trim
  let word := bare.map Char.toLower
  if word = "inf".toList || word = "infinity".toList then .ok (.infinite negative)
  else if word = "nan".toList then .ok .nan
  else
    let ds := if bare.contains '_' then bareDigits bare else bare
    if !isNumeral ds then misfit .unreadableNumber
    else match Decimal.ofText? ds with
      | some (.finite _ c e) => .ok (Binary64.ofDecimal (.finite negative c e))
      | _ => misfit .unreadableNumber

/-- Numbers. -/
def number : Reader Binary64
  | .float x => .ok x
  | .int n => match Binary64.ofInt n with
    | .finite s m e => .ok (.finite s m e)
    | _ => misfit .noNumber
  | .bool b => .ok (Binary64.ofInt (if b then 1 else 0))
  | .decimal d => .ok (Binary64.ofDecimal d)
  | .text t => numberText t
  | _ => misfit .noNumber

/-- The words for yes. -/
def yesWords : List Text := ["1", "on", "t", "true", "y", "yes"].map String.toList

/-- The words for no. -/
def noWords : List Text := ["0", "off", "f", "false", "n", "no"].map String.toList

/-- A truth value from a number. -/
def truthOf (n : Int) : Except (List Misfit) Bool :=
  if n = 0 then .ok false else if n = 1 then .ok true else misfit .unreadableTruth

/-- Truth values. -/
def truth : Reader Bool
  | .bool b => .ok b
  | .text t =>
    let word := t.map Char.toLower
    if word ∈ yesWords then .ok true
    else if word ∈ noWords then .ok false
    else misfit .unreadableTruth
  | .int n => truthOf n
  | v => match number v with
    | .error _ => misfit .noTruth
    | .ok x => match x.fraction? with
      | some (s, a, b) => if a % b = 0 then truthOf (Binary64.signed s (a / b)) else misfit .noTruth
      | none => misfit .noTruth

/-- The members of a list from an index on. -/
def membersFrom (r : Reader α) : (index : Nat) → List Value → Except (List Misfit) (List α)
  | _, [] => .ok []
  | i, v :: vs =>
    match r v, membersFrom r (i + 1) vs with
    | .ok a, .ok as => .ok (a :: as)
    | .ok _, .error ms => .error ms
    | .error ms, rest =>
      .error (ms.map (fun m => { m with place := Text.ofNat i :: m.place }) ++
        match rest with | .ok _ => [] | .error ns => ns)

/-- Lists. -/
def list (r : Reader α) : Reader (List α)
  | .list vs => membersFrom r 0 vs
  | _ => misfit .noList

/-- Maps. -/
def map : Reader DataMap
  | .map es => .ok es
  | _ => misfit .noMap

/-- What a reader reads, if it passes a test. -/
def such (r : Reader α) (test : α → Bool) (k : MisfitKind) : Reader α := fun v => do
  let a ← r v
  if test a then .ok a else misfit k

/-- Whole numbers above zero. -/
def positive : Reader Nat := fun v => (such whole (0 < ·) .notGreater v).map Int.toNat

/-- Whole numbers from zero on. -/
def natural : Reader Nat := fun v => (such whole (0 ≤ ·) .less v).map Int.toNat

/-- Numbers above zero. -/
def positiveNumber : Reader Binary64 :=
  such number (fun x => (Binary64.zero false).lt x) .notGreater

/-- Numbers from zero on. -/
def naturalNumber : Reader Binary64 :=
  such number (fun x => x != .nan && !x.lt (Binary64.zero false)) .less

end Reader

namespace Reading

variable {α : Type}

/-- Reads a field. A field that is not there has the default, if it has one; a field that does not
fit adds to the misfits. -/
def field [Inhabited α] (m : DataMap) (name : String) (r : Reader α) (default? : Option α) :
    Reading α := do
  let report (ms : List Misfit) : Reading α := do
    modify (· ++ ms.map fun x => { x with place := name.toList :: x.place })
    pure default
  match Table.get? m name.toList, default? with
  | none, some a => pure a
  | none, none => report [⟨[], .missing⟩]
  | some v, _ => match r v with
    | .ok a => pure a
    | .error ms => report ms

/-- The record that was read, unless there were misfits. -/
def finish (record : String) (r : Reading α) : Except Fault α :=
  match r.run [] with
  | (a, []) => .ok a
  | (_, ms) => .error (.invalidRecord record.toList ms)

end Reading
end MailMerge
