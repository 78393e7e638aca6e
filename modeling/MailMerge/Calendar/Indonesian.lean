import MailMerge.Calendar.Shape
/-!
# Indonesian names of months and days

English names in a text are replaced by Indonesian ones: first those of the months, then those of
the days. At each place the longest name that begins there is taken, and what a replacement puts in
is not looked at again in the same pass.

Section 4.2 of the specification, resolver `date`: `localize_id`.
-/
namespace MailMerge.Indonesian

/-- The names of the months with their English ones. -/
def monthTable : List (Text × Text) := monthNames.zip
  (["Januari", "Februari", "Maret", "April", "Mei", "Juni", "Juli", "Agustus", "September",
    "Oktober", "November", "Desember"].map String.toList)

/-- The names of the days with their English ones. -/
def dayTable : List (Text × Text) := dayNames.zip
  (["Senin", "Selasa", "Rabu", "Kamis", "Jumat", "Sabtu", "Minggu"].map String.toList)

/-- The longest name of the table that begins the text. -/
def nameAt? (table : List (Text × Text)) (t : Text) : Option (Text × Text) :=
  (table.filter fun e => e.1.isPrefixOf t).foldl
    (fun best e => match best with
      | none => some e
      | some b => if b.1.length < e.1.length then some e else some b) none

/-- The text with the names of the table replaced, after the first `skip` characters, which belong
to a name that has been replaced. -/
def replaceFrom (table : List (Text × Text)) : (skip : Nat) → Text → Text
  | _, [] => []
  | skip + 1, _ :: r => replaceFrom table skip r
  | 0, c :: r =>
    match nameAt? table (c :: r) with
    | some (en, name) => name ++ replaceFrom table (en.length - 1) r
    | none => c :: replaceFrom table 0 r

/-- The text with the names of the table replaced. -/
def replaceNames (table : List (Text × Text)) (t : Text) : Text := replaceFrom table 0 t

/-- The text with Indonesian names of months and days. -/
def localize (t : Text) : Text := replaceNames dayTable (replaceNames monthTable t)

end MailMerge.Indonesian
