import MailMerge.Text.Basic
/-!
# Kinds of placeholders

What a placeholder asks for. Kinds are resolved in the order of `order`: those that look at the
surroundings first, those that only format a value after them.

Section 3 of the specification: `PlaceholderKind`.

Results:
* `ofName?_name`, `name_ofName?`: a kind is its name.
-/
namespace MailMerge

/-- What a placeholder asks for. -/
inductive Kind where
  | date
  | user
  | site
  | image
  | qrcode
  | money
  | terbilang
  | number
  | gelar
  | alamat
  | custom
  deriving DecidableEq, Repr

namespace Kind

/-- The word that begins a placeholder of the kind. -/
def name : Kind → Text
  | .date => "date".toList
  | .user => "user".toList
  | .site => "site".toList
  | .image => "image".toList
  | .qrcode => "qrcode".toList
  | .money => "money".toList
  | .terbilang => "terbilang".toList
  | .number => "number".toList
  | .gelar => "gelar".toList
  | .alamat => "alamat".toList
  | .custom => "custom".toList

/-- The kinds in the order in which they are resolved. -/
def order : List Kind :=
  [.date, .image, .user, .site, .qrcode, .money, .terbilang, .number, .gelar, .alamat, .custom]

/-- The kind of a name. -/
def ofName? (t : Text) : Option Kind := order.find? fun k => k.name = t

/-- Whether placeholders of the kind stand for pictures. -/
def isPicture (k : Kind) : Bool := k = .image || k = .qrcode

theorem mem_order (k : Kind) : k ∈ order := by cases k <;> decide

theorem ofName?_name (k : Kind) : ofName? k.name = some k := by cases k <;> rfl

theorem name_ofName? {t : Text} {k : Kind} (h : ofName? t = some k) : k.name = t := by
  simpa using List.find?_some h

end Kind
end MailMerge
