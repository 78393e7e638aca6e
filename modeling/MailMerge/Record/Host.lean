import MailMerge.Record.Field
/-!
# The host of a document

Who asks for a document, and where. Placeholders may show the fields of both; for the user they may
also show fields that only the host knows.

Section 3 of the specification: `UserInfo` and `SiteInfo`.
-/
namespace MailMerge

/-- The user who asks for a document. -/
structure User where
  name : Text := []
  email : Text := []
  roles : List Text := []
  /-- The fields that only the host knows. -/
  extras : DataMap := []
  deriving Repr

/-- The site for which documents are made. -/
structure Site where
  name : Text := []
  url : Text := []
  description : Text := []
  email : Text := []
  version : Text := []
  deriving Repr

namespace User

/-- The fields that every user has. -/
def ownFields : List Text := ["display_name", "email", "roles"].map String.toList

/-- The user of a map. -/
def ofMap (m : DataMap) : Except Fault User := Reading.finish "UserInfo" do
  let name ← Reading.field m "display_name" Reader.text (some [])
  let email ← Reading.field m "email" Reader.text (some [])
  let roles ← Reading.field m "roles" (Reader.list Reader.text) (some [])
  pure ⟨name, email, roles, m.filter fun e => e.1 ∉ ownFields⟩

end User

namespace Site

/-- The site of a map. -/
def ofMap (m : DataMap) : Except Fault Site := Reading.finish "SiteInfo" do
  let name ← Reading.field m "name" Reader.text (some [])
  let url ← Reading.field m "url" Reader.text (some [])
  let description ← Reading.field m "description" Reader.text (some [])
  let email ← Reading.field m "admin_email" Reader.text (some [])
  let version ← Reading.field m "version" Reader.text (some [])
  pure ⟨name, url, description, email, version⟩

/-- The field of a name. -/
def field? (s : Site) (t : Text) : Option Text :=
  if t = "name".toList then some s.name
  else if t = "url".toList then some s.url
  else if t = "description".toList then some s.description
  else if t = "admin_email".toList then some s.email
  else if t = "version".toList then some s.version
  else none

end Site
end MailMerge
