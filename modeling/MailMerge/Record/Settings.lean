import MailMerge.DataMap
import MailMerge.Phrase
import MailMerge.Record.Field
/-!
# Settings

What can be set for all documents: where drawn pictures are kept and how long, the currency and the
date format used where a placeholder names none, the light around symbols, and the program that
converts documents with the time it may take. A setting given directly comes before one from the
environment, and that before the built-in one.

Section 8 of the specification: `DocGenSettings`.
-/
namespace MailMerge

/-- The settings. -/
structure Settings where
  cacheDirectory : Path
  cacheHours : Binary64 := Binary64.ofInt 24
  sweepSeconds : Binary64 := Binary64.ofInt 3600
  currency : Text := "Rp".toList
  dateFormat : Text := usualDateFormat
  border : Nat := 2
  converter : Text := "soffice".toList
  converterSeconds : Binary64 := Binary64.ofInt 120
  deriving Repr

namespace Settings

/-- The settings that the environment may hold, with the names of their variables. -/
def variableNames : List (Text × Text) :=
  [("cache_dir", "DOCGEN_CACHE_DIR"), ("cache_ttl_hours", "DOCGEN_CACHE_TTL_HOURS"),
    ("currency", "DOCGEN_CURRENCY"), ("date_format", "DOCGEN_DATE_FORMAT"),
    ("soffice_binary", "DOCGEN_SOFFICE"),
    ("convert_timeout", "DOCGEN_CONVERT_TIMEOUT")].map fun p => (p.1.toList, p.2.toList)

/-- Where drawn pictures are kept unless something else is set. -/
def usualCache : Path := Path.ofText "/tmp/docgen/qrcache".toList

/-- The settings of a map, the cache being at `cache` when the map does not say where. -/
def ofMap (cache : Path) (m : DataMap) : Except Fault Settings :=
  Reading.finish "DocGenSettings" do
    let cacheDirectory ← Reading.field m "cache_dir" Reader.path (some cache)
    let hours ← Reading.field m "cache_ttl_hours" Reader.positiveNumber (some (Binary64.ofInt 24))
    let sweep ← Reading.field m "cache_sweep_interval" Reader.naturalNumber
      (some (Binary64.ofInt 3600))
    let currency ← Reading.field m "currency" Reader.text (some "Rp".toList)
    let dateFormat ← Reading.field m "date_format" Reader.text (some usualDateFormat)
    let border ← Reading.field m "qr_border" Reader.natural (some 2)
    let converter ← Reading.field m "soffice_binary" Reader.text (some "soffice".toList)
    let seconds ← Reading.field m "convert_timeout" Reader.positiveNumber
      (some (Binary64.ofInt 120))
    pure ⟨cacheDirectory, hours, sweep, currency, dateFormat, border, converter, seconds⟩

/-- The map of the settings in an environment; empty variables count as not there. -/
def ofVariables (environment : List (Text × Text)) : DataMap :=
  variableNames.filterMap fun (field, name) =>
    match environment.lookup name with
    | none | some [] => none
    | some t => some (field, .text t)

/-- The settings given directly, or else by the environment. -/
def ofEnvironment (environment : List (Text × Text)) (direct : DataMap) :
    Except Fault Settings :=
  ofMap usualCache
    (DataMap.overlay (ofVariables environment) (direct.filter fun e => !(e.2 matches .null)))

end Settings
end MailMerge
