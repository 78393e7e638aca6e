import MailMerge.Cache.AssetCache
/-!
# Failures

Why no document was made, as it is told to whoever asked for it. Each failure has a code that does
not change and a message. Apart from failures there are faults, which nobody expected.

Section 7 of the specification: the hierarchy of errors.
-/
namespace MailMerge

/-- Why a document could not be converted. -/
inductive ConversionFault where
  | unknownFormat (name : Text)
  | notFound (program : Text)
  | notStarted (t : Trouble)
  | timedOut (seconds : Binary64)
  | exited (code : Nat)
  | noConverter (ending : Text)
  | refused (message : Text)
  deriving Repr

/-- What is said about the fault. -/
def ConversionFault.message : ConversionFault → Text
  | .unknownFormat n => "unsupported output format: ".toList ++ n.quoted
  | .notFound p => "converter binary not found: ".toList ++ p
  | .notStarted t => "converter could not start: ".toList ++ t.message
  | .timedOut s => "converter timed out after ".toList ++ s.toGeneralText ++ ['s']
  | .exited n => "converter exited with code ".toList ++ Text.ofNat n
  | .noConverter e => "no converter configured for ".toList ++ e ++ " output".toList
  | .refused m => m

/-- Why the data of a request cannot be used. -/
inductive DataFault where
  | noMap (kind : Text)
  | unknownFormat (shown : Text)
  | refused (message : Text)
  deriving DecidableEq, Repr

/-- What is said about the fault. -/
def DataFault.message : DataFault → Text
  | .noMap k => "data must be a mapping, got ".toList ++ k
  | .unknownFormat s => "unsupported output format: ".toList ++ s
  | .refused m => m

/-- A file that could not be copied to or moved to its place. -/
inductive CopyFault where
  | template (path : Text) (t : Trouble)
  | output (path : Text) (t : Trouble)
  deriving DecidableEq, Repr

/-- What is said about the fault. -/
def CopyFault.message : CopyFault → Text
  | .template p t => "cannot copy template ".toList ++ p ++ ": ".toList ++ t.message
  | .output p t => "cannot write output ".toList ++ p ++ ": ".toList ++ t.message

/-- Why no document was made. -/
inductive Failure where
  | data (f : DataFault)
  | noTemplate (path : Text)
  | noDirectory (path : Text)
  | copy (f : CopyFault)
  | unreadableTemplate (path : Text)
  | asset (f : AssetFault)
  | filling (f : Fault)
  | conversion (f : ConversionFault)
  deriving Repr

namespace Failure

/-- The code of the failure. -/
def code : Failure → Text
  | .data _ => "invalid_data".toList
  | .noTemplate _ => "template_not_found".toList
  | .noDirectory _ => "invalid_temp_dir".toList
  | .copy _ => "copy_failed".toList
  | .unreadableTemplate _ => "template_load_failed".toList
  | .asset _ => "asset_generation_failed".toList
  | .filling _ => "processing_failed".toList
  | .conversion _ => "conversion_failed".toList

/-- What is said about the failure. -/
def message : Failure → Text
  | .data f => f.message
  | .noTemplate p => "template not found: ".toList ++ p
  | .noDirectory p => "temp dir is not a writable directory: ".toList ++ p
  | .copy f => f.message
  | .unreadableTemplate p =>
    "cannot load template ".toList ++ p ++ ": no document that can be read".toList
  | .asset f => f.message
  | .filling f => "failed to process template: ".toList ++ f.message
  | .conversion f => f.message

end Failure

/-- Why work ended early. -/
inductive Abort where
  | failure (f : Failure)
  | fault (f : Fault)
  deriving Repr

end MailMerge
