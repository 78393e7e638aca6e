import MailMerge.Cache.Provision
import MailMerge.Resolution.Pictures
/-!
# Resolving all placeholders

The placeholders of a document are resolved kind by kind in a fixed order, those of one kind in the
order in which they were met. What a placeholder stands for is put into the data under its inner
text, so later ones see it. A placeholder that has a value already keeps it; for placeholders of
pictures only an asset counts.

Section 4.4 of the specification: `resolve_tokens` is `resolveAll`.
-/
namespace MailMerge

namespace Resolution

/-- The placeholders among tokens, each inner text once. -/
def descriptors (tokens : List Text) : List Descriptor :=
  (Token.distinct (tokens.map Token.unwrap)).filterMap Placeholder.parse

/-- The placeholders of tokens in the order in which they are resolved. -/
def inOrder (kinds : List Kind) (tokens : List Text) : List Descriptor :=
  let ds := descriptors tokens
  (Kind.order.filter (· ∈ kinds)).flatMap fun k => ds.filter (·.kind = k)

/-- Whether a placeholder has a value already. -/
def isResolved (m : DataMap) (d : Descriptor) : Bool :=
  match Table.get? m d.raw with
  | none => false
  | some v => !d.kind.isPicture || v matches .asset _

/-- The data after the placeholders of a list were resolved one after the other, and the cache after
that. -/
def resolveEach (studio : Studio) (env : Environment) (cache : AssetCache) (m : DataMap) :
    List Descriptor → Script (Except Fault DataMap × AssetCache)
  | [] => pure (.ok m, cache)
  | d :: r => do
    if isResolved m d then resolveEach studio env cache m r
    else
      let (found, cache) ← resolve studio env cache m d
      match found with
      | .error f => pure (.error f, cache)
      | .ok none => resolveEach studio env cache m r
      | .ok (some v) => resolveEach studio env cache (Table.insert m d.raw v) r

/-- The data with the values of all placeholders among tokens, and the cache after that. -/
def resolveAll (studio : Studio) (env : Environment) (kinds : List Kind) (cache : AssetCache)
    (tokens : List Text) (data : DataMap) : Script (Except Fault DataMap × AssetCache) :=
  resolveEach studio env cache data.unwrapKeys (inOrder kinds tokens)

end Resolution

namespace AssetCache

/-- Microseconds in an hour. -/
def microsPerHour : Nat := 3600000000

/-- Microseconds in the longest span of time. -/
def longestSpan : Int := 1000000000 * microsPerDay

/-- A number of hours as a span of time. -/
def spanOfHours (hours : Binary64) : Except Fault Time :=
  match hours with
  | .nan => .error .notANumber
  | .infinite _ => .error .unboundedNumber
  | x => match x.fraction? with
    | none => .error .notANumber
    | some (s, a, b) =>
      let n := Binary64.signed s (roundDiv (a * microsPerHour) b .even)
      if -longestSpan < n && n < longestSpan then .ok n
      else .error (.durationOutOfRange (n.fdiv microsPerDay))

/-- The cache that settings describe. -/
def ofSettings (s : Settings) : Except Fault AssetCache := do
  pure { directory := s.cacheDirectory, lifetime := ← spanOfHours s.cacheHours
         interval := s.sweepSeconds }

end AssetCache

namespace Studio

/-- The renderer that draws symbols with the modules an encoder gives. -/
def drawing (encode : Encoder) (border : Nat) : Studio where
  render k := match Bitmap.ofPayload encode border k.size.toNat k.payload k.quality with
    | .ok b => .ok (.drawing b)
    | .error f => .error (.crashed f.message)

end Studio
end MailMerge
