import MailMerge.Digest.Sha256
import MailMerge.Storage.Script
/-!
# The cache of drawn assets

Drawn pictures are kept in a directory, each in a file named by the digest of what it was drawn
from. A missing picture is drawn, written to a file of its own under another name and then moved to
its place, so nobody finds half a picture there. Pictures older than the lifetime are not used and
are removed by sweeps, which run before a picture is asked for, but not more often than the interval
allows.

Section 4.3 of the specification: `key_for` is `keyOf`, and `lookup`, `get_or_create` and `sweep`
have their names; `promote` is the part of `get_or_create` that stages and renames.

Results:
* `material_eq`: what is digested is the version, the payload, the size and the quality.
-/
namespace MailMerge

/-- What an asset is drawn from. -/
structure AssetKey where
  payload : Text
  size : Int
  quality : Text
  deriving DecidableEq, Repr

/-- Why a renderer gives no picture: it says so, or it breaks down. -/
inductive RenderFault where
  | refused (message : Text)
  | crashed (message : Text)
  deriving DecidableEq, Repr

/-- A renderer draws assets. -/
abbrev Renderer := AssetKey → Except RenderFault Content

/-- Why the cache gives no asset. -/
inductive AssetFault where
  | render (f : RenderFault)
  | noData
  | notStaged (directory : Text) (t : Trouble)
  | notWritten (path : Text) (t : Trouble)
  deriving DecidableEq, Repr

/-- What is said about the fault. -/
def AssetFault.message : AssetFault → Text
  | .render (.refused m) => m
  | .render (.crashed m) => "asset generator failed: ".toList ++ m
  | .noData => "asset generator returned no data".toList
  | .notStaged d t => "cannot stage asset in ".toList ++ d ++ ": ".toList ++ t.message
  | .notWritten p t => "cannot write asset ".toList ++ p ++ ": ".toList ++ t.message

/-- What became of asking the cache for an asset. -/
inductive CacheAnswer where
  | found (p : Path)
  | failed (f : AssetFault)
  | broken (t : Trouble)
  deriving Repr

/-- A live entry of the cache. -/
structure CacheEntry where
  key : Text
  path : Path
  created : Time
  deriving DecidableEq, Repr

/-- The cache over a directory. -/
structure AssetCache where
  directory : Path
  /-- The greatest age of an entry that is used. -/
  lifetime : Time := 86400000000
  /-- The least number of seconds between a sweep and the next one that is not asked for. -/
  interval : Binary64 := Binary64.ofInt 3600
  version : Text := "docgen-asset/1".toList
  lastSweep : Option Time := none
  deriving Repr

namespace AssetCache

/-- The ending of the names of entries. -/
def ending : Text := ".png".toList

/-- What the name of a file that is still being written begins with. -/
def scratchMark : Text := "temp_".toList

/-- What is digested for an asset, the parts separated by null characters. -/
def material (version : Text) (k : AssetKey) : Text :=
  Text.join ['\x00'] [version, k.payload, Text.ofInt k.size, k.quality]

/-- The key of an asset: sixty-four hexadecimal digits. -/
def keyOf (c : AssetCache) (k : AssetKey) : Text :=
  (Sha256.digest (Utf8.encode (material c.version k))).toText

/-- Where the entry of a key is. -/
def pathOf (c : AssetCache) (key : Text) : Path := c.directory.append (Path.ofText (key ++ ending))

/-- Whether what was changed at one time has outlived its lifetime at another. -/
def expired (c : AssetCache) (modified now : Time) : Bool := c.lifetime < now - modified

/-- The entry of a key, unless it is missing or expired. -/
def lookup (c : AssetCache) (key : Text) : Script (Except Trouble (Option CacheEntry)) := do
  let path := c.pathOf key
  match ← Script.status path.toText with
  | .error .absent => pure (.ok none)
  | .error e => pure (.error ⟨e, path.toText, none⟩)
  | .ok s =>
    let now ← Script.now
    pure (.ok (if c.expired s.modified now then none else some ⟨key, path, s.modified⟩))

/-- Removes one file if it has expired, and tells whether it was removed. -/
def evict (c : AssetCache) (now : Time) (path : Path) : Script Bool := do
  let p := path.toText
  let evictFailed : Script Bool := do
    Script.note (.warning "asset_cache_evict_failed")
    pure false
  match ← Script.status p with
  | .error .absent => pure false
  | .error _ => evictFailed
  | .ok s =>
    if !c.expired s.modified now then pure false
    else match ← Script.remove p with
      | .ok () => pure true
      | .error .absent => pure false
      | .error _ => evictFailed

/-- Removes the expired ones among files, and counts them. -/
def evictAll (c : AssetCache) (now : Time) : List Path → Script Nat
  | [] => pure 0
  | p :: r => do
    let gone ← c.evict now p
    let n ← evictAll c now r
    pure (if gone then n + 1 else n)

/-- The files of the directory that look like entries. -/
def candidates (c : AssetCache) : Script (Except Cause (List Path)) := do
  match ← Script.isDirectory c.directory.toText with
  | .error e => pure (.error e)
  | .ok false => pure (.ok [])
  | .ok true =>
    match ← Script.list c.directory.toText with
    | .error e => pure (.error e)
    | .ok names => pure (.ok ((names.filter (Text.endsIn ending)).map c.directory.child))

/-- Removes the expired files, and counts them. -/
def sweep (c : AssetCache) : Script (Nat × AssetCache) := do
  let now ← Script.now
  let c' := { c with lastSweep := some now }
  match ← c.candidates with
  | .error _ => do
    Script.note (.warning "asset_cache_sweep_failed")
    pure (0, c')
  | .ok paths => do
    let n ← c.evictAll now paths
    if n = 0 then pure () else Script.note (.info "asset_cache_swept")
    pure (n, c')

/-- Whether a span of time reaches a number of seconds. -/
def reaches (span : Time) (seconds : Binary64) : Bool :=
  match seconds with
  | .infinite negative => negative
  | .nan => false
  | x => match x.fraction? with
    | some (negative, a, b) => Binary64.signed negative a * 1000000 ≤ span * b
    | none => false

/-- A sweep, if the last one is long enough ago. -/
def sweepIfDue (c : AssetCache) : Script AssetCache := do
  let now ← Script.now
  let due := match c.lastSweep with
    | none => true
    | some t => reaches (now - t) c.interval
  if due then do
    let (_, c') ← c.sweep
    pure c'
  else pure c

/-- The path from the root that a path means at the current directory, by its names alone. -/
def absolute (base : Text) (p : Path) : Path :=
  let q := (Path.ofText base).append p
  let names := q.names.foldl (fun l n => if n = ['.', '.'] then l.dropLast else l ++ [n]) []
  { q with names := names }

/-- The name of a file to be written, from a fresh number. -/
def scratchName (n : Nat) : Text := scratchMark ++ Text.ofNatPadded 8 n ++ ending

/-- Writes a picture, part by part, into a file that is still being written. -/
def writeParts (p : Text) (content : Content) : (parts : Nat) → Script Unit
  | 0 => Script.fill p content
  | n + 1 => do
    Script.fill p (.fragment content)
    writeParts p content n

/-- Puts a drawn picture under its key: it is written to a fresh file, which is then moved. -/
def promote (c : AssetCache) (parts : Nat) (key : Text) (content : Content) :
    Script CacheAnswer := do
  let final := c.pathOf key
  let base := (← Script.canonical ['.']).toOption.getD ['/']
  let temp := ((absolute base c.directory).child (scratchName (← Script.draft))).toText
  match ← Script.create temp with
  | .error e => pure (.failed (.notStaged c.directory.toText ⟨e, temp, none⟩))
  | .ok () => do
    writeParts temp content parts
    match ← Script.rename temp final.toText with
    | .ok () => pure (.found final)
    | .error c =>
      match ← Script.remove temp with
      | .ok () | .error .absent =>
        pure (.failed (.notWritten final.toText ⟨c, temp, some final.toText⟩))
      | .error e => pure (.broken ⟨e, temp, none⟩)

/-- The path of an asset, which is drawn if there is no live entry. The answer comes with the cache
after it; `parts` counts the incomplete writes that come before the picture is whole. -/
def getOrCreate (c : AssetCache) (render : Renderer) (parts : Nat) (k : AssetKey) :
    Script (CacheAnswer × AssetCache) := do
  let c ← c.sweepIfDue
  let key := c.keyOf k
  match ← c.lookup key with
  | .error t => pure (.broken t, c)
  | .ok (some e) => pure (.found e.path, c)
  | .ok none =>
    match render k with
    | .error f => pure (.failed (.render f), c)
    | .ok content =>
      if content.isEmpty then pure (.failed .noData, c)
      else do
        let answer ← c.promote parts key content
        pure (answer, c)

/-- Asks for an asset of any size. A size with too many digits to be written has no key. -/
def request (c : AssetCache) (render : Renderer) (parts : Nat) (k : AssetKey) :
    Script (Except Fault CacheAnswer × AssetCache) :=
  match intText? k.size with
  | none => do
    let c ← c.sweepIfDue
    pure (.error .unwritableNumber, c)
  | some _ => do
    let (answer, c) ← c.getOrCreate render parts k
    pure (.ok answer, c)

theorem material_eq (version : Text) (k : AssetKey) :
    material version k =
      version ++ '\x00' :: k.payload ++ '\x00' :: Text.ofInt k.size ++ '\x00' :: k.quality := by
  simp [material, Text.join]

end AssetCache
end MailMerge
