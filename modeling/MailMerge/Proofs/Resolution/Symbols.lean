import Mathlib
import MailMerge.Proofs.Cache.Outcomes
import MailMerge.Proofs.Cache.Serving
import MailMerge.Proofs.Resolution.Independence
/-!
# Which codes share a file

A code is drawn into the file of its key, and the key is the digest of the version, the text, the size
and the error level with null characters between them. Versions and levels hold no null characters; the
text may hold any, and may look like the other parts. Cutting what is digested at the first null
character and at the last two gives the parts back, so codes share a file only if they share what is
drawn (`codes_share_iff`), unless two messages have one digest.

* `Sha256.toText_inj`, `AssetCache.eq_of_keyOf_eq`: a key tells the asset.
* `AssetCache.path_of_getOrCreate`: the cache answers with the path of the key, if with any.
* `source_of_resolve`: what a code placeholder stands for is in the file of its key.
-/
namespace MailMerge

namespace Sha256

/-- Some digits tell what is left over by a power of their base. -/
theorem mod_pow_congr {b x y : Nat} (count : Nat)
    (h : ∀ i < count, x / b ^ i % b = y / b ^ i % b) : x % b ^ count = y % b ^ count := by
  induction count with
  | zero => rw [Nat.pow_zero, Nat.mod_one, Nat.mod_one]
  | succ count ih =>
    rw [Nat.mod_pow_succ, Nat.mod_pow_succ, ih fun i hi => h i (Nat.lt_succ_of_lt hi),
      h count (Nat.lt_succ_self count)]

/-- Eight digits of base sixteen tell a word. -/
theorem word_inj {v w : UInt32}
    (h : (List.range 8).map (fun i => Nat.digitChar (v.toNat >>> (4 * (7 - i)) % 16)) =
      (List.range 8).map fun i => Nat.digitChar (w.toNat >>> (4 * (7 - i)) % 16)) : v = w := by
  have hdigit : ∀ i < 8, v.toNat >>> (4 * (7 - i)) % 16 = w.toNat >>> (4 * (7 - i)) % 16 := by
    intro i hi
    have hchar := congrArg Text.digitValue (List.map_inj_left.1 h i (List.mem_range.2 hi))
    rwa [Text.digitValue_digitChar (Nat.mod_lt _ (by decide)),
      Text.digitValue_digitChar (Nat.mod_lt _ (by decide))] at hchar
  have hmod : v.toNat % 16 ^ 8 = w.toNat % 16 ^ 8 := by
    refine mod_pow_congr 8 fun i hi => ?_
    have hi' := hdigit (7 - i) (by omega)
    rwa [show 7 - (7 - i) = i by omega, Nat.shiftRight_eq_div_pow, Nat.shiftRight_eq_div_pow,
      Nat.pow_mul] at hi'
  rw [Nat.mod_eq_of_lt v.toNat_lt, Nat.mod_eq_of_lt w.toNat_lt] at hmod
  exact UInt32.toNat_inj.1 hmod

/-- A digest is told by its digits. -/
theorem toText_inj {s t : State} (h : s.toText = t.toText) : s = t := by
  obtain ⟨a, b, c, d, e, f, g, i⟩ := s
  obtain ⟨a', b', c', d', e', f', g', i'⟩ := t
  simp only [State.toText, List.flatMap_cons, List.flatMap_nil, List.append_nil] at h
  obtain ⟨ha, h⟩ := List.append_inj h (by simp)
  obtain ⟨hb, h⟩ := List.append_inj h (by simp)
  obtain ⟨hc, h⟩ := List.append_inj h (by simp)
  obtain ⟨hd, h⟩ := List.append_inj h (by simp)
  obtain ⟨he, h⟩ := List.append_inj h (by simp)
  obtain ⟨hf, h⟩ := List.append_inj h (by simp)
  obtain ⟨hg, hi⟩ := List.append_inj h (by simp)
  rw [word_inj ha, word_inj hb, word_inj hc, word_inj hd, word_inj he, word_inj hf, word_inj hg,
    word_inj hi]

end Sha256

namespace Path

/-- Names in one directory have different paths. -/
theorem child_toText_inj {p : Path} {m n : Text} (h : (p.child m).toText = (p.child n).toText) :
    m = n := by
  rw [toText_child, toText_child] at h
  split at h
  · exact List.append_cancel_left h
  · exact (List.cons.inj (List.append_cancel_left h)).2

end Path

namespace AssetCache

variable {c : AssetCache} {k k' : AssetKey}

/-- Whether what is digested for two assets is the same whenever the digests are. -/
def NoCollision (c : AssetCache) (k k' : AssetKey) : Prop :=
  Sha256.digest (Utf8.encode (material c.version k)) =
      Sha256.digest (Utf8.encode (material c.version k')) →
    Utf8.encode (material c.version k) = Utf8.encode (material c.version k')

/-- A key tells the asset. -/
theorem eq_of_keyOf_eq (hq : '\x00' ∉ k.quality) (hq' : '\x00' ∉ k'.quality)
    (hdigest : c.NoCollision k k') (h : c.keyOf k = c.keyOf k') : k = k' :=
  material_inj_of_version hq hq' (Utf8.encode_inj (hdigest (Sha256.toText_inj h)))

/-- Entries of one cache are apart by their keys. -/
theorem pathOf_toText_inj (h : (c.pathOf (c.keyOf k)).toText = (c.pathOf (c.keyOf k')).toText) :
    c.keyOf k = c.keyOf k' := by
  rw [pathOf_keyOf, pathOf_keyOf] at h
  exact List.append_cancel_right (Path.child_toText_inj h)

/-- If the cache answers with a path, it is that of the entry. -/
theorem path_of_getOrCreate {render : Renderer} {parts : Nat} {w : World} {p : Path}
    (hsize : intText? k.size ≠ none)
    (h : (Script.run (c.getOrCreate render parts k) w).1.1 = .found p) :
    p = c.pathOf (c.keyOf k) := by
  have houtcome := run_request_outcome c render parts k w
  generalize hgot : Script.run (c.getOrCreate render parts k) w = r at h
  obtain ⟨⟨answer, c'⟩, w'⟩ := r
  obtain rfl : answer = .found p := h
  rw [run_request hsize hgot] at houtcome
  exact houtcome.path_eq rfl

end AssetCache

namespace Resolution

open AssetCache (material NoCollision)

section
variable {studio : Studio} {env : Environment} {c : AssetCache} {m m' : DataMap} {d d' : Descriptor}
  {w w' : World} {a a' : Asset} {k : AssetKey}

theorem intText?_symbolSize (n : Int) : intText? (symbolSize n) ≠ none := by
  have hlt : (symbolSize n).natAbs < 10 ^ 3 := by
    unfold symbolSize symbolEdges
    omega
  have hcount := Decimal.digitCount_le_of_lt_pow (by decide) hlt
  rw [intText?, if_pos (Nat.le_trans hcount (by decide))]
  exact Option.some_ne_none _

/-- A level is one of four letters. -/
theorem symbolLevel_cases (field : Option Text) :
    ∃ level : ErrorLevel, (symbolLevel field).1 = level.letter := by
  unfold symbolLevel
  dsimp only
  split
  · rename_i level hlevel
    have hletter := List.find?_some hlevel
    exact ⟨level, (of_decide_eq_true hletter).symm⟩
  · exact ⟨.low, rfl⟩

theorem null_not_mem_symbolLevel (field : Option Text) : '\x00' ∉ (symbolLevel field).1 := by
  obtain ⟨level, hlevel⟩ := symbolLevel_cases field
  rw [hlevel]
  cases level <;> decide

theorem size_of_draw (h : request m d = .draw k) : intText? k.size ≠ none := by
  obtain ⟨-, hsize, -⟩ := request_eq_draw h
  cases hfield : wholeField (d.arg? 1) usualEdge with
  | error f =>
    rw [hfield] at hsize
    cases hsize
  | ok n =>
    rw [hfield] at hsize
    rw [← Except.ok.inj hsize]
    exact intText?_symbolSize n

/-- A code stands for the picture in the file of its key. -/
theorem source_of_resolve (hk : d.kind = .qrcode)
    (h : (Script.run (resolve studio env c m d) w).1.1 = .ok (some (.asset a))) :
    ∃ k, request m d = .draw k ∧ a.source = (c.pathOf (c.keyOf k)).toText := by
  rw [resolve_qrcode hk] at h
  cases hrequest : request m d with
  | refuse f =>
    rw [run_symbol_of_refuse hrequest] at h
    cases h
  | leave =>
    rw [(run_symbol_of_leave hrequest).1] at h
    cases h
  | mark =>
    rw [run_symbol_of_mark hrequest] at h
    cases h
  | draw k =>
    rw [(run_symbol_of_draw hrequest).1] at h
    refine ⟨k, rfl, ?_⟩
    cases hanswer : (asked studio k (c, w)).1 with
    | found p =>
      rw [hanswer] at h
      cases h
      rw [AssetCache.path_of_getOrCreate (size_of_draw hrequest) hanswer]
    | failed f =>
      rw [hanswer] at h
      cases h
    | broken t =>
      rw [hanswer] at h
      cases h

/-- What is digested tells what is drawn, so two codes that one cache has resolved, at any times and
from any data, are in one file just when their texts, their sizes and their levels are the same. The
digests of their two messages are assumed not to collide. -/
theorem codes_share_iff {last last' : Option Time} {env' : Environment}
    (hk : d.kind = .qrcode) (hk' : d'.kind = .qrcode)
    (h : (Script.run (resolve studio env { c with lastSweep := last } m d) w).1.1 =
      .ok (some (.asset a)))
    (h' : (Script.run (resolve studio env' { c with lastSweep := last' } m' d') w').1.1 =
      .ok (some (.asset a')))
    (hdigest : ∀ k k', request m d = .draw k → request m' d' = .draw k' → c.NoCollision k k') :
    (∀ (v v' : Text) (k k' : AssetKey), '\x00' ∉ v → '\x00' ∉ v' → '\x00' ∉ k.quality →
      '\x00' ∉ k'.quality →
      (Utf8.encode (material v k) = Utf8.encode (material v' k') ↔ v = v' ∧ k = k')) ∧
    (a.source = a'.source ↔
      symbolText? m d = symbolText? m' d' ∧
      (wholeField (d.arg? 1) usualEdge).map symbolSize =
        (wholeField (d'.arg? 1) usualEdge).map symbolSize ∧
      (symbolLevel (d.arg? 2)).1 = (symbolLevel (d'.arg? 2)).1) := by
  refine ⟨fun _ _ _ _ => AssetCache.encode_material_eq_iff, ?_⟩
  obtain ⟨k, hrequest, hsource⟩ := source_of_resolve hk h
  obtain ⟨k', hrequest', hsource'⟩ := source_of_resolve hk' h'
  obtain ⟨htext, hsize, hlevel⟩ := request_eq_draw hrequest
  obtain ⟨htext', hsize', hlevel'⟩ := request_eq_draw hrequest'
  rw [hsource, hsource', htext, hsize, hlevel, htext', hsize', hlevel']
  constructor
  · intro hpath
    have heq : k = k' := AssetCache.eq_of_keyOf_eq
      (hlevel ▸ null_not_mem_symbolLevel _) (hlevel' ▸ null_not_mem_symbolLevel _)
      (hdigest k k' hrequest hrequest') (AssetCache.pathOf_toText_inj hpath)
    rw [heq]
    exact ⟨rfl, rfl, rfl⟩
  · rintro ⟨hpayload, hedge, hquality⟩
    have heq : k = k' := by
      cases k
      cases k'
      cases hpayload
      cases hedge
      cases hquality
      rfl
    rw [heq]
    rfl

end

/-! ## One text under two names -/

/-- A text that stands under two names. -/
def greeting : DataMap :=
  [("qrcode:x".toList, .text "hi".toList), ("qrcode:y".toList, .text "hi".toList)]

/-- A code of the text under one name, in a size that is too small and at the usual level, by its small
letter. -/
def small : Descriptor :=
  ⟨.qrcode, "qrcode:x:10:l".toList, ["x".toList, "10".toList, "l".toList]⟩

/-- A code of the text under the other name, in the least size. -/
def least : Descriptor := ⟨.qrcode, "qrcode:y:50".toList, ["y".toList, "50".toList]⟩

/-- What is drawn for both. -/
def greetingKey : AssetKey := ⟨"hi".toList, 50, ['L']⟩

theorem request_small : request greeting small = .draw greetingKey := rfl

theorem request_least : request greeting least = .draw greetingKey := rfl

/-- What is to be drawn is drawn where there is room for it. -/
theorem exists_asset_of_draw {d : Descriptor} {k : AssetKey} (hk : d.kind = .qrcode)
    (h : request greeting d = .draw k) : ∃ a,
    (Script.run (resolve ⟨AssetCache.label, 0⟩ newYear AssetCache.nookCache greeting d)
      { files := AssetCache.nook }).1.1 = .ok (some (.asset a)) := by
  have hserved := ((AssetCache.consistent_nook (c := AssetCache.nookCache) rfl [k]).get
    (AssetCache.distinct_singleton _ _) (List.mem_singleton_self _) AssetCache.total_label
    (size_of_draw h) Nat.zero_lt_one 0).1.answer
  have hanswer : (asked ⟨AssetCache.label, 0⟩ k
      (AssetCache.nookCache, { files := AssetCache.nook })).1 =
        .found (AssetCache.nookCache.pathOf (AssetCache.nookCache.keyOf k)) := by
    generalize hgot : Script.run (AssetCache.nookCache.getOrCreate AssetCache.label 0 k)
      { files := AssetCache.nook } = r
    obtain ⟨⟨answer, c'⟩, w'⟩ := r
    rw [AssetCache.run_request (size_of_draw h) hgot] at hserved
    exact (congrArg (·.1.1) hgot).trans (Except.ok.inj hserved)
  rw [resolve_qrcode hk, (run_symbol_of_draw h).1, hanswer]
  exact ⟨_, rfl⟩

/-- Both codes are in one file. -/
theorem codes_share_iff_greeting : ∃ a a',
    (Script.run (resolve ⟨AssetCache.label, 0⟩ newYear AssetCache.nookCache greeting small)
      { files := AssetCache.nook }).1.1 = .ok (some (.asset a)) ∧
    (Script.run (resolve ⟨AssetCache.label, 0⟩ newYear AssetCache.nookCache greeting least)
      { files := AssetCache.nook }).1.1 = .ok (some (.asset a')) ∧
    a.source = a'.source := by
  obtain ⟨a, ha⟩ := exists_asset_of_draw rfl request_small
  obtain ⟨a', ha'⟩ := exists_asset_of_draw rfl request_least
  refine ⟨a, a', ha, ha', ?_⟩
  -- both messages are the same one
  have hdigest : ∀ k k', request greeting small = .draw k → request greeting least = .draw k' →
      AssetCache.nookCache.NoCollision k k' := by
    intro k k' hk hk' _
    cases request_small.symm.trans hk
    cases request_least.symm.trans hk'
    rfl
  refine (codes_share_iff (c := AssetCache.nookCache) rfl rfl ha ha' hdigest).2.2 ⟨rfl, rfl, rfl⟩

end Resolution

end MailMerge
