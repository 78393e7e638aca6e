import MailMerge.Cache.AssetCache
import MailMerge.Proofs.Text.Cutting
import MailMerge.Proofs.Text.Digits
/-!
# Which assets share a key

What is digested for an asset tells the asset, as long as no null character stands in the quality
(`AssetCache.material_inj`): the size holds none, so the last two null characters stand around it.
A null character in the quality moves them, and two assets can share what is digested for them.

* `AssetCache.encode_material_eq_iff`: the bytes that are digested tell the version and the asset.
-/
namespace MailMerge

theorem Utf8.encode_inj {s t : Text} (h : encode s = encode t) : s = t := by
  have hbytes : (String.ofList s).toByteArray = (String.ofList t).toByteArray := by
    show (encode s).toByteArray = (encode t).toByteArray
    rw [h]
  exact String.ofList_inj.1 (String.toByteArray_inj.1 hbytes)

namespace Text

theorem ofNat_inj {m n : Nat} (h : ofNat m = ofNat n) : m = n := by
  have := congrArg (Nat.ofDigitChars 10 · 0) h
  simpa [ofNat, Nat.ofDigitChars_ten_toDigits] using this

theorem mem_hexDigits_of_mem_ofNat {n : Nat} {c : Char} (h : c ∈ ofNat n) : c ∈ hexDigits :=
  mem_hexDigits_of_mem_toDigits (by decide) (by decide) h

theorem mem_of_mem_ofInt {n : Int} {c : Char} (h : c ∈ ofInt n) : c ∈ '-' :: hexDigits := by
  unfold ofInt at h
  split at h
  · rcases List.mem_cons.1 h with rfl | h
    · exact List.mem_cons_self ..
    · exact List.mem_cons_of_mem _ (mem_hexDigits_of_mem_ofNat h)
  · exact List.mem_cons_of_mem _ (mem_hexDigits_of_mem_ofNat h)

theorem ofInt_inj {m n : Int} (h : ofInt m = ofInt n) : m = n := by
  have hsign : ∀ k : Nat, ∀ t, ofNat k ≠ '-' :: t := fun k t e => by
    have := mem_hexDigits_of_mem_ofNat (n := k) (c := '-') (e ▸ List.mem_cons_self ..)
    exact absurd this (by decide)
  unfold ofInt at h
  split at h <;> split at h
  · have := ofNat_inj (List.cons.inj h).2
    omega
  · exact absurd h.symm (hsign _ _)
  · exact absurd h (hsign _ _)
  · have := ofNat_inj h
    omega

theorem ofNatPadded_inj {width m n : Nat} (h : ofNatPadded width m = ofNatPadded width n) :
    m = n := by
  have hread : ∀ k, Nat.ofDigitChars 10 (ofNatPadded width k) 0 = k := fun k => by
    simp [ofNatPadded, padLeft, ofNat, Nat.ofDigitChars_append, Nat.ofDigitChars_replicate_zero,
      Nat.ofDigitChars_ten_toDigits]
  rw [← hread m, h, hread n]

/-- Texts are cut at the same place where the separator stands last. -/
theorem append_cons_inj_right {sep : Char} {a b a' b' : Text} (hb : sep ∉ b) (hb' : sep ∉ b')
    (h : a ++ sep :: b = a' ++ sep :: b') : a = a' ∧ b = b' := by
  have hrev := congrArg (cut sep) (congrArg List.reverse h)
  have hcut : ∀ {a b : Text}, sep ∉ b → cut sep (a ++ sep :: b).reverse =
      (b.reverse, some a.reverse) := by
    intro a b hb
    rw [List.reverse_append, List.reverse_cons, List.append_assoc]
    exact cut_append (fun hm => hb (List.mem_reverse.1 hm)) a.reverse
  rw [hcut hb, hcut hb', Prod.mk.injEq, Option.some.injEq] at hrev
  exact ⟨List.reverse_inj.1 hrev.2, List.reverse_inj.1 hrev.1⟩

end Text

namespace AssetCache

variable {version version' : Text} {k k' : AssetKey}

/-- Where no null character stands in the quality, what is digested tells size and quality, and the
rest is version and payload. -/
theorem material_split (hq : '\x00' ∉ k.quality) (hq' : '\x00' ∉ k'.quality)
    (h : material version k = material version' k') :
    k.size = k'.size ∧ k.quality = k'.quality ∧
      version ++ '\x00' :: k.payload = version' ++ '\x00' :: k'.payload := by
  have hsize : ∀ n : Int, '\x00' ∉ Text.ofInt n := fun n hm =>
    absurd (Text.mem_of_mem_ofInt hm) (by decide)
  rw [material_eq, material_eq] at h
  obtain ⟨h, hquality⟩ := Text.append_cons_inj_right hq hq' h
  obtain ⟨h, hdigits⟩ := Text.append_cons_inj_right (hsize _) (hsize _) h
  exact ⟨Text.ofInt_inj hdigits, hquality, h⟩

/-- What is digested for an asset tells the asset and the version. -/
theorem material_inj (hv : '\x00' ∉ version) (hv' : '\x00' ∉ version') (hq : '\x00' ∉ k.quality)
    (hq' : '\x00' ∉ k'.quality) (h : material version k = material version' k') :
    version = version' ∧ k = k' := by
  obtain ⟨hsize, hquality, hrest⟩ := material_split hq hq' h
  have hcut := congrArg (Text.cut '\x00') hrest
  rw [Text.cut_append hv, Text.cut_append hv', Prod.mk.injEq, Option.some.injEq] at hcut
  obtain ⟨payload, size, quality⟩ := k
  obtain ⟨payload', size', quality'⟩ := k'
  obtain ⟨rfl, rfl⟩ := hcut
  obtain rfl : size = size' := hsize
  obtain rfl : quality = quality' := hquality
  exact ⟨rfl, rfl⟩

/-- Different versions, texts, sizes and qualities give different bytes to digest. -/
theorem encode_material_eq_iff (hv : '\x00' ∉ version) (hv' : '\x00' ∉ version') (hq : '\x00' ∉ k.quality)
    (hq' : '\x00' ∉ k'.quality) :
    Utf8.encode (material version k) = Utf8.encode (material version' k') ↔ version = version' ∧ k = k' := by
  refine ⟨fun h => material_inj hv hv' hq hq' (Utf8.encode_inj h), ?_⟩
  rintro ⟨rfl, rfl⟩
  rfl

/-- For one version null characters may stand in it, too. -/
theorem material_inj_of_version (hq : '\x00' ∉ k.quality) (hq' : '\x00' ∉ k'.quality)
    (h : material version k = material version k') : k = k' := by
  obtain ⟨hsize, hquality, hrest⟩ := material_split hq hq' h
  obtain ⟨payload, size, quality⟩ := k
  obtain ⟨payload', size', quality'⟩ := k'
  obtain rfl : payload = payload' := (List.cons.inj (List.append_cancel_left hrest)).2
  obtain rfl : size = size' := hsize
  obtain rfl : quality = quality' := hquality
  rfl

end AssetCache
end MailMerge
