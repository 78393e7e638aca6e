import MailMerge.DataMap
import MailMerge.Phrase
import MailMerge.Proofs.Calendar.Characters
import MailMerge.Proofs.Table
import MailMerge.Proofs.Text.Xml
/-!
# Values in XML documents

What a value writes can be held by an XML document when the value is clean, that is, when cleaning
it changes nothing: its own text is clean then, texts inside lists and keys of maps are quoted, and
everything else is written in numerals and plain words (`Value.IsClean.isXml_plain?`). An address
made of such values adds nothing that a document cannot hold.
-/
namespace MailMerge

open Text

/-! ## Values -/

theorem isXml_boolText (b : Bool) : (boolText b).IsXml := by cases b <;> decide

theorem isXml_callText {name : String} {args : List Text} (hname : IsXml name.toList)
    (hargs : ∀ t ∈ args, t.IsXml) : (callText name args).IsXml := by
  rw [callText, isXml_append, isXml_append, isXml_cons]
  exact ⟨⟨hname, by decide, within_join (by decide) hargs⟩, by decide⟩

theorem isXml_intText? {n : Int} {t : Text} (h : intText? n = some t) : t.IsXml := by
  unfold intText? at h
  split at h
  · exact Option.some.inj h ▸ within_ofInt n
  · cases h

theorem isXml_durationText (micros : Int) : (durationText micros).IsXml := by
  have hpart : ∀ (name : String) (n : Int), IsXml name.toList →
      ∀ t ∈ (if n = 0 then [] else [name.toList ++ '=' :: ofInt n] : List Text), t.IsXml := by
    intro name n hname t ht
    split at ht
    · cases ht
    · rw [List.mem_singleton.1 ht, isXml_append, isXml_cons]
      exact ⟨hname, by decide, within_ofInt n⟩
  refine isXml_callText (by decide) ?_
  rw [List.forall_mem_append, List.forall_mem_append]
  exact ⟨⟨hpart "days" _ (by decide), hpart "seconds" _ (by decide)⟩,
    hpart "microseconds" _ (by decide)⟩

theorem Offset.isXml_shown (o : Offset) : o.shown.IsXml :=
  within_ite (by decide)
    (isXml_callText (by decide) fun _ ht => List.mem_singleton.1 ht ▸ isXml_durationText _)

theorem isXml_of_mem_map_ofNat {l : List Nat} {t : Text} (h : t ∈ l.map ofNat) : t.IsXml := by
  obtain ⟨n, -, rfl⟩ := List.mem_map.1 h
  exact within_ofNat n

theorem Moment.isXml_shown (m : Moment) : m.shown.IsXml := by
  refine isXml_callText (by decide) fun t ht => ?_
  rcases List.mem_append.1 ht with ht | ht
  · rcases List.mem_append.1 ht with ht | ht
    · exact isXml_of_mem_map_ofNat ht
    · split at ht
      · exact List.mem_singleton.1 ht ▸ (by decide : IsXml "fold=1".toList)
      · cases ht
  · cases ho : m.offset with
    | none => rw [ho] at ht; cases ht
    | some o =>
      rw [ho] at ht
      rw [List.mem_singleton.1 ht, isXml_append]
      exact ⟨by decide, o.isXml_shown⟩

theorem Date.isXml_shown (d : Date) : d.shown.IsXml :=
  isXml_callText (by decide) fun _ ht => isXml_of_mem_map_ofNat ht

namespace Asset

theorem isXml_alignText {kind : String} {name : Option Text} (hkind : IsXml kind.toList)
    (hname : ∀ n, name = some n → IsXml (n.map Char.toUpper)) : (alignText kind name).IsXml := by
  cases name with
  | none => exact (by decide : IsXml "None".toList)
  | some n =>
    have hmarks : IsXml ['<', '.', ':', ' ', '>'] := by decide
    simp only [isXml_cons] at hmarks
    simp only [alignText, List.cons_append, List.append_assoc, isXml_append, isXml_cons, hkind,
      hname n rfl, isXml_quoted, hmarks, and_self]

theorem isXml_of_mem_fields {a : Asset} : ∀ t ∈ a.fields, t.IsXml := by
  have hfield : ∀ {name : String} {t : Text}, IsXml name.toList → t.IsXml →
      IsXml (name.toList ++ '=' :: t) := fun hname ht =>
    isXml_append.2 ⟨hname, isXml_cons.2 ⟨by decide, ht⟩⟩
  have hhorizontal : (alignText "HAlign" (a.horizontal.map (·.name))).IsXml :=
    isXml_alignText (by decide) fun n hn => by
      obtain ⟨x, -, rfl⟩ := Option.map_eq_some_iff.1 hn
      cases x <;> decide
  have hvertical : (alignText "VAlign" (a.vertical.map (·.name))).IsXml :=
    isXml_alignText (by decide) fun n hn => by
      obtain ⟨x, -, rfl⟩ := Option.map_eq_some_iff.1 hn
      cases x <;> decide
  have hpayload : IsXml (a.payload.elim "None".toList Text.quoted) := by
    cases a.payload with
    | none => exact (by decide : IsXml "None".toList)
    | some p => exact isXml_quoted p
  simp only [fields, List.forall_mem_cons]
  exact ⟨hfield (by decide) (isXml_quoted _), hfield (by decide) (within_ofNat _),
    hfield (by decide) (within_ofNat _), hfield (by decide) (isXml_boolText _),
    hfield (by decide) hhorizontal, hfield (by decide) hvertical, hfield (by decide) hpayload,
    List.forall_mem_nil _⟩

end Asset

namespace Value

theorem isXml_bracketed {l r : Char} {ts : List Text} (hl : isXmlChar l = true)
    (hr : isXmlChar r = true) (hts : ∀ t ∈ ts, t.IsXml) :
    IsXml (l :: Text.join ", ".toList ts ++ [r]) := by
  rw [List.cons_append, isXml_cons, isXml_append, isXml_cons]
  exact ⟨hl, within_join (by decide) hts, hr, isXml_nil⟩

mutual

/-- A document can hold any quoted value. -/
theorem isXml_shown? : (v : Value) → {t : Text} → v.shown? = some t → t.IsXml
  | .null, _, h => Option.some.inj h ▸ (by decide : IsXml "None".toList)
  | .bool b, _, h => Option.some.inj h ▸ isXml_boolText b
  | .int _, _, h => isXml_intText? h
  | .float x, _, h => Option.some.inj h ▸ x.isXml_toText
  | .decimal d, _, h => Option.some.inj h ▸
    isXml_callText (by decide) fun _ ht => List.mem_singleton.1 ht ▸ isXml_quoted _
  | .text t, _, h => Option.some.inj h ▸ isXml_quoted t
  | .date d, _, h => Option.some.inj h ▸ d.isXml_shown
  | .moment m, _, h => Option.some.inj h ▸ m.isXml_shown
  | .asset a, _, h => by
    rw [shown?] at h
    split at h
    · exact Option.some.inj h ▸ isXml_callText (by decide) Asset.isXml_of_mem_fields
    · cases h
  | .list vs, _, h => by
    obtain ⟨ts, hts, rfl⟩ := Option.map_eq_some_iff.1 h
    exact isXml_bracketed (by decide) (by decide) (isXml_shownItems? vs hts)
  | .map es, _, h => by
    obtain ⟨ts, hts, rfl⟩ := Option.map_eq_some_iff.1 h
    exact isXml_bracketed (by decide) (by decide) (isXml_shownEntries? es hts)

theorem isXml_shownItems? : (vs : List Value) → {ts : List Text} → shownItems? vs = some ts →
    ∀ t ∈ ts, t.IsXml
  | [], _, h => Option.some.inj h ▸ List.forall_mem_nil _
  | v :: r, _, h => by
    obtain ⟨t, ht, h⟩ := Option.bind_eq_some_iff.1 h
    obtain ⟨ts, hts, h⟩ := Option.bind_eq_some_iff.1 h
    cases h
    exact List.forall_mem_cons.2 ⟨isXml_shown? v ht, isXml_shownItems? r hts⟩

theorem isXml_shownEntries? : (es : List (Text × Value)) → {ts : List Text} →
    shownEntries? es = some ts → ∀ t ∈ ts, t.IsXml
  | [], _, h => Option.some.inj h ▸ List.forall_mem_nil _
  | (k, v) :: r, _, h => by
    obtain ⟨t, ht, h⟩ := Option.bind_eq_some_iff.1 h
    obtain ⟨ts, hts, h⟩ := Option.bind_eq_some_iff.1 h
    cases h
    refine List.forall_mem_cons.2 ⟨?_, isXml_shownEntries? r hts⟩
    rw [isXml_append, isXml_cons, isXml_cons]
    exact ⟨isXml_quoted k, by decide, by decide, isXml_shown? v ht⟩

end

/-- Whether cleaning a value changes nothing. -/
def IsClean (v : Value) : Prop := v.xmlOnly = v

@[simp] theorem isClean_text {t : Text} : (text t).IsClean ↔ t.IsXml := by
  rw [IsClean, xmlOnly, text.injEq, isXml_iff_xmlOnly]

mutual

theorem isClean_xmlOnly : (v : Value) → v.xmlOnly.IsClean
  | .text t => isClean_text.2 (isXml_xmlOnly t)
  | .map es => congrArg map (xmlOnlyEntries_xmlOnlyEntries es)
  | .null | .bool _ | .int _ | .float _ | .decimal _ | .date _ | .moment _ | .asset _
  | .list _ => rfl

theorem xmlOnlyEntries_xmlOnlyEntries : (es : List (Text × Value)) →
    xmlOnlyEntries (xmlOnlyEntries es) = xmlOnlyEntries es
  | [] => rfl
  | (k, v) :: r => by
    rw [xmlOnlyEntries, xmlOnlyEntries, isClean_xmlOnly v, xmlOnlyEntries_xmlOnlyEntries r]

end

/-- The entries of a clean map are clean. -/
theorem IsClean.entry {es : List (Text × Value)} (h : (map es).IsClean) :
    ∀ e ∈ es, e.2.IsClean := by
  have hmap : (es.map fun e => (e.1, e.2.xmlOnly)) = es := by
    rw [← xmlOnlyEntries_eq_map]
    exact map.inj h
  exact fun e he =>
    congrArg Prod.snd (List.map_inj_left.1 (hmap.trans (List.map_id es).symm) e he)

theorem isClean_of_get? {m : List (Text × Value)} (hm : ∀ e ∈ m, e.2.IsClean) {k : Text} {v : Value}
    (h : Table.get? m k = some v) : v.IsClean :=
  hm (k, v) (Table.mem_of_get? h)

/-- A document can hold what a clean value writes. -/
theorem IsClean.isXml_plain? {v : Value} (h : v.IsClean) {t : Text} (ht : v.plain? = some t) :
    t.IsXml := by
  cases v with
  | text s => exact Option.some.inj ht ▸ isClean_text.1 h
  | decimal d => exact Option.some.inj ht ▸ d.isXml_toText
  | date d => exact Option.some.inj ht ▸ d.within_toText
  | moment m => exact Option.some.inj ht ▸ m.within_toTextWith (by decide)
  | asset a =>
    rw [plain?] at ht
    split at ht
    · exact Option.some.inj ht ▸ within_join (by decide) Asset.isXml_of_mem_fields
    · cases ht
  | null | bool | int | float | list | map => exact isXml_shown? _ ht

theorem IsClean.isXml_textual? {v : Value} (h : v.IsClean) {t : Text}
    (ht : v.textual? = some t) : t.IsXml := by
  unfold textual? at ht
  split at ht
  · exact h.isXml_plain? ht
  · exact Option.some.inj ht ▸ isXml_nil

end Value

/-! ## Addresses -/

namespace Address

theorem isXml_of_mapM_plain? {vs : List Value} {ts : List Text} (hvs : ∀ v ∈ vs, v.IsClean)
    (h : vs.mapM Value.plain? = some ts) : ∀ t ∈ ts, t.IsXml := by
  induction vs generalizing ts with
  | nil => cases h; exact List.forall_mem_nil _
  | cons v vs ih =>
    rw [List.mapM_cons] at h
    obtain ⟨t, ht, h⟩ := Option.bind_eq_some_iff.1 h
    obtain ⟨ts, hts, h⟩ := Option.bind_eq_some_iff.1 h
    cases h
    rw [List.forall_mem_cons] at hvs ⊢
    exact ⟨hvs.1.isXml_plain? ht, ih hvs.2 hts⟩

theorem isXml_line? {sep : Text} (hsep : sep.IsXml) {a : Address}
    (ha : ∀ v ∈ [a.street, a.district, a.regency, a.province, a.postcode], v.IsClean) {t : Text}
    (h : a.line? sep = some t) : t.IsXml := by
  simp only [List.forall_mem_cons] at ha
  obtain ⟨hstreet, hdistrict, hrest⟩ := ha
  have hjoined : ∀ {marked : Text} {ts : List Text}, marked.IsXml →
      ([a.street, .text marked, a.regency, a.province, a.postcode].filter
        Value.isPresent).mapM Value.plain? = some ts → (Text.join sep ts).IsXml := by
    intro marked ts hmarked hts
    refine within_join hsep (isXml_of_mapM_plain? (fun v hv => ?_) hts)
    have hall : ∀ v ∈ [a.street, .text marked, a.regency, a.province, a.postcode], v.IsClean := by
      simp only [List.forall_mem_cons]
      exact ⟨hstreet, Value.isClean_text.2 hmarked, hrest⟩
    exact hall v (List.mem_filter.1 hv).1
  obtain ⟨ts, hts, rfl⟩ := Option.map_eq_some_iff.1 h
  unfold parts? at hts
  dsimp only at hts
  split at hts
  · obtain ⟨marked, hmarked, hts⟩ := Option.bind_eq_some_iff.1 hts
    obtain ⟨s, hs, rfl⟩ := Option.map_eq_some_iff.1 hmarked
    exact hjoined (isXml_append.2 ⟨by decide, hdistrict.isXml_plain? hs⟩) hts
  · exact hjoined isXml_nil hts

theorem isXml_part? {m : List (Text × Value)} (hm : ∀ e ∈ m, e.2.IsClean) {name : String}
    {t : Text} (h : part? m name = some t) : t.IsXml := by
  unfold part? at h
  split at h
  · exact Option.some.inj h ▸ isXml_nil
  · exact Option.some.inj h ▸ isXml_nil
  · rename_i v _ hget
    exact (Value.isClean_of_get? hm hget).isXml_plain? h

theorem isXml_lineOfMap? {sep : Text} (hsep : sep.IsXml) {m : List (Text × Value)}
    (hm : ∀ e ∈ m, e.2.IsClean) {t : Text} (h : lineOfMap? sep m = some t) : t.IsXml := by
  obtain ⟨first, hfirst, h⟩ := Option.bind_eq_some_iff.1 h
  dsimp only at h
  obtain ⟨street, hstreet, h⟩ : ∃ street : Text, street.IsXml ∧ (do
      let district ← part? m "kecamatan"
      let regency ← part? m "kabupaten"
      let province ← part? m "provinsi"
      let postcode ← part? m "kode_pos"
      let own ← part? m "separator"
      line? (orElse own sep)
        ⟨.text street, .text district, .text regency, .text province, .text postcode⟩) =
          some t := by
    split at h
    · obtain ⟨street, hstreet, h⟩ := Option.bind_eq_some_iff.1 h
      exact ⟨street, isXml_part? hm hstreet, h⟩
    · exact ⟨first, isXml_part? hm hfirst, h⟩
  obtain ⟨district, hdistrict, h⟩ := Option.bind_eq_some_iff.1 h
  obtain ⟨regency, hregency, h⟩ := Option.bind_eq_some_iff.1 h
  obtain ⟨province, hprovince, h⟩ := Option.bind_eq_some_iff.1 h
  obtain ⟨postcode, hpostcode, h⟩ := Option.bind_eq_some_iff.1 h
  obtain ⟨own, hown, h⟩ := Option.bind_eq_some_iff.1 h
  refine isXml_line? (within_ite hsep (isXml_part? hm hown)) ?_ h
  simp only [List.forall_mem_cons, Value.isClean_text]
  exact ⟨hstreet, isXml_part? hm hdistrict, isXml_part? hm hregency, isXml_part? hm hprovince,
    isXml_part? hm hpostcode, List.forall_mem_nil _⟩

end Address

end MailMerge
