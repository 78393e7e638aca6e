import MailMerge.Proofs.Resolution.Answers
import MailMerge.Proofs.Resolution.Characters
import MailMerge.Proofs.Resolution.Independence
import MailMerge.Proofs.Resolution.Phrases
/-!
# Resolving keeps data clean

Before a document is filled in, the texts of the data lose the characters that an XML document
cannot hold, but for those inside lists and those of keys. No placeholder brings such a character
back: what a placeholder stands for is clean whenever the data, the fields of the placeholder and
the texts of the environment are.

* `text?_isXml`: what placeholders for text stand for.
* `resolve_isClean`: what any placeholder stands for.
* `resolveAll_xmlOnly`: all that can be put into the document.
-/
namespace MailMerge

open Text

/-- Whether an XML document can hold the texts of an environment that placeholders show. -/
structure Environment.IsXml (env : Environment) : Prop where
  user : env.user.name.IsXml
  email : env.user.email.IsXml
  roles : ∀ t ∈ env.user.roles, t.IsXml
  extras : ∀ e ∈ env.user.extras, e.2.IsClean
  site : ∀ field t, env.site.field? field = some t → t.IsXml
  currency : env.settings.currency.IsXml
  dateFormat : env.settings.dateFormat.IsXml

/-- Whether the values of a data map are clean. -/
def DataMap.IsClean (m : DataMap) : Prop := ∀ e ∈ m, e.2.IsClean

namespace DataMap

variable {m : DataMap}

theorem IsClean.insert (hm : m.IsClean) (k : Text) {v : Value} (hv : v.IsClean) :
    DataMap.IsClean (Table.insert m k v) := by
  intro e he
  rcases Table.mem_insert he with hev | he
  · rw [hev]
    exact hv
  · exact hm e he

theorem isClean_xmlOnly (m : DataMap) : m.xmlOnly.IsClean := by
  intro e he
  rw [xmlOnly, Value.xmlOnlyEntries_eq_map] at he
  obtain ⟨e, -, rfl⟩ := List.mem_map.1 he
  exact Value.isClean_xmlOnly e.2

theorem IsClean.unwrapKeys (hm : m.IsClean) : m.unwrapKeys.IsClean := by
  refine List.foldlRecOn (motive := IsClean) _ _ (List.forall_mem_nil _) fun t ht e he => ?_
  obtain ⟨e, he', rfl⟩ := List.mem_map.1 he
  exact ht.insert _ (hm e he')

end DataMap

/-! ## Placeholders -/

namespace Descriptor

/-- Whether an XML document can hold the fields of a placeholder. -/
def IsXml (d : Descriptor) : Prop := ∀ a ∈ d.args, a.IsXml

variable {d : Descriptor}

theorem IsXml.arg? (h : d.IsXml) {i : Nat} {a : Text} (ha : d.arg? i = some a) : a.IsXml := by
  unfold Descriptor.arg? at ha
  split at ha
  · cases ha
  · cases ha
  · rename_i hget
    exact h a (List.mem_of_getElem? (hget.trans ha))

theorem IsXml.getD_arg? (h : d.IsXml) {i : Nat} {a : Text} (ha : a.IsXml) :
    ((d.arg? i).getD a).IsXml := by
  cases hi : d.arg? i with
  | none => exact ha
  | some b => exact h.arg? hi

end Descriptor

theorem isXml_of_more {n : Nat} {t : Text} (ht : t.IsXml) {fields : List Text}
    (h : FieldPattern.more n t = some fields) : ∀ a ∈ fields, a.IsXml := by
  induction n generalizing t fields with
  | zero =>
    cases t with
    | nil => cases h; exact List.forall_mem_nil _
    | cons c t => cases h
  | succ n ih =>
    cases t with
    | nil => cases h; exact List.forall_mem_nil _
    | cons c r =>
      have hr := (isXml_cons.1 ht).2
      obtain ⟨rest, hrest, rfl⟩ := Option.map_eq_some_iff.1 h
      exact List.forall_mem_cons.2 ⟨hr.of_subset (List.takeWhile_subset _),
        ih (hr.of_subset (List.dropWhile_subset _)) hrest⟩

theorem isXml_of_read? {p : FieldPattern} {t : Text} (ht : t.IsXml) {fields : List Text}
    (h : p.read? t = some fields) : ∀ a ∈ fields, a.IsXml := by
  have hfirst := ht.of_subset (List.takeWhile_subset FieldPattern.inField)
  have hrest := ht.of_subset (List.dropWhile_subset FieldPattern.inField)
  unfold FieldPattern.read? at h
  dsimp only at h
  split at h
  · cases h
  · split at h
    · split at h
      · cases h
        exact List.forall_mem_singleton.2 hfirst
      · rename_i r hr
        rw [hr] at hrest
        cases h
        exact List.forall_mem_cons.2 ⟨hfirst, List.forall_mem_singleton.2 (isXml_cons.1 hrest).2⟩
    · obtain ⟨fields, hfields, rfl⟩ := Option.map_eq_some_iff.1 h
      exact List.forall_mem_cons.2 ⟨hfirst, isXml_of_more hrest hfields⟩

theorem isXml_unwrap {t : Text} (h : t.IsXml) : (Token.unwrap t).IsXml :=
  within_ite (h.of_subset fun _ hc => List.mem_of_mem_drop (List.dropLast_subset _ hc)) h

/-- A document that can hold a text can hold the fields of the placeholder in it. -/
theorem isXml_of_parse {t : Text} (ht : t.IsXml) {d : Descriptor}
    (h : Placeholder.parse t = some d) : d.IsXml := by
  obtain ⟨hraw, rest, heq, hread⟩ := Placeholder.parse_eq_some h
  have hrest : d.raw.IsXml := hraw ▸ isXml_unwrap ht
  rw [heq, isXml_append, isXml_cons] at hrest
  exact isXml_of_read? hrest.2.2 hread

/-! ## Texts -/

namespace Resolution

theorem isXml_of_mem_inOrder {kinds : List Kind} {tokens : List Text}
    (htokens : ∀ t ∈ tokens, t.IsXml) {d : Descriptor} (hd : d ∈ inOrder kinds tokens) :
    d.IsXml := by
  obtain ⟨k, -, hd⟩ := List.mem_flatMap.1 hd
  obtain ⟨t, ht, hparse⟩ := List.mem_filterMap.1 (List.mem_filter.1 hd).1
  obtain ⟨token, htoken, rfl⟩ := List.mem_map.1 (Token.mem_distinct.1 ht)
  exact isXml_of_parse (isXml_unwrap (htokens token htoken)) hparse

end Resolution

namespace Noted

/-- Whether an XML document can hold the text, if there is one. -/
def IsXml (n : Noted) : Prop := ∀ t, n.result = .ok t → t.IsXml

theorem isXml_fault (f : Fault) : IsXml { result := .error f } := fun _ ht => by cases ht

theorem isXml_plain {t : Text} (h : t.IsXml) : (plain t).IsXml := fun _ ht => Except.ok.inj ht ▸ h

theorem isXml_empty (event : String) : (empty event).IsXml :=
  fun _ ht => Except.ok.inj ht ▸ isXml_nil

theorem isXml_ofWritten {s : Option Text} (h : ∀ t, s = some t → t.IsXml) :
    (ofWritten s).IsXml := by
  cases s with
  | none => exact isXml_fault _
  | some t => exact isXml_plain (h t rfl)

theorem isXml_ofAmount {event : String} {r : Except AmountError Text}
    (h : ∀ t, r = .ok t → t.IsXml) : (ofAmount event r).IsXml := by
  cases r with
  | error e => exact isXml_empty event
  | ok t => exact isXml_plain (h t rfl)

theorem isXml_mapError {r : Except DateFault Text} (h : ∀ t, r = .ok t → t.IsXml) :
    IsXml { result := r.mapError Fault.ofDate } := by
  cases r with
  | error e => exact isXml_fault _
  | ok t => exact fun _ ht => Except.ok.inj ht ▸ h t rfl

end Noted

namespace Resolution

section
variable {env : Environment} {m : DataMap} {d : Descriptor}

theorem isClean_valueOrField (hm : m.IsClean) {field : Text} (hf : field.IsXml) :
    (valueOrField m field).IsClean := by
  unfold valueOrField
  cases h : Table.get? m field with
  | none => exact Value.isClean_text.2 hf
  | some v => exact Value.isClean_of_get? hm h

theorem isXml_textOrField? (hm : m.IsClean) (hd : d.IsXml) {i : Nat} {t : Text}
    (h : textOrField? m (d.arg? i) = some t) : t.IsXml := by
  cases ha : d.arg? i with
  | none =>
    rw [ha] at h
    exact Option.some.inj h ▸ isXml_nil
  | some a =>
    rw [ha] at h
    exact (isClean_valueOrField hm (hd.arg? ha)).isXml_textual? h

theorem isClean_firstValue (hm : m.IsClean) (hd : d.IsXml) : (firstValue m d).IsClean := by
  unfold firstValue
  cases ha : d.arg? 0 with
  | none => rfl
  | some a => exact isClean_valueOrField hm (hd.arg? ha)

theorem date_isXml (henv : env.IsXml) (hd : d.IsXml) : (date env m d).IsXml := by
  have hfmt : (dateAsked env m d).2.IsXml := by
    unfold dateAsked
    dsimp only
    split
    · rename_i ha _
      split
      · exact hd.arg? ha
      · exact henv.dateFormat
    · exact henv.dateFormat
    · rename_i fmt ha
      exact hd.arg? ha
  rw [date_eq]
  unfold dateOf
  split
  · exact Noted.isXml_fault _
  · split
    · exact Noted.isXml_fault _
    · exact Noted.isXml_empty _
  · exact Noted.isXml_mapError fun _ ht => within_localDate hfmt ht

theorem user_isXml (henv : env.IsXml) : (user env d).IsXml := by
  unfold user
  dsimp only
  split
  · exact Noted.isXml_plain henv.user
  split
  · exact Noted.isXml_plain henv.email
  split
  · exact Noted.isXml_plain (within_join (by decide) henv.roles)
  split
  · exact Noted.isXml_plain isXml_nil
  split
  · rename_i v hv
    exact Noted.isXml_ofWritten fun _ => (Value.isClean_of_get? henv.extras hv).isXml_textual?
  · exact Noted.isXml_plain isXml_nil

theorem site_isXml (henv : env.IsXml) : (site env d).IsXml := by
  refine Noted.isXml_plain ?_
  cases h : env.site.field? ((d.arg? 0).getD []) with
  | none => exact isXml_nil
  | some t => exact henv.site _ t h

theorem money_isXml (henv : env.IsXml) (hd : d.IsXml) : (money env m d).IsXml :=
  Noted.isXml_ofAmount fun _ => Amount.within_formatMoney (hd.getD_arg? henv.currency)

theorem terbilang_isXml : (terbilang m d).IsXml :=
  Noted.isXml_ofAmount fun _ => Spelling.within_spell

theorem number_isXml : (number m d).IsXml := by
  unfold number
  split
  · exact Noted.isXml_fault _
  · exact Noted.isXml_ofAmount fun _ => Amount.within_format

theorem gelar_isXml (hm : m.IsClean) (hd : d.IsXml) : (gelar m d).IsXml := by
  refine Noted.isXml_ofWritten fun t ht => ?_
  obtain ⟨name, hname, ht⟩ := Option.bind_eq_some_iff.1 ht
  obtain ⟨front, hfront, ht⟩ := Option.bind_eq_some_iff.1 ht
  obtain ⟨back, hback, ht⟩ := Option.bind_eq_some_iff.1 ht
  have hname := isXml_textOrField? hm hd hname
  have hfront := isXml_textOrField? hm hd hfront
  split at ht
  · rename_i cut _ front' back' hcut
    obtain ⟨hfront', hback'⟩ := within_cut '|' hfront
    rw [hcut] at hfront' hback'
    exact Option.some.inj ht ▸ within_titledName hname hfront' hback'
  · exact Option.some.inj ht ▸ within_titledName hname hfront (isXml_textOrField? hm hd hback)

theorem alamat_isXml (hm : m.IsClean) (hd : d.IsXml) : (alamat m d).IsXml := by
  have hfirst := isClean_firstValue hm hd
  refine Noted.isXml_ofWritten fun t ht => ?_
  split at ht
  · rename_i parts hparts
    rw [hparts] at hfirst
    exact Address.isXml_lineOfMap? (by decide) hfirst.entry ht
  · obtain ⟨district, hdistrict, ht⟩ := Option.bind_eq_some_iff.1 ht
    obtain ⟨regency, hregency, ht⟩ := Option.bind_eq_some_iff.1 ht
    obtain ⟨province, hprovince, ht⟩ := Option.bind_eq_some_iff.1 ht
    obtain ⟨postcode, hpostcode, ht⟩ := Option.bind_eq_some_iff.1 ht
    obtain ⟨street, hstreet, ht⟩ := Option.bind_eq_some_iff.1 ht
    refine Address.isXml_line? (by decide) ?_ ht
    simp only [List.forall_mem_cons, Value.isClean_text]
    exact ⟨hfirst.isXml_textual? hstreet, isXml_textOrField? hm hd hdistrict,
      isXml_textOrField? hm hd hregency, isXml_textOrField? hm hd hprovince,
      isXml_textOrField? hm hd hpostcode, List.forall_mem_nil _⟩

theorem custom_isXml (hm : m.IsClean) : (custom env m d).IsXml := by
  unfold custom
  cases hv : (d.sourceKey?).bind (Table.get? m) with
  | none => exact Noted.isXml_plain isXml_nil
  | some v =>
    obtain ⟨k, -, hget⟩ := Option.bind_eq_some_iff.1 hv
    have hclean := Value.isClean_of_get? hm hget
    cases ht : v.textual? with
    | none =>
      simp only [Option.map_some, ht]
      exact Noted.isXml_fault _
    | some t =>
      have ht := hclean.isXml_textual? ht
      simp only [Option.map_some, *]
      split
      · exact Noted.isXml_mapError fun _ => within_evaluateInline ht
      · exact Noted.isXml_plain ht

/-- A document can hold what a placeholder for text stands for. -/
theorem text?_isXml (henv : env.IsXml) (hm : m.IsClean) (hd : d.IsXml) {noted : Noted}
    (h : text? env m d = some noted) : noted.IsXml := by
  unfold text? at h
  split at h
  · exact Option.some.inj h ▸ date_isXml henv hd
  · exact Option.some.inj h ▸ user_isXml henv
  · exact Option.some.inj h ▸ site_isXml henv
  · exact Option.some.inj h ▸ money_isXml henv hd
  · exact Option.some.inj h ▸ terbilang_isXml
  · exact Option.some.inj h ▸ number_isXml
  · exact Option.some.inj h ▸ gelar_isXml hm hd
  · exact Option.some.inj h ▸ alamat_isXml hm hd
  · exact Option.some.inj h ▸ custom_isXml hm
  · cases h
  · cases h

/-! ## All placeholders -/

variable {studio : Studio} {cache : AssetCache} {w : World}

theorem isClean_of_imageOf {sought : Except Fault (Option Text)} {v : Value}
    (h : imageOf d sought = .ok (some v)) : v.IsClean := by
  unfold imageOf at h
  split at h
  · cases h
  · cases h
  · cases ha : (imageAsset d _).1 with
    | error f => rw [ha] at h; cases h
    | ok a => rw [ha] at h; cases h; rfl

theorem isClean_codeErrorMark : (Value.text codeErrorMark).IsClean :=
  Value.isClean_text.2 (by decide)

theorem isClean_of_symbol {v : Value}
    (h : (Script.run (symbol studio cache m d) w).1.1 = .ok (some v)) : v.IsClean := by
  cases hreq : request m d with
  | refuse f => rw [run_symbol_of_refuse hreq] at h; cases h
  | leave => rw [(run_symbol_of_leave hreq).1] at h; cases h
  | mark => rw [run_symbol_of_mark hreq] at h; cases h; exact isClean_codeErrorMark
  | draw k =>
    rw [(run_symbol_of_draw hreq).1] at h
    have h : some v = some (picture k _) := (eq_picture_of_symbolOf h)
    rw [Option.some.inj h]
    unfold picture
    split
    · rfl
    · exact isClean_codeErrorMark

/-- What a placeholder stands for is clean. -/
theorem resolve_isClean (henv : env.IsXml) (hm : m.IsClean) (hd : d.IsXml) {v : Value}
    (h : (Script.run (resolve studio env cache m d) w).1.1 = .ok (some v)) : v.IsClean := by
  cases htext : text? env m d with
  | some noted =>
    rw [(run_resolve_text htext).1] at h
    cases hresult : noted.result with
    | error f => rw [hresult] at h; cases h
    | ok t =>
      rw [hresult] at h
      cases h
      exact Value.isClean_text.2 (text?_isXml henv hm hd htext t hresult)
  | none =>
    by_cases hk : d.kind = .qrcode
    · rw [resolve_qrcode hk] at h
      exact isClean_of_symbol h
    · have himage := (Kind.eq_of_isPicture ((text?_eq_none_iff env m d).1 htext)).resolve_left hk
      rw [(run_resolve_image himage).1] at h
      exact isClean_of_imageOf h

theorem resolveEach_isClean (henv : env.IsXml) (hm : m.IsClean) {ds : List Descriptor}
    (hds : ∀ d ∈ ds, d.IsXml) {mf : DataMap}
    (h : (Script.run (resolveEach studio env cache m ds) w).1.1 = .ok mf) : mf.IsClean := by
  induction ds generalizing cache m w with
  | nil => cases h; exact hm
  | cons d ds ih =>
    rw [List.forall_mem_cons] at hds
    rw [run_resolveEach_cons] at h
    split at h
    · exact ih hm hds.2 h
    · have hfirst : ∀ v, (Script.run (resolve studio env cache m d) w).1.1 = .ok (some v) →
          v.IsClean := fun _ => resolve_isClean henv hm hds.1
      revert h hfirst
      obtain ⟨⟨found, cache'⟩, w'⟩ := Script.run (resolve studio env cache m d) w
      intro h hfirst
      cases found with
      | error f => cases h
      | ok r =>
        cases r with
        | none => exact ih hm hds.2 h
        | some v => exact ih (hm.insert d.raw (hfirst v rfl)) hds.2 h

/-- Whatever is put into a document after its data were cleaned and its placeholders resolved, the
document can hold. -/
theorem resolveAll_xmlOnly (henv : env.IsXml) (kinds : List Kind) {tokens : List Text}
    (htokens : ∀ t ∈ tokens, t.IsXml) (data : DataMap) {mf : DataMap}
    (h : (Script.run (resolveAll studio env kinds cache tokens data.xmlOnly) w).1.1 = .ok mf) :
    ∀ e ∈ mf, ∀ t, e.2.plain? = some t → t.xmlOnly = t := by
  have hclean : mf.IsClean := resolveEach_isClean henv (DataMap.isClean_xmlOnly data).unwrapKeys
    (fun d hd => isXml_of_mem_inOrder htokens hd) h
  exact fun e he t ht => isXml_iff_xmlOnly.1 ((hclean e he).isXml_plain? ht)

end

/-- An address with a control character inside a list, where cleaning does not reach it. -/
def garbledAddress : DataMap :=
  [("a".toList, .map [("alamat".toList, .list [.text "\x01x".toList]),
      ("kode_pos".toList, .text "1\x02".toList)]),
    ("n".toList, .text "b\x0b".toList)]

def addressTokens : List Text := ["$\x7balamat:a\x7d", "custom:n"].map String.toList

/-- What the address is written as. -/
def addressLine : Text := "['\\x01x'], 1".toList

def writtenAddress : DataMap :=
  [("a".toList, .map [("alamat".toList, .list [.text "\x01x".toList]),
      ("kode_pos".toList, .text "1".toList)]),
    ("n".toList, .text "b".toList), ("alamat:a".toList, .text addressLine),
    ("custom:n".toList, .text "b".toList)]

theorem isXml_newYear : newYear.IsXml where
  user := isXml_nil
  email := isXml_nil
  roles := List.forall_mem_nil _
  extras := List.forall_mem_nil _
  site field t h := by
    unfold Site.field? at h
    repeat' split at h
    all_goals cases h <;> exact isXml_nil
  currency := by decide
  dateFormat := by decide

theorem isXml_addressTokens : ∀ t ∈ addressTokens, t.IsXml := by decide

theorem run_garbledAddress :
    (Script.run (resolveAll dryStudio newYear Kind.order (lostCache none) addressTokens
      garbledAddress.xmlOnly) {}).1.1 = .ok writtenAddress := rfl

/-- The address shows the control character, and does not hold it. -/
theorem resolveAll_xmlOnly_address :
    (Script.run (resolveAll dryStudio newYear Kind.order (lostCache none) addressTokens
      garbledAddress.xmlOnly) {}).1.1 = .ok writtenAddress ∧ addressLine.xmlOnly = addressLine := by
  have hmem : ("alamat:a".toList, Value.text addressLine) ∈ writtenAddress :=
    List.mem_cons_of_mem _ (List.mem_cons_of_mem _ (List.mem_cons_self ..))
  exact ⟨run_garbledAddress, resolveAll_xmlOnly isXml_newYear Kind.order isXml_addressTokens
    garbledAddress run_garbledAddress _ hmem addressLine rfl⟩

end Resolution
end MailMerge
