import MailMerge.Proofs.Document.Edits
import MailMerge.Proofs.Resolution.Independence
/-!
# Sources of pictures stay out of the text

The path of an image and the text of a code stand in the data under source keys: the name of the
kind, a colon and a name. Placeholders for text cannot ask for such a key, and what placeholders for
pictures stand for is stored under keys with colons, too. So what a placeholder for text stands for
in a whole run is settled by the data under other keys.

* `resolveEach_text`: what a run makes of a placeholder for text.
* `sameValues_of_differInSources`: data that differ in sources are the same to such placeholders.
* `resolveAll_hides_sources`: two runs over such data give all of them the same values, and putting
  in what either gives shows no source.
-/
namespace MailMerge

namespace Table

variable {κ α : Type} [DecidableEq κ]

/-- Leaving out other keys changes nothing that is found under a key. -/
theorem get?_foldl_insert_filter (l : List (κ × α)) (keep : κ → Bool) {x : κ} (hx : keep x = true)
    (s t : Table κ α) (h : s.get? x = t.get? x) :
    get? ((l.filter fun e => keep e.1).foldl (fun t e => t.insert e.1 e.2) s) x =
      get? (l.foldl (fun t e => t.insert e.1 e.2) t) x := by
  induction l generalizing s t with
  | nil => exact h
  | cons e l ih =>
    rw [List.filter_cons]
    by_cases he : keep e.1 = true
    · rw [if_pos he]
      exact ih _ _ (by rw [get?_insert, get?_insert, h])
    · rw [if_neg he]
      have hne : e.1 ≠ x := fun hex => he (hex ▸ hx)
      exact ih _ _ (by rw [get?_insert, if_neg hne, h])

theorem get?_ofList_filter (l : List (κ × α)) (keep : κ → Bool) {x : κ} (hx : keep x = true) :
    get? (ofList (l.filter fun e => keep e.1)) x = get? (ofList l) x :=
  get?_foldl_insert_filter l keep hx [] [] rfl

end Table

namespace Resolution

/-! ## One run -/

/-- What stands under a placeholder for text after a run: what the data held, or else its text. -/
def textValue (env : Environment) (m : DataMap) (d : Descriptor) : Option Value :=
  (Table.get? m d.raw).or
    ((text? env m d).bind fun noted => noted.result.toOption.map Value.text)

section
variable {studio : Studio} {env : Environment} {cache : AssetCache} {w : World} {m m' mf : DataMap}
variable {d : Descriptor}

theorem textValue_congr (hsame : SameSources m m') (hraw : Table.get? m d.raw = Table.get? m' d.raw)
    (hd : d.IsParsed) : textValue env m d = textValue env m' d := by
  rw [textValue, textValue, hraw, text?_congr env hsame hd]

/-- Storing what another placeholder stands for changes nothing for a placeholder for text. -/
theorem textValue_insert {e : Descriptor} (hd : d.IsParsed) (he : e.IsParsed) (hne : d ≠ e)
    (v : Value) : textValue env (Table.insert m e.raw v) d = textValue env m d ∧
      Table.get? (Table.insert m e.raw v) d.raw = Table.get? m d.raw := by
  have hraw : Table.get? (Table.insert m e.raw v) d.raw = Table.get? m d.raw := by
    rw [Table.get?_insert, if_neg fun h => hne (Descriptor.eq_of_raw_eq hd he h.symm)]
  refine ⟨textValue_congr (fun k hk => ?_) hraw hd, hraw⟩
  rw [Table.get?_insert, if_neg fun (h : e.raw = k) => hk (h ▸ Descriptor.colon_mem_raw he)]

/-- What a run makes of a placeholder for text does not depend on the others of the run, and where
the run comes to its end there is such a text. -/
theorem resolveEach_text {ds : List Descriptor} (hds : ∀ e ∈ ds, e.IsParsed)
    (h : (Script.run (resolveEach studio env cache m ds) w).1.1 = .ok mf) (hd : d.IsParsed)
    (ht : d.kind.isPicture = false) :
    Table.get? mf d.raw = (if d ∈ ds then textValue env m d else Table.get? m d.raw) ∧
      (d ∈ ds → (textValue env m d).isSome = true) := by
  induction ds generalizing cache m w with
  | nil =>
    cases h
    exact ⟨rfl, fun hm => absurd hm List.not_mem_nil⟩
  | cons e ds ih =>
    obtain ⟨he, hds⟩ := List.forall_mem_cons.1 hds
    rw [run_resolveEach_cons] at h
    by_cases hres : isResolved m e = true
    · rw [if_pos hres] at h
      obtain ⟨hrest, hsome⟩ := ih hds h
      by_cases hde : d = e
      · -- what has a value keeps it
        subst hde
        obtain ⟨v, hv⟩ : ∃ v, Table.get? m d.raw = some v := by
          unfold isResolved at hres
          cases hv : Table.get? m d.raw with
          | none => rw [hv] at hres; cases hres
          | some v => exact ⟨v, rfl⟩
        rw [hrest]
        simp [textValue, hv]
      · simp only [List.mem_cons, hde, false_or]
        exact ⟨hrest, hsome⟩
    · rw [if_neg hres] at h
      split at h
      · cases h
      · rename_i r cache' w' hr
        obtain ⟨hrest, hsome⟩ := ih hds h
        by_cases hde : d = e
        · subst hde
          obtain ⟨noted, hnoted⟩ := Option.ne_none_iff_exists'.1 fun hnone => by
            rw [(text?_eq_none_iff env m d).1 hnone] at ht
            cases ht
          have hfound := (@run_resolve_text studio cache m d w env noted hnoted).1
          rw [hr] at hfound
          obtain ⟨t, hresult, rfl⟩ : ∃ t, noted.result = .ok t ∧ r = some (.text t) := by
            cases hn : noted.result with
            | error f => rw [hn] at hfound; cases hfound
            | ok t => rw [hn] at hfound; cases hfound; exact ⟨t, rfl, rfl⟩
          have hnone : Table.get? m d.raw = none := by
            cases hv : Table.get? m d.raw with
            | none => rfl
            | some v => exact absurd (by simp [isResolved, hv, ht]) hres
          rw [hrest]
          simp [textValue, Table.get?_insert, hnone, hnoted, hresult, Except.toOption]
        · simp only [List.mem_cons, hde, false_or]
          cases r with
          | none => exact ⟨hrest, hsome⟩
          | some v =>
            obtain ⟨htext, hraw⟩ := @textValue_insert env m d e hd he hde v
            rw [Option.elim_some, htext] at hrest hsome
            exact ⟨hraw ▸ hrest, hsome⟩

end

/-! ## Two runs -/

/-- Whether a key is the name of a kind of pictures, a colon and a name without one. -/
def isSourceKey (k : Text) : Bool :=
  match Text.cut ':' k with
  | (name, some rest) =>
    (name = Kind.image.name || name = Kind.qrcode.name) && !rest.isEmpty && !rest.contains ':'
  | _ => false

/-- Whether two data maps are the same but for entries under source keys. Keys may be wrapped. -/
def DifferInSources (data data' : DataMap) : Prop :=
  data.filter (fun e => !isSourceKey (Token.unwrap e.1)) =
    data'.filter fun e => !isSourceKey (Token.unwrap e.1)

theorem isSourceKey_of_not_mem {k : Text} (h : ':' ∉ k) : isSourceKey k = false := by
  rw [isSourceKey, Text.cut_of_not_mem h]

theorem isSourceKey_raw {d : Descriptor} (hd : d.IsParsed) (ht : d.kind.isPicture = false) :
    isSourceKey d.raw = false := by
  obtain ⟨-, rest, hraw, -⟩ := Descriptor.raw_eq hd
  have hname : ∀ k : Kind, k.isPicture = true → d.kind.name ≠ k.name := by
    intro k hk h
    rw [Kind.name_injective h, hk] at ht
    cases ht
  rw [hraw, isSourceKey, Text.cut_append (Kind.colon_not_mem_name d.kind)]
  simp [hname .image rfl, hname .qrcode rfl]

section
variable {env : Environment} {data data' : DataMap}

/-- Data that differ in sources only hold the same under every other key. -/
theorem get?_unwrapKeys_of_differInSources (h : DifferInSources data data') {k : Text}
    (hk : isSourceKey k = false) :
    Table.get? data.unwrapKeys k = Table.get? data'.unwrapKeys k := by
  have hkeep : (!isSourceKey k) = true := by rw [hk]; rfl
  have hfilter : ∀ m : DataMap, Table.get? m.unwrapKeys k = Table.get? (Table.ofList
      ((m.filter fun e => !isSourceKey (Token.unwrap e.1)).map
        fun e => (Token.unwrap e.1, e.2))) k := by
    intro m
    rw [DataMap.unwrapKeys, ← Table.get?_ofList_filter _ (fun k => !isSourceKey k) hkeep,
      List.filter_map]
    rfl
  rw [hfilter, hfilter, h]

/-- To a placeholder for text, data that differ in sources only are the same. -/
theorem sameValues_of_differInSources (h : DifferInSources data data') {d : Descriptor}
    (hd : d.IsParsed) (ht : d.kind.isPicture = false) :
    Table.get? data.unwrapKeys d.raw = Table.get? data'.unwrapKeys d.raw ∧
      textValue env data.unwrapKeys d = textValue env data'.unwrapKeys d := by
  have hraw := get?_unwrapKeys_of_differInSources h (isSourceKey_raw hd ht)
  exact ⟨hraw, textValue_congr
    (fun k hk => get?_unwrapKeys_of_differInSources h (isSourceKey_of_not_mem hk)) hraw hd⟩

end

/-- Two runs over data that differ in sources of pictures only give every placeholder for text the
same value, whatever their caches and files are. And putting what a run gives into a document, the
only text that is put in the place of a picture is the mark: the sources that are still in the map
are as good as absent. -/
theorem resolveAll_hides_sources (studio : Studio) (env : Environment) (kinds : List Kind)
    (tokens : List Text) {data data' : DataMap} (hdata : DifferInSources data data')
    {cache cache' : AssetCache} {w w' : World} {mf mf' : DataMap}
    (h : (Script.run (resolveAll studio env kinds cache tokens data) w).1.1 = .ok mf)
    (h' : (Script.run (resolveAll studio env kinds cache' tokens data') w').1.1 = .ok mf') :
    (∀ d ∈ descriptors tokens, d.kind.isPicture = false →
      Table.get? mf d.raw = Table.get? mf' d.raw ∧
        (d.kind ∈ kinds → ∃ v, Table.get? mf d.raw = some v)) ∧
    ∀ m, m = mf ∨ m = mf' → ∀ (images : ImageReader) (doc : Document) (v : World),
      (Script.run (doc.apply images m) v).1 =
        Document.edited (Document.looks images v.files) (doc.edits m) doc ∧
      (∀ e ∈ doc.edits m, Document.isPictureToken e.token = true →
        ∀ t, e.insert = .text t → t = codeErrorMark) ∧
      (Script.run (doc.apply images m) v).1 =
        (Script.run (doc.apply images (Document.withoutSources m)) v).1 := by
  have hds : ∀ e ∈ inOrder kinds tokens, e.IsParsed := by
    intro e he
    obtain ⟨k, -, he⟩ := List.mem_flatMap.1 he
    exact isParsed_of_mem_descriptors (List.mem_filter.1 he).1
  refine ⟨fun d hd ht => ?_, fun m _ images doc v =>
    ⟨Document.run_apply_edits images doc m v, fun e he hpic t => Document.text_of_mem_edits he hpic,
      (Document.run_apply_withoutSources images doc m v).symm⟩⟩
  have hparsed := isParsed_of_mem_descriptors hd
  obtain ⟨hrun, hsome⟩ := resolveEach_text hds h hparsed ht
  obtain ⟨hrun', -⟩ := resolveEach_text hds h' hparsed ht
  obtain ⟨hraw, htext⟩ := @sameValues_of_differInSources env _ _ hdata d hparsed ht
  refine ⟨by rw [hrun, hrun', hraw, htext], fun hk => ?_⟩
  have hmem : d ∈ inOrder kinds tokens := by
    simpa [inOrder, Kind.mem_order, hk] using hd
  rw [hrun, if_pos hmem]
  exact Option.isSome_iff_exists.1 (hsome hmem)

/-- A name, and the path of an image. -/
def pictured : DataMap :=
  [("n".toList, .text "Ann".toList), ("image:x".toList, .text "/x.png".toList)]

/-- A name, and the text of a code. -/
def coded : DataMap :=
  [("$\x7bqrcode:y\x7d".toList, .text "hi".toList), ("n".toList, .text "Ann".toList)]

def nameAndImage : List Text := ["custom:n", "image:x"].map String.toList

def picturedName : DataMap := pictured ++ [("custom:n".toList, .text "Ann".toList)]

def codedName : DataMap :=
  [("qrcode:y".toList, .text "hi".toList), ("n".toList, .text "Ann".toList),
    ("custom:n".toList, .text "Ann".toList)]

/-- The image is missing. -/
theorem seek_pictured : seek {} (.text "/x.png".toList) = .ok none := by
  have hpath : (Value.text "/x.png".toList).imagePath? = some "/x.png".toList := rfl
  have hmissing : ({} : FileSystem).status (Path.ofText "/x.png".toList).toText = .error .absent :=
    FileSystem.status_of_missing (Path.isClean_ofText _) (by decide) (by decide) rfl
      ⟨by decide, by decide, by decide⟩ rfl
  unfold seek
  rw [hpath]
  dsimp only
  rw [hmissing]
  rfl

theorem run_pictured :
    (Script.run (resolveAll dryStudio newYear Kind.order (lostCache none) nameAndImage
      pictured) {}).1.1 = .ok picturedName := by
  obtain ⟨hrun, -⟩ := @run_resolve_image dryStudio (lostCache none) pictured
    ⟨.image, "image:x".toList, ["x".toList]⟩ {} newYear rfl
  have hsource : sourceValue pictured ⟨.image, "image:x".toList, ["x".toList]⟩ =
      .text "/x.png".toList := rfl
  rw [hsource, seek_pictured] at hrun
  show (Script.run (resolveEach dryStudio newYear (lostCache none) pictured
    [⟨.image, "image:x".toList, ["x".toList]⟩, ⟨.custom, "custom:n".toList, ["n".toList]⟩]) {}).1.1
      = _
  rw [run_resolveEach_cons, if_neg (by decide)]
  generalize Script.run (resolve _ _ _ _ _) _ = r at hrun ⊢
  obtain ⟨⟨found, cache⟩, w⟩ := r
  cases hrun
  rfl

theorem run_coded :
    (Script.run (resolveAll dryStudio newYear Kind.order (lostCache none) nameAndImage
      coded) {}).1.1 = .ok codedName := rfl

/-- The name comes out the same, and of the path that is left no document shows anything. -/
theorem resolveAll_hides_sources_path :
    DifferInSources pictured coded ∧
      Table.get? picturedName "custom:n".toList = Table.get? codedName "custom:n".toList ∧
      Document.withoutSources picturedName =
        [("n".toList, .text "Ann".toList), ("custom:n".toList, .text "Ann".toList)] ∧
      ∀ (images : ImageReader) (doc : Document) (v : World),
        (Script.run (doc.apply images picturedName) v).1 =
          (Script.run (doc.apply images (Document.withoutSources picturedName)) v).1 := by
  have hdata : DifferInSources pictured coded := rfl
  obtain ⟨htext, hdoc⟩ := resolveAll_hides_sources dryStudio newYear Kind.order nameAndImage hdata
    run_pictured run_coded
  have hmem : (⟨.custom, "custom:n".toList, ["n".toList]⟩ : Descriptor) ∈
      descriptors nameAndImage := by decide
  exact ⟨hdata, (htext _ hmem rfl).1, rfl, fun images doc v => (hdoc _ (Or.inl rfl) images doc v).2.2⟩

end Resolution
end MailMerge
