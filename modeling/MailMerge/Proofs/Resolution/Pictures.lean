import MailMerge.Proofs.Resolution.Texts
import MailMerge.Proofs.Storage.Locate
import MailMerge.Proofs.Storage.Running
import MailMerge.Resolution.Engine
/-!
# What placeholders for pictures ask for

Resolving a picture first decides from its source what is to be done (`seek` for images, `request`
for codes), and then does it.

* `run_image`: an image placeholder stands for what is found behind its source.
* `seek_again`: an image that has been found is found again behind its own path.
* `run_symbol`: a code placeholder stands for what the cache answers to its request.
-/
namespace MailMerge.Resolution

/-! ## Images -/

/-- The file behind the source of an image, if there is one. -/
def seek (fs : FileSystem) (v : Value) : Except Fault (Option Text) :=
  match v.imagePath? with
  | none => .ok none
  | some source =>
    match Script.probed (!·.isDirectory) (fs.status (Path.ofText source).toText) with
    | .error c => .error (.storage ⟨c, (Path.ofText source).toText, none⟩)
    | .ok false => .ok none
    | .ok true =>
      if (fs.status source).toBool then
        match fs.canonical (Path.ofText source).toText with
        | .error c => .error (.storage ⟨c, (Path.ofText source).toText, none⟩)
        | .ok file => .ok (some file)
      else .ok none

/-- What an image placeholder stands for, after the file of its source was sought. -/
def imageOf (d : Descriptor) (sought : Except Fault (Option Text)) : Except Fault Found :=
  match sought with
  | .error f => .error f
  | .ok none => .ok none
  | .ok (some file) => (imageAsset d file).1.map fun a => some (.asset a)

theorem run_image (m : DataMap) (d : Descriptor) (w : World) :
    (Script.run (image m d) w).1 = imageOf d (seek w.files (sourceValue m d)) ∧
      World.Same w (Script.run (image m d) w).2 := by
  unfold image seek
  cases (sourceValue m d).imagePath? with
  | none => exact ⟨rfl, rfl, rfl, rfl, rfl⟩
  | some source =>
    dsimp only
    rw [Script.run_bind, Script.run_isFile]
    dsimp only
    cases Script.probed (!·.isDirectory) (w.files.status (Path.ofText source).toText) with
    | error c => exact ⟨rfl, World.Same.refl w⟩
    | ok file =>
      cases file with
      | false => exact ⟨rfl, rfl, rfl, rfl, rfl⟩
      | true =>
        dsimp only
        rw [Script.run_bind, Script.run_canReach]
        dsimp only
        cases (w.files.status source).toBool with
        | false => exact ⟨rfl, rfl, rfl, rfl, rfl⟩
        | true =>
          simp only [if_true]
          rw [Script.run_bind, Script.run_canonical]
          dsimp only
          cases w.files.canonical (Path.ofText source).toText with
          | error c => exact ⟨rfl, World.Same.refl w⟩
          | ok file =>
            dsimp only
            rw [Script.run_bind, Script.run_noteAll]
            exact ⟨rfl, rfl, rfl, rfl, rfl⟩

/-- An image that has been found is found again behind its own path, unless that is too long. -/
theorem seek_again {fs : FileSystem} (hs : fs.IsSound) {v v' : Value} {file : Text}
    (h : seek fs v = .ok (some file)) (hv : v'.imagePath? = some file) :
    seek fs v' = .ok (some file) ∨
      fs.status file = .error .nameTooLong ∧ ∃ f, seek fs v' = .error f := by
  unfold seek at h
  cases hsource : v.imagePath? with
  | none => rw [hsource] at h; cases h
  | some source =>
    rw [hsource] at h
    dsimp only at h
    cases hstatus : fs.status (Path.ofText source).toText with
    | error c =>
      rw [hstatus] at h
      unfold Script.probed at h
      dsimp only at h
      by_cases hc : Script.meansAbsent c = true
      · rw [if_pos hc] at h; cases h
      · rw [if_neg hc] at h; cases h
    | ok s =>
      rw [hstatus] at h
      unfold Script.probed at h
      dsimp only at h
      cases hdir : s.isDirectory with
      | true => rw [hdir] at h; cases h
      | false =>
        rw [hdir] at h
        simp only [Bool.not_false] at h
        split at h
        · cases hcanon : fs.canonical (Path.ofText source).toText with
          | error c => rw [hcanon] at h; cases h
          | ok file' =>
            rw [hcanon] at h
            cases h
            obtain ⟨htext, ⟨hst, hca⟩ | hlong⟩ :=
              FileSystem.canonical_again hs hstatus hdir hcanon
            · left
              simp only [seek, hv, htext, hst, hca, Script.probed, hdir, Bool.not_false,
                Except.toBool, if_true]
            · right
              refine ⟨hlong, ?_⟩
              simp only [seek, hv, htext, hlong, Script.probed]
              exact ⟨_, rfl⟩
        · cases h

theorem source_of_imageOf {d : Descriptor} {sought : Except Fault (Option Text)} {v : Value}
    (h : imageOf d sought = .ok (some v)) :
    ∃ a, v = .asset a ∧ sought = .ok (some a.source) := by
  unfold imageOf at h
  split at h
  · cases h
  · cases h
  · rename_i file
    cases hasset : (imageAsset d file).1 with
    | error f => rw [hasset] at h; cases h
    | ok a =>
      rw [hasset] at h
      cases h
      have hsource : a.source = file := by
        unfold imageAsset at hasset
        dsimp only at hasset
        split at hasset
        · cases hasset
        · cases hasset
        · cases hasset
          rfl
      exact ⟨a, rfl, by rw [hsource]⟩

/-! ## Codes -/

/-- What is to be done about a code. -/
inductive Request where
  | refuse (f : Fault)
  | leave
  | mark
  | draw (k : AssetKey)

/-- The edge of a symbol for which a number was asked. -/
def symbolSize (n : Int) : Int := ((min (max n symbolEdges.1) symbolEdges.2).toNat : Int)

/-- What is to be done about a code whose symbol holds a text. -/
def requestOf (payload : Option Text) (d : Descriptor) : Request :=
  match payload with
  | none => .refuse .unwritableNumber
  | some payload =>
    if payload.trim.isEmpty then .leave
    else if payload = codeErrorMark then .mark
    else match wholeField (d.arg? 1) usualEdge with
      | .error f => .refuse f
      | .ok n => .draw ⟨payload, symbolSize n, (symbolLevel (d.arg? 2)).1⟩

/-- What is to be done about the code of a placeholder. -/
def request (m : DataMap) (d : Descriptor) : Request := requestOf (symbolText? m d) d

/-- What is drawn for a code: its text, its size and its level. -/
theorem request_eq_draw {m : DataMap} {d : Descriptor} {k : AssetKey} (h : request m d = .draw k) :
    symbolText? m d = some k.payload ∧
      (wholeField (d.arg? 1) usualEdge).map symbolSize = .ok k.size ∧
      (symbolLevel (d.arg? 2)).1 = k.quality := by
  unfold request requestOf at h
  cases htext : symbolText? m d with
  | none =>
    rw [htext] at h
    cases h
  | some payload =>
    rw [htext] at h
    dsimp only at h
    split at h
    · cases h
    · split at h
      · cases h
      · cases hfield : wholeField (d.arg? 1) usualEdge with
        | error f =>
          rw [hfield] at h
          cases h
        | ok n =>
          rw [hfield] at h
          cases h
          exact ⟨rfl, rfl, rfl⟩

/-- What a code placeholder stands for after the cache answered its request. -/
def symbolOf (k : AssetKey) (answer : CacheAnswer) : Except Fault Found :=
  match answer with
  | .found p =>
    .ok (some (.asset { source := p.toText, width := k.size.toNat, height := k.size.toNat,
                        payload := some k.payload }))
  | .failed _ => .ok (some (.text codeErrorMark))
  | .broken t => .error (.storage t)

/-- What the cache answers to a request, and the cache and the world after it. -/
def asked (studio : Studio) (k : AssetKey) (s : AssetCache × World) :
    CacheAnswer × (AssetCache × World) :=
  let r := Script.run (s.1.getOrCreate studio.render studio.parts k) s.2
  (r.1.1, (r.1.2, r.2))

theorem asked_same (studio : Studio) (k : AssetKey) (cache : AssetCache) {w w' : World}
    (h : World.Same w w') :
    (asked studio k (cache, w)).1 = (asked studio k (cache, w')).1 ∧
      (asked studio k (cache, w)).2.1 = (asked studio k (cache, w')).2.1 ∧
      World.Same (asked studio k (cache, w)).2.2 (asked studio k (cache, w')).2.2 := by
  obtain ⟨hr, hw⟩ := Script.run_same (cache.getOrCreate studio.render studio.parts k) h
  exact ⟨congrArg (·.1) hr, congrArg (·.2) hr, hw⟩

/-- Tells what the cache answered to a request. -/
def tell (k : AssetKey) (cache : AssetCache) (answer : CacheAnswer) :
    Script (Except Fault Found × AssetCache) := do
  match answer with
  | .failed _ => Script.note (.error "qrcode_generation_failed")
  | _ => pure ()
  pure (symbolOf k answer, cache)

section
variable {studio : Studio} {cache : AssetCache} {m : DataMap} {d : Descriptor}

/-- Resolving a code decides on a request first, and the request says all that is done. -/
theorem symbol_eq :
    symbol studio cache m d = match request m d with
      | .refuse f => pure (.error f, cache)
      | .leave => (do
        Script.note (.info "qrcode_payload_missing")
        pure (.ok none, cache))
      | .mark => pure (.ok (some (.text codeErrorMark)), cache)
      | .draw k => (do
        Script.noteAll (symbolLevel (d.arg? 2)).2
        let r ← cache.getOrCreate studio.render studio.parts k
        tell k r.2 r.1) := by
  unfold symbol request requestOf
  cases symbolText? m d with
  | none => rfl
  | some payload =>
    dsimp only
    by_cases hblank : payload.trim.isEmpty = true
    · rw [if_pos hblank, if_pos hblank]
    · rw [if_neg hblank, if_neg hblank]
      by_cases hmark : payload = codeErrorMark
      · rw [if_pos hmark, if_pos hmark]
      · rw [if_neg hmark, if_neg hmark]
        cases wholeField (d.arg? 1) usualEdge with
        | error f => rfl
        | ok n =>
          show (Script.noteAll _ >>= fun _ => _ >>= fun r => _) = _
          dsimp only
          congr 1
          funext _
          congr 1
          funext r
          obtain ⟨answer, cache'⟩ := r
          cases answer <;> rfl

theorem run_tell (k : AssetKey) (cache : AssetCache) (answer : CacheAnswer) (w : World) :
    (Script.run (tell k cache answer) w).1 = (symbolOf k answer, cache) ∧
      World.Same w (Script.run (tell k cache answer) w).2 := by
  cases answer <;> exact ⟨rfl, rfl, rfl, rfl, rfl⟩

variable {w : World}

theorem run_symbol_of_refuse {f : Fault} (h : request m d = .refuse f) :
    Script.run (symbol studio cache m d) w = ((.error f, cache), w) := by
  rw [symbol_eq, h]
  rfl

theorem run_symbol_of_leave (h : request m d = .leave) :
    (Script.run (symbol studio cache m d) w).1 = (.ok none, cache) ∧
      World.Same w (Script.run (symbol studio cache m d) w).2 := by
  rw [symbol_eq, h]
  exact ⟨rfl, rfl, rfl, rfl, rfl⟩

theorem run_symbol_of_mark (h : request m d = .mark) :
    Script.run (symbol studio cache m d) w = ((.ok (some (.text codeErrorMark)), cache), w) := by
  rw [symbol_eq, h]
  rfl

/-- A code placeholder stands for what the cache answers to its request. -/
theorem run_symbol_of_draw {k : AssetKey} (h : request m d = .draw k) :
    (Script.run (symbol studio cache m d) w).1 =
        (symbolOf k (asked studio k (cache, w)).1, (asked studio k (cache, w)).2.1) ∧
      World.Same (asked studio k (cache, w)).2.2 (Script.run (symbol studio cache m d) w).2 := by
  rw [symbol_eq, h]
  dsimp only
  rw [Script.run_bind, Script.run_noteAll, Script.run_bind]
  -- the notes before the request change nothing that the cache sees
  let noted : World := { w with log := w.log ++ (symbolLevel (d.arg? 2)).2 }
  obtain ⟨ha, hc, hw⟩ := asked_same studio k cache (World.same_log w noted.log)
  obtain ⟨hr, hsame⟩ := run_tell k (asked studio k (cache, noted)).2.1
    (asked studio k (cache, noted)).1 (asked studio k (cache, noted)).2.2
  rw [ha, hc]
  exact ⟨hr, hw.trans hsame⟩

/-! ## Both -/

variable {env : Environment}

theorem run_resolve_text {noted : Noted} (h : text? env m d = some noted) :
    (Script.run (resolve studio env cache m d) w).1 =
        (noted.result.map fun t => some (.text t), cache) ∧
      World.Same w (Script.run (resolve studio env cache m d) w).2 := by
  unfold resolve
  rw [h]
  dsimp only
  rw [Script.run_bind, Script.run_noteAll]
  exact ⟨rfl, rfl, rfl, rfl, rfl⟩

theorem run_resolve_image (hk : d.kind = .image) :
    (Script.run (resolve studio env cache m d) w).1 =
        (imageOf d (seek w.files (sourceValue m d)), cache) ∧
      World.Same w (Script.run (resolve studio env cache m d) w).2 := by
  have hnone : text? env m d = none := (text?_eq_none_iff env m d).2 (by rw [hk]; rfl)
  obtain ⟨hr, hw⟩ := run_image m d w
  unfold resolve
  rw [hnone]
  simp only [hk, if_true]
  rw [Script.run_bind]
  exact ⟨congrArg (·, cache) hr, hw⟩

/-- Only codes ask the cache. -/
theorem run_resolve_of_ne_qrcode (hk : d.kind ≠ .qrcode) :
    (Script.run (resolve studio env cache m d) w).1.2 = cache ∧
      World.Same w (Script.run (resolve studio env cache m d) w).2 := by
  cases htext : text? env m d with
  | some noted =>
    obtain ⟨hr, hw⟩ := run_resolve_text (w := w) htext
    exact ⟨congrArg Prod.snd hr, hw⟩
  | none =>
    have himage := (Kind.eq_of_isPicture ((text?_eq_none_iff env m d).1 htext)).resolve_left hk
    obtain ⟨hr, hw⟩ := run_resolve_image (w := w) himage
    exact ⟨congrArg Prod.snd hr, hw⟩

theorem resolve_qrcode (hk : d.kind = .qrcode) :
    resolve studio env cache m d = symbol studio cache m d := by
  have hnone : text? env m d = none := (text?_eq_none_iff env m d).2 (by rw [hk]; rfl)
  unfold resolve
  rw [hnone]
  simp only [hk, reduceCtorEq, if_false]

end

end MailMerge.Resolution
