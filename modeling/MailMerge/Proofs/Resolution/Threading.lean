import MailMerge.Proofs.Cache.Entries
import MailMerge.Proofs.Resolution.Pictures
import MailMerge.Proofs.Placeholder.Token
import MailMerge.Proofs.Table
/-!
# Resolving one after the other and each alone

Placeholders are resolved one after the other, each against a map that holds what the earlier ones
stand for. That makes no difference: each gets what it gets alone from the map as it was at first.
The sources of texts are never stored over; the source of a picture may be stored over by the
placeholder that is nothing but its source, and reading that again gives the same picture.

* `Threaded.text?`, `Threaded.request`, `Threaded.seek`: what a text, a code and an image make of the map in
  the middle of a run, and what each makes of the first one.
* `resolve_eq_alone`: one placeholder in the middle of a run gets what it gets alone.
* `exists_resolve`: it gets something there when it and those before it do alone.
* `resolveEach_threaded`, `exists_resolveEach`: a whole run stores what each placeholder gets alone, and
  comes to its end when each gets something.
-/
namespace MailMerge

/-- The path that was answered, if there was one. -/
def CacheAnswer.path? : CacheAnswer → Option Path
  | .found p => some p
  | _ => none

/-- Whether a cache broke off instead of answering. -/
def CacheAnswer.isBroken : CacheAnswer → Bool
  | .broken _ => true
  | _ => false

namespace Resolution

/-! ## Caches that answer alike -/

/-- The cache and the world after requests. -/
def askAll (studio : Studio) : List AssetKey → AssetCache × World → AssetCache × World
  | [], s => s
  | k :: ks, s => askAll studio ks (asked studio k s).2

/-- Whether what a cache answers depends on nothing but the request, nor whether it breaks off, and what
cannot be drawn at the usual size and level cannot be drawn at any. -/
structure Steady (studio : Studio) (cache : AssetCache) (w : World)
    (answer : AssetKey → Option Path) : Prop where
  path : ∀ ks k, (asked studio k (askAll studio ks (cache, w))).1.path? = answer k
  breaks : ∀ ks k, (asked studio k (askAll studio ks (cache, w))).1.isBroken =
    (asked studio k (cache, w)).1.isBroken
  failing : ∀ payload, answer ⟨payload, usualEdge, ErrorLevel.low.letter⟩ = none →
    ∀ size level, answer ⟨payload, size, level⟩ = none

/-- Whether a cache and a world are what requests have made of others, but for the log. -/
def Reached (studio : Studio) (s s' : AssetCache × World) : Prop :=
  ∃ ks, (askAll studio ks s).1 = s'.1 ∧ World.Same (askAll studio ks s).2 s'.2

section
variable {studio : Studio} {s s' : AssetCache × World}

theorem reached_refl (s : AssetCache × World) : Reached studio s s := ⟨[], rfl, World.Same.refl _⟩

theorem askAll_concat (ks : List AssetKey) (k : AssetKey) (s : AssetCache × World) :
    askAll studio (ks ++ [k]) s = (asked studio k (askAll studio ks s)).2 := by
  induction ks generalizing s with
  | nil => rfl
  | cons k' ks ih => exact ih _

theorem Reached.same (h : Reached studio s s') {w : World} (hw : World.Same s'.2 w) :
    Reached studio s (s'.1, w) := by
  obtain ⟨ks, hc, hs⟩ := h
  exact ⟨ks, hc, hs.trans hw⟩

theorem Reached.asked (h : Reached studio s s') (k : AssetKey) :
    Reached studio s (asked studio k s').2 := by
  obtain ⟨cache', w'⟩ := s'
  obtain ⟨ks, hc, hs⟩ := h
  dsimp only at hc hs
  subst hc
  obtain ⟨-, hc', hs'⟩ := asked_same studio k (askAll studio ks s).1 hs
  exact ⟨ks ++ [k], (congrArg Prod.fst (askAll_concat ks k s)).trans hc',
    (askAll_concat ks k s).symm ▸ hs'⟩

theorem Steady.path_of_reached {cache : AssetCache} {w : World} {answer : AssetKey → Option Path}
    (hst : Steady studio cache w answer) (h : Reached studio (cache, w) s') (k : AssetKey) :
    (Resolution.asked studio k s').1.path? = answer k := by
  obtain ⟨ks, hc, hs⟩ := h
  obtain ⟨ha, -, -⟩ := asked_same studio k s'.1 hs
  rw [← hst.path ks k]
  show (Resolution.asked studio k (s'.1, s'.2)).1.path? = _
  rw [← ha, ← hc]

theorem Steady.breaks_of_reached {cache : AssetCache} {w : World} {answer : AssetKey → Option Path}
    (hst : Steady studio cache w answer) (h : Reached studio (cache, w) s') (k : AssetKey) :
    (Resolution.asked studio k s').1.isBroken = (Resolution.asked studio k (cache, w)).1.isBroken := by
  obtain ⟨ks, hc, hs⟩ := h
  obtain ⟨ha, -, -⟩ := asked_same studio k s'.1 hs
  rw [← hst.breaks ks k]
  show (Resolution.asked studio k (s'.1, s'.2)).1.isBroken = _
  rw [← ha, ← hc]

end

/-! ## What codes stand for -/

/-- What a code stands for when the cache answers a path to its request, or none. -/
def picture (k : AssetKey) : Option Path → Value
  | some p => .asset { source := p.toText, width := k.size.toNat, height := k.size.toNat,
                       payload := some k.payload }
  | none => .text codeErrorMark

theorem eq_picture_of_symbolOf {k : AssetKey} {a : CacheAnswer} {r : Found}
    (h : symbolOf k a = .ok r) : r = some (picture k a.path?) := by
  cases a with
  | found p =>
    cases h
    rfl
  | failed f =>
    cases h
    rfl
  | broken t => cases h

theorem path?_of_symbolOf {k : AssetKey} {a : CacheAnswer} {f : Fault}
    (h : symbolOf k a = .error f) : a.path? = none := by
  cases a with
  | found p => cases h
  | failed g => cases h
  | broken t => rfl

/-- Whether a request is answered with something to put in the place of its code. -/
def Request.Returns (studio : Studio) (s : AssetCache × World) : Request → Prop
  | .refuse _ => False
  | .draw k => (asked studio k s).1.isBroken = false
  | _ => True

theorem Steady.returns_of_reached {studio : Studio} {cache : AssetCache} {w : World}
    {s : AssetCache × World} {answer : AssetKey → Option Path} {r : Request}
    (hst : Steady studio cache w answer) (h : Reached studio (cache, w) s)
    (hr : r.Returns studio (cache, w)) : r.Returns studio s := by
  cases r with
  | draw k => exact (hst.breaks_of_reached h k).trans hr
  | _ => exact hr

/-- What a code stands for when the cache always gives the same answers. A code that is refused
counts as one that cannot be drawn. -/
def expected (answer : AssetKey → Option Path) : Request → Found
  | .refuse _ => some (.text codeErrorMark)
  | .leave => none
  | .mark => some (.text codeErrorMark)
  | .draw k => some (picture k (answer k))

/-! ## One placeholder -/

/-- What a placeholder stands for when it is resolved against a map alone. -/
def alone (studio : Studio) (env : Environment) (cache : AssetCache) (w : World) (m : DataMap)
    (d : Descriptor) : Except Fault Found :=
  (Script.run (resolve studio env cache m d) w).1.1

/-- What becomes of a placeholder in any run: what it stands for alone, and the mark when alone it
is a code that is refused. -/
def outcome (studio : Studio) (env : Environment) (cache : AssetCache) (w : World) (m : DataMap)
    (d : Descriptor) : Found :=
  match alone studio env cache w m d with
  | .ok r => r
  | .error _ => if d.kind = .qrcode then some (.text codeErrorMark) else none

/-- What is stored under a placeholder after it was resolved: what the map held when that counts as
resolved or when the placeholder is left alone, and otherwise what it stands for. -/
def settle (studio : Studio) (env : Environment) (cache : AssetCache) (w : World) (m : DataMap)
    (d : Descriptor) : Option Value :=
  if isResolved m d then Table.get? m d.raw
  else (outcome studio env cache w m d).elim (Table.get? m d.raw) some

/-- Whether a map is another one with what the placeholders of a list stand for stored in it. -/
structure Threaded (studio : Studio) (env : Environment) (cache : AssetCache) (w : World)
    (m₀ : DataMap) (done : List Descriptor) (m : DataMap) : Prop where
  stored : ∀ d ∈ done, Table.get? m d.raw = settle studio env cache w m₀ d
  kept : ∀ k, (∀ d ∈ done, d.raw ≠ k) → Table.get? m k = Table.get? m₀ k

section
variable {studio : Studio} {env : Environment} {cache : AssetCache} {w : World} {m₀ m : DataMap}
variable {done : List Descriptor} {d : Descriptor}

theorem threaded_nil : Threaded studio env cache w m₀ [] m₀ :=
  ⟨fun _ hd => absurd hd List.not_mem_nil, fun _ _ => rfl⟩

/-- Texts are never stored over. -/
theorem Threaded.sameSources (h : Threaded studio env cache w m₀ done m)
    (hp : ∀ e ∈ done, e.IsParsed) : SameSources m m₀ :=
  fun k hk => h.kept k fun e he hraw => hk (hraw ▸ Descriptor.colon_mem_raw (hp e he))

/-- The source of a picture is as it was, or it is what the placeholder stands for that is nothing
but this source. -/
theorem Threaded.sourceValue (h : Threaded studio env cache w m₀ done m)
    (hp : ∀ e ∈ done, e.IsParsed) (hd : d.IsParsed) (hpic : d.kind.isPicture = true) :
    sourceValue m d = sourceValue m₀ d ∨
      ∃ e v first, e ∈ done ∧ isResolved m₀ e = false ∧ e.kind = d.kind ∧ e.args = [first] ∧
        Resolution.sourceValue m₀ e = Resolution.sourceValue m₀ d ∧
        outcome studio env cache w m₀ e = some v ∧ Resolution.sourceValue m d = v := by
  obtain ⟨first, more, -, -, hsource⟩ := Descriptor.sourceKey?_of_isPicture hd hpic
  have hvalue : ∀ m', Resolution.sourceValue m' d =
      (Table.get? m' (d.kind.name ++ ':' :: first)).getD .null := by
    intro m'
    rw [Resolution.sourceValue, hsource, Option.bind_some]
  by_cases hk : ∀ e ∈ done, e.raw ≠ d.kind.name ++ ':' :: first
  · left
    rw [hvalue, hvalue, h.kept _ hk]
  · obtain ⟨e, he, hraw⟩ : ∃ e ∈ done, e.raw = d.kind.name ++ ':' :: first := by
      simpa using hk
    obtain ⟨hkind, hkey, first', hargs⟩ :=
      Descriptor.eq_of_raw_eq_sourceKey hd (hp e he) hpic (hsource.trans (congrArg some hraw.symm))
    have hsettle := h.stored e he
    unfold settle at hsettle
    rw [hraw] at hsettle
    split at hsettle
    · left
      rw [hvalue, hvalue, hsettle]
    · rename_i hres
      cases hv : outcome studio env cache w m₀ e with
      | some v =>
        rw [hv] at hsettle
        refine Or.inr ⟨e, v, first', he, Bool.eq_false_iff.2 hres, hkind, hargs, ?_, hv, ?_⟩
        · rw [Resolution.sourceValue, Resolution.sourceValue, hkey]
        · rw [hvalue, hsettle, Option.elim_some, Option.getD_some]
      | none =>
        left
        rw [hv] at hsettle
        rw [hvalue, hvalue, hsettle, Option.elim_none]

/-- What counts as resolved in the middle of a run has been settled. -/
theorem Threaded.of_isResolved (h : Threaded studio env cache w m₀ done m)
    (hp : ∀ e ∈ done, e.IsParsed) (hd : d.IsParsed) (hres : isResolved m d = true) :
    Threaded studio env cache w m₀ (d :: done) m := by
  refine ⟨fun e he => ?_, fun k hk => h.kept k fun e he => hk e (List.mem_cons_of_mem _ he)⟩
  rcases List.mem_cons.1 he with rfl | he
  · by_cases hmem : e ∈ done
    · exact h.stored e hmem
    · have hget := h.kept e.raw fun e' he' hraw =>
        hmem (Descriptor.eq_of_raw_eq (hp e' he') hd hraw ▸ he')
      have hres₀ : isResolved m₀ e = true := by
        unfold isResolved at hres ⊢
        rwa [hget] at hres
      unfold settle
      rw [if_pos hres₀, hget]
  · exact h.stored e he

/-- What does not count as resolved in the middle of a run did not at first. -/
theorem Threaded.not_isResolved (h : Threaded studio env cache w m₀ done m)
    (hp : ∀ e ∈ done, e.IsParsed) (hd : d.IsParsed) (hres : isResolved m d = false) :
    isResolved m₀ d = false := by
  have hget : isResolved m₀ d = true → Table.get? m d.raw = Table.get? m₀ d.raw := by
    intro hres₀
    by_cases hmem : d ∈ done
    · have := h.stored d hmem
      unfold settle at this
      rwa [if_pos hres₀] at this
    · exact h.kept d.raw fun e he hraw =>
        hmem (Descriptor.eq_of_raw_eq (hp e he) hd hraw ▸ he)
  refine Bool.eq_false_iff.2 fun hres₀ => ?_
  have hres' : isResolved m d = true := by
    have hg := hget hres₀
    unfold isResolved at hres₀ ⊢
    rwa [hg]
  rw [hres] at hres'
  cases hres'

/-- Storing what a placeholder stands for alone settles it. -/
theorem Threaded.store (h : Threaded studio env cache w m₀ done m)
    (hp : ∀ e ∈ done, e.IsParsed) (hd : d.IsParsed) (hres : isResolved m₀ d = false) {r : Found}
    (hr : r = outcome studio env cache w m₀ d) :
    Threaded studio env cache w m₀ (d :: done) (r.elim m (Table.insert m d.raw)) := by
  have hsettle : settle studio env cache w m₀ d = r.elim (Table.get? m₀ d.raw) some := by
    unfold settle
    rw [if_neg (by rw [hres]; decide), hr]
  have hget : ∀ k, Table.get? (r.elim m (Table.insert m d.raw)) k =
      r.elim (Table.get? m k) fun v => if d.raw = k then some v else Table.get? m k := by
    intro k
    cases r with
    | none => rfl
    | some v => exact Table.get?_insert m d.raw k v
  refine ⟨fun e he => ?_, fun k hk => ?_⟩
  · rw [hget]
    by_cases hraw : d.raw = e.raw
    · have hde : d = e := by
        rcases List.mem_cons.1 he with rfl | he
        · rfl
        · exact Descriptor.eq_of_raw_eq hd (hp e he) hraw
      subst hde
      rw [hsettle]
      cases r with
      | some v => exact if_pos rfl
      | none =>
        by_cases hmem : d ∈ done
        · exact (h.stored d hmem).trans hsettle
        · exact h.kept d.raw fun e he hraw =>
            hmem (Descriptor.eq_of_raw_eq (hp e he) hd hraw ▸ he)
    · have he' : e ∈ done := (List.mem_cons.1 he).resolve_left fun e' => hraw (e' ▸ rfl)
      cases r with
      | none => exact h.stored e he'
      | some v => exact (if_neg hraw).trans (h.stored e he')
  · have hne := hk d (List.mem_cons_self ..)
    have hrest := h.kept k fun e he => hk e (List.mem_cons_of_mem _ he)
    rw [hget]
    cases r with
    | none => exact hrest
    | some v => exact (if_neg hne).trans hrest

end

/-! ## What a run makes of a placeholder -/

theorem sourceValue_eq_symbolText {m m' : DataMap} {d e : Descriptor}
    (h : sourceValue m d = sourceValue m' e) : symbolText? m d = symbolText? m' e := by
  unfold symbolText?
  rw [h]

theorem request_congr {m m' : DataMap} {d : Descriptor} (h : sourceValue m d = sourceValue m' d) :
    request m d = request m' d := by
  unfold request
  rw [sourceValue_eq_symbolText h]

theorem requestOf_mark (d : Descriptor) : requestOf (some codeErrorMark) d = .mark := rfl

/-- A placeholder with one field asks for the usual size and level. -/
theorem requestOf_of_args_singleton {d : Descriptor} {first t : Text} (hargs : d.args = [first])
    (hblank : t.trim.isEmpty = false) (hmark : t ≠ codeErrorMark) :
    requestOf (some t) d = .draw ⟨t, usualEdge, ErrorLevel.low.letter⟩ := by
  have harg : ∀ i, d.arg? (i + 1) = none := by
    intro i
    unfold Descriptor.arg?
    rw [hargs]
    rfl
  unfold requestOf
  rw [harg 0, harg 1]
  dsimp only
  rw [if_neg (by rw [hblank]; decide), if_neg hmark]
  rfl

section
variable {studio : Studio} {env : Environment} {cache cache' : AssetCache} {w w' : World}
variable {m₀ m : DataMap} {done : List Descriptor} {d : Descriptor}
variable {answer : AssetKey → Option Path}

/-- What a code stands for when it is resolved without a fault. -/
theorem expected_of_ok (hst : Steady studio cache w answer)
    (hreach : Reached studio (cache, w) (cache', w')) (hk : d.kind = .qrcode) {r : Found}
    (h : (Script.run (resolve studio env cache' m d) w').1.1 = .ok r) :
    r = expected answer (request m d) := by
  rw [resolve_qrcode hk] at h
  cases hreq : request m d with
  | refuse f =>
    rw [run_symbol_of_refuse hreq] at h
    cases h
  | leave =>
    rw [(run_symbol_of_leave hreq).1] at h
    cases h
    rfl
  | mark =>
    rw [run_symbol_of_mark hreq] at h
    cases h
    rfl
  | draw k =>
    rw [(run_symbol_of_draw hreq).1] at h
    rw [eq_picture_of_symbolOf h, hst.path_of_reached hreach]
    rfl

/-- A code stands for something just when its request is answered. -/
theorem exists_resolve_qrcode_iff (hk : d.kind = .qrcode) :
    (∃ r, (Script.run (resolve studio env cache' m d) w').1.1 = .ok r) ↔
      (request m d).Returns studio (cache', w') := by
  rw [resolve_qrcode hk]
  cases hreq : request m d with
  | refuse f =>
    rw [run_symbol_of_refuse hreq]
    exact iff_of_false (fun ⟨r, h⟩ => nomatch h) id
  | leave => exact iff_of_true ⟨none, congrArg Prod.fst (run_symbol_of_leave hreq).1⟩ trivial
  | mark =>
    rw [run_symbol_of_mark hreq]
    exact iff_of_true ⟨_, rfl⟩ trivial
  | draw k =>
    rw [(run_symbol_of_draw hreq).1]
    show (∃ r, symbolOf k _ = .ok r) ↔ CacheAnswer.isBroken _ = false
    cases (asked studio k (cache', w')).1 with
    | broken t => exact iff_of_false (fun ⟨r, h⟩ => nomatch h) nofun
    | _ => exact iff_of_true ⟨_, rfl⟩ rfl

theorem outcome_of_qrcode (hst : Steady studio cache w answer) (hk : d.kind = .qrcode) :
    outcome studio env cache w m d = expected answer (request m d) := by
  unfold outcome
  cases h : alone studio env cache w m d with
  | ok r => exact expected_of_ok hst (reached_refl _) hk h
  | error f =>
    dsimp only
    rw [if_pos hk]
    unfold alone at h
    rw [resolve_qrcode hk] at h
    cases hreq : request m d with
    | refuse g => rfl
    | leave =>
      rw [(run_symbol_of_leave hreq).1] at h
      cases h
    | mark => rfl
    | draw k =>
      rw [(run_symbol_of_draw hreq).1] at h
      have hnone := path?_of_symbolOf h
      rw [hst.path_of_reached (reached_refl _)] at hnone
      simp only [expected, hnone, picture]

/-- A text that cannot be drawn at the usual size and level leaves the mark. -/
theorem expected_of_failing (hst : Steady studio cache w answer) {t : Text}
    (hblank : t.trim.isEmpty = false)
    (hnone : answer ⟨t, usualEdge, ErrorLevel.low.letter⟩ = none) :
    expected answer (requestOf (some t) d) = some (.text codeErrorMark) := by
  unfold requestOf
  dsimp only
  rw [if_neg (by rw [hblank]; decide)]
  by_cases hmark : t = codeErrorMark
  · rw [if_pos hmark]
    rfl
  · rw [if_neg hmark]
    cases wholeField (d.arg? 1) usualEdge with
    | error f => rfl
    | ok n => simp only [expected, hst.failing t hnone, picture]

/-- After the bare placeholder of a source, another code of the source asks for the same, or it is
marked as well: then it could not have been drawn. -/
theorem request_of_bare (hst : Steady studio cache w answer) {e : Descriptor} {first : Text}
    {v : Value} (hargs : e.args = [first]) (hsource : sourceValue m₀ e = sourceValue m₀ d)
    (hv : expected answer (request m₀ e) = some v) (hd : sourceValue m d = v) :
    request m d = request m₀ d ∨
      request m d = .mark ∧ expected answer (request m₀ d) = some (.text codeErrorMark) := by
  have hmarked : v = .text codeErrorMark → request m d = .mark := by
    rintro rfl
    have htext : symbolText? m d = some codeErrorMark := by
      unfold symbolText?
      rw [hd]
      rfl
    unfold request
    rw [htext, requestOf_mark]
  unfold request at hv
  rw [sourceValue_eq_symbolText hsource] at hv
  show _ = requestOf (symbolText? m₀ d) d ∨
    _ ∧ expected answer (requestOf (symbolText? m₀ d) d) = _
  cases htext : symbolText? m₀ d with
  | none =>
    rw [htext] at hv
    exact Or.inr ⟨hmarked (Option.some.inj hv).symm, rfl⟩
  | some t =>
    rw [htext] at hv
    cases hblank : t.trim.isEmpty with
    | true =>
      have hleave : requestOf (some t) e = .leave := by
        unfold requestOf
        exact if_pos hblank
      rw [hleave] at hv
      cases hv
    | false =>
      by_cases hmark : t = codeErrorMark
      · subst hmark
        exact Or.inr ⟨hmarked (Option.some.inj hv).symm, rfl⟩
      · rw [requestOf_of_args_singleton hargs hblank hmark] at hv
        dsimp only [expected] at hv
        cases hanswer : answer ⟨t, usualEdge, ErrorLevel.low.letter⟩ with
        | none =>
          rw [hanswer] at hv
          exact Or.inr ⟨hmarked (Option.some.inj hv).symm, expected_of_failing hst hblank hanswer⟩
        | some p =>
          left
          rw [hanswer] at hv
          obtain rfl := Option.some.inj hv
          have hsame : symbolText? m d = some t := by
            unfold symbolText?
            rw [hd]
            rfl
          unfold request
          rw [hsame]

/-- In the middle of a run, a placeholder stands for the text that it stands for at first. -/
theorem Threaded.text? (ht : Threaded studio env cache w m₀ done m) (hp : ∀ e ∈ done, e.IsParsed)
    (hd : d.IsParsed) (hpic : d.kind.isPicture = false) :
    ∃ noted, Resolution.text? env m d = some noted ∧ Resolution.text? env m₀ d = some noted := by
  obtain ⟨noted, hnoted⟩ := Option.ne_none_iff_exists'.1 fun hnone => by
    rw [(text?_eq_none_iff env m d).1 hnone] at hpic
    cases hpic
  exact ⟨noted, hnoted, by rw [← text?_congr env (ht.sameSources hp) hd, hnoted]⟩

/-- In the middle of a run, a code asks for what it asks for at first, or it is marked, and then it is
not drawn at first. -/
theorem Threaded.request (hst : Steady studio cache w answer)
    (ht : Threaded studio env cache w m₀ done m) (hp : ∀ e ∈ done, e.IsParsed) (hd : d.IsParsed)
    (hk : d.kind = .qrcode) :
    Resolution.request m d = Resolution.request m₀ d ∨ Resolution.request m d = .mark ∧
      expected answer (Resolution.request m₀ d) = some (.text codeErrorMark) := by
  rcases ht.sourceValue hp hd (by rw [hk]; rfl) with
    hsame | ⟨e, v, first, -, -, hkind, hargs, hsource, hv, hval⟩
  · exact Or.inl (request_congr hsame)
  · rw [outcome_of_qrcode hst (hkind.trans hk)] at hv
    exact request_of_bare hst hargs hsource hv hval

theorem alone_image (hk : d.kind = .image) :
    alone studio env cache w m d = imageOf d (seek w.files (sourceValue m d)) := by
  unfold alone
  rw [(run_resolve_image hk).1]

/-- In the middle of a run, an image is looked for where it is at first, or the one that an earlier
placeholder has found has a name that is too long to be looked at again. -/
theorem Threaded.seek (hs : w.files.IsSound) (ht : Threaded studio env cache w m₀ done m)
    (hp : ∀ e ∈ done, e.IsParsed) (hd : d.IsParsed) (hk : d.kind = .image) :
    Resolution.seek w.files (Resolution.sourceValue m d) =
        Resolution.seek w.files (Resolution.sourceValue m₀ d) ∨
      (∃ f, Resolution.seek w.files (Resolution.sourceValue m d) = .error f) ∧
        ∃ e ∈ done, isResolved m₀ e = false ∧ e.kind = .image ∧ ∃ a,
          outcome studio env cache w m₀ e = some (.asset a) ∧
            w.files.status a.source = .error .nameTooLong := by
  rcases ht.sourceValue hp hd (by rw [hk]; rfl) with
    hsame | ⟨e, v, first, he, hres, hkind, -, hsource, hv, hval⟩
  · exact Or.inl (by rw [hsame])
  · have hke := hkind.trans hk
    have hbare : alone studio env cache w m₀ e = .ok (some v) := by
      unfold outcome at hv
      split at hv
      · rename_i r hr
        rw [hr, hv]
      · rw [if_neg (by rw [hke]; decide)] at hv
        cases hv
    rw [alone_image hke] at hbare
    obtain ⟨a, rfl, hfound⟩ := source_of_imageOf hbare
    rw [hsource] at hfound
    rw [hval, hfound]
    rcases seek_again hs hfound (show (Value.asset a).imagePath? = _ from rfl) with
      hagain | ⟨hlong, f, hf⟩
    · exact Or.inl hagain
    · exact Or.inr ⟨⟨f, hf⟩, e, he, hres, hke, a, hv, hlong⟩

/-- In the middle of a run, a placeholder that is resolved without a fault stands for what it stands
for alone. -/
theorem resolve_eq_alone (hs : w.files.IsSound) (hst : Steady studio cache w answer)
    (ht : Threaded studio env cache w m₀ done m) (hp : ∀ e ∈ done, e.IsParsed)
    (hreach : Reached studio (cache, w) (cache', w'))
    (hfiles : d.kind = .image → w'.files = w.files) (hd : d.IsParsed) {r : Found}
    (h : (Script.run (resolve studio env cache' m d) w').1.1 = .ok r) :
    r = outcome studio env cache w m₀ d := by
  cases hpic : d.kind.isPicture with
  | false =>
    obtain ⟨noted, hnoted, hnoted₀⟩ := ht.text? hp hd hpic
    rw [(run_resolve_text hnoted).1] at h
    unfold outcome alone
    rw [(run_resolve_text hnoted₀).1, h]
  | true =>
    rcases Kind.eq_of_isPicture hpic with hk | hk
    · rw [expected_of_ok hst hreach hk h, outcome_of_qrcode hst hk]
      rcases ht.request hst hp hd hk with hsame | ⟨hmark, hmarked⟩
      · rw [hsame]
      · rw [hmark, hmarked]
        rfl
    · rw [(run_resolve_image hk).1, hfiles hk] at h
      dsimp only at h
      unfold outcome
      rw [alone_image hk]
      rcases ht.seek hs hp hd hk with hsame | ⟨⟨f, hf⟩, -⟩
      · rw [← hsame, h]
      · rw [hf] at h
        cases h

/-- Whether the placeholders of a list that have no value stand for something alone, and the images of
the list are found where they can be looked at again. -/
structure Answered (studio : Studio) (env : Environment) (cache : AssetCache) (w : World)
    (m : DataMap) (ds : List Descriptor) : Prop where
  returns : ∀ d ∈ ds, isResolved m d = false → ∃ r, alone studio env cache w m d = .ok r
  again : ∀ d ∈ ds, d.kind = .image → ∀ a, alone studio env cache w m d = .ok (some (.asset a)) →
    w.files.status a.source ≠ .error .nameTooLong

/-- In the middle of a run, a placeholder stands for something when it and those before it do alone. -/
theorem exists_resolve (hs : w.files.IsSound) (hst : Steady studio cache w answer)
    {ds : List Descriptor} (hall : Answered studio env cache w m₀ ds)
    (ht : Threaded studio env cache w m₀ done m) (hp : ∀ e ∈ done, e.IsParsed)
    (hdone : ∀ e ∈ done, e ∈ ds) (hreach : Reached studio (cache, w) (cache', w'))
    (hfiles : d.kind = .image → w'.files = w.files) (hd : d.IsParsed) (hmem : d ∈ ds)
    (hres : isResolved m₀ d = false) :
    ∃ r, (Script.run (resolve studio env cache' m d) w').1.1 = .ok r := by
  obtain ⟨r, hr⟩ := hall.returns d hmem hres
  cases hpic : d.kind.isPicture with
  | false =>
    obtain ⟨noted, hnoted, hnoted₀⟩ := ht.text? hp hd hpic
    unfold alone at hr
    rw [(run_resolve_text hnoted₀).1] at hr
    rw [(run_resolve_text hnoted).1]
    exact ⟨r, hr⟩
  | true =>
    rcases Kind.eq_of_isPicture hpic with hk | hk
    · have halone : (request m₀ d).Returns studio (cache, w) :=
        (exists_resolve_qrcode_iff hk).1 ⟨r, hr⟩
      refine (exists_resolve_qrcode_iff hk).2 (hst.returns_of_reached hreach ?_)
      rcases ht.request hst hp hd hk with hsame | ⟨hmark, -⟩
      · rwa [hsame]
      · rw [hmark]
        trivial
    · rw [alone_image hk] at hr
      rw [(run_resolve_image hk).1, hfiles hk]
      rcases ht.seek hs hp hd hk with hsame | ⟨-, e, he, hrese, hke, a, hv, hlong⟩
      · rw [hsame]
        exact ⟨r, hr⟩
      · -- the one before it was found, and every such one can be looked at again
        obtain ⟨r', hr'⟩ := hall.returns e (hdone e he) hrese
        rw [outcome, hr'] at hv
        exact absurd hlong (hall.again e (hdone e he) hke a (hr'.trans (congrArg _ hv)))

variable (env m d) in
/-- Resolving a placeholder makes nothing of the cache that requests do not make of it, and only
codes change files. -/
theorem resolve_reached {s : AssetCache × World} (hreach : Reached studio s (cache', w')) :
    Reached studio s ((Script.run (resolve studio env cache' m d) w').1.2,
        (Script.run (resolve studio env cache' m d) w').2) ∧
      (d.kind ≠ .qrcode → (Script.run (resolve studio env cache' m d) w').2.files = w'.files) := by
  by_cases hk : d.kind = .qrcode
  · refine ⟨?_, fun hne => absurd hk hne⟩
    rw [resolve_qrcode hk]
    cases hreq : request m d with
    | refuse f =>
      rw [run_symbol_of_refuse hreq]
      exact hreach
    | leave =>
      rw [(run_symbol_of_leave hreq).1]
      exact hreach.same (run_symbol_of_leave hreq).2
    | mark =>
      rw [run_symbol_of_mark hreq]
      exact hreach
    | draw k =>
      rw [(run_symbol_of_draw hreq).1]
      exact (hreach.asked k).same (run_symbol_of_draw hreq).2
  · obtain ⟨hcache, hw⟩ : (Script.run (resolve studio env cache' m d) w').1.2 = cache' ∧
        World.Same w' (Script.run (resolve studio env cache' m d) w').2 :=
      run_resolve_of_ne_qrcode hk
    rw [hcache]
    exact ⟨hreach.same hw, fun _ => hw.files.symm⟩

/-! ## A whole run -/

/-- Whether no image comes after a code. -/
def ImagesFirst (ds : List Descriptor) : Prop :=
  ds.Pairwise fun d e => d.kind = .qrcode → e.kind ≠ .image

/-- What a run does with its first placeholder: it passes over it, or it resolves it and stores what
it stands for. -/
theorem run_resolveEach_cons (ds : List Descriptor) :
    Script.run (resolveEach studio env cache m (d :: ds)) w =
      if isResolved m d then Script.run (resolveEach studio env cache m ds) w
      else match Script.run (resolve studio env cache m d) w with
        | ((.error f, cache'), w') => ((.error f, cache'), w')
        | ((.ok r, cache'), w') =>
          Script.run (resolveEach studio env cache' (r.elim m (Table.insert m d.raw)) ds) w' := by
  rw [resolveEach]
  by_cases hres : isResolved m d = true
  · rw [if_pos hres, if_pos hres]
  · rw [if_neg hres, if_neg hres, Script.run_bind]
    obtain ⟨⟨found, cache'⟩, w'⟩ := Script.run (resolve studio env cache m d) w
    cases found with
    | error f => rfl
    | ok r => cases r <;> rfl

/-- A run in the middle: what is done has been threaded, images that are ahead find the files as they
were at first. -/
structure Midway (studio : Studio) (env : Environment) (cache : AssetCache) (w : World) (m₀ : DataMap)
    (done ds : List Descriptor) (cache' : AssetCache) (w' : World) (m : DataMap) : Prop where
  threaded : Threaded studio env cache w m₀ done m
  past : ∀ e ∈ done, e.IsParsed
  ahead : ∀ d ∈ ds, d.IsParsed
  imagesFirst : ImagesFirst ds
  reached : Reached studio (cache, w) (cache', w')
  files : w'.files = w.files ∨ ∀ d ∈ ds, d.kind ≠ .image

section
variable {ds : List Descriptor}

theorem Midway.image (h : Midway studio env cache w m₀ done (d :: ds) cache' w' m)
    (hk : d.kind = .image) : w'.files = w.files :=
  h.files.resolve_right fun hno => hno d (List.mem_cons_self ..) hk

/-- A placeholder that has its value is passed over. -/
theorem Midway.pass (h : Midway studio env cache w m₀ done (d :: ds) cache' w' m)
    (hres : isResolved m d = true) : Midway studio env cache w m₀ (d :: done) ds cache' w' m := by
  obtain ⟨hd, hds⟩ := List.forall_mem_cons.1 h.ahead
  exact ⟨h.threaded.of_isResolved h.past hd hres, List.forall_mem_cons.2 ⟨hd, h.past⟩, hds,
    (List.pairwise_cons.1 h.imagesFirst).2, h.reached,
    h.files.imp_right fun hno e he => hno e (List.mem_cons_of_mem _ he)⟩

/-- What another placeholder stands for is stored. -/
theorem Midway.store (h : Midway studio env cache w m₀ done (d :: ds) cache' w' m)
    (hs : w.files.IsSound) (hst : Steady studio cache w answer) (hres : isResolved m d = false)
    {r : Found} {cache'' : AssetCache} {w'' : World}
    (hr : Script.run (resolve studio env cache' m d) w' = ((.ok r, cache''), w'')) :
    Midway studio env cache w m₀ (d :: done) ds cache'' w'' (r.elim m (Table.insert m d.raw)) := by
  obtain ⟨hd, hds⟩ := List.forall_mem_cons.1 h.ahead
  obtain ⟨hlater, hfirst⟩ := List.pairwise_cons.1 h.imagesFirst
  have heq := resolve_eq_alone hs hst h.threaded h.past h.reached h.image hd (congrArg (·.1.1) hr)
  obtain ⟨hreach, hkept⟩ := resolve_reached env m d h.reached
  rw [hr] at hreach hkept
  refine ⟨h.threaded.store h.past hd (h.threaded.not_isResolved h.past hd hres) heq,
    List.forall_mem_cons.2 ⟨hd, h.past⟩, hds, hfirst, hreach, ?_⟩
  -- codes change files, but then only codes and texts are left
  by_cases hk : d.kind = .qrcode
  · exact Or.inr fun e he => hlater e he hk
  · exact h.files.imp (fun hw => (hkept hk).trans hw)
      fun hno e he => hno e (List.mem_cons_of_mem _ he)

/-- A run stores what each placeholder stands for alone. -/
theorem resolveEach_threaded (hs : w.files.IsSound) (hst : Steady studio cache w answer)
    (hm : Midway studio env cache w m₀ done ds cache' w' m) {mf : DataMap}
    (h : (Script.run (resolveEach studio env cache' m ds) w').1.1 = .ok mf) :
    Threaded studio env cache w m₀ (ds.reverse ++ done) mf := by
  induction ds generalizing done m cache' w' with
  | nil =>
    cases h
    exact hm.threaded
  | cons d ds ih =>
    rw [List.reverse_cons, List.append_assoc, List.singleton_append]
    rw [run_resolveEach_cons] at h
    cases hres : isResolved m d with
    | true =>
      rw [if_pos hres] at h
      exact ih (hm.pass hres) h
    | false =>
      rw [if_neg (by rw [hres]; decide)] at h
      cases hr : Script.run (resolve studio env cache' m d) w' with
      | mk found w'' =>
        obtain ⟨found, cache''⟩ := found
        rw [hr] at h
        cases found with
        | error f => cases h
        | ok r => exact ih (hm.store hs hst hres hr) h

/-- A run comes to its end when each placeholder stands for something alone. -/
theorem exists_resolveEach (hs : w.files.IsSound) (hst : Steady studio cache w answer)
    {all : List Descriptor} (hall : Answered studio env cache w m₀ all)
    (hm : Midway studio env cache w m₀ done ds cache' w' m) (hdone : ∀ e ∈ done, e ∈ all)
    (hds : ∀ d ∈ ds, d ∈ all) :
    ∃ mf, (Script.run (resolveEach studio env cache' m ds) w').1.1 = .ok mf := by
  induction ds generalizing done m cache' w' with
  | nil => exact ⟨m, rfl⟩
  | cons d ds ih =>
    obtain ⟨hd, hds'⟩ := List.forall_mem_cons.1 hds
    have hdone' : ∀ e ∈ d :: done, e ∈ all := List.forall_mem_cons.2 ⟨hd, hdone⟩
    rw [run_resolveEach_cons]
    cases hres : isResolved m d with
    | true =>
      rw [if_pos rfl]
      exact ih (hm.pass hres) hdone' hds'
    | false =>
      have hparsed := hm.ahead d (List.mem_cons_self ..)
      obtain ⟨r, hr⟩ := exists_resolve hs hst hall hm.threaded hm.past hdone hm.reached hm.image
        hparsed hd (hm.threaded.not_isResolved hm.past hparsed hres)
      rw [if_neg (by decide)]
      cases hrun : Script.run (resolve studio env cache' m d) w' with
      | mk found w'' =>
        obtain ⟨found, cache''⟩ := found
        rw [hrun] at hr
        obtain rfl : found = .ok r := hr
        exact ih (hm.store hs hst hres hrun) hdone' hds'

end

end

end Resolution

end MailMerge
