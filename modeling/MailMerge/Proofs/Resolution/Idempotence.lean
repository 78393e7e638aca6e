import MailMerge.Proofs.Resolution.Independence
/-!
# Resolving twice

What a run leaves behind is settled: a placeholder has its value, or it is left alone, or it shows
the mark and would be given the mark again. A second run over settled data changes nothing.

* `Settled.insert`: storing what a placeholder stands for unsettles no other one.
* `resolveEach_settles`: after a run all its placeholders are settled.
* `resolveEach_settled`: a run over settled placeholders gives back the data it was given.
* `resolveAll_resolveAll`: so resolving a second time changes nothing.
-/
namespace MailMerge.Resolution

/-! ## What failed in a run -/

/-- The request of a placeholder that the cache fails to answer. -/
def failure? (studio : Studio) (cache : AssetCache) (w : World) (m : DataMap) (d : Descriptor) :
    Option AssetKey :=
  if d.kind = .qrcode then
    match request m d with
    | .draw k => if (asked studio k (cache, w)).1 matches .failed _ then some k else none
    | _ => none
  else none

/-- The requests that the cache fails to answer in a run. -/
def failures (studio : Studio) (env : Environment) (cache : AssetCache) (w : World) (m : DataMap) :
    List Descriptor → List AssetKey
  | [] => []
  | d :: ds =>
    if isResolved m d then failures studio env cache w m ds
    else match Script.run (resolve studio env cache m d) w with
      | ((.error _, _), _) => []
      | ((.ok r, cache'), w') =>
        (failure? studio cache w m d).toList ++
          failures studio env cache' w' (r.elim m (Table.insert m d.raw)) ds

/-- Whether a placeholder has its value, is left alone, or shows the mark and would get it again.
`failed` are the requests that fail. -/
inductive Settled (failed : List AssetKey) (fs : FileSystem) (m : DataMap) (d : Descriptor) : Prop
  | resolved (h : isResolved m d = true)
  | missing (hk : d.kind = .image) (h : seek fs (sourceValue m d) = .ok none)
  | left (hk : d.kind = .qrcode) (h : request m d = .leave)
  | marked (hk : d.kind = .qrcode) (hm : Table.get? m d.raw = some (.text codeErrorMark))
      (h : request m d = .mark)
  | failing (hk : d.kind = .qrcode) (hm : Table.get? m d.raw = some (.text codeErrorMark))
      {k : AssetKey} (h : request m d = .draw k) (hf : k ∈ failed)

/-! ## Sources -/

section
variable {m : DataMap} {d e : Descriptor} {v : Value}

/-- Storing a value changes the source of a picture only when it is stored under this source, by the
placeholder that is nothing but its source. -/
theorem sourceValue_insert (hd : d.IsParsed) (he : e.IsParsed) (hpic : e.kind.isPicture = true)
    (v : Value) :
    sourceValue (Table.insert m d.raw v) e = sourceValue m e ∨
      (sourceValue (Table.insert m d.raw v) e = v ∧ d.kind = e.kind ∧
        sourceValue m d = sourceValue m e ∧ ∃ first, d.args = [first]) := by
  obtain ⟨first, more, -, -, hsource⟩ := Descriptor.sourceKey?_of_isPicture he hpic
  have hvalue : ∀ m', sourceValue m' e =
      (Table.get? m' (e.kind.name ++ ':' :: first)).getD .null := by
    intro m'
    rw [sourceValue, hsource, Option.bind_some]
  by_cases hraw : d.raw = e.kind.name ++ ':' :: first
  · obtain ⟨hkind, hkey, first', hargs⟩ :=
      Descriptor.eq_of_raw_eq_sourceKey he hd hpic (hsource.trans (congrArg some hraw.symm))
    refine Or.inr ⟨?_, hkind, ?_, first', hargs⟩
    · rw [hvalue, Table.get?_insert, if_pos hraw, Option.getD_some]
    · rw [sourceValue, sourceValue, hkey]
  · left
    rw [hvalue, hvalue, Table.get?_insert, if_neg hraw]

theorem request_of_mark (h : sourceValue m d = .text codeErrorMark) : request m d = .mark := by
  have htext : symbolText? m d = some codeErrorMark := by
    unfold symbolText?
    rw [h]
    rfl
  unfold request
  rw [htext, requestOf_mark]

/-- Whether a code is left alone depends on its text only. -/
theorem requestOf_eq_leave {payload : Option Text} :
    requestOf payload d = .leave ↔ ∃ t, payload = some t ∧ t.trim.isEmpty = true := by
  unfold requestOf
  cases payload with
  | none => simp
  | some t =>
    dsimp only
    by_cases hblank : t.trim.isEmpty = true
    · rw [if_pos hblank]
      simpa using hblank
    · rw [if_neg hblank]
      simp only [Option.some.injEq, exists_eq_left', hblank]
      split
      · simp
      · split <;> simp

/-- Whether a code is marked depends on its text only. -/
theorem requestOf_eq_mark {payload : Option Text} :
    requestOf payload d = .mark ↔ payload = some codeErrorMark := by
  unfold requestOf
  cases payload with
  | none => simp
  | some t =>
    dsimp only
    by_cases hblank : t.trim.isEmpty = true
    · rw [if_pos hblank]
      have hne : t ≠ codeErrorMark := by
        rintro rfl
        revert hblank
        decide
      simp [hne]
    · rw [if_neg hblank]
      by_cases hmark : t = codeErrorMark
      · rw [if_pos hmark]
        simp [hmark]
      · rw [if_neg hmark]
        simp only [Option.some.injEq, hmark]
        split <;> simp

theorem request_leave_congr {m' : DataMap} (h : sourceValue m d = sourceValue m' e)
    (hr : request m d = .leave) : request m' e = .leave := by
  unfold request at hr ⊢
  rw [← sourceValue_eq_symbolText h]
  exact requestOf_eq_leave.2 (requestOf_eq_leave.1 hr)

theorem request_mark_congr {m' : DataMap} (h : sourceValue m d = sourceValue m' e)
    (hr : request m d = .mark) : request m' e = .mark := by
  unfold request at hr ⊢
  rw [← sourceValue_eq_symbolText h]
  exact requestOf_eq_mark.2 (requestOf_eq_mark.1 hr)

/-- What is to be drawn holds the text of the source. -/
theorem symbolText_of_draw {k : AssetKey} (h : request m d = .draw k) :
    symbolText? m d = some k.payload := (request_eq_draw h).1

theorem isResolved_congr {m' : DataMap} (h : Table.get? m' d.raw = Table.get? m d.raw) :
    isResolved m' d = isResolved m d := by
  unfold isResolved
  rw [h]

end

/-! ## What one placeholder leaves behind -/

section
variable {studio : Studio} {env : Environment} {cache : AssetCache} {w : World} {fs : FileSystem}
variable {m : DataMap} {d e : Descriptor} {r : Found} {failed : List AssetKey}

theorem ok_of_image (hk : d.kind = .image)
    (h : (Script.run (resolve studio env cache m d) w).1.1 = .ok r) :
    (r = none ∧ seek w.files (sourceValue m d) = .ok none) ∨
      ∃ a file, r = some (.asset a) ∧ seek w.files (sourceValue m d) = .ok (some file) := by
  rw [(run_resolve_image hk).1] at h
  dsimp only at h
  unfold imageOf at h
  split at h
  · cases h
  · rename_i hseek
    cases h
    exact Or.inl ⟨rfl, hseek⟩
  · rename_i file hseek
    cases hasset : (imageAsset d file).1 with
    | error f =>
      rw [hasset] at h
      cases h
    | ok a =>
      rw [hasset] at h
      cases h
      exact Or.inr ⟨a, file, rfl, hseek⟩

theorem ok_of_qrcode (hk : d.kind = .qrcode)
    (h : (Script.run (resolve studio env cache m d) w).1.1 = .ok r) :
    (request m d = .leave ∧ r = none) ∨
    (request m d = .mark ∧ r = some (.text codeErrorMark)) ∨
    ∃ k, request m d = .draw k ∧
      ((∃ a, r = some (.asset a) ∧ a.payload = some k.payload) ∨
        (r = some (.text codeErrorMark) ∧ failure? studio cache w m d = some k)) := by
  rw [resolve_qrcode hk] at h
  cases hreq : request m d with
  | refuse f =>
    rw [run_symbol_of_refuse hreq] at h
    cases h
  | leave =>
    rw [(run_symbol_of_leave hreq).1] at h
    cases h
    exact Or.inl ⟨rfl, rfl⟩
  | mark =>
    rw [run_symbol_of_mark hreq] at h
    cases h
    exact Or.inr (Or.inl ⟨rfl, rfl⟩)
  | draw k =>
    rw [(run_symbol_of_draw hreq).1] at h
    refine Or.inr (Or.inr ⟨k, rfl, ?_⟩)
    cases hanswer : (asked studio k (cache, w)).1 with
    | found p =>
      rw [hanswer] at h
      cases h
      exact Or.inl ⟨_, rfl, rfl⟩
    | failed f =>
      rw [hanswer] at h
      cases h
      refine Or.inr ⟨rfl, ?_⟩
      unfold failure?
      rw [if_pos hk, hreq]
      dsimp only
      rw [hanswer]
      rfl
    | broken t =>
      rw [hanswer] at h
      cases h

/-- A placeholder that has just been resolved is settled. -/
theorem settled_of_resolve (hd : d.IsParsed) (hfiles : d.kind = .image → w.files = fs)
    (hfailed : ∀ k, failure? studio cache w m d = some k → k ∈ failed)
    (h : (Script.run (resolve studio env cache m d) w).1.1 = .ok r) :
    Settled failed fs (r.elim m (Table.insert m d.raw)) d := by
  have hstored : ∀ v, Table.get? (Table.insert m d.raw v) d.raw = some v := fun v => by
    rw [Table.get?_insert, if_pos rfl]
  cases hpic : d.kind.isPicture with
  | false =>
    obtain ⟨noted, hnoted⟩ := Option.ne_none_iff_exists'.1 fun hnone => by
      rw [(text?_eq_none_iff env m d).1 hnone] at hpic
      cases hpic
    rw [(run_resolve_text hnoted).1] at h
    cases hresult : noted.result with
    | error f =>
      rw [hresult] at h
      cases h
    | ok t =>
      rw [hresult] at h
      cases h
      refine .resolved ?_
      unfold isResolved
      dsimp only [Option.elim_some]
      rw [hstored]
      simp [hpic]
  | true =>
    by_cases hk : d.kind = .qrcode
    · have hasset : ∀ a, isResolved (Table.insert m d.raw (.asset a)) d = true := by
        intro a
        unfold isResolved
        rw [hstored]
        simp
      have hmark : request m d = .mark ∨ (∃ k ∈ failed, request m d = .draw k) →
          Settled failed fs (Table.insert m d.raw (.text codeErrorMark)) d := by
        intro hreq
        rcases sourceValue_insert hd hd hpic (.text codeErrorMark) with hsame | ⟨hval, -⟩
        · rcases hreq with hreq | ⟨k, hmem, hreq⟩
          · exact .marked hk (hstored _) ((request_congr hsame).trans hreq)
          · exact .failing hk (hstored _) ((request_congr hsame).trans hreq) hmem
        · exact .marked hk (hstored _) (request_of_mark hval)
      rcases ok_of_qrcode hk h with ⟨hreq, rfl⟩ | ⟨hreq, rfl⟩ | ⟨k, hreq, ⟨a, rfl, -⟩ | ⟨rfl, hf⟩⟩
      · exact .left hk hreq
      · exact hmark (Or.inl hreq)
      · exact .resolved (hasset a)
      · exact hmark (Or.inr ⟨k, hfailed k hf, hreq⟩)
    · have hk := (Kind.eq_of_isPicture hpic).resolve_left hk
      rcases ok_of_image hk h with ⟨rfl, hseek⟩ | ⟨a, file, rfl, -⟩
      · exact .missing hk (hfiles hk ▸ hseek)
      · refine .resolved ?_
        unfold isResolved
        dsimp only [Option.elim_some]
        rw [hstored]
        simp

/-- A placeholder stays settled while its value and its source stay as they are. -/
theorem Settled.of_same {m' : DataMap} (he : Settled failed fs m e)
    (hget : Table.get? m' e.raw = Table.get? m e.raw)
    (hsame : sourceValue m' e = sourceValue m e) : Settled failed fs m' e := by
  cases he with
  | resolved h => exact .resolved ((isResolved_congr hget).trans h)
  | missing hk hseek => exact .missing hk (hsame ▸ hseek)
  | left hk hreq => exact .left hk ((request_congr hsame).trans hreq)
  | marked hk hm hreq => exact .marked hk (hget.trans hm) ((request_congr hsame).trans hreq)
  | failing hk hm hreq hf =>
    exact .failing hk (hget.trans hm) ((request_congr hsame).trans hreq) hf

/-- A placeholder stays settled when its source is stored over by the placeholder that is nothing
but this source. -/
theorem Settled.of_bare {m' : DataMap} {v : Value} (he : Settled failed fs m e)
    (hkind : d.kind = e.kind) (hsource : sourceValue m d = sourceValue m e)
    (hfiles : d.kind = .image → w.files = fs)
    (h : (Script.run (resolve studio env cache m d) w).1.1 = .ok (some v))
    (hget : Table.get? m' e.raw = Table.get? m e.raw) (hval : sourceValue m' e = v) :
    Settled failed fs m' e := by
  cases he with
  | resolved h => exact .resolved ((isResolved_congr hget).trans h)
  | missing hk hseek =>
    -- what is not found for one is not found for the other
    rcases ok_of_image (hkind.trans hk) h with ⟨hr, -⟩ | ⟨a, file, -, hseek'⟩
    · cases hr
    · rw [hfiles (hkind.trans hk), hsource, hseek] at hseek'
      cases hseek'
  | left hk hreq =>
    have hleave := request_leave_congr hsource.symm hreq
    rcases ok_of_qrcode (hkind.trans hk) h with ⟨-, hr⟩ | ⟨hreq', -⟩ | ⟨k, hreq', -⟩
    · cases hr
    · rw [hleave] at hreq'
      cases hreq'
    · rw [hleave] at hreq'
      cases hreq'
  | marked hk hm hreq =>
    have hmark := request_mark_congr hsource.symm hreq
    rcases ok_of_qrcode (hkind.trans hk) h with ⟨-, hr⟩ | ⟨-, hr⟩ | ⟨k, hreq', -⟩
    · cases hr
    · cases hr
      exact .marked hk (hget.trans hm) (request_of_mark hval)
    · rw [hmark] at hreq'
      cases hreq'
  | @failing hk hm k hreq hf =>
    rcases ok_of_qrcode (hkind.trans hk) h with
      ⟨-, hr⟩ | ⟨-, hr⟩ | ⟨k', hreq', ⟨a, hr, hpayload⟩ | ⟨hr, -⟩⟩
    · cases hr
    · cases hr
      exact .marked hk (hget.trans hm) (request_of_mark hval)
    · -- the symbol that was drawn holds the text that could not be drawn in this size
      cases hr
      have hold := symbolText_of_draw hreq
      have hdrawn := symbolText_of_draw hreq'
      rw [sourceValue_eq_symbolText hsource, hold] at hdrawn
      have hnew : symbolText? m' e = symbolText? m e := by
        rw [hold, hdrawn]
        unfold symbolText?
        rw [hval]
        dsimp only
        rw [hpayload]
        rfl
      refine .failing hk (hget.trans hm) ?_ hf
      unfold request at hreq ⊢
      rw [hnew, hreq]
    · cases hr
      exact .marked hk (hget.trans hm) (request_of_mark hval)

theorem Settled.isPicture (he : Settled failed fs m e) (hres : isResolved m e = false) :
    e.kind.isPicture = true := by
  cases he with
  | resolved h =>
    rw [hres] at h
    cases h
  | missing hk => rw [hk]; rfl
  | left hk => rw [hk]; rfl
  | marked hk => rw [hk]; rfl
  | failing hk => rw [hk]; rfl

/-- Storing what a placeholder stands for unsettles no other one. -/
theorem Settled.insert (he : Settled failed fs m e) (hpe : e.IsParsed) (hd : d.IsParsed)
    (hfiles : d.kind = .image → w.files = fs)
    (hfailed : ∀ k, failure? studio cache w m d = some k → k ∈ failed)
    (h : (Script.run (resolve studio env cache m d) w).1.1 = .ok r) :
    Settled failed fs (r.elim m (Table.insert m d.raw)) e := by
  by_cases hde : d = e
  · subst hde
    exact settled_of_resolve hd hfiles hfailed h
  · cases r with
    | none => exact he
    | some v =>
      dsimp only [Option.elim_some]
      have hget : Table.get? (Table.insert m d.raw v) e.raw = Table.get? m e.raw := by
        rw [Table.get?_insert, if_neg fun hraw => hde (Descriptor.eq_of_raw_eq hd hpe hraw)]
      cases hres : isResolved m e with
      | true => exact .resolved ((isResolved_congr hget).trans hres)
      | false =>
        rcases sourceValue_insert (m := m) hd hpe (he.isPicture hres) v with
          hsame | ⟨hval, hkind, hsource, -⟩
        · exact he.of_same hget hsame
        · exact he.of_bare hkind hsource hfiles h hget hval

/-! ## Whole runs -/

/-- After a run all its placeholders are settled. -/
theorem resolveEach_settles {ds done : List Descriptor} (hds : ∀ d ∈ ds, d.IsParsed)
    (hdone : ∀ e ∈ done, e.IsParsed ∧ Settled failed fs m e) (hfirst : ImagesFirst ds)
    (hfiles : w.files = fs ∨ ∀ d ∈ ds, d.kind ≠ .image)
    (hfailed : ∀ k ∈ failures studio env cache w m ds, k ∈ failed) {mf : DataMap}
    (h : (Script.run (resolveEach studio env cache m ds) w).1.1 = .ok mf) :
    ∀ d ∈ ds ++ done, Settled failed fs mf d := by
  induction ds generalizing done m cache w with
  | nil =>
    cases h
    exact fun d hd => (hdone d hd).2
  | cons d ds ih =>
    have hd := hds d (List.mem_cons_self ..)
    have hds' : ∀ e ∈ ds, e.IsParsed := fun e he => hds e (List.mem_cons_of_mem _ he)
    obtain ⟨hlater, hfirst'⟩ := List.pairwise_cons.1 hfirst
    -- what the rest of the run does with `d` among the placeholders that are done
    have hmove : ∀ {mf}, (∀ e ∈ ds ++ d :: done, Settled failed fs mf e) →
        ∀ e ∈ d :: ds ++ done, Settled failed fs mf e := by
      intro mf hall e he
      refine hall e ?_
      simp only [List.cons_append, List.mem_cons, List.mem_append] at he ⊢
      rcases he with he | he | he
      · exact Or.inr (Or.inl he)
      · exact Or.inl he
      · exact Or.inr (Or.inr he)
    rw [run_resolveEach_cons] at h
    rw [failures] at hfailed
    cases hres : isResolved m d with
    | true =>
      rw [if_pos hres] at h hfailed
      exact hmove (ih hds' (List.forall_mem_cons.2 ⟨⟨hd, .resolved hres⟩, hdone⟩) hfirst'
        (hfiles.imp_right fun hall e he => hall e (List.mem_cons_of_mem _ he)) hfailed h)
    | false =>
      rw [if_neg (by rw [hres]; decide)] at h hfailed
      have hown : d.kind = .image → w.files = fs := fun hk =>
        hfiles.resolve_right fun hall => hall d (List.mem_cons_self ..) hk
      have hkept := (resolve_reached env m d
        (reached_refl _ : Reached studio (cache, w) (cache, w))).2
      have hsettles : ∀ r, (Script.run (resolve studio env cache m d) w).1.1 = .ok r →
          (∀ k, failure? studio cache w m d = some k → k ∈ failed) →
          ∀ e ∈ d :: done, e.IsParsed ∧ Settled failed fs (r.elim m (Table.insert m d.raw)) e := by
        intro r hr hf
        refine List.forall_mem_cons.2 ⟨⟨hd, settled_of_resolve hd hown hf hr⟩, fun e he => ?_⟩
        obtain ⟨hpe, he⟩ := hdone e he
        exact ⟨hpe, he.insert hpe hd hown hf hr⟩
      revert h hfailed hkept hsettles
      obtain ⟨⟨found, cache'⟩, w'⟩ := Script.run (resolve studio env cache m d) w
      intro hfailed h hkept hsettles
      cases found with
      | error f => cases h
      | ok r =>
        have hf : ∀ k, failure? studio cache w m d = some k → k ∈ failed := fun k hk =>
          hfailed k (List.mem_append_left _ (by rw [hk]; exact List.mem_singleton_self k))
        refine hmove (ih hds' (hsettles r rfl hf) hfirst' ?_
          (fun k hk => hfailed k (List.mem_append_right _ hk)) h)
        by_cases hk : d.kind = .qrcode
        · exact Or.inr fun e he => hlater e he hk
        · exact hfiles.imp (fun hw => (hkept hk).trans hw)
            fun hall e he => hall e (List.mem_cons_of_mem _ he)

/-- What is settled does not change: the run of a placeholder gives what the data hold, or leaves
them as they are. -/
theorem resolve_settled (he : Settled failed fs m d) (hres : isResolved m d = false)
    (hfiles : d.kind = .image → w.files = fs)
    (hfailed : ∀ k ∈ failed, ∃ f, (asked studio k (cache, w)).1 = .failed f) :
    ∃ r, (Script.run (resolve studio env cache m d) w).1.1 = .ok r ∧
      r.elim m (Table.insert m d.raw) = m := by
  cases he with
  | resolved h =>
    rw [hres] at h
    cases h
  | missing hk hseek =>
    refine ⟨none, ?_, rfl⟩
    rw [(run_resolve_image hk).1, hfiles hk, hseek]
    rfl
  | left hk hreq =>
    refine ⟨none, ?_, rfl⟩
    rw [resolve_qrcode hk, (run_symbol_of_leave hreq).1]
  | marked hk hm hreq =>
    refine ⟨some (.text codeErrorMark), ?_, Table.insert_get? hm⟩
    rw [resolve_qrcode hk, run_symbol_of_mark hreq]
  | failing hk hm hreq hf =>
    refine ⟨some (.text codeErrorMark), ?_, Table.insert_get? hm⟩
    obtain ⟨f, hanswer⟩ := hfailed _ hf
    rw [resolve_qrcode hk, (run_symbol_of_draw hreq).1, hanswer]
    rfl

/-- A run over settled placeholders gives back the data it was given. -/
theorem resolveEach_settled {ds : List Descriptor} {s : AssetCache × World}
    (hds : ∀ d ∈ ds, Settled failed fs m d) (hfirst : ImagesFirst ds)
    (hfiles : w.files = fs ∨ ∀ d ∈ ds, d.kind ≠ .image) (hreach : Reached studio s (cache, w))
    (hfailed : ∀ k ∈ failed, ∀ s', Reached studio s s' → ∃ f, (asked studio k s').1 = .failed f) :
    (Script.run (resolveEach studio env cache m ds) w).1.1 = .ok m := by
  induction ds generalizing cache w with
  | nil => rfl
  | cons d ds ih =>
    obtain ⟨hlater, hfirst'⟩ := List.pairwise_cons.1 hfirst
    have hds' : ∀ e ∈ ds, Settled failed fs m e := fun e he => hds e (List.mem_cons_of_mem _ he)
    rw [run_resolveEach_cons]
    cases hres : isResolved m d with
    | true =>
      rw [if_pos rfl]
      exact ih hds' hfirst'
        (hfiles.imp_right fun hall e he => hall e (List.mem_cons_of_mem _ he)) hreach
    | false =>
      rw [if_neg (by decide)]
      obtain ⟨hreach', hkept⟩ := resolve_reached env m d hreach
      obtain ⟨r, hr, hsame⟩ : ∃ r, (Script.run (resolve studio env cache m d) w).1.1 = .ok r ∧
          r.elim m (Table.insert m d.raw) = m :=
        resolve_settled (hds d (List.mem_cons_self ..)) hres
          (fun hk => hfiles.resolve_right fun hall => hall d (List.mem_cons_self ..) hk)
          (fun k hk => hfailed k hk _ hreach)
      revert hreach' hkept hr
      obtain ⟨⟨found, cache'⟩, w'⟩ := Script.run (resolve studio env cache m d) w
      intro hreach' hkept hr
      cases hr
      dsimp only
      rw [hsame]
      refine ih hds' hfirst' ?_ hreach'
      by_cases hk : d.kind = .qrcode
      · exact Or.inr fun e he => hlater e he hk
      · exact hfiles.imp (fun hw => (hkept hk).trans hw)
          fun hall e he => hall e (List.mem_cons_of_mem _ he)

/-- A search that found nothing finds nothing where the same can be told about its source. -/
theorem seek_none_congr {fs' : FileSystem} {v : Value} (h : seek fs v = .ok none)
    (hsame : ∀ source, v.imagePath? = some source → fs'.status source = fs.status source ∧
      fs'.status (Path.ofText source).toText = fs.status (Path.ofText source).toText) :
    seek fs' v = .ok none := by
  unfold seek at h ⊢
  cases hpath : v.imagePath? with
  | none => rfl
  | some source =>
    obtain ⟨hreach, hfile⟩ := hsame source hpath
    rw [hpath] at h
    dsimp only at h ⊢
    rw [hreach, hfile]
    cases hprobed : Script.probed (!·.isDirectory) (fs.status (Path.ofText source).toText) with
    | error c =>
      rw [hprobed] at h
      cases h
    | ok there =>
      rw [hprobed] at h
      cases there with
      | false => rfl
      | true =>
        dsimp only at h ⊢
        split at h
        · split at h <;> cases h
        · rename_i hno
          rw [if_neg hno]

theorem Settled.of_status {fs' : FileSystem} (he : Settled failed fs m d)
    (hsame : d.kind = .image → ∀ source, (sourceValue m d).imagePath? = some source →
      fs'.status source = fs.status source ∧
      fs'.status (Path.ofText source).toText = fs.status (Path.ofText source).toText) :
    Settled failed fs' m d := by
  cases he with
  | resolved h => exact .resolved h
  | missing hk hseek => exact .missing hk (seek_none_congr hseek (hsame hk))
  | left hk hreq => exact .left hk hreq
  | marked hk hm hreq => exact .marked hk hm hreq
  | failing hk hm hreq hf => exact .failing hk hm hreq hf

/-- Keys without wrapping stay so. -/
theorem resolveEach_unwrapped {ds : List Descriptor} (hds : ∀ d ∈ ds, d.IsParsed)
    (hm : ∀ k ∈ Table.keys m, Token.unwrap k = k) {mf : DataMap}
    (h : (Script.run (resolveEach studio env cache m ds) w).1.1 = .ok mf) :
    ∀ k ∈ Table.keys mf, Token.unwrap k = k := by
  induction ds generalizing m cache w with
  | nil =>
    cases h
    exact hm
  | cons d ds ih =>
    have hds' : ∀ e ∈ ds, e.IsParsed := fun e he => hds e (List.mem_cons_of_mem _ he)
    rw [run_resolveEach_cons] at h
    split at h
    · exact ih hds' hm h
    · split at h
      · cases h
      · rename_i r cache' w' hr
        refine ih hds' ?_ h
        cases r with
        | none => exact hm
        | some v =>
          intro k hk
          rcases Table.mem_keys_insert.1 hk with rfl | hk
          · exact (Descriptor.raw_eq (hds d (List.mem_cons_self ..))).1
          · exact hm k hk

theorem unwrapKeys_eq_self (hm : ∀ k ∈ Table.keys m, Token.unwrap k = k)
    (hnodup : (Table.keys m).Nodup) : m.unwrapKeys = m := by
  have hmap : m.map (fun e => (Token.unwrap e.1, e.2)) = m.map id :=
    List.map_congr_left fun e he => Prod.ext (hm e.1 (List.mem_map_of_mem he)) rfl
  rw [DataMap.unwrapKeys, hmap, List.map_id, Table.ofList_eq_self hnodup]

/-- Resolving the tokens again, against the data with the values they have got, changes nothing:
neither a value nor the order of the keys. The environment, the clock and the cache may have changed
in between, but the sources of images not, and what could not be drawn still cannot. -/
theorem resolveAll_resolveAll {tokens : List Text} {data : DataMap}
    (hkeys : ∀ e ∈ data, Token.unwrap (Token.unwrap e.1) = Token.unwrap e.1)
    (h : (Script.run (resolveAll studio env Kind.order cache tokens data) w).1.1 = .ok m)
    {env' : Environment} {cache' : AssetCache} {w' : World}
    (himages : ∀ d ∈ descriptors tokens, d.kind = .image → ∀ source,
      (sourceValue m d).imagePath? = some source →
      w'.files.status source = w.files.status source ∧
      w'.files.status (Path.ofText source).toText = w.files.status (Path.ofText source).toText)
    (hfailed : ∀ k ∈ failures studio env cache w data.unwrapKeys (inOrder Kind.order tokens),
      ∀ s, Reached studio (cache', w') s → ∃ f, (asked studio k s).1 = .failed f) :
    (Script.run (resolveAll studio env' Kind.order cache' tokens m) w').1.1 = .ok m := by
  have hparsed : ∀ d ∈ inOrder Kind.order tokens, d.IsParsed := fun d hd =>
    isParsed_of_mem_descriptors (mem_inOrder.1 hd)
  have hunwrapped : ∀ k ∈ Table.keys data.unwrapKeys, Token.unwrap k = k := by
    intro k hk
    obtain ⟨e, he, rfl⟩ := List.mem_map.1 (Table.mem_keys_ofList.1 hk)
    obtain ⟨e', he', rfl⟩ := List.mem_map.1 he
    exact hkeys e' he'
  have hself : m.unwrapKeys = m :=
    unwrapKeys_eq_self (resolveEach_unwrapped hparsed hunwrapped h)
      (resolveEach_nodup (Table.nodup_keys_ofList _) h)
  have hsettled := resolveEach_settles hparsed (fun _ he => absurd he List.not_mem_nil)
    (imagesFirst_inOrder tokens) (Or.inl rfl) (fun _ hk => hk) h
  rw [List.append_nil] at hsettled
  rw [resolveAll, hself]
  exact resolveEach_settled
    (fun d hd => (hsettled d hd).of_status (himages d (mem_inOrder.1 hd)))
    (imagesFirst_inOrder tokens) (Or.inl rfl) (reached_refl _) hfailed

end

/-- The mark that was put in place of two symbols stays, on a later day and with another cache. -/
theorem resolveAll_resolveAll_undrawable :
    (Script.run (resolveAll dryStudio { newYear with now := .ofDate ⟨2024, 1, 2, by decide⟩ }
      Kind.order (lostCache (some 0)) twoSizes marked) { clock := 86400000000 }).1.1 = .ok marked := by
  have hcodes : ∀ d ∈ descriptors twoSizes, d.kind = .qrcode := by decide +kernel
  have hkeys : ∀ k ∈ Table.keys undrawable, Token.unwrap (Token.unwrap k) = Token.unwrap k := by
    decide +kernel
  refine resolveAll_resolveAll (fun e he => hkeys e.1 (List.mem_map_of_mem he)) run_twoSizes
    (fun d hd hk => ?_) fun k _ s hs => ?_
  · rw [hcodes d hd] at hk
    cases hk
  · exact asked_of_reached_lostCache rfl hs k

end MailMerge.Resolution
