import MailMerge.Proofs.Document.Injection
import MailMerge.Proofs.Document.Reading
/-!
# Where texts are put

A placeholder may be spread over several runs. A text that is put in its place goes into the run of
the dollar sign; what stood before and behind it stays in its run, and no run is added, removed or
formatted anew.

* `splices_putText`: one text takes the place of its occurrence, within one run or across several.
* `setValue_places`: all of a document's occurrences are replaced in this way, and counted.
* `setValue_null`: a text that no document holds is not put in.
-/
namespace MailMerge

open Token (wrap)

namespace Splice

/-- Runs read as their characters, each with the number of its run. -/
def placed : Reading (Nat × Char) where
  letter i _ c := (i, c)
  picture? _ := none
  char? g := some g.2
  char?_letter _ _ _ := rfl
  char?_picture _ _ h := nomatch h

/-- A text in the run of a character. -/
def textThere (value : Text) (g : Nat × Char) : List (Nat × Char) := value.map (g.1, ·)

theorem behind_placed (r : Run) : placed.behind r = [] :=
  List.filterMap_eq_nil_iff.2 fun _ _ => rfl

theorem rest_placed (i u : Nat) (r : Run) : placed.rest i u r = (r.text.drop u).map (i, ·) := by
  rw [Reading.rest, behind_placed, List.append_nil]
  rfl

theorem onward_store {i u : Nat} {x : Run} (hu : u ≤ x.text.length) {t : Text}
    (ht : Run.IsStored (x.text.take u ++ t)) (b : List Run) :
    placed.onward i u (x.store (x.text.take u ++ t)) b = t.map (i, ·) ++ placed.runs (i + 1) b := by
  have hlen : (x.text.take u).length = u := List.length_take_of_le hu
  rw [Reading.onward, rest_placed, store_eq ht, List.drop_left' hlen]

/-- A text takes the place of its occurrence in the run where that begins. -/
theorem splices_putText {value : Text} (hv : Run.IsStored value) :
    Splices placed (textThere value) (putText value) where
  within a x b c u w huw hw hx := by
    have hlead := hx.1.of_sublist (List.take_sublist u _)
    have hrest := hx.1.of_sublist (List.drop_sublist w _)
    have hstored := hlead.append (hv.append hrest)
    have hall : value.all isXmlChar = true := List.all_eq_true.2 hv.isXmlChar
    refine ⟨x.store (x.text.take u ++ (value ++ x.text.drop w)), b, ?_,
      kept_store (by omega) hstored, ?_⟩
    · simp only [putText, head, tail, textAt_middle, if_true, hall, put_middle, List.append_assoc]
    · rw [onward_store (by omega) hstored, Reading.onward, rest_placed, List.map_append,
        List.append_assoc]
      rfl
  across a x m y b c u w hu hw hx hy := by
    have hlead := hx.1.of_sublist (List.take_sublist u _)
    have hrest := hy.1.of_sublist (List.drop_sublist w _)
    have hstored := hlead.append hv
    have hall : value.all isXmlChar = true := List.all_eq_true.2 hv.isXmlChar
    have hne : a.length ≠ a.length + 1 + m.length := by omega
    refine ⟨x.store (x.text.take u ++ value),
      m.map (Run.store []) ++ y.store (y.text.drop w) :: b, ?_,
      kept_store (Nat.le_of_lt hu) hstored, ?_⟩
    · simp only [putText, if_neg hne, hall, if_true, head, tail, textAt_behind, textAt_middle]
      rw [put_middle, put_clearBetween]
    · rw [onward_store (Nat.le_of_lt hu) hstored, runs_append, runs_emptied, List.length_map]
      rw [Reading.runs, rest_placed, store_eq hrest, Reading.onward, rest_placed]
      rfl

/-! ## What becomes of the text -/

theorem map_snd_runs (i : Nat) (rs : List Run) : (placed.runs i rs).map (·.2) = text rs := by
  have hread := filterMap_runs (R := placed) i rs
  have hchar : placed.char? = some ∘ Prod.snd := rfl
  rwa [hchar, List.filterMap_eq_map] at hread

theorem isPrefixOf_map_some (needle t : Text) :
    (needle.map some).isPrefixOf (t.map some) = needle.isPrefixOf t := by
  induction needle generalizing t with
  | nil => rfl
  | cons a n ih =>
    cases t with
    | nil => rfl
    | cons c t => simp [List.isPrefixOf, ih]

theorem begins_placed (needle : Text) (l : List (Nat × Char)) :
    placed.begins needle l = needle.isPrefixOf (l.map (·.2)) := by
  rw [← isPrefixOf_map_some, List.map_map]
  rfl

/-- Where characters are exchanged for a text, the text is replaced. -/
theorem map_snd_exchange (needle value : Text) (l : List (Nat × Char)) : ∀ skip : Nat,
    (placed.exchange needle (textThere value) skip l).map (·.2) =
      Text.replaceFrom needle value skip (l.map (·.2)) := by
  induction l with
  | nil => intro skip; cases skip <;> rfl
  | cons g l ih =>
    intro skip
    cases skip with
    | succ skip => exact ih skip
    | zero =>
      have hthere : (textThere value g).map (·.2) = value := by
        rw [textThere, List.map_map]
        exact List.map_id value
      rw [Reading.exchange, begins_placed, List.map_cons, Text.replaceFrom]
      split
      · rw [List.map_append, hthere, ih]
      · rw [List.map_cons, ih]

/-! ## What becomes of the formats -/

/-- The formats of the runs of a content. -/
def formats (c : List Inline) : List Bool := (c.filterMap Inline.run?).map Run.bold

theorem formats_put (i : Nat) (t : Text) (c : List Inline) : formats (put i t c) = formats c := by
  unfold formats put
  induction c generalizing i with
  | nil => cases i <;> rfl
  | cons x c ih =>
    cases x with
    | link rs =>
      rw [edit_link]
      exact ih i
    | run r =>
      cases i with
      | zero => rfl
      | succ i => exact congrArg (r.bold :: ·) (ih i)

theorem formats_foldl_put (l : List Nat) (c : List Inline) :
    formats (l.foldl (fun c i => put i [] c) c) = formats c := by
  induction l generalizing c with
  | nil => rfl
  | cons i l ih => exact (ih _).trans (formats_put i [] c)

theorem formats_putText (value : Text) (s : Span) (c : List Inline) :
    formats (putText value s c).value = formats c := by
  unfold putText
  dsimp only
  split
  · exact formats_put ..
  · split
    · rw [formats_put, clearBetween, formats_foldl_put, formats_put]
    · exact formats_put ..

theorem formats_each_putText (value : Text) (l : List Span) (c : List Inline) :
    formats (Attempt.each (putText value) l c).value = formats c := by
  induction l generalizing c with
  | nil => rfl
  | cons s l ih =>
    cases hf : (putText value s c).fault with
    | none => rw [Attempt.each_cons_of_none _ _ _ hf, ih, formats_putText]
    | some e => rw [Attempt.each_cons_of_fault _ _ _ hf, formats_putText]

/-- What putting a text into runs does: neither their number nor their formats change, their text is
the old one with every occurrence replaced, and read with the numbers of their runs the characters of
an occurrence are exchanged for the text in the run of the first of them. -/
structure PutInto (needle value : Text) (rs rs' : List Run) : Prop where
  formats : rs'.map Run.bold = rs.map Run.bold
  text : text rs' = Text.replaceAll needle value (text rs)
  placed : placed.runs 0 rs' = placed.exchange needle (textThere value) 0 (placed.runs 0 rs)

theorem atEach_putText_places {needle value : Text} (hn : needle ≠ []) (rs : List Run)
    (hv : spans needle (rs.map .run) ≠ [] → Run.IsStored value)
    (hs : ∀ i r, reaches needle (rs.map .run) i = true → rs[i]? = some r → Run.IsStored r.text) :
    ∃ rs', atEach needle (putText value) (rs.map .run) = { value := rs'.map .run } ∧
      PutInto needle value rs rs' := by
  obtain ⟨rs', hval, hread⟩ := atEach_splices hn rs (fun h => splices_putText (hv h))
    fun i r hi hr => ⟨hs i r hi hr, behind_placed r⟩
  refine ⟨rs', hval, ?_, ?_, hread⟩
  · have hformats := formats_each_putText value (spans needle (rs.map .run)).reverse (rs.map .run)
    rw [← atEach_eq, hval, formats, formats, filterMap_run, filterMap_run] at hformats
    exact hformats
  · rw [← map_snd_runs 0, hread, map_snd_exchange, map_snd_runs]
    rfl

end Splice

/-! ## A document -/

namespace Document

/-- At how many places a text occurs in another. -/
def places (needle t : Text) : Nat := t.tails.countP (needle.isPrefixOf ·)

/-- Whether every run that a replacement of a needle reaches has a property. -/
def EachReached (d : Document) (needle : Text) (P : Run → Prop) : Prop :=
  ∀ v ∈ d.visits, ∀ i r, Splice.reaches needle (d.paragraph v.1).content i = true →
    (d.paragraph v.1).runs[i]? = some r → P r

section
variable {tok : Text}

theorem not_mem_of_isInner (ht : ∀ c ∈ tok, Token.isInner c = true) :
    '$' ∉ '\x7b' :: (tok ++ [Token.closing]) := by
  cases tok with
  | nil => decide
  | cons c t => exact Token.IsInner.not_mem ⟨List.cons_ne_nil c t, ht⟩

theorem unwrap_of_isInner (ht : ∀ c ∈ tok, Token.isInner c = true) : Token.unwrap tok = tok := by
  cases tok with
  | nil => rfl
  | cons c t => exact Token.IsInner.unwrap ⟨List.cons_ne_nil c t, ht⟩

/-- Occurrences of a placeholder do not overlap, so all of them are met. -/
theorem hits_eq_places (ht : ∀ c ∈ tok, Token.isInner c = true) (t : Text) :
    Text.hits (wrap tok) t = places (wrap tok) t := by
  induction t with
  | nil => rfl
  | cons c t ih =>
    rw [Token.wrap_eq_cons] at ih ⊢
    rw [Text.hits_cons (not_mem_of_isInner ht), ih, places, places, List.tails_cons,
      List.countP_cons, Nat.add_comm]

theorem count_eq_places (ht : ∀ c ∈ tok, Token.isInner c = true) (d : Document) :
    d.count (wrap tok) = (d.lines.map (places (wrap tok))).sum := by
  rw [count_eq, List.map_congr_left fun t _ => hits_eq_places ht t]

end

theorem hasNoLinks_of_content {d : Document}
    (h : ∀ v ∈ d.visits, ∃ rs : List Run, (d.paragraph v.1).content = rs.map .run) :
    d.HasNoLinks := by
  intro v hv x hx
  obtain ⟨rs, hcontent⟩ := h v hv
  rw [hcontent] at hx
  obtain ⟨r, -, rfl⟩ := List.mem_map.1 hx
  exact ⟨r, rfl⟩

theorem eq_map_run {c : List Inline} (h : ∀ x ∈ c, ∃ r, x = Inline.run r) :
    c = (c.filterMap Inline.run?).map .run := by
  induction c with
  | nil => rfl
  | cons x c ih =>
    obtain ⟨⟨r, rfl⟩, hc⟩ := List.forall_mem_cons.1 h
    exact congrArg (Inline.run r :: ·) (ih hc)

theorem spans_eq_nil_of_count {d : Document} {needle : Text} (h : d.count needle = 0) {v : Visit}
    (hv : v ∈ d.visits) : Splice.spans needle (d.paragraph v.1).content = [] := by
  rw [count, List.length_eq_zero_iff, List.flatMap_eq_nil_iff] at h
  have hnone := h v hv
  rw [Paragraph.occurrences] at hnone
  rw [Splice.spans]
  exact congrArg (List.map _) hnone

/-- One paragraph with a text put in. -/
theorem paragraph_putText {p : Paragraph} (hl : ∀ x ∈ p.content, ∃ r, x = Inline.run r)
    {needle value : Text} (hn : needle ≠ [])
    (hv : Splice.spans needle p.content ≠ [] → Run.IsStored value)
    (hs : ∀ i r, Splice.reaches needle p.content i = true → p.runs[i]? = some r →
      Run.IsStored r.text) :
    ∃ rs', p.atEach needle (Splice.putText value) =
        { value := { p with content := rs'.map .run } } ∧
      Splice.PutInto needle value p.runs rs' := by
  have hcontent : p.content = p.runs.map .run := eq_map_run hl
  rw [hcontent] at hv hs
  obtain ⟨rs', hval, hread⟩ := Splice.atEach_putText_places hn p.runs hv hs
  refine ⟨rs', ?_, hread⟩
  rw [Paragraph.atEach, hcontent, hval]

/-- Texts are put in run by run: every occurrence of the placeholder is replaced, its text goes into
the run of the dollar sign, and every other character stays in its run. -/
theorem setValue_places {d : Document} (hl : d.HasNoLinks) {tok value : Text}
    (ht : ∀ c ∈ tok, Token.isInner c = true)
    (hs : d.EachReached (wrap tok) fun r => Run.IsStored r.text)
    (hv : d.count (wrap tok) ≠ 0 → Run.IsStored value) :
    ∃ d', d.setValue tok value =
        { document := d', result := .ok (d.lines.map (places (wrap tok))).sum } ∧
      d'.visits = d.visits ∧ d'.HasNoLinks ∧
      ∀ v ∈ d.visits,
        Splice.PutInto (wrap tok) value (d.paragraph v.1).runs (d'.paragraph v.1).runs := by
  have hone := fun (v : Visit) (hv' : v ∈ d.visits) =>
    @paragraph_putText (d.paragraph v.1) (hl v hv') (wrap tok) value (List.cons_ne_nil _ _)
      (fun h => hv fun hzero => h (spans_eq_nil_of_count hzero hv')) (hs v hv')
  obtain ⟨d', hd', hb, hsec, hp⟩ := @each_changeParagraph (wrap tok) (Splice.putText value)
    d.visits d.visits_fst_nodup d fun v hv' => by
      obtain ⟨rs', hval, -⟩ := hone v hv'
      rw [hval]
  have hvisits := visits_congr hb hsec
  have hruns : ∀ v ∈ d.visits, ∃ rs', (d'.paragraph v.1).content = rs'.map .run ∧
      Splice.PutInto (wrap tok) value (d.paragraph v.1).runs rs' := by
    intro v hv'
    obtain ⟨rs', hval, hread⟩ := hone v hv'
    refine ⟨rs', ?_, hread⟩
    rw [hp, if_pos (List.mem_map_of_mem hv'), hval]
  refine ⟨d', ?_, hvisits, hasNoLinks_of_content fun v hv' => ?_, ?_⟩
  · unfold setValue
    rw [unwrap_of_isInner ht, ← count_eq_places ht]
    dsimp only
    rw [hd']
    rfl
  · obtain ⟨rs', hcontent, -⟩ := hruns v (hvisits ▸ hv')
    exact ⟨rs', hcontent⟩
  · intro v hv'
    obtain ⟨rs', hcontent, hread⟩ := hruns v hv'
    have : (d'.paragraph v.1).runs = rs' := by
      rw [Paragraph.runs, hcontent, Splice.filterMap_run]
    rw [this]
    exact hread

/-- Two placeholders over five runs, one of them empty; the second begins where the first ends. -/
def scattered : Document :=
  { body := [.paragraph 0]
    paragraphs := [{ content := [.run { text := ['x', '$'] }, .run {},
      .run { bold := true, text := ['\x7b', 'a', '\x7d', '$', '\x7b'] },
      .run { text := ['a'] }, .run { text := ['\x7d', 'y'] }] }] }

theorem visits_scattered : scattered.visits = [(0, none)] := by cbv

theorem hasNoLinks_scattered : scattered.HasNoLinks := by
  refine hasNoLinks_of_content fun v hv => ⟨(scattered.paragraph 0).runs, ?_⟩
  rw [visits_scattered, List.mem_singleton] at hv
  subst hv
  rfl

theorem isStored_scattered :
    ∀ r ∈ (scattered.paragraph 0).runs, Run.IsStored r.text := by
  have hall : (scattered.paragraph 0).runs.all
      (fun r => r.text.all fun c => isXmlChar c && c != '\r') = true := by decide
  intro r hr c hc
  simpa using List.all_eq_true.1 (List.all_eq_true.1 hall r hr) c hc

/-- Each text goes into the run of its dollar sign, and what stood around stays where it was. -/
theorem setValue_places_scattered :
    scattered.HasNoLinks ∧ (∀ c ∈ ['a'], Token.isInner c = true) ∧
      (scattered.EachReached (wrap ['a']) fun r => Run.IsStored r.text) ∧
      Run.IsStored ['v', 'w'] ∧
      ∃ d', scattered.setValue ['a'] ['v', 'w'] = { document := d', result := .ok 2 } ∧
        (d'.paragraph 0).runs.map Run.bold = [false, false, true, false, false] ∧
        Splice.placed.runs 0 (d'.paragraph 0).runs =
          [(0, 'x'), (0, 'v'), (0, 'w'), (2, 'v'), (2, 'w'), (4, 'y')] := by
  have ht : ∀ c ∈ ['a'], Token.isInner c = true := List.all_eq_true.1 (by decide)
  have hs : scattered.EachReached (wrap ['a']) fun r => Run.IsStored r.text := by
    intro v hv i r _ hr
    rw [visits_scattered, List.mem_singleton] at hv
    subst hv
    exact isStored_scattered r (List.mem_of_getElem? hr)
  have hvalue : Run.IsStored ['v', 'w'] := by
    have hall : ['v', 'w'].all (fun c => isXmlChar c && c != '\r') = true := by decide
    intro c hc
    simpa using List.all_eq_true.1 hall c hc
  obtain ⟨d', hset, -, -, hput⟩ := setValue_places hasNoLinks_scattered ht hs fun _ => hvalue
  have hone := hput (0, none) (by rw [visits_scattered]; exact List.mem_singleton_self _)
  have hcount : (scattered.lines.map (places (wrap ['a']))).sum = 2 := by
    rw [lines, visits_scattered]
    decide
  rw [hcount] at hset
  refine ⟨hasNoLinks_scattered, ht, hs, hvalue, d', hset, hone.formats, ?_⟩
  rw [hone.placed]
  decide

/-- A text that no document holds is not put in: a null character breaks the work off. -/
theorem setValue_null :
    (ofText (wrap ['a'])).HasNoLinks ∧ (∀ c ∈ ['a'], Token.isInner c = true) ∧
      '\r' ∉ ['\x00'] ∧ ((ofText (wrap ['a'])).lines.map (places (wrap ['a']))).sum = 1 ∧
      ((ofText (wrap ['a'])).setValue ['a'] ['\x00']).result = .error .notStorable := by
  refine ⟨hasNoLinks_ofText _, List.all_eq_true.1 (by decide), by decide, ?_, by cbv⟩
  rw [lines_ofText]
  decide

end Document
end MailMerge
