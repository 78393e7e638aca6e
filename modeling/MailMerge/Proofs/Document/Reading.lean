import MailMerge.Proofs.Document.Reach
/-!
# Reading runs piece by piece

The runs of a paragraph are read as a sequence of pieces: one for each character, which may tell the
number and the format of its run, and one for each picture that is looked at. Splicing is right when
the pieces of every occurrence are exchanged for new ones and all other pieces stay in order.

Occurrences are spliced from the last to the first, with the numbers of runs and the places that were
taken before. What carries the induction is that a splice leaves alone what stands before it: the
runs up to a place are the ones they were (`Kept`), and behind that place the exchange is done.

* `Splices`: what one splice must do, within one run and across several.
* `each_splices`: splices that do this, made from the last to the first, exchange every occurrence.
-/
namespace MailMerge.Splice

/-- A way to read runs: as what a character is read, given the number and the format of its run, and
as what a picture is read, if it is looked at. -/
structure Reading (α : Type) where
  letter : Nat → Bool → Char → α
  picture? : Picture → Option α
  char? : α → Option Char
  char?_letter : ∀ i b c, char? (letter i b c) = some c
  char?_picture : ∀ p g, picture? p = some g → char? g = none

namespace Reading

variable {α : Type} (R : Reading α)

/-- What is read behind the text of a run. -/
def behind (r : Run) : List α := r.pictures.filterMap R.picture?

/-- What is read of a run from one of its characters on. -/
def rest (i u : Nat) (r : Run) : List α := (r.text.drop u).map (R.letter i r.bold) ++ R.behind r

/-- What is read of runs, the first of them having the number `i`. -/
def runs : (i : Nat) → List Run → List α
  | _, [] => []
  | i, r :: rs => R.rest i 0 r ++ runs (i + 1) rs

/-- What is read from a character of the run of number `i` on, other runs following. -/
def onward (i u : Nat) (x : Run) (b : List Run) : List α := R.rest i u x ++ R.runs (i + 1) b

/-- Whether pieces begin with the characters of a needle. -/
def begins (needle : Text) (l : List α) : Bool := (needle.map some).isPrefixOf (l.map R.char?)

/-- What follows the first `skip` pieces, with every occurrence of a needle exchanged for what `new`
makes of its first piece. -/
def exchange (needle : Text) (new : α → List α) : (skip : Nat) → List α → List α
  | _, [] => []
  | skip + 1, _ :: l => exchange needle new skip l
  | 0, g :: l =>
    if R.begins needle (g :: l) then new g ++ exchange needle new (needle.length - 1) l
    else g :: exchange needle new 0 l

/-- Whether the text of a run is read back as it was stored and nothing is read behind it. -/
def IsBare (r : Run) : Prop := Run.IsStored r.text ∧ R.behind r = []

/-- What is left of a run that was changed from a character on. -/
structure Kept (u : Nat) (x x' : Run) : Prop where
  bold : x'.bold = x.bold
  take : x'.text.take u = x.text.take u
  le : u ≤ x'.text.length
  bare : R.IsBare x → R.IsBare x'

end Reading

variable {α : Type} {R : Reading α}

/-! ## Exchanging -/

section
variable {needle : Text} {new : α → List α}

theorem exchange_skip (u l : List α) :
    R.exchange needle new u.length (u ++ l) = R.exchange needle new 0 l := by
  induction u with
  | nil => rfl
  | cons g u ih => exact ih

/-- The pieces of an occurrence are exchanged together. -/
theorem exchange_occurrence {g : α} {u : List α} (h : (g :: u).map R.char? = needle.map some)
    (l : List α) : R.exchange needle new 0 (g :: (u ++ l)) = new g ++ R.exchange needle new 0 l := by
  have hb : R.begins needle (g :: (u ++ l)) = true := by
    rw [Reading.begins, ← h, List.isPrefixOf_iff_prefix, ← List.cons_append, List.map_append]
    exact List.prefix_append _ _
  have hlen : needle.length - 1 = u.length := by
    have := congrArg List.length h
    rw [List.length_map, List.length_map, List.length_cons] at this
    omega
  rw [Reading.exchange, if_pos hb, hlen, exchange_skip]

/-- Pieces without characters stay. -/
theorem exchange_append_of_silent (hn : needle ≠ []) {u : List α} (hu : ∀ g ∈ u, R.char? g = none)
    (l : List α) : R.exchange needle new 0 (u ++ l) = u ++ R.exchange needle new 0 l := by
  induction u with
  | nil => rfl
  | cons g u ih =>
    obtain ⟨hg, hu⟩ := List.forall_mem_cons.1 hu
    have hb : R.begins needle (g :: (u ++ l)) = false := by
      cases needle with
      | nil => exact absurd rfl hn
      | cons a n =>
        rw [Reading.begins, List.map_cons, List.map_cons, hg]
        rfl
    rw [List.cons_append, Reading.exchange, hb, ih hu]
    rfl

/-- Pieces that begin with a needle spell it. -/
theorem isPrefixOf_of_begins {l : List α} (h : R.begins needle l = true) :
    needle.isPrefixOf (l.filterMap R.char?) = true := by
  obtain ⟨r, hr⟩ := List.isPrefixOf_iff_prefix.1 h
  have hspell : l.filterMap R.char? = needle ++ r.filterMap id := by
    calc l.filterMap R.char? = (l.map R.char?).filterMap id := by rw [List.filterMap_map]; rfl
      _ = (needle.map some).filterMap id ++ r.filterMap id := by rw [← hr, List.filterMap_append]
      _ = needle ++ r.filterMap id := by rw [List.filterMap_map]; simp
  rw [hspell]
  exact Text.isPrefixOf_append _ _

end

/-! ## What is read of runs -/

theorem char?_behind (r : Run) : ∀ g ∈ R.behind r, R.char? g = none := by
  intro g hg
  obtain ⟨p, -, hp⟩ := List.mem_filterMap.1 hg
  exact R.char?_picture p g hp

theorem filterMap_behind (r : Run) : (R.behind r).filterMap R.char? = [] :=
  List.filterMap_eq_nil_iff.2 (char?_behind r)

theorem map_letters (i : Nat) (b : Bool) (t : Text) :
    (t.map (R.letter i b)).map R.char? = t.map some := by
  rw [List.map_map]
  exact List.map_congr_left fun c _ => R.char?_letter i b c

theorem filterMap_rest (i u : Nat) (r : Run) :
    (R.rest i u r).filterMap R.char? = r.text.drop u := by
  have hletters : (R.char? ∘ R.letter i r.bold) = some := funext (R.char?_letter i r.bold)
  rw [Reading.rest, List.filterMap_append, filterMap_behind, List.append_nil, List.filterMap_map,
    hletters, List.filterMap_some]

theorem filterMap_runs (i : Nat) (rs : List Run) :
    (R.runs i rs).filterMap R.char? = text rs := by
  induction rs generalizing i with
  | nil => rfl
  | cons r rs ih =>
    rw [Reading.runs, List.filterMap_append, filterMap_rest, ih]
    rfl

theorem filterMap_onward (i u : Nat) (x : Run) (b : List Run) :
    (R.onward i u x b).filterMap R.char? = x.text.drop u ++ text b := by
  rw [Reading.onward, List.filterMap_append, filterMap_rest, filterMap_runs]

theorem runs_append (i : Nat) (a b : List Run) :
    R.runs i (a ++ b) = R.runs i a ++ R.runs (i + a.length) b := by
  induction a generalizing i with
  | nil => rfl
  | cons r a ih =>
    rw [List.cons_append, Reading.runs, Reading.runs, ih, List.append_assoc, List.length_cons,
      Nat.add_assoc, Nat.add_comm 1]

theorem runs_cons (i : Nat) (x : Run) (b : List Run) : R.runs i (x :: b) = R.onward i 0 x b := rfl

/-- One character at a time. -/
theorem onward_of_drop {i u : Nat} {x : Run} {c : Char} (h : x.text.drop u = c :: x.text.drop (u + 1))
    (b : List Run) : R.onward i u x b = R.letter i x.bold c :: R.onward i (u + 1) x b := by
  rw [Reading.onward, Reading.rest, h]
  rfl

theorem onward_of_length_le {i u : Nat} {x : Run} (h : x.text.length ≤ u) (y : Run) (b : List Run) :
    R.onward i u x (y :: b) = R.behind x ++ R.onward (i + 1) 0 y b := by
  rw [Reading.onward, Reading.rest, List.drop_eq_nil_of_le h, runs_cons]
  rfl

theorem Reading.IsBare.rest {r : Run} (h : R.IsBare r) (i u : Nat) :
    R.rest i u r = (r.text.drop u).map (R.letter i r.bold) := by
  rw [Reading.rest, h.2, List.append_nil]

/-- Of runs with nothing behind them only the characters are read. -/
theorem map_char?_runs {m : List Run} (h : ∀ r ∈ m, R.IsBare r) (i : Nat) :
    (R.runs i m).map R.char? = (text m).map some := by
  induction m generalizing i with
  | nil => rfl
  | cons r m ih =>
    obtain ⟨hr, hm⟩ := List.forall_mem_cons.1 h
    have htext : text (r :: m) = r.text ++ text m := rfl
    rw [Reading.runs, hr.rest, List.map_append, map_letters, ih hm, htext, List.map_append]
    rfl

/-- What is read of an occurrence within one run. -/
theorem onward_within {i u w : Nat} {x : Run} (huw : u ≤ w) (b : List Run) :
    R.onward i u x b =
      ((x.text.drop u).take (w - u)).map (R.letter i x.bold) ++ R.onward i w x b := by
  have hdrop : x.text.drop u = (x.text.drop u).take (w - u) ++ x.text.drop w := by
    have := (List.take_append_drop (w - u) (x.text.drop u)).symm
    rwa [List.drop_drop, Nat.add_sub_cancel' huw] at this
  rw [Reading.onward, Reading.rest, hdrop, List.map_append, Reading.onward, Reading.rest]
  simp only [List.append_assoc, ← hdrop]

/-- What is read of an occurrence that ends in a later run. -/
theorem onward_across {i u w : Nat} {x y : Run} {m : List Run} (hx : R.IsBare x) (b : List Run) :
    R.onward i u x (m ++ y :: b) =
      (x.text.drop u).map (R.letter i x.bold) ++ (R.runs (i + 1) m ++
        (y.text.take w).map (R.letter (i + 1 + m.length) y.bold)) ++
      R.onward (i + 1 + m.length) w y b := by
  have hy : R.onward (i + 1 + m.length) 0 y b =
      (y.text.take w).map (R.letter (i + 1 + m.length) y.bold) ++
        R.onward (i + 1 + m.length) w y b := onward_within (Nat.zero_le w) b
  rw [Reading.onward, hx.rest, runs_append, runs_cons, hy]
  simp only [List.append_assoc]

/-! ## Where an occurrence lies -/

theorem text_append (a b : List Run) : text (a ++ b) = text a ++ text b := by
  simp [text]

theorem text_cons (x : Run) (b : List Run) : text (x :: b) = x.text ++ text b := rfl

/-- The run that holds a character is the one in which it stands. -/
theorem holder_eq {a b : List Run} {x : Run} {u : Nat} (hu : u < x.text.length) :
    holder (starts 0 (a ++ x :: b)) ((text a).length + u) = a.length := by
  have hbound : (text a).length + u < (text (a ++ x :: b)).length := by
    rw [text_append, text_cons, List.length_append, List.length_append]
    omega
  obtain ⟨a₁, x₁, b₁, hmap, hhold, -, hle, hlt⟩ := holder_spec _ _ hbound
  have hflat (l : List Run) : (text l).length = (l.map Run.text).flatten.length := rfl
  rw [hflat] at hle hlt
  rw [List.map_append, List.map_cons] at hmap
  rw [hhold]
  rcases append_cons_cases hmap with ⟨ha, -, -⟩ | ⟨m, rfl, -⟩ | ⟨m, ha, -⟩
  · rw [← ha, List.length_map]
  · simp only [List.flatten_append, List.flatten_cons, List.length_append] at hle
    omega
  · rw [ha] at hlt
    simp only [List.flatten_append, List.flatten_cons, List.length_append] at hlt
    omega

theorem span_eq {rs a b a' b' : List Run} {x y : Run} {u w n : Nat} (h : rs = a ++ x :: b)
    (h' : rs = a' ++ y :: b') (hu : u < x.text.length) (hw : w ≤ y.text.length) (hpos : 0 < w)
    (he : (text a).length + u + n = (text a').length + w) :
    span (starts 0 rs) n ((text a).length + u) = ⟨a.length, a'.length, u, w⟩ := by
  have hstart : ∀ {a b : List Run} {x : Run}, rs = a ++ x :: b →
      (starts 0 rs).getD a.length 0 = (text a).length := by
    rintro a b x rfl
    rw [starts_getElem _ _ _ (by simp), List.take_left, Nat.zero_add]
  have hfirst : holder (starts 0 rs) ((text a).length + u) = a.length := h ▸ holder_eq hu
  have hlast : holder (starts 0 rs) ((text a').length + w - 1) = a'.length := by
    rw [Nat.add_sub_assoc hpos, h']
    exact holder_eq (by omega)
  simp only [span, hfirst, hlast, hstart h, hstart h', he, Nat.add_sub_cancel_left]

/-- Where a text that begins the text of runs ends. -/
theorem exists_end {n : Text} (hn : n ≠ []) {l : List Run} {r : Text} (h : text l = n ++ r) :
    ∃ m y b w, l = m ++ y :: b ∧ 0 < w ∧ w ≤ y.text.length ∧ n = text m ++ y.text.take w ∧
      r = y.text.drop w ++ text b := by
  induction l generalizing n with
  | nil =>
    have := List.append_eq_nil_iff.1 h.symm
    exact absurd this.1 hn
  | cons x l ih =>
    rw [text_cons] at h
    rcases List.append_eq_append_iff.1 h with ⟨n', hn', hr⟩ | ⟨t, hx, hr⟩
    · by_cases hnil : n' = []
      · subst hnil
        rw [List.append_nil] at hn'
        rw [List.nil_append] at hr
        refine ⟨[], x, l, x.text.length, rfl, ?_, Nat.le_refl _, ?_, ?_⟩
        · rw [← hn']
          exact List.length_pos_iff.2 hn
        · rw [List.take_length, hn']
          rfl
        · rw [List.drop_length, List.nil_append, hr]
      · obtain ⟨m, y, b, w, rfl, hpos, hle, hsplit, hrest⟩ := ih hnil hr
        refine ⟨x :: m, y, b, w, rfl, hpos, hle, ?_, hrest⟩
        rw [hn', hsplit, text_cons, List.append_assoc]
    · refine ⟨[], x, l, n.length, rfl, List.length_pos_iff.2 hn, ?_, ?_, ?_⟩
      · rw [hx, List.length_append]
        omega
      · rw [hx, List.take_left]
        rfl
      · rw [hx, List.drop_left, hr]

/-! ## All splices -/

theorem filterMap_run (rs : List Run) : (rs.map Inline.run).filterMap Inline.run? = rs := by
  rw [List.filterMap_map]
  exact List.filterMap_some

/-- Whether a splice at a span reaches bare runs only. -/
def Reading.BareAt (R : Reading α) (rs : List Run) (s : Span) : Prop :=
  ∀ i r, s.covers i = true → rs[i]? = some r → R.IsBare r

/-- What one splice must do to exchange its occurrence: within one run, and across several, of which
those behind the first may be replaced. -/
structure Splices (R : Reading α) (new : α → List α)
    (change : Span → List Inline → Attempt (List Inline)) : Prop where
  within : ∀ (a : List Run) (x : Run) (b : List Run) (c : Char) (u w : Nat), u < w →
    w ≤ x.text.length → R.IsBare x → ∃ x' b',
      change ⟨a.length, a.length, u, w⟩ ((a ++ x :: b).map .run) =
        { value := (a ++ x' :: b').map .run } ∧
      R.Kept u x x' ∧
      R.onward a.length u x' b' = new (R.letter a.length x.bold c) ++ R.onward a.length w x b
  across : ∀ (a : List Run) (x : Run) (m : List Run) (y : Run) (b : List Run) (c : Char)
    (u w : Nat), u < x.text.length → w ≤ y.text.length → R.IsBare x → R.IsBare y → ∃ x' b',
      change ⟨a.length, a.length + 1 + m.length, u, w⟩ ((a ++ x :: (m ++ y :: b)).map .run) =
        { value := (a ++ x' :: b').map .run } ∧
      R.Kept u x x' ∧
      R.onward a.length u x' b' =
        new (R.letter a.length x.bold c) ++ R.onward (a.length + 1 + m.length) w y b

theorem Reading.Kept.trans {u w : Nat} {x x' x'' : Run} (h : R.Kept w x x') (h' : R.Kept u x' x'')
    (huw : u ≤ w) : R.Kept u x x'' := by
  refine ⟨h'.bold.trans h.bold, ?_, h'.le, fun hx => h'.bare (h.bare hx)⟩
  have htake := congrArg (List.take u) h.take
  rw [List.take_take, List.take_take, Nat.min_eq_left huw] at htake
  exact h'.take.trans htake

theorem Reading.Kept.drop {u : Nat} {x x' : Run} (h : R.Kept (u + 1) x x') {c : Char}
    (hc : x.text.drop u = c :: x.text.drop (u + 1)) :
    x'.text.drop u = c :: x'.text.drop (u + 1) := by
  have hget : x'.text[u]? = x.text[u]? := by
    have := congrArg (·[u]?) h.take
    simpa [List.getElem?_take] using this
  have hle := h.le
  rw [List.drop_eq_getElem_cons (by omega)]
  have hx : x.text[u]? = some c := by
    have := congrArg List.head? hc
    rwa [List.head?_drop] at this
  rw [hx, List.getElem?_eq_getElem (by omega)] at hget
  rw [Option.some.inj hget]

theorem occurrences_skip (needle : Text) (skip : Nat) : ∀ (place : Nat) (t : Text),
    Text.occurrences needle skip place t =
      Text.occurrences needle 0 (place + skip) (t.drop skip) := by
  induction skip with
  | zero => intro place t; rfl
  | succ skip ih =>
    intro place t
    cases t with
    | nil => simp [Text.occurrences]
    | cons c t => rw [Text.occurrences, ih, List.drop_succ_cons, Nat.add_assoc, Nat.add_comm 1]

/-- The occurrences of a text that begins with the needle. -/
theorem occurrences_append {needle : Text} (hn : needle ≠ []) (place : Nat) (t : Text) :
    Text.occurrences needle 0 place (needle ++ t) =
      place :: Text.occurrences needle 0 (place + needle.length) t := by
  cases needle with
  | nil => exact absurd rfl hn
  | cons c n =>
    have hp := Text.isPrefixOf_append (c :: n) t
    rw [List.cons_append] at hp ⊢
    rw [Text.occurrences, if_pos hp, occurrences_skip, List.length_cons, Nat.add_sub_cancel,
      List.drop_left, Nat.add_assoc, Nat.add_comm 1]

/-- The spans in `rs` of what occurs from a character of a run on, the last first; the runs `a` stand
before this run and the runs `b` behind it. -/
def spansFrom (needle : Text) (rs a : List Run) (u : Nat) (x : Run) (b : List Run) : List Span :=
  ((Text.occurrences needle 0 ((text a).length + u) (x.text.drop u ++ text b)).map
    (span (starts 0 rs) needle.length)).reverse

/-- Whether splicing what occurs from a character of a run on keeps what is before it and exchanges
what is behind it. -/
def Exchanges (R : Reading α) (needle : Text) (new : α → List α)
    (change : Span → List Inline → Attempt (List Inline)) (rs a : List Run) (u : Nat) (x : Run)
    (b : List Run) : Prop :=
  ∃ x' b', Attempt.each change (spansFrom needle rs a u x b) (rs.map .run) =
      { value := (a ++ x' :: b').map .run } ∧
    R.Kept u x x' ∧
    R.onward a.length u x' b' = R.exchange needle new 0 (R.onward a.length u x b)

section
variable {needle : Text} {new : α → List α}
  {change : Span → List Inline → Attempt (List Inline)} {rs a b : List Run} {x : Run} {u : Nat}

/-- The end of the runs. -/
theorem exchanges_end (hn : needle ≠ []) (h : rs = a ++ [x]) (hu : u = x.text.length) :
    Exchanges R needle new change rs a u x [] := by
  have hdrop : x.text.drop u = [] := List.drop_eq_nil_of_le (Nat.le_of_eq hu.symm)
  have hnone : spansFrom needle rs a u x [] = [] := by
    rw [spansFrom, hdrop]
    rfl
  have honward : R.onward a.length u x [] = R.behind x ++ [] := by
    rw [Reading.onward, Reading.rest, hdrop]
    rfl
  refine ⟨x, [], ?_, ⟨rfl, rfl, Nat.le_of_eq hu, id⟩, ?_⟩
  · rw [hnone, h]
    rfl
  · rw [honward, exchange_append_of_silent hn (char?_behind x)]
    rfl

theorem spansFrom_next (a : List Run) (y : Run) (b : List Run) (hu : u = x.text.length) :
    spansFrom needle rs a u x (y :: b) = spansFrom needle rs (a ++ [x]) 0 y b := by
  have hdrop : x.text.drop u = [] := List.drop_eq_nil_of_le (Nat.le_of_eq hu.symm)
  have hlen : (text (a ++ [x])).length = (text a).length + u := by
    rw [text_append, List.length_append, text_cons, hu]
    simp [text]
  rw [spansFrom, spansFrom, hdrop, hlen]
  rfl

/-- From one run to the next. -/
theorem exchanges_next (hn : needle ≠ []) {y : Run} (hu : u = x.text.length)
    (h : Exchanges R needle new change rs (a ++ [x]) 0 y b) :
    Exchanges R needle new change rs a u x (y :: b) := by
  obtain ⟨y', b', hval, hkept, honward⟩ := h
  rw [List.length_append] at honward
  refine ⟨x, y' :: b', ?_, ⟨rfl, rfl, Nat.le_of_eq hu, id⟩, ?_⟩
  · rw [spansFrom_next a y b hu, hval, List.append_assoc]
    rfl
  · rw [onward_of_length_le (Nat.le_of_eq hu.symm), onward_of_length_le (Nat.le_of_eq hu.symm),
      exchange_append_of_silent hn (char?_behind x)]
    exact congrArg _ honward

theorem spansFrom_letter {c : Char} (hc : x.text.drop u = c :: x.text.drop (u + 1))
    (hp : needle.isPrefixOf (x.text.drop u ++ text b) = false) :
    spansFrom needle rs a u x b = spansFrom needle rs a (u + 1) x b := by
  rw [hc, List.cons_append] at hp
  rw [spansFrom, spansFrom, hc, List.cons_append, Text.occurrences, hp]
  rfl

/-- A character at which nothing begins. -/
theorem exchanges_letter {c : Char} (hc : x.text.drop u = c :: x.text.drop (u + 1))
    (hp : needle.isPrefixOf (x.text.drop u ++ text b) = false)
    (h : Exchanges R needle new change rs a (u + 1) x b) :
    Exchanges R needle new change rs a u x b := by
  obtain ⟨x', b', hval, hkept, honward⟩ := h
  have hbegins : R.begins needle (R.onward a.length u x b) = false := by
    refine Bool.eq_false_iff.2 fun hb => ?_
    have := isPrefixOf_of_begins hb
    rw [filterMap_onward, hp] at this
    cases this
  have hx := onward_of_drop (R := R) (i := a.length) hc b
  have hx' := onward_of_drop (R := R) (i := a.length) (hkept.drop hc) b'
  refine ⟨x', b', ?_, hkept.trans ⟨rfl, rfl, ?_, id⟩ (Nat.le_succ u), ?_⟩
  · rw [spansFrom_letter hc hp, hval]
  · exact Nat.le_of_succ_le hkept.le
  · rw [hx] at hbegins
    rw [hx, hx', Reading.exchange, hbegins, honward, hkept.bold]
    rfl

/-- An occurrence is spliced after those behind it. -/
theorem spansFrom_occurrence {a' b' : List Run} {y : Run} {w : Nat} (hn : needle ≠ [])
    (hneedle : x.text.drop u ++ text b = needle ++ (y.text.drop w ++ text b'))
    (hlen : (text a).length + u + needle.length = (text a').length + w) :
    spansFrom needle rs a u x b =
      spansFrom needle rs a' w y b' ++ [span (starts 0 rs) needle.length ((text a).length + u)] := by
  rw [spansFrom, hneedle, occurrences_append hn, List.map_cons, List.reverse_cons, hlen]
  rfl

theorem each_concat_of_none {f : Span → List Inline → Attempt (List Inline)} {l : List Span}
    {c c' : List Inline} (h : Attempt.each f l c = { value := c' }) (s : Span) :
    Attempt.each f (l ++ [s]) c = f s c' := by
  rw [Attempt.each_concat, h]
  rfl

theorem length_within {w : Nat} (huw : u < w) (hw : w ≤ x.text.length)
    (hneedle : needle = (x.text.drop u).take (w - u)) : needle.length = w - u := by
  rw [hneedle, List.length_take, List.length_drop]
  omega

theorem spansFrom_within {w : Nat} (hn : needle ≠ []) (huw : u < w) (hw : w ≤ x.text.length)
    (hneedle : needle = (x.text.drop u).take (w - u)) :
    spansFrom needle rs a u x b = spansFrom needle rs a w x b ++
      [span (starts 0 rs) needle.length ((text a).length + u)] := by
  have hlen := length_within huw hw hneedle
  refine spansFrom_occurrence hn ?_ (by omega)
  rw [← List.append_assoc, hneedle]
  congr 1
  have := (List.take_append_drop (w - u) (x.text.drop u)).symm
  rwa [List.drop_drop, Nat.add_sub_cancel' (by omega)] at this

/-- An occurrence within one run. -/
theorem exchanges_within (hs : Splices R new change) (hn : needle ≠ []) (hrs : rs = a ++ x :: b)
    {w : Nat} (huw : u < w) (hw : w ≤ x.text.length)
    (hneedle : needle = (x.text.drop u).take (w - u))
    (hbare : R.BareAt rs (span (starts 0 rs) needle.length ((text a).length + u)))
    (h : Exchanges R needle new change rs a w x b) :
    Exchanges R needle new change rs a u x b := by
  obtain ⟨x', b', hval, hkept, honward⟩ := h
  have hlen := length_within huw hw hneedle
  have hspan : span (starts 0 rs) needle.length ((text a).length + u) =
      ⟨a.length, a.length, u, w⟩ :=
    span_eq hrs hrs (by omega) hw (by omega) (by omega)
  rw [hspan] at hbare
  have hx : R.IsBare x := hbare a.length x (by simp [Span.covers]) (by simp [hrs])
  obtain ⟨c, n, hc⟩ := List.exists_cons_of_ne_nil hn
  obtain ⟨x'', b'', hval', hkept', honward'⟩ :=
    hs.within a x' b' c u w huw hkept.le (hkept.bare hx)
  refine ⟨x'', b'', ?_, hkept.trans hkept' (by omega), ?_⟩
  · rw [spansFrom_within hn huw hw hneedle, each_concat_of_none hval, hspan, hval']
  · rw [honward', honward, hkept.bold, onward_within (Nat.le_of_lt huw), ← hneedle, hc,
      List.map_cons, List.cons_append, exchange_occurrence]
    rw [← List.map_cons, map_letters]

theorem length_across {m : List Run} {y : Run} {w : Nat} (hu : u ≤ x.text.length)
    (hw : w ≤ y.text.length) (hneedle : needle = x.text.drop u ++ (text m ++ y.text.take w)) :
    (text a).length + u + needle.length = (text (a ++ x :: m)).length + w := by
  rw [hneedle, text_append, text_cons]
  simp only [List.length_append, List.length_drop, List.length_take]
  omega

theorem spansFrom_across {m : List Run} {y : Run} {w : Nat} (hn : needle ≠ [])
    (hu : u ≤ x.text.length) (hw : w ≤ y.text.length)
    (hneedle : needle = x.text.drop u ++ (text m ++ y.text.take w)) :
    spansFrom needle rs a u x (m ++ y :: b) = spansFrom needle rs (a ++ x :: m) w y b ++
      [span (starts 0 rs) needle.length ((text a).length + u)] := by
  refine spansFrom_occurrence hn ?_ (length_across hu hw hneedle)
  rw [hneedle, text_append, text_cons]
  simp only [List.append_assoc]
  rw [← List.append_assoc (y.text.take w), List.take_append_drop]

/-- An occurrence across several runs. -/
theorem exchanges_across (hs : Splices R new change) (hn : needle ≠ []) {m : List Run} {y : Run}
    (hrs : rs = a ++ x :: (m ++ y :: b)) {w : Nat} (hu : u < x.text.length) (hpos : 0 < w)
    (hw : w ≤ y.text.length) (hneedle : needle = x.text.drop u ++ (text m ++ y.text.take w))
    (hbare : R.BareAt rs (span (starts 0 rs) needle.length ((text a).length + u)))
    (h : Exchanges R needle new change rs (a ++ x :: m) w y b) :
    Exchanges R needle new change rs a u x (m ++ y :: b) := by
  obtain ⟨y', b', hval, hkept, honward⟩ := h
  have hrs' : rs = (a ++ x :: m) ++ y :: b := by
    rw [hrs, List.append_assoc]
    rfl
  have hcount : (a ++ x :: m).length = a.length + 1 + m.length := by
    rw [List.length_append, List.length_cons]
    omega
  have hspan := span_eq hrs hrs' hu hw hpos (length_across (a := a) (Nat.le_of_lt hu) hw hneedle)
  rw [hspan, hcount] at hbare
  have hat : ∀ i r, i < m.length + 2 → (x :: (m ++ [y]))[i]? = some r → R.IsBare r := by
    intro i r hi hr
    refine hbare (a.length + i) r ?_ ?_
    · refine Span.covers_iff.2 ⟨Nat.le_add_right .., ?_⟩
      show a.length + i ≤ a.length + 1 + m.length
      omega
    · have hall : rs = a ++ (x :: (m ++ [y]) ++ b) := by simp [hrs]
      have hlength : (x :: (m ++ [y])).length = m.length + 2 := by
        rw [List.length_cons, List.length_append, List.length_singleton]
      rw [hall, List.getElem?_append_right (Nat.le_add_right ..), Nat.add_sub_cancel_left,
        List.getElem?_append_left (by rw [hlength]; exact hi), hr]
  have hx : R.IsBare x := hat 0 x (by omega) rfl
  have hm : ∀ r ∈ m, R.IsBare r := by
    intro r hr
    obtain ⟨i, hi, rfl⟩ := List.mem_iff_getElem.1 hr
    refine hat (i + 1) _ (by omega) ?_
    rw [List.getElem?_cons_succ, List.getElem?_append_left hi, List.getElem?_eq_getElem hi]
  have hy : R.IsBare y := hat (m.length + 1) y (by omega) (by simp)
  rw [hcount] at honward
  obtain ⟨c, n, hc⟩ := List.exists_cons_of_ne_nil (l := x.text.drop u) fun hnil =>
    absurd (List.drop_eq_nil_iff.1 hnil) (by omega)
  obtain ⟨x'', b'', hval', hkept', honward'⟩ :=
    hs.across a x m y' b' c u w hu hkept.le hx (hkept.bare hy)
  refine ⟨x'', b'', ?_, hkept', ?_⟩
  · rw [spansFrom_across hn (Nat.le_of_lt hu) hw hneedle, each_concat_of_none hval, hspan, hcount,
      List.append_assoc, List.cons_append, hval']
  · rw [honward', honward, onward_across hx, hc, List.map_cons, List.cons_append, List.cons_append,
      exchange_occurrence]
    rw [← List.cons_append, ← List.map_cons, ← hc, List.map_append, List.map_append, map_letters,
      map_letters, map_char?_runs hm, hneedle, List.map_append, List.map_append]

/-- Splices made from the last occurrence to the first exchange them all. The induction is on what is
left to read. -/
theorem each_splices (hn : needle ≠ []) (k : Nat) :
    ∀ (a : List Run) (x : Run) (b : List Run) (u : Nat), rs = a ++ x :: b → u ≤ x.text.length →
      x.text.length - u + (text b).length + b.length = k →
      (∀ s ∈ spansFrom needle rs a u x b, Splices R new change ∧ R.BareAt rs s) →
      Exchanges R needle new change rs a u x b := by
  induction k using Nat.strongRecOn with
  | ind k ih =>
    intro a x b u hrs hu hk hspans
    by_cases hend : u = x.text.length
    · cases b with
      | nil => exact exchanges_end hn hrs hend
      | cons y b =>
        rw [spansFrom_next a y b hend] at hspans
        rw [text_cons, List.length_append, List.length_cons] at hk
        refine exchanges_next hn hend (ih _ ?_ (a ++ [x]) y b 0 ?_ (Nat.zero_le _) rfl hspans)
        · omega
        · rw [hrs, List.append_assoc]
          rfl
    · have hlt : u < x.text.length := by omega
      cases hp : needle.isPrefixOf (x.text.drop u ++ text b) with
      | false =>
        have hc : x.text.drop u = x.text[u] :: x.text.drop (u + 1) := List.drop_eq_getElem_cons hlt
        rw [spansFrom_letter hc hp] at hspans
        exact exchanges_letter hc hp (ih _ (by omega) a x b (u + 1) hrs hlt rfl hspans)
      | true =>
        obtain ⟨r, hr⟩ := List.isPrefixOf_iff_prefix.1 hp
        have htext : text ({ x with text := x.text.drop u } :: b) = needle ++ r := hr.symm
        obtain ⟨m, y, b', w, hsplit, hpos, hw, hneedle, -⟩ := exists_end hn htext
        cases m with
        | nil =>
          obtain ⟨rfl, rfl⟩ := List.cons.inj hsplit
          have hw' : u + w ≤ x.text.length := by
            rw [List.length_drop] at hw
            omega
          have hneedle' : needle = (x.text.drop u).take (u + w - u) := by
            rw [hneedle, Nat.add_sub_cancel_left]
            rfl
          rw [spansFrom_within hn (by omega) hw' hneedle'] at hspans
          obtain ⟨hspans, hone⟩ := List.forall_mem_append.1 hspans
          obtain ⟨hs, hbare⟩ := hone _ (List.mem_singleton_self _)
          refine exchanges_within hs hn hrs (by omega) hw' hneedle' hbare ?_
          exact ih _ (by omega) a x b (u + w) hrs hw' rfl hspans
        | cons x' m =>
          rw [List.cons_append] at hsplit
          obtain ⟨rfl, rfl⟩ := List.cons.inj hsplit
          have hneedle' : needle = x.text.drop u ++ (text m ++ y.text.take w) := by
            rw [hneedle, text_cons, List.append_assoc]
          rw [spansFrom_across hn hu hw hneedle'] at hspans
          obtain ⟨hspans, hone⟩ := List.forall_mem_append.1 hspans
          obtain ⟨hs, hbare⟩ := hone _ (List.mem_singleton_self _)
          refine exchanges_across hs hn hrs hlt hpos hw hneedle' hbare ?_
          have hrs' : rs = (a ++ x :: m) ++ y :: b' := by
            rw [hrs, List.append_assoc]
            rfl
          refine ih _ ?_ (a ++ x :: m) y b' w hrs' hw rfl hspans
          rw [text_append, text_cons] at hk
          simp only [List.length_append, List.length_cons] at hk
          omega

/-- Splices at all occurrences of a needle exchange the pieces of each and keep all others. -/
theorem atEach_splices (hn : needle ≠ []) (rs : List Run)
    (hs : spans needle (rs.map .run) ≠ [] → Splices R new change)
    (hbare : ∀ i r, reaches needle (rs.map .run) i = true → rs[i]? = some r → R.IsBare r) :
    ∃ rs', atEach needle change (rs.map .run) = { value := rs'.map .run } ∧
      R.runs 0 rs' = R.exchange needle new 0 (R.runs 0 rs) := by
  cases rs with
  | nil => exact ⟨[], rfl, rfl⟩
  | cons x b =>
    have hruns : ((x :: b).map Inline.run).filterMap Inline.run? = x :: b := filterMap_run _
    have hspans : (spans needle ((x :: b).map .run)).reverse = spansFrom needle (x :: b) [] 0 x b := by
      rw [spans, hruns]
      rfl
    have hall : Exchanges R needle new change (x :: b) [] 0 x b := by
      refine each_splices hn _ [] x b 0 rfl (Nat.zero_le _) rfl fun s hmem => ?_
      rw [← hspans, List.mem_reverse] at hmem
      refine ⟨hs (List.ne_nil_of_mem hmem), fun i r hcov hr => ?_⟩
      exact hbare i r (List.any_eq_true.2 ⟨s, hmem, hcov⟩) hr
    obtain ⟨x', b', hval, -, honward⟩ := hall
    refine ⟨x' :: b', ?_, honward⟩
    rw [atEach_eq, hspans, hval]
    rfl

end

/-! ## Storing texts among runs -/

theorem edit_middle (f : Run → List Inline) (a : List Run) (x : Run) (b : List Run) :
    edit f a.length ((a ++ x :: b).map .run) = a.map .run ++ (f x ++ b.map .run) := by
  induction a with
  | nil => rfl
  | cons y a ih => exact congrArg (Inline.run y :: ·) ih

theorem put_middle (t : Text) (a : List Run) (x : Run) (b : List Run) :
    put a.length t ((a ++ x :: b).map .run) = (a ++ x.store t :: b).map .run := by
  rw [put, edit_middle, List.map_append, List.map_cons]
  rfl

theorem textAt_middle (a : List Run) (x : Run) (b : List Run) :
    textAt ((a ++ x :: b).map .run) a.length = x.text := by
  rw [textAt, filterMap_run]
  simp

/-- A run that stands behind another one. -/
theorem middle_behind (a : List Run) (x : Run) (m : List Run) (y : Run) (b : List Run) :
    a ++ x :: (m ++ y :: b) = (a ++ x :: m) ++ y :: b ∧
      a.length + 1 + m.length = (a ++ x :: m).length := by
  constructor
  · rw [List.append_assoc, List.cons_append]
  · rw [List.length_append, List.length_cons]
    omega

theorem put_behind (t : Text) (a : List Run) (x : Run) (m : List Run) (y : Run) (b : List Run) :
    put (a.length + 1 + m.length) t ((a ++ x :: (m ++ y :: b)).map .run) =
      (a ++ x :: (m ++ y.store t :: b)).map .run := by
  obtain ⟨hsplit, hlen⟩ := middle_behind a x m y b
  rw [hsplit, hlen, put_middle, (middle_behind a x m (y.store t) b).1]

theorem textAt_behind (a : List Run) (x : Run) (m : List Run) (y : Run) (b : List Run) :
    textAt ((a ++ x :: (m ++ y :: b)).map .run) (a.length + 1 + m.length) = y.text := by
  obtain ⟨hsplit, hlen⟩ := middle_behind a x m y b
  rw [hsplit, hlen, textAt_middle]

theorem foldl_put_middle (a m b : List Run) :
    (List.range' a.length m.length).foldl (fun c i => put i [] c) ((a ++ (m ++ b)).map .run) =
      (a ++ (m.map (Run.store []) ++ b)).map .run := by
  induction m generalizing a with
  | nil => rfl
  | cons x m ih =>
    have hrest := ih (a ++ [x.store []])
    rw [List.length_append, List.append_assoc, List.append_assoc] at hrest
    rw [List.length_cons, List.range'_succ, List.foldl_cons, List.cons_append, put_middle]
    exact hrest

/-- The runs between two others are emptied. -/
theorem clearBetween_middle (a : List Run) (x : Run) (m : List Run) (y : Run) (b : List Run) :
    clearBetween a.length (a.length + 1 + m.length) ((a ++ x :: (m ++ y :: b)).map .run) =
      (a ++ x :: (m.map (Run.store []) ++ y :: b)).map .run := by
  have hlen : a.length + 1 + m.length - a.length - 1 = m.length := by omega
  have hrest := foldl_put_middle (a ++ [x]) m (y :: b)
  rw [List.length_append, List.append_assoc, List.append_assoc] at hrest
  rw [clearBetween, hlen]
  exact hrest

/-- The run behind is stored into after the runs between were emptied. -/
theorem put_clearBetween (t : Text) (a : List Run) (x : Run) (m : List Run) (y : Run)
    (b : List Run) :
    put (a.length + 1 + m.length) t
        (clearBetween a.length (a.length + 1 + m.length) ((a ++ x :: (m ++ y :: b)).map .run)) =
      (a ++ x :: (m.map (Run.store []) ++ y.store t :: b)).map .run := by
  have hput := put_behind t a x (m.map (Run.store [])) y b
  rw [List.length_map] at hput
  rw [clearBetween_middle, hput]

theorem store_eq {t : Text} (h : Run.IsStored t) (r : Run) :
    r.store t = { bold := r.bold, text := t } := by
  rw [Run.store, Run.storable_eq_self h.isXmlChar]
  exact congrArg (Run.mk r.bold · []) h.readBack

theorem Reading.isBare_store (R : Reading α) {t : Text} (h : Run.IsStored t) (r : Run) :
    R.IsBare (r.store t) := by
  rw [store_eq h]
  exact ⟨h, rfl⟩

theorem kept_store {u : Nat} {x : Run} (hu : u ≤ x.text.length) {t : Text}
    (ht : Run.IsStored (x.text.take u ++ t)) :
    R.Kept u x (x.store (x.text.take u ++ t)) := by
  have hlen : (x.text.take u).length = u := List.length_take_of_le hu
  refine ⟨rfl, ?_, ?_, fun _ => R.isBare_store ht x⟩
  · rw [store_eq ht, List.take_left' hlen]
  · rw [store_eq ht, List.length_append, hlen]
    exact Nat.le_add_right ..

/-- A run with only its beginning left. -/
theorem kept_take {u : Nat} {x : Run} (hu : u ≤ x.text.length)
    (hx : Run.IsStored (x.text.take u)) : R.Kept u x (x.store (x.text.take u)) := by
  have := kept_store (R := R) (t := []) hu (by rwa [List.append_nil])
  rwa [List.append_nil] at this

/-- Nothing is read of emptied runs. -/
theorem runs_emptied (i : Nat) (m : List Run) : R.runs i (m.map (Run.store [])) = [] := by
  induction m generalizing i with
  | nil => rfl
  | cons r m ih => exact ih (i + 1)

end MailMerge.Splice
