import MailMerge.Proofs.Document.Splicing
/-!
# What splicing does to pictures

A replacement reaches the runs from the one that holds the first character of its occurrence to the
one that holds the last, and storing their texts takes their pictures away. A text puts none there;
a picture is put behind the first of the runs. Occurrences are replaced from the last to the first,
so a picture that was put in lies behind all runs that are reached later on.

* `pictures_atEach_putText`: putting a text in costs the pictures of the runs that are reached.
* `pictures_atEach_putPicture`: putting a picture in costs the same and adds one for each occurrence.
-/
namespace MailMerge

/-- The pictures of a piece of a paragraph. -/
def Inline.pictures : Inline → List Picture
  | .run r => r.pictures
  | .link rs => rs.flatMap Run.pictures

namespace Splice

/-- The pictures of a content. -/
def pictures (c : List Inline) : List Picture := c.flatMap Inline.pictures

/-- The pictures of each run of a content. -/
def runPictures (c : List Inline) : List (List Picture) :=
  (c.filterMap Inline.run?).map Run.pictures

/-- The pictures in the links of a content. -/
def linkPictures (c : List Inline) : List Picture :=
  (c.filter (·.run?.isNone)).flatMap Inline.pictures

theorem pictures_perm (c : List Inline) :
    (pictures c).Perm ((runPictures c).flatten ++ linkPictures c) := by
  induction c with
  | nil => exact List.Perm.refl _
  | cons x c ih =>
    cases x with
    | run r =>
      have hrun : runPictures (.run r :: c) = r.pictures :: runPictures c := rfl
      have hlink : linkPictures (.run r :: c) = linkPictures c := rfl
      rw [hrun, hlink, List.flatten_cons, List.append_assoc]
      exact ih.append_left r.pictures
    | link rs =>
      have hrun : runPictures (.link rs :: c) = runPictures c := rfl
      have hlink : linkPictures (.link rs :: c) = rs.flatMap Run.pictures ++ linkPictures c := rfl
      rw [hrun, hlink]
      exact (ih.append_left _).trans (List.perm_append_comm_assoc ..)

/-! ## Emptied places -/

section
variable {α : Type}

/-- The list with the members at certain places emptied. -/
def emptied (places : Nat → Bool) (l : List (List α)) : List (List α) :=
  l.mapIdx fun i x => if places i then [] else x

/-- What the members at certain places hold. -/
def heldAt (places : Nat → Bool) (l : List (List α)) : List α :=
  (l.mapIdx fun i x => if places i then x else []).flatten

theorem emptied_cons (f : Nat → Bool) (x : List α) (l : List (List α)) :
    emptied f (x :: l) = (if f 0 then [] else x) :: emptied (fun i => f (i + 1)) l :=
  List.mapIdx_cons

theorem emptied_congr {f g : Nat → Bool} {l : List (List α)} (h : ∀ i, f i = true ↔ g i = true) :
    emptied f l = emptied g l :=
  congrArg (emptied · l) (funext fun i => Bool.eq_iff_iff.2 (h i))

theorem length_emptied (f : Nat → Bool) (l : List (List α)) : (emptied f l).length = l.length :=
  List.length_mapIdx

theorem emptied_nowhere {f : Nat → Bool} {l : List (List α)} (h : ∀ i, f i = false) :
    emptied f l = l := by
  refine List.ext_getElem? fun i => ?_
  simp [emptied, h]

theorem emptied_emptied (f g : Nat → Bool) (l : List (List α)) :
    emptied f (emptied g l) = emptied (fun i => f i || g i) l := by
  refine List.ext_getElem? fun i => ?_
  simp only [emptied, List.getElem?_mapIdx, Option.map_map]
  congr 1
  funext x
  by_cases hf : f i = true <;> simp [hf]

theorem emptied_append {f : Nat → Bool} (a b : List (List α))
    (h : ∀ i, a.length ≤ i → f i = false) : emptied f (a ++ b) = emptied f a ++ b := by
  have hb : emptied (fun i => f (i + a.length)) b = b :=
    emptied_nowhere fun i => h _ (Nat.le_add_left ..)
  rw [emptied, List.mapIdx_append]
  exact congrArg (emptied f a ++ ·) hb

/-- Emptying places does not reach what was put in behind them. -/
theorem perm_emptied_insert {f : Nat → Bool} {k : Nat} (l m : List (List α)) (hk : k ≤ l.length)
    (h : ∀ i, k ≤ i → f i = false) :
    (emptied f (l.take k ++ (m ++ l.drop k))).flatten.Perm
      ((emptied f l).flatten ++ m.flatten) := by
  have hlen : (l.take k).length = k := by
    rw [List.length_take]
    omega
  have hl : emptied f l = emptied f (l.take k) ++ l.drop k := by
    rw [← emptied_append _ _ fun i hi => h i (hlen ▸ hi), List.take_append_drop]
  rw [hl, emptied_append _ _ fun i hi => h i (hlen ▸ hi)]
  simp only [List.flatten_append, List.append_assoc]
  exact List.perm_append_comm.append_left _

/-- What is at some places, and the rest. -/
theorem perm_emptied_heldAt (f : Nat → Bool) (l : List (List α)) :
    l.flatten.Perm ((emptied f l).flatten ++ heldAt f l) := by
  induction l generalizing f with
  | nil => exact List.Perm.refl _
  | cons x l ih =>
    have hrest := (ih fun i => f (i + 1)).append_left x
    rw [emptied_cons, heldAt, List.mapIdx_cons, List.flatten_cons, List.flatten_cons,
      List.flatten_cons]
    by_cases hx : f 0 = true
    · rw [if_pos hx, if_pos hx]
      exact hrest.trans (List.perm_append_comm_assoc ..)
    · rw [if_neg hx, if_neg hx, List.append_assoc]
      exact hrest

theorem heldAt_eq_nil_iff {f : Nat → Bool} {l : List (List α)} :
    heldAt f l = [] ↔ ∀ i x, l[i]? = some x → f i = true → x = [] := by
  simp only [heldAt, List.flatten_eq_nil_iff, List.mem_iff_getElem?, List.getElem?_mapIdx,
    Option.map_eq_some_iff]
  constructor
  · intro h i x hx hf
    have := h _ ⟨i, x, hx, rfl⟩
    rwa [if_pos hf] at this
  · intro h y hy
    obtain ⟨i, x, hx, rfl⟩ := hy
    split
    · exact h i x hx ‹_›
    · rfl

end

/-! ## One splice -/

/-- Whether an occurrence reaches the run of an index. -/
def Span.covers (s : Span) (i : Nat) : Bool := decide (s.first ≤ i) && decide (i ≤ s.last)

/-- The spans of the occurrences of a needle in a content. -/
def spans (needle : Text) (c : List Inline) : List Span :=
  (Text.occurrences needle 0 0 (text (c.filterMap Inline.run?))).map
    (span (starts 0 (c.filterMap Inline.run?)) needle.length)

/-- Whether a replacement of a needle reaches the run of an index. -/
def reaches (needle : Text) (c : List Inline) (i : Nat) : Bool := (spans needle c).any (·.covers i)

/-- The pictures in the runs that the replacements of a needle reach. -/
def reached (needle : Text) (c : List Inline) : List Picture :=
  heldAt (reaches needle c) (runPictures c)

section
variable {c : List Inline} {f : Run → List Inline}

theorem linkPictures_edit (i : Nat) (h : ∀ r, linkPictures (f r) = []) :
    linkPictures (edit f i c) = linkPictures c := by
  induction c generalizing i with
  | nil => cases i <;> rfl
  | cons x c ih =>
    cases x with
    | link rs =>
      rw [edit_link]
      exact congrArg (rs.flatMap Run.pictures ++ ·) (ih i)
    | run r =>
      cases i with
      | zero =>
        have hr := h r
        unfold linkPictures at hr ⊢
        rw [edit, List.filter_append, List.flatMap_append, hr]
        rfl
      | succ i => exact ih i

/-- A run that is made anew has no pictures; pieces may come behind it. -/
theorem runPictures_edit {ys : List (List Picture)} {i : Nat}
    (h : ∀ r, runPictures (f r) = [] :: ys) (hi : ys = [] ∨ i < (runPictures c).length) :
    runPictures (edit f i c) = (emptied (· == i) (runPictures c)).take (i + 1) ++
      (ys ++ (emptied (· == i) (runPictures c)).drop (i + 1)) := by
  induction c generalizing i with
  | nil =>
    have hys : ys = [] := hi.resolve_right (Nat.not_lt_zero i)
    rw [hys]
    cases i <;> rfl
  | cons x c ih =>
    cases x with
    | link rs =>
      rw [edit_link]
      exact ih hi
    | run r =>
      have hcons (x : Run) (d : List Inline) :
          runPictures (.run x :: d) = x.pictures :: runPictures d := rfl
      cases i with
      | zero =>
        have happ : runPictures (f r ++ c) = runPictures (f r) ++ runPictures c := by
          simp [runPictures]
        have hrest : emptied (fun i => i + 1 == 0) (runPictures c) = runPictures c :=
          emptied_nowhere fun i => by simp
        rw [edit, happ, h, hcons, emptied_cons, hrest]
        simp
      | succ i =>
        have hi' : ys = [] ∨ i < (runPictures c).length := by
          refine hi.imp_right fun hlt => ?_
          rw [hcons, List.length_cons] at hlt
          omega
        have hshift : (fun j => j + 1 == i + 1) = (· == i) := by
          funext j
          simp
        rw [edit, hcons, ih hi', hcons, emptied_cons, hshift]
        simp

theorem runPictures_put (i : Nat) (t : Text) (c : List Inline) :
    runPictures (put i t c) = emptied (· == i) (runPictures c) := by
  have hedit := @runPictures_edit c (fun r => [.run (r.store t)]) [] i (fun _ => rfl) (.inl rfl)
  rw [put, hedit, List.nil_append, List.take_append_drop]

theorem linkPictures_put (i : Nat) (t : Text) (c : List Inline) :
    linkPictures (put i t c) = linkPictures c :=
  linkPictures_edit i fun _ => rfl

theorem pictures_clearBetween (first last : Nat) (c : List Inline) :
    runPictures (clearBetween first last c) =
        emptied (fun i => decide (first < i) && decide (i < last)) (runPictures c) ∧
      linkPictures (clearBetween first last c) = linkPictures c := by
  have hfold (l : List Nat) (c : List Inline) :
      runPictures (l.foldl (fun c i => put i [] c) c) =
          emptied (fun i => decide (i ∈ l)) (runPictures c) ∧
        linkPictures (l.foldl (fun c i => put i [] c) c) = linkPictures c := by
    induction l generalizing c with
    | nil => exact ⟨(emptied_nowhere fun _ => by simp).symm, rfl⟩
    | cons i l ih =>
      obtain ⟨hrun, hlink⟩ := ih (put i [] c)
      refine ⟨hrun.trans ?_, hlink.trans (linkPictures_put i [] c)⟩
      rw [runPictures_put, emptied_emptied]
      refine emptied_congr fun j => ?_
      simp [or_comm]
  obtain ⟨hrun, hlink⟩ := hfold (List.range' (first + 1) (last - first - 1)) c
  refine ⟨hrun.trans (emptied_congr fun i => ?_), hlink⟩
  simp only [decide_eq_true_eq, Bool.and_eq_true, List.mem_range'_1]
  omega

theorem Span.covers_iff {s : Span} {i : Nat} : s.covers i = true ↔ s.first ≤ i ∧ i ≤ s.last := by
  simp [Span.covers]

/-- A text empties the runs of its occurrence. -/
theorem pictures_putText {value : Text} {s : Span} (hs : s.first ≤ s.last)
    (hf : (putText value s c).fault = none) :
    runPictures (putText value s c).value = emptied s.covers (runPictures c) ∧
      linkPictures (putText value s c).value = linkPictures c := by
  by_cases hone : s.first = s.last
  · simp only [putText, if_pos hone]
    refine ⟨?_, linkPictures_put ..⟩
    rw [runPictures_put]
    refine emptied_congr fun i => ?_
    rw [Span.covers_iff, beq_iff_eq]
    omega
  · have hall : value.all isXmlChar = true := by
      refine Decidable.byContradiction fun hne => ?_
      simp [putText, hone, hne] at hf
    simp only [putText, if_neg hone, if_pos hall]
    obtain ⟨hrun, hlink⟩ := pictures_clearBetween s.first s.last
      (put s.first (head c s ++ value) c)
    constructor
    · rw [runPictures_put, hrun, runPictures_put, emptied_emptied, emptied_emptied]
      refine emptied_congr fun i => ?_
      simp only [Span.covers_iff, Bool.or_eq_true, Bool.and_eq_true, beq_iff_eq, decide_eq_true_eq]
      omega
    · rw [linkPictures_put, hlink, linkPictures_put]

/-- A picture empties the runs of its occurrence and stands behind the first of them. -/
theorem pictures_putPicture {pic : Picture} {s : Span} (hs : s.first ≤ s.last)
    (hlt : s.first < (runPictures c).length) :
    linkPictures (putPicture (.ok pic) s c).value = linkPictures c ∧
      ∃ new, new.flatten = [pic] ∧ runPictures (putPicture (.ok pic) s c).value =
        (emptied s.covers (runPictures c)).take (s.first + 1) ++
          (new ++ (emptied s.covers (runPictures c)).drop (s.first + 1)) := by
  -- the runs behind the first, which are emptied before the picture is put in
  obtain ⟨c', hc', hlink, hrun⟩ : ∃ c',
      c' = (if s.first = s.last then c
        else put s.last (tail c s) (clearBetween s.first s.last c)) ∧
      linkPictures c' = linkPictures c ∧
      emptied (· == s.first) (runPictures c') = emptied s.covers (runPictures c) := by
    refine ⟨_, rfl, ?_⟩
    by_cases hone : s.first = s.last
    · rw [if_pos hone]
      refine ⟨rfl, emptied_congr fun i => ?_⟩
      rw [Span.covers_iff, beq_iff_eq]
      omega
    · rw [if_neg hone]
      obtain ⟨hrun, hlink⟩ := pictures_clearBetween s.first s.last c
      refine ⟨by rw [linkPictures_put, hlink], ?_⟩
      rw [runPictures_put, hrun, emptied_emptied, emptied_emptied]
      refine emptied_congr fun i => ?_
      simp only [Span.covers_iff, Bool.or_eq_true, Bool.and_eq_true, beq_iff_eq, decide_eq_true_eq]
      omega
  have hlen : s.first < (runPictures c').length := by
    have := congrArg List.length hrun
    rw [length_emptied, length_emptied] at this
    omega
  simp only [putPicture, ← hc']
  constructor
  · rw [linkPictures_edit _ fun r => ?_, hlink]
    split <;> rfl
  · -- a run behind the picture takes what followed the token, without pictures
    refine ⟨[pic] :: if s.first = s.last && !(tail c s).isEmpty then [[]] else [], ?_, ?_⟩
    · split <;> rfl
    · rw [runPictures_edit (fun r => ?_) (.inr hlen), hrun]
      split <;> rfl

end

/-! ## All splices -/

theorem atEach_eq (needle : Text) (change : Span → List Inline → Attempt (List Inline))
    (c : List Inline) : atEach needle change c = Attempt.each change (spans needle c).reverse c :=
  rfl

theorem holder_mono (l : List Nat) {p q : Nat} (h : p ≤ q) : holder l p ≤ holder l q := by
  have hlen : (l.takeWhile (· ≤ p)).length ≤ (l.takeWhile (· ≤ q)).length := by
    induction l with
    | nil => exact Nat.le_refl _
    | cons i l ih =>
      by_cases hi : i ≤ p
      · have hi' : i ≤ q := Nat.le_trans hi h
        simpa [List.takeWhile_cons, hi, hi'] using ih
      · simp [List.takeWhile_cons, hi]
  exact Nat.sub_le_sub_right hlen 1

section
variable {needle : Text} {c : List Inline}

theorem span_bounds (hn : 0 < needle.length) {s : Span} (hs : s ∈ spans needle c) :
    s.first ≤ s.last ∧ s.first < (runPictures c).length := by
  obtain ⟨p, hp, rfl⟩ := List.mem_map.1 hs
  have hbound := (Text.occurrences_bounds needle _ 0 0 p hp).2
  obtain ⟨a, x, b, hrs, hhold, -⟩ := holder_spec (c.filterMap Inline.run?) p (by omega)
  have hlen := congrArg List.length hrs
  rw [List.length_map, List.length_append, List.length_cons] at hlen
  rw [runPictures, List.length_map]
  refine ⟨holder_mono _ (by omega), ?_⟩
  show holder _ p < _
  omega

/-- An occurrence ends in or before the run in which the next one begins. -/
theorem spans_pairwise (hn : 0 < needle.length) (c : List Inline) :
    (spans needle c).reverse.Pairwise fun s s' => s'.last ≤ s.first := by
  rw [List.pairwise_reverse, spans, List.pairwise_map]
  refine (Text.occurrences_pairwise hn _ 0 0).imp fun {p q} hpq => ?_
  exact holder_mono _ (by omega)

/-- Texts empty the runs of their occurrences, whatever the order. -/
theorem pictures_each_putText {value : Text} (l : List Span) (c : List Inline)
    (hl : ∀ s ∈ l, s.first ≤ s.last) (hf : (Attempt.each (putText value) l c).fault = none) :
    runPictures (Attempt.each (putText value) l c).value =
        emptied (fun i => l.any (·.covers i)) (runPictures c) ∧
      linkPictures (Attempt.each (putText value) l c).value = linkPictures c := by
  induction l generalizing c with
  | nil => exact ⟨(emptied_nowhere fun _ => rfl).symm, rfl⟩
  | cons s l ih =>
    cases hfault : (putText value s c).fault with
    | some e =>
      rw [Attempt.each_cons_of_fault _ _ _ hfault, hfault] at hf
      cases hf
    | none =>
      rw [Attempt.each_cons_of_none _ _ _ hfault] at hf ⊢
      obtain ⟨hrun, hlink⟩ := pictures_putText (hl s (List.mem_cons_self ..)) hfault
      obtain ⟨hrun', hlink'⟩ := ih _ (fun s' hs' => hl s' (List.mem_cons_of_mem _ hs')) hf
      refine ⟨?_, hlink'.trans hlink⟩
      rw [hrun', hrun, emptied_emptied]
      refine emptied_congr fun i => ?_
      simp [or_comm]

/-- The induction is on the occurrences, of which the later ones come first: a picture that was put
in lies behind the runs of those still to come, which are then runs of the content as it was. -/
theorem pictures_each_putPicture (pic : Picture) (l : List Span) (c : List Inline)
    (hl : ∀ s ∈ l, s.first ≤ s.last ∧ s.first < (runPictures c).length)
    (hord : l.Pairwise fun s s' => s'.last ≤ s.first) :
    linkPictures (Attempt.each (putPicture (.ok pic)) l c).value = linkPictures c ∧
      (runPictures (Attempt.each (putPicture (.ok pic)) l c).value).flatten.Perm
        ((emptied (fun i => l.any (·.covers i)) (runPictures c)).flatten ++
          List.replicate l.length pic) := by
  induction l generalizing c with
  | nil =>
    have hnone : emptied (fun i => [].any (Span.covers · i)) (runPictures c) = runPictures c :=
      emptied_nowhere fun _ => rfl
    refine ⟨rfl, ?_⟩
    rw [hnone, List.length_nil, List.replicate_zero, List.append_nil]
    exact List.Perm.refl _
  | cons s l ih =>
    obtain ⟨hlast, hord⟩ := List.pairwise_cons.1 hord
    obtain ⟨hle, hlt⟩ := hl s (List.mem_cons_self ..)
    obtain ⟨hlink, new, hnew, hrun⟩ := @pictures_putPicture c pic s hle hlt
    have hlen : s.first + 1 ≤ (emptied s.covers (runPictures c)).length := by
      rw [length_emptied]
      omega
    obtain ⟨hlink', hperm⟩ := ih (putPicture (.ok pic) s c).value (fun s' hs' => by
      have := hlast s' hs'
      have := (hl s' (List.mem_cons_of_mem _ hs')).1
      rw [hrun, List.length_append, List.length_take]
      omega) hord
    rw [Attempt.each_cons_of_none _ _ _ rfl]
    refine ⟨hlink'.trans hlink, hperm.trans ?_⟩
    have hbehind : ∀ i, s.first + 1 ≤ i → l.any (·.covers i) = false := by
      intro i hi
      rw [List.any_eq_false]
      intro s' hs' hcov
      have := hlast s' hs'
      have := (Span.covers_iff.1 hcov).2
      omega
    have hall : emptied (fun i => (s :: l).any (·.covers i)) (runPictures c) =
        emptied (fun i => l.any (·.covers i)) (emptied s.covers (runPictures c)) := by
      rw [emptied_emptied]
      exact emptied_congr fun i => by simp [or_comm]
    rw [hrun, hall, List.length_cons, List.replicate_succ]
    refine ((perm_emptied_insert _ new hlen hbehind).append_right _).trans ?_
    rw [hnew, List.append_assoc]
    exact List.Perm.refl _

/-- What is lost and what is new, when some runs are emptied and pictures put in. -/
theorem perm_pictures {c c' : List Inline} {f : Nat → Bool} {new : List Picture}
    (hlink : linkPictures c' = linkPictures c)
    (hrun : (runPictures c').flatten.Perm ((emptied f (runPictures c)).flatten ++ new)) :
    (pictures c' ++ heldAt f (runPictures c)).Perm (pictures c ++ new) := by
  refine List.perm_iff_count.2 fun x => ?_
  have hafter := (pictures_perm c').count_eq x
  have hbefore := (pictures_perm c).count_eq x
  have hheld := (perm_emptied_heldAt f (runPictures c)).count_eq x
  have hnew := hrun.count_eq x
  rw [hlink] at hafter
  simp only [List.count_append] at hafter hbefore hheld hnew ⊢
  omega

theorem emptied_reaches (needle : Text) (c : List Inline) :
    emptied (fun i => (spans needle c).reverse.any (·.covers i)) (runPictures c) =
      emptied (reaches needle c) (runPictures c) :=
  emptied_congr fun i => by rw [List.any_reverse, reaches]

/-- Putting a text in costs the pictures of the runs that are reached. -/
theorem pictures_atEach_putText {value : Text} (hn : 0 < needle.length)
    (hf : (atEach needle (putText value) c).fault = none) :
    (pictures (atEach needle (putText value) c).value ++ reached needle c).Perm (pictures c) := by
  rw [atEach_eq] at hf ⊢
  obtain ⟨hrun, hlink⟩ := pictures_each_putText _ c
    (fun s hs => (span_bounds hn (List.mem_reverse.1 hs)).1) hf
  rw [emptied_reaches] at hrun
  have hperm := @perm_pictures c _ _ [] hlink (by rw [hrun, List.append_nil])
  rwa [List.append_nil] at hperm

/-- Putting a picture in costs the same and adds one for each occurrence. -/
theorem pictures_atEach_putPicture (pic : Picture) (hn : 0 < needle.length) :
    (pictures (atEach needle (putPicture (.ok pic)) c).value ++ reached needle c).Perm
      (pictures c ++ List.replicate (spans needle c).length pic) := by
  rw [atEach_eq]
  obtain ⟨hlink, hperm⟩ := pictures_each_putPicture pic (spans needle c).reverse c
    (fun s hs => span_bounds hn (List.mem_reverse.1 hs)) (spans_pairwise hn c)
  rw [emptied_reaches, List.length_reverse] at hperm
  exact perm_pictures hlink hperm

theorem reached_eq_nil_iff : reached needle c = [] ↔
    ∀ i r, (c.filterMap Inline.run?)[i]? = some r → reaches needle c i = true → r.pictures = [] := by
  rw [reached, heldAt_eq_nil_iff]
  simp only [runPictures, List.getElem?_map, Option.map_eq_some_iff]
  constructor
  · intro h i r hr
    exact h i _ ⟨r, hr, rfl⟩
  · intro h i x hx
    obtain ⟨r, hr, rfl⟩ := hx
    exact h i r hr

theorem reached_of_spans_eq_nil (h : spans needle c = []) : reached needle c = [] := by
  refine heldAt_eq_nil_iff.2 fun i x _ hreach => ?_
  rw [reaches, h] at hreach
  cases hreach

/-- A picture that cannot be made breaks the work off at an occurrence. -/
theorem spans_of_putPicture_error {e : Fault}
    (hf : (atEach needle (putPicture (.error e)) c).fault = none) : spans needle c = [] := by
  cases hl : (spans needle c).reverse with
  | nil => exact List.reverse_eq_nil_iff.1 hl
  | cons s l =>
    have hfault : (putPicture (.error e) s c).fault = some e := rfl
    rw [atEach_eq, hl, Attempt.each_cons_of_fault _ _ _ hfault, hfault] at hf
    cases hf

end

end Splice
end MailMerge
