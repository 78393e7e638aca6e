import MailMerge.Document.Splice
import MailMerge.Placeholder.Token
/-!
# Replacing text in text

`replaceAll` puts a value in the place of every occurrence of a needle, read once from the left. It
is what splicing does to the joined text of the runs (`foldr_cutOut_occurrences`): there the
occurrences are cut out from the last to the first.

The needles of placeholders begin with a character that they do not hold a second time, so their
occurrences never overlap. For such needles

* `hits_cons`: occurrences are counted place by place;
* `hits_le_hits_append`: text in front hides no occurrence;
* `replaceAll_append_of_hits`: where no occurrence begins, nothing is replaced.
-/
namespace MailMerge.Text

/-- How often a needle occurs in a text. -/
def hits (needle t : Text) : Nat := (occurrences needle 0 0 t).length

/-- What follows the first `skip` characters of a text, with a value in the place of every
occurrence of a needle. -/
def replaceFrom (needle value : Text) : (skip : Nat) → Text → Text
  | _, [] => []
  | skip + 1, _ :: r => replaceFrom needle value skip r
  | 0, c :: r =>
    if needle.isPrefixOf (c :: r) then value ++ replaceFrom needle value (needle.length - 1) r
    else c :: replaceFrom needle value 0 r

/-- The text with a value in the place of every occurrence of a needle. -/
def replaceAll (needle value t : Text) : Text := replaceFrom needle value 0 t

/-- The text with a value in the place of the `length` characters at a place. -/
def cutOut (length : Nat) (value : Text) (place : Nat) (t : Text) : Text :=
  t.take place ++ value ++ t.drop (place + length)

theorem isPrefixOf_append (needle r : Text) : needle.isPrefixOf (needle ++ r) = true :=
  List.isPrefixOf_iff_prefix.2 (List.prefix_append needle r)

theorem eq_append_of_isPrefixOf {a c : Char} {n r : Text}
    (h : (a :: n).isPrefixOf (c :: r) = true) : c = a ∧ ∃ r', r = n ++ r' := by
  obtain ⟨r', hr⟩ := List.isPrefixOf_iff_prefix.1 h
  rw [List.cons_append] at hr
  obtain ⟨rfl, rfl⟩ := List.cons.inj hr
  exact ⟨rfl, r', rfl⟩

theorem isPrefixOf_cons_of_ne {a c : Char} (n r : Text) (h : a ≠ c) :
    (a :: n).isPrefixOf (c :: r) = false := by
  simp [List.isPrefixOf, h]

/-! ## From the last occurrence to the first -/

theorem cutOut_append (value pre needle t : Text) :
    cutOut needle.length value pre.length (pre ++ (needle ++ t)) = pre ++ (value ++ t) := by
  simp [cutOut, List.drop_append]

theorem cutOut_parts (value r : Text) {s m : Text} {place n : Nat} (hs : s.length = place)
    (hm : m.length = n) : cutOut n value place (s ++ (m ++ r)) = s ++ (value ++ r) := by
  rw [← hs, ← hm, cutOut_append]

theorem replaceFrom_append (needle value u t : Text) :
    replaceFrom needle value u.length (u ++ t) = replaceFrom needle value 0 t := by
  induction u with
  | nil => rfl
  | cons c u ih => exact ih

/-- The occurrences in `t` are cut out of `pre ++ t` one after the other, the last one first. -/
theorem foldr_cutOut_occurrences (a : Char) (n value : Text) (t : Text) :
    ∀ (skip : Nat) (pre : Text),
      (occurrences (a :: n) skip pre.length t).foldr (cutOut (a :: n).length value) (pre ++ t) =
        pre ++ (t.take skip ++ replaceFrom (a :: n) value skip t) := by
  induction t with
  | nil => intro skip pre; simp [occurrences, replaceFrom]
  | cons c r ih =>
    intro skip pre
    have happ : pre ++ c :: r = (pre ++ [c]) ++ r := by simp
    have ih' : ∀ skip, (occurrences (a :: n) skip (pre.length + 1) r).foldr
        (cutOut (a :: n).length value) (pre ++ c :: r) =
          (pre ++ [c]) ++ (r.take skip ++ replaceFrom (a :: n) value skip r) := by
      intro skip
      rw [happ, ← ih skip (pre ++ [c]), List.length_append]
      rfl
    cases skip with
    | succ skip => rw [occurrences, ih', replaceFrom]; simp
    | zero =>
      rw [occurrences, replaceFrom]
      split
      · rename_i hp
        obtain ⟨rfl, r', rfl⟩ := eq_append_of_isPrefixOf hp
        -- what the later occurrences left still begins with the needle
        rw [List.foldr_cons, ih', List.length_cons, Nat.add_sub_cancel, List.take_left]
        have := cutOut_append value pre (c :: n) (replaceFrom (c :: n) value n.length (n ++ r'))
        simpa using this
      · rw [ih']; simp

/-- Cutting out all occurrences from the last to the first replaces them all. -/
theorem foldr_cutOut (a : Char) (n value t : Text) :
    (occurrences (a :: n) 0 0 t).foldr (cutOut (a :: n).length value) t =
      replaceAll (a :: n) value t := by
  simpa [replaceAll] using foldr_cutOut_occurrences a n value t 0 []

/-! ## Where occurrences lie -/

theorem le_length_of_isPrefixOf {needle t : Text} (h : needle.isPrefixOf t = true) :
    needle.length ≤ t.length :=
  (List.isPrefixOf_iff_prefix.1 h).length_le

theorem occurrences_bounds (needle t : Text) :
    ∀ skip i, ∀ p ∈ occurrences needle skip i t,
      i + skip ≤ p ∧ p + needle.length ≤ i + t.length := by
  induction t with
  | nil => intro skip i p hp; cases skip <;> cases hp
  | cons c r ih =>
    intro skip i p hp
    rw [List.length_cons]
    cases skip with
    | succ skip =>
      have := ih skip (i + 1) p hp
      omega
    | zero =>
      rw [occurrences] at hp
      split at hp
      · rename_i hpre
        have hlen := le_length_of_isPrefixOf hpre
        rw [List.length_cons] at hlen
        rcases List.mem_cons.1 hp with rfl | hp
        · omega
        · have := ih _ (i + 1) p hp
          omega
      · have := ih 0 (i + 1) p hp
        omega

/-- Occurrences do not overlap. -/
theorem occurrences_pairwise {needle : Text} (hn : 0 < needle.length) (t : Text) :
    ∀ skip i, (occurrences needle skip i t).Pairwise (· + needle.length ≤ ·) := by
  induction t with
  | nil => intro skip i; cases skip <;> exact List.Pairwise.nil
  | cons c r ih =>
    intro skip i
    cases skip with
    | succ skip => exact ih skip (i + 1)
    | zero =>
      rw [occurrences]
      split
      · refine List.Pairwise.cons (fun q hq => ?_) (ih _ _)
        have := occurrences_bounds _ r _ _ q hq
        omega
      · exact ih 0 (i + 1)

/-! ## One place at a time -/

theorem replaceAll_nil (needle value : Text) : replaceAll needle value [] = [] := by
  simp [replaceAll, replaceFrom]

theorem replaceAll_cons {needle : Text} {c : Char} {r : Text} (value : Text)
    (h : needle.isPrefixOf (c :: r) = false) :
    replaceAll needle value (c :: r) = c :: replaceAll needle value r := by
  simp [replaceAll, replaceFrom, h]

theorem replaceAll_append (a : Char) (n value t : Text) :
    replaceAll (a :: n) value ((a :: n) ++ t) = value ++ replaceAll (a :: n) value t := by
  have hp := isPrefixOf_append (a :: n) t
  rw [List.cons_append] at hp
  rw [replaceAll, List.cons_append, replaceFrom, if_pos hp, List.length_cons, Nat.add_sub_cancel,
    replaceFrom_append, replaceAll]

theorem length_occurrences_place (needle t : Text) :
    ∀ skip i j, (occurrences needle skip i t).length = (occurrences needle skip j t).length := by
  induction t with
  | nil => intro skip i j; simp [occurrences]
  | cons c r ih =>
    intro skip i j
    cases skip with
    | succ skip => exact ih skip _ _
    | zero =>
      rw [occurrences, occurrences]
      split
      · rw [List.length_cons, List.length_cons, ih _ (i + 1) (j + 1)]
      · exact ih 0 _ _

section
variable {a : Char} {n : Text}

/-- A text without the first character of the needle hides no occurrence. -/
theorem length_occurrences_skip {u : Text} (hu : a ∉ u) (t : Text) (i : Nat) :
    (occurrences (a :: n) u.length i (u ++ t)).length = hits (a :: n) (u ++ t) := by
  induction u generalizing i with
  | nil => exact length_occurrences_place _ _ _ _ _
  | cons c u ih =>
    simp only [List.mem_cons, not_or] at hu
    have hp := isPrefixOf_cons_of_ne n (u ++ t) hu.1
    rw [hits, List.cons_append, occurrences, hp, List.length_cons, occurrences, ih hu.2, hits]
    exact length_occurrences_place _ _ _ _ _

theorem hits_cons (h : a ∉ n) (c : Char) (r : Text) :
    hits (a :: n) (c :: r) =
      (if (a :: n).isPrefixOf (c :: r) then 1 else 0) + hits (a :: n) r := by
  rw [hits, occurrences]
  split
  · rename_i hp
    obtain ⟨rfl, r', rfl⟩ := eq_append_of_isPrefixOf hp
    rw [List.length_cons, List.length_cons, Nat.add_sub_cancel, length_occurrences_skip h,
      Nat.add_comm]
  · rw [length_occurrences_place _ r 0 (0 + 1) 0, Nat.zero_add, hits]

theorem hits_nil (needle : Text) : hits needle [] = 0 := by simp [hits, occurrences]

theorem hits_le_hits_append (h : a ∉ n) (u t : Text) :
    hits (a :: n) t ≤ hits (a :: n) (u ++ t) := by
  induction u with
  | nil => exact Nat.le_refl _
  | cons c u ih => rw [List.cons_append, hits_cons h]; omega

/-- A text without the first character of the needle holds no beginning of an occurrence. -/
theorem hits_append_of_not_mem (h : a ∉ n) {u : Text} (hu : a ∉ u) (t : Text) :
    hits (a :: n) (u ++ t) = hits (a :: n) t := by
  induction u with
  | nil => rfl
  | cons c u ih =>
    simp only [List.mem_cons, not_or] at hu
    have hp := isPrefixOf_cons_of_ne n (u ++ t) hu.1
    rw [List.cons_append, hits_cons h, hp, ih hu.2]
    simp

theorem hits_needle_append (h : a ∉ n) (t : Text) :
    hits (a :: n) ((a :: n) ++ t) = hits (a :: n) t + 1 := by
  have hp := isPrefixOf_append (a :: n) t
  rw [List.cons_append] at hp ⊢
  rw [hits_cons h, if_pos hp, hits_append_of_not_mem h h, Nat.add_comm]

/-- Where no occurrence begins in the text in front, nothing of it is replaced. -/
theorem replaceAll_append_of_hits (h : a ∉ n) (value u t : Text)
    (he : hits (a :: n) (u ++ t) = hits (a :: n) t) :
    replaceAll (a :: n) value (u ++ t) = u ++ replaceAll (a :: n) value t := by
  induction u with
  | nil => rfl
  | cons c u ih =>
    have hle := hits_le_hits_append h u t
    rw [List.cons_append, hits_cons h] at he
    split at he
    · omega
    · rename_i hp
      rw [List.cons_append, replaceAll_cons _ (Bool.eq_false_iff.2 hp), ih (by omega),
        List.cons_append]

end

end MailMerge.Text
