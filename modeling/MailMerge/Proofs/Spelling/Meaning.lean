import MailMerge.Proofs.Number.Reading
import MailMerge.Proofs.Spelling.Agreement
/-!
# The meaning of number words

A phrase is read word by word. Digit words stand for numbers, `belas`, `puluh` and `ratus` go with
the number before them, `seratus` and `seribu` stand by themselves, and the names of larger groups
multiply the whole group before them. The parts are added.

Results:
* `Adds`: the words of a number below one thousand add that number to the group they stand in.
* `Reads`: the words of a number add that number to what was read before.
* `spell_int_eq_ok_iff`: which whole numbers are spelled, and how.
* `spell_int_reads`: the phrase of a whole number is read as that number without its sign, so no
  other number has it.
-/
namespace MailMerge.Spelling

/-! ## Reading -/

/-- What a word says. -/
inductive Word where
  /-- a number -/
  | value (n : Nat)
  /-- ten more than the number before it -/
  | teen
  /-- so many times the number before it -/
  | times (k : Nat)
  /-- a part of a group by itself -/
  | part (n : Nat)
  /-- so many times the group before it -/
  | scale (k : Nat)
  /-- a group by itself -/
  | whole (n : Nat)
  deriving DecidableEq, Repr

/-- The words of numbers. -/
def lexicon : List (Text × Word) :=
  [("nol".toList, .value 0), ("satu".toList, .value 1), ("dua".toList, .value 2),
    ("tiga".toList, .value 3), ("empat".toList, .value 4), ("lima".toList, .value 5),
    ("enam".toList, .value 6), ("tujuh".toList, .value 7), ("delapan".toList, .value 8),
    ("sembilan".toList, .value 9), ("sepuluh".toList, .value 10), ("sebelas".toList, .value 11),
    ("belas".toList, .teen), ("puluh".toList, .times 10), ("ratus".toList, .times 100),
    ("seratus".toList, .part 100), ("seribu".toList, .whole (10 ^ 3)),
    ("ribu".toList, .scale (10 ^ 3)), ("juta".toList, .scale (10 ^ 6)),
    ("milyar".toList, .scale (10 ^ 9)), ("trilyun".toList, .scale (10 ^ 12))]

/-- What is read so far: the groups that have their names, the parts of the group that is being read,
and the number that the next word may go with. -/
structure Reading where
  total : Nat
  group : Nat
  unit : Nat
  deriving DecidableEq, Repr

namespace Reading

/-- The number read so far. -/
def value (s : Reading) : Nat := s.total + s.group + s.unit

/-- What is read with one more word. -/
def next (s : Reading) : Word → Reading
  | .value n => { s with unit := s.unit + n }
  | .teen => { s with group := s.group + (10 + s.unit), unit := 0 }
  | .times k => { s with group := s.group + k * s.unit, unit := 0 }
  | .part n => { s with group := s.group + n }
  | .scale k => ⟨s.total + k * (s.group + s.unit), 0, 0⟩
  | .whole n => { s with total := s.total + n }

/-- What is read with one more word, nothing when the word is unknown. -/
def step (s : Reading) (w : Text) : Option Reading := (lexicon.lookup w).map s.next

/-- What is read with more words. -/
def run (s : Reading) (ws : List Text) : Option Reading := ws.foldlM step s

@[simp] theorem run_nil (s : Reading) : s.run [] = some s := rfl

theorem run_cons (s : Reading) (w : Text) (ws : List Text) :
    s.run (w :: ws) = (s.step w).bind (run · ws) := rfl

theorem run_append (s : Reading) (ws vs : List Text) :
    s.run (ws ++ vs) = (s.run ws).bind (run · vs) :=
  List.foldlM_append

theorem run_of_lookup {s : Reading} {w : Text} {m : Word} (h : lexicon.lookup w = some m)
    (ws : List Text) : s.run (w :: ws) = (s.next m).run ws := by
  rw [run_cons, step, h]
  rfl

theorem exists_mem_lexicon_of_run {s s' : Reading} {ws : List Text} (h : s.run ws = some s') :
    ∀ w ∈ ws, ∃ m, (w, m) ∈ lexicon := by
  induction ws generalizing s with
  | nil => exact fun w hw => absurd hw List.not_mem_nil
  | cons w ws ih =>
    rw [run_cons] at h
    obtain ⟨t, ht, hrest⟩ := Option.bind_eq_some_iff.1 h
    obtain ⟨m, hm, -⟩ := Option.map_eq_some_iff.1 ht
    intro v hv
    rcases List.mem_cons.1 hv with rfl | hv
    · obtain ⟨before, behind, hlexicon, -⟩ := List.lookup_eq_some_iff.1 hm
      exact ⟨m, hlexicon ▸ List.mem_append_right _ (List.mem_cons_self ..)⟩
    · exact ih hrest v hv

end Reading

/-! ## One group -/

theorem lookup_smallWord {n : Nat} (h0 : n ≠ 0) (h : n < 12) :
    lexicon.lookup (smallWord n) = some (.value n) := by
  have hall : ∀ i : Fin 12, i.val ≠ 0 → lexicon.lookup (smallWord i) = some (.value i) := by decide
  exact hall ⟨n, h⟩ h0

/-- Whether words add a number to the group they stand in. -/
def Adds (ws : List Text) (n : Nat) : Prop :=
  ∀ t g, ∃ g' u, Reading.run ⟨t, g, 0⟩ ws = some ⟨t, g', u⟩ ∧ g' + u = g + n

section
variable {n : Nat}

theorem adds_words_lt_twelve (h : n < 12) : Adds (words n) n := by
  intro t g
  by_cases h0 : n = 0
  · rw [h0, words_zero]
    exact ⟨g, 0, rfl, rfl⟩
  · rw [words_of_lt_twelve h0 h, Reading.run_of_lookup (lookup_smallWord h0 h)]
    exact ⟨g, 0 + n, rfl, by omega⟩

/-- A number with `puluh` or `ratus` is done with before the words behind it. -/
theorem Adds.times {d k : Nat} {w : Text} {ws : List Text} (hw : lexicon.lookup w = some (.times k))
    (h0 : d ≠ 0) (hd : d < 12) (h : Adds ws n) : Adds (smallWord d :: w :: ws) (k * d + n) := by
  intro t g
  obtain ⟨g', u, hrun, hsum⟩ := h t (g + k * (0 + d))
  refine ⟨g', u, ?_, ?_⟩
  · rw [Reading.run_of_lookup (lookup_smallWord h0 hd), Reading.run_of_lookup hw]
    exact hrun
  · rw [hsum, Nat.zero_add, Nat.add_assoc]

theorem adds_words_lt_hundred (h : n < 100) : Adds (words n) n := by
  by_cases h12 : n < 12
  · exact adds_words_lt_twelve h12
  by_cases h20 : n < 20
  · intro t g
    have hbelas : lexicon.lookup "belas".toList = some .teen := by decide
    rw [words_teen (Nat.not_lt.1 h12) h20,
      Reading.run_of_lookup (lookup_smallWord (by omega) (by omega)), Reading.run_of_lookup hbelas]
    exact ⟨g + (10 + (0 + (n - 10))), 0, rfl, by omega⟩
  · rw [words_tens (Nat.not_lt.1 h20) h]
    have hadds := (adds_words_lt_twelve (n := n % 10) (by omega)).times (w := "puluh".toList)
      (k := 10) (d := n / 10) (by decide) (by omega) (by omega)
    rwa [Nat.div_add_mod] at hadds

theorem adds_words_lt_thousand (h : n < 1000) : Adds (words n) n := by
  have hrest : Adds (words (n % 100)) (n % 100) := adds_words_lt_hundred (Nat.mod_lt n (by decide))
  by_cases h100 : n < 100
  · exact adds_words_lt_hundred h100
  by_cases h200 : n < 200
  · intro t g
    have hseratus : lexicon.lookup "seratus".toList = some (.part 100) := by decide
    obtain ⟨g', u, hrun, hsum⟩ := hrest t (g + 100)
    rw [words_hundred (Nat.not_lt.1 h100) h200, Reading.run_of_lookup hseratus]
    exact ⟨g', u, hrun, by omega⟩
  · rw [words_hundreds (Nat.not_lt.1 h200) h]
    have hadds := hrest.times (w := "ratus".toList) (k := 100) (d := n / 100) (by decide) (by omega)
      (by omega)
    rwa [Nat.div_add_mod] at hadds

end

/-! ## Group after group -/

/-- Whether the words of a number add it to what was read before. -/
def Reads (n : Nat) : Prop :=
  ∀ t, ∃ s, Reading.run ⟨t, 0, 0⟩ (words n) = some s ∧ s.value = t + n

theorem reads_lt_thousand {n : Nat} (h : n < 1000) : Reads n := by
  intro t
  obtain ⟨g, u, hrun, hsum⟩ := adds_words_lt_thousand h t 0
  refine ⟨⟨t, g, u⟩, hrun, ?_⟩
  show t + g + u = t + n
  omega

section
variable {unit : Nat} {name : Text} (hname : lexicon.lookup name = some (.scale unit))
include hname

/-- The words of a group with its name add the units of the group. -/
theorem run_groupWords {g : Nat} (hg : g < 1000) (t : Nat) :
    Reading.run ⟨t, 0, 0⟩ (groupWords g name) = some ⟨t + unit * g, 0, 0⟩ := by
  by_cases h0 : g = 0
  · rw [h0]
    rfl
  by_cases hone : name = "ribu".toList ∧ g = 1
  · obtain ⟨rfl, rfl⟩ := hone
    have hribu : lexicon.lookup "ribu".toList = some (.scale (10 ^ 3)) := by decide
    rw [hribu] at hname
    cases hname
    rfl
  · have hne : name ≠ [] := by
      have hnil : lexicon.lookup [] = none := by decide
      rintro rfl
      rw [hnil] at hname
      cases hname
    obtain ⟨g', u, hrun, hsum⟩ := adds_words_lt_thousand hg t 0
    rw [groupWords_of_named h0 hg hne hone, Reading.run_append, hrun, Option.bind_some,
      Reading.run_of_lookup hname, Reading.run_nil, Reading.next, hsum, Nat.zero_add]

/-- What is read below a unit is read below a thousand of them. -/
theorem Peels.reads (hpeels : Peels unit name) (hrest : ∀ n < unit, Reads n) {n : Nat}
    (h : n < 1000 * unit) : Reads n := by
  intro t
  have hunit : 0 < unit := Nat.pos_of_ne_zero fun hzero => by
    rw [hzero] at h
    omega
  obtain ⟨s, hrun, hvalue⟩ := hrest (n % unit) (Nat.mod_lt n hunit) (t + unit * (n / unit))
  have hgroup := run_groupWords hname (Nat.div_lt_of_lt_mul (Nat.mul_comm 1000 unit ▸ h)) t
  refine ⟨s, ?_, ?_⟩
  · rw [hpeels n h, Reading.run_append, hgroup, Option.bind_some, hrun]
  · rw [hvalue, Nat.add_assoc, Nat.div_add_mod]

end

theorem reads_of_le_maxValue {n : Nat} (h : n ≤ maxValue) : Reads n := by
  have hmax : maxValue = 10 ^ 15 - 1 := rfl
  have hthousand : ∀ n < 10 ^ 6, Reads n := fun _ hn =>
    peels_thousand.reads (by decide) (fun _ => reads_lt_thousand) hn
  have hmillion : ∀ n < 10 ^ 9, Reads n := fun _ hn =>
    peels_million.reads (by decide) hthousand hn
  have hmilliard : ∀ n < 10 ^ 12, Reads n := fun _ hn =>
    peels_milliard.reads (by decide) hmillion hn
  exact peels_billion.reads (by decide) hmilliard (by omega)

/-! ## Phrases -/

/-- The words of a number by itself. -/
def wordsAlone (n : Nat) : List Text := if (words n).isEmpty then [zeroWord] else words n

theorem phrase_words (n : Nat) : phrase (words n) [] = Text.join [' '] (wordsAlone n) := by
  show Text.join [' '] (wordsAlone n ++ []) = _
  rw [List.append_nil]

theorem run_wordsAlone {n : Nat} (h : n ≤ maxValue) :
    ∃ s, Reading.run ⟨0, 0, 0⟩ (wordsAlone n) = some s ∧ s.value = n := by
  obtain ⟨s, hrun, hvalue⟩ := reads_of_le_maxValue h 0
  rw [Nat.zero_add] at hvalue
  unfold wordsAlone
  split
  · -- what has no words is zero, which has one by itself
    rename_i hnone
    rw [List.isEmpty_iff.1 hnone, Reading.run_nil, Option.some.injEq] at hrun
    exact ⟨⟨0, 0, 0⟩, by decide, by rw [hrun, hvalue]⟩
  · exact ⟨s, hrun, hvalue⟩

theorem wordsAlone_ne_nil (n : Nat) : wordsAlone n ≠ [] := by
  unfold wordsAlone
  split
  · exact List.cons_ne_nil _ _
  · rename_i hsome
    exact mt List.isEmpty_iff.2 hsome

/-- Words are not empty, and none has a gap. -/
theorem ne_nil_of_mem_wordsAlone {n : Nat} (h : n ≤ maxValue) :
    ∀ w ∈ wordsAlone n, w ≠ [] ∧ ' ' ∉ w := by
  intro w hw
  obtain ⟨s, hrun, -⟩ := run_wordsAlone h
  obtain ⟨m, hm⟩ := Reading.exists_mem_lexicon_of_run hrun w hw
  have hall : ∀ p ∈ lexicon, p.1 ≠ [] ∧ ' ' ∉ p.1 := by decide
  exact hall (w, m) hm

theorem splitOn_phrase {n : Nat} (h : n ≤ maxValue) :
    Text.splitOn ' ' (phrase (words n) []) = wordsAlone n := by
  rw [phrase_words]
  exact Text.splitOn_join (fun w hw => (ne_nil_of_mem_wordsAlone h w hw).2) (wordsAlone_ne_nil n)

/-- The number that a phrase says. -/
def read? (t : Text) : Option Nat := (Reading.run ⟨0, 0, 0⟩ (Text.splitOn ' ' t)).map Reading.value

theorem read?_phrase {n : Nat} (h : n ≤ maxValue) : read? (phrase (words n) []) = some n := by
  obtain ⟨s, hrun, hvalue⟩ := run_wordsAlone h
  rw [read?, splitOn_phrase h, hrun, Option.map_some, hvalue]

/-! ## Whole numbers -/

theorem exceeds_whole (neg : Bool) (c : Nat) : exceeds ⟨neg, c, 0⟩ = decide (maxValue < c) := by
  unfold exceeds
  dsimp only
  by_cases h0 : c = 0
  · rw [if_pos h0, h0]
    rfl
  rw [if_neg h0]
  by_cases hfar : 16 < Decimal.adjusted c 0
  · have hlong : 10 ^ 17 ≤ c := Decimal.pow_le_of_lt_digitCount (Nat.pos_of_ne_zero h0) (by
      unfold Decimal.adjusted at hfar
      omega)
    have hmax : maxValue < 10 ^ 17 := by decide
    rw [if_pos hfar, decide_eq_true (Nat.lt_of_lt_of_le hmax hlong)]
  · rw [if_neg hfar, if_pos (Int.le_refl 0), Int.toNat_zero, Nat.pow_zero, Nat.mul_one]

theorem splitWhole_whole (neg : Bool) (c : Nat) : splitWhole ⟨neg, c, 0⟩ = (c, 0) := by
  unfold splitWhole
  dsimp only
  by_cases h0 : c = 0
  · rw [if_pos h0, h0]
  · rw [if_neg h0, if_pos (Int.le_refl 0), Int.toNat_zero, Nat.pow_zero, Nat.mul_one]

/-- A whole number that can be written is the amount that its digits write. -/
theorem ofValue_int {n : Int} (h : Decimal.digitCount n.natAbs ≤ digitLimit) :
    Amount.ofValue (.int n) = .ok ⟨decide (n < 0), n.natAbs, 0⟩ := by
  have hwritten : Value.plain? (.int n) = some (Text.ofInt n) := if_pos h
  have hfits : Decimal.Fits n.natAbs 0 := by
    simp only [Decimal.Fits, Decimal.minExponent, Decimal.maxExponent, Decimal.adjusted,
      digitLimit] at h ⊢
    omega
  unfold Amount.ofValue
  dsimp only
  rw [hwritten, Option.bind_some, Decimal.ofText?_ofInt hfits]

/-- A whole number with too many digits to be written is far beyond the greatest one. -/
theorem pow_le_natAbs_of_long {n : Int} (h : digitLimit < Decimal.digitCount n.natAbs) :
    10 ^ 15 ≤ n.natAbs := by
  refine Decimal.pow_le_of_lt_digitCount (Nat.pos_of_ne_zero fun hzero => ?_)
    (Nat.lt_trans (by decide) h)
  rw [hzero] at h
  exact absurd h (by decide)

/-- A whole number is spelled up to the greatest one, with its own words and without its sign. -/
theorem spell_int_eq_ok_iff {n : Int} {t : Text} :
    spell (.int n) = .ok t ↔ n.natAbs ≤ maxValue ∧ t = phrase (words n.natAbs) [] := by
  by_cases hwritten : Decimal.digitCount n.natAbs ≤ digitLimit
  · unfold spell parts
    rw [ofValue_int hwritten]
    simp only [bind, Except.bind, exceeds_whole, splitWhole_whole]
    by_cases hlarge : maxValue < n.natAbs
    · rw [if_pos (decide_eq_true hlarge)]
      constructor
      · intro h
        cases h
      · exact fun h => absurd h.1 (Nat.not_le.2 hlarge)
    · rw [if_neg (by rwa [decide_eq_true_eq])]
      constructor
      · intro h
        cases h
        exact ⟨Nat.not_lt.1 hlarge, rfl⟩
      · rintro ⟨-, rfl⟩
        rfl
  · -- a number with too many digits to be written is far beyond the greatest one
    have hlong := pow_le_natAbs_of_long (Nat.not_le.1 hwritten)
    constructor
    · intro h
      unfold spell parts Amount.ofValue at h
      dsimp only [Value.plain?, Value.shown?] at h
      rw [intText?, if_neg hwritten] at h
      cases h
    · intro h
      have hmax : maxValue < 10 ^ 15 := by decide
      exact absurd (Nat.le_trans hlong h.1) (Nat.not_le.2 hmax)

/-- A whole number is spelled, its phrase is read as the number without its sign and so belongs to
no other number, and no word of it is empty. -/
theorem spell_int_reads {n : Int} (h : n.natAbs < 10 ^ 15) :
    ∃ t, spell (.int n) = .ok t ∧ read? t = some n.natAbs ∧
      (∀ m : Int, spell (.int m) = .ok t → m.natAbs = n.natAbs) ∧
      (∀ w ∈ Text.splitOn ' ' t, w ≠ []) ∧ ¬ [' ', ' '] <:+: t := by
  have hmax : maxValue = 10 ^ 15 - 1 := rfl
  have hle : n.natAbs ≤ maxValue := by omega
  have hread := read?_phrase hle
  have hwords : ∀ w ∈ Text.splitOn ' ' (phrase (words n.natAbs) []), w ≠ [] := by
    rw [splitOn_phrase hle]
    exact fun w hw => (ne_nil_of_mem_wordsAlone hle w hw).1
  refine ⟨phrase (words n.natAbs) [], spell_int_eq_ok_iff.2 ⟨hle, rfl⟩, hread, ?_, hwords, ?_⟩
  · intro m hm
    obtain ⟨hm, hsame⟩ := spell_int_eq_ok_iff.1 hm
    rw [hsame, read?_phrase hm] at hread
    exact Option.some.inj hread
  · exact fun hgap => hwords [] (Text.nil_mem_splitOn_of_infix hgap) rfl

theorem spell_int_reads_negative : (-1_002_019 : Int).natAbs < 10 ^ 15 ∧
    ∃ t, spell (.int (-1_002_019)) = .ok t ∧ read? t = some (-1_002_019 : Int).natAbs ∧
      (∀ m : Int, spell (.int m) = .ok t → m.natAbs = (-1_002_019 : Int).natAbs) ∧
      (∀ w ∈ Text.splitOn ' ' t, w ≠ []) ∧ ¬ [' ', ' '] <:+: t :=
  ⟨by decide, spell_int_reads (by decide)⟩

-- a name multiplies no more than the group in front of it, and a gap of two is no gap between words
example : read? "dua ratus tiga puluh empat juta seribu sebelas".toList = some 234_001_011 ∧
    read? "dua  ratus".toList = none := by
  decide

end MailMerge.Spelling
