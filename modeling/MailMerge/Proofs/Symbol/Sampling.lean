import Mathlib
import MailMerge.Proofs.Number.Nearest
import MailMerge.Proofs.Symbol.Drawing
import MailMerge.Resolution.Pictures
/-!
# What is left of a symbol in a size

A drawn symbol that has not the size asked for is scaled: each line of the picture is the drawn line that
its middle falls on. The middles are added up in binary numbers, so they drift; in the sizes that codes
have, the drift stays far below the room that the squares of the modules leave (`place_near`).

* `ofSymbol_shows`: each pixel of the picture is a module, found by the lines of modules (`shownLines`)
  that its column and its row show.
* `mem_shownLines_iff`: in a size that has room for all modules, each line of modules is shown, and
  nothing else.
* `every_module_shown_iff`: without that room some line of modules is lost.
-/
namespace MailMerge.Bitmap

open Binary64 (toRat? halfUnit add_near mul_near ofFraction_near truncate?_of_nonneg)

/-! ## Places -/

/-- The place that is sampled after so many steps. -/
def placeAfter (step start : Binary64) : Nat → Binary64
  | 0 => start
  | i + 1 => Binary64.add (placeAfter step start i) step

/-- The line that a place lies on. -/
def lineAt (place : Binary64) : Nat := (place.truncate?.getD 0).toNat

theorem placeAfter_add (step start : Binary64) (i : Nat) :
    placeAfter step (Binary64.add start step) i = placeAfter step start (i + 1) := by
  induction i with
  | zero => rfl
  | succ i ih => rw [placeAfter, ih, ← placeAfter]

theorem getElem?_samplesFrom (step : Binary64) (n : Nat) (start : Binary64) (i : Nat) :
    (samplesFrom step n start)[i]? = if i < n then some (lineAt (placeAfter step start i)) else none := by
  induction n generalizing start i with
  | zero => rfl
  | succ n ih =>
    cases i with
    | zero => simp [samplesFrom, placeAfter, lineAt]
    | succ i =>
      rw [samplesFrom, List.getElem?_cons_succ, ih, placeAfter_add]
      simp only [Nat.add_lt_add_iff_right]

theorem lineAt_of_toRat? {place : Binary64} {p : ℚ} (h : place.toRat? = some p) (hp : 0 ≤ p) :
    lineAt place = ⌊p⌋₊ := by
  rw [lineAt, truncate?_of_nonneg h hp, Option.getD_some]
  rfl

/-! ## The drift -/

section
variable {edge size : Nat}

/-- How far a place may be off after each step. -/
def drift : ℚ := 1 / 2 ^ 44

/-- The step between places. -/
def stepFor (edge size : Nat) : Binary64 := Binary64.ofFraction false edge size

/-- The first place. -/
def startFor (edge size : Nat) : Binary64 :=
  Binary64.mul (stepFor edge size) (Binary64.ofFraction false 1 2)

theorem samples_eq (edge size : Nat) :
    samples edge size = samplesFrom (stepFor edge size) size (startFor edge size) := rfl

theorem toRat?_half : (Binary64.ofFraction false 1 2).toRat? = some (1 / 2) := by
  have hhalf : Binary64.ofFraction false 1 2 = .finite false (2 ^ 52) (-53) := by decide
  rw [hhalf, toRat?]
  norm_num [Binary64.signed]

/-- The step is the quotient, rounded once. -/
theorem step_near (hedge : edge < size) :
    ∃ s, (stepFor edge size).toRat? = some s ∧ |s - (edge : ℚ) / size| ≤ halfUnit 0 := by
  have hsize : 0 < size := by omega
  have hlt : (edge : ℚ) / size < 2 ^ (0 : ℤ) := by
    rw [zpow_zero, div_lt_one (Nat.cast_pos.2 hsize)]
    exact_mod_cast hedge
  exact ofFraction_near hsize (by norm_num) (by norm_num) hlt false

/-- The places are the middles of the lines of the picture, but for the drift. The induction is on the
steps; each adds the error of the sum and that of the step itself. -/
theorem place_near (hedge : edge < size) (hsize : size ≤ 500) {i : Nat} (hi : i < size) :
    ∃ p, (placeAfter (stepFor edge size) (startFor edge size) i).toRat? = some p ∧
      |p - (i + 1 / 2) * ((edge : ℚ) / size)| ≤ (i + 1) * drift := by
  obtain ⟨s, hs, hstep⟩ := step_near hedge
  generalize hr : (edge : ℚ) / size = r at hstep ⊢
  have hr0 : 0 ≤ r := by
    rw [← hr]
    positivity
  have hr1 : r < 1 := by
    rw [← hr, div_lt_one (Nat.cast_pos.2 (by omega))]
    exact_mod_cast hedge
  have hunit : halfUnit 0 = 1 / 2 ^ 54 := by norm_num [halfUnit]
  have hunit9 : halfUnit 9 = 1 / 2 ^ 45 := by norm_num [halfUnit]
  rw [hunit, abs_le] at hstep
  induction i with
  | zero =>
    have hbound : |s * (1 / 2)| < 2 ^ (0 : ℤ) := by
      rw [zpow_zero, abs_lt]
      constructor <;> linarith
    obtain ⟨p, hp, hnear⟩ := mul_near hs toRat?_half (by norm_num) (by norm_num) hbound
    refine ⟨p, hp, ?_⟩
    rw [hunit, abs_le] at hnear
    rw [drift, abs_le]
    push_cast
    constructor <;> linarith
  | succ i ih =>
    obtain ⟨p, hp, hplace⟩ := ih (by omega)
    have hi' : (i : ℚ) + 1 < 500 := by exact_mod_cast (by omega : i + 1 < 500)
    have hi0 : (0 : ℚ) ≤ i := Nat.cast_nonneg i
    have hmiddle : ((i : ℚ) + 1 / 2) * r ≤ (i + 1 / 2) * 1 :=
      mul_le_mul_of_nonneg_left hr1.le (by linarith)
    have hmiddle0 : 0 ≤ ((i : ℚ) + 1 / 2) * r := mul_nonneg (by linarith) hr0
    rw [drift, abs_le] at hplace
    have hbound : |p + s| < 2 ^ (9 : ℤ) := by
      rw [abs_lt]
      norm_num
      constructor <;> linarith
    obtain ⟨q, hq, hnear⟩ := add_near hp hs (by norm_num) (by norm_num) hbound
    refine ⟨q, hq, ?_⟩
    rw [hunit9, abs_le] at hnear
    rw [drift, abs_le]
    push_cast
    constructor <;> linarith

/-- The line that a middle falls on, when it falls well inside of some lines, lies among them. -/
theorem line_of_middle (hedge : edge < size) (hsize : size ≤ 500) {i : Nat} (hi : i < size)
    (low high : Nat) (hlow : low + 500 * drift ≤ (i + 1 / 2) * ((edge : ℚ) / size))
    (hhigh : (i + 1 / 2) * ((edge : ℚ) / size) + 500 * drift < high) :
    ∃ line, (samples edge size)[i]? = some line ∧ low ≤ line ∧ line < high := by
  obtain ⟨p, hp, hnear⟩ := place_near hedge hsize hi
  have hi' : (i : ℚ) + 1 ≤ 500 := by exact_mod_cast (by omega : i + 1 ≤ 500)
  have hdrift : ((i : ℚ) + 1) * drift ≤ 500 * drift :=
    mul_le_mul_of_nonneg_right hi' (by norm_num [drift])
  rw [abs_le] at hnear
  have hlow' : (low : ℚ) ≤ p := by linarith
  have hp0 : 0 ≤ p := (Nat.cast_nonneg low).trans hlow'
  refine ⟨⌊p⌋₊, ?_, Nat.le_floor hlow', (Nat.floor_lt hp0).2 (by linarith)⟩
  rw [samples_eq, getElem?_samplesFrom, if_pos hi, lineAt_of_toRat? hp hp0]

/-- Some middle falls well inside of any stretch of lines that is as long as a line of the picture and
room for the drift. -/
theorem exists_middle {r : ℚ} (low : ℚ) (hr : 0 < r) (hlow : 0 ≤ low) :
    ∃ i : ℕ, low ≤ (i + 1 / 2) * r ∧ (i + 1 / 2) * r < low + r := by
  refine ⟨⌈low / r - 1 / 2⌉₊, ?_, ?_⟩
  · have hceil := Nat.le_ceil (low / r - 1 / 2)
    calc low = (low / r - 1 / 2 + 1 / 2) * r := by field_simp; ring
      _ ≤ _ := mul_le_mul_of_nonneg_right (by linarith) hr.le
  · rcases lt_or_ge (low / r - 1 / 2) 0 with hneg | hpos
    · rw [Nat.ceil_eq_zero.2 hneg.le]
      push_cast
      linarith
    · have hceil := Nat.ceil_lt_add_one hpos
      calc _ < (low / r - 1 / 2 + 1 + 1 / 2) * r := mul_lt_mul_of_pos_right (by linarith) hr
        _ = low + r := by field_simp; ring

end

/-! ## The lines that are shown -/

/-- The lines of modules that the lines of a picture show. -/
def shownLines (n size : Nat) : List Nat :=
  (if n * boxFor n size = size then List.range size else samples (n * boxFor n size) size).map
    (· / boxFor n size)

theorem length_samples (edge size : Nat) : (samples edge size).length = size := by
  have hlen (step : Binary64) (n : Nat) (start : Binary64) :
      (samplesFrom step n start).length = n := by
    induction n generalizing start with
    | zero => rfl
    | succ n ih => rw [samplesFrom, List.length_cons, ih]
  exact hlen ..

theorem length_shownLines (n size : Nat) : (shownLines n size).length = size := by
  rw [shownLines, List.length_map]
  split
  · exact List.length_range
  · exact length_samples ..

section
variable {n size : Nat}

/-- A drawn symbol is smaller than its picture, unless there is no room for its modules. -/
theorem mul_boxFor_le (hn : 0 < n) (h : n ≤ size) : n * boxFor n size ≤ size := by
  rcases (boxFor_isGreatest hn size).1.2 with hone | hfit
  · rw [hone]
    omega
  · exact hfit

/-- The samples of a drawn symbol are among its lines, and each module has some. -/
theorem mem_samples_iff (hn : 0 < n) (hsize : size ≤ 500) (hlt : n * boxFor n size < size) (k : Nat) :
    (∃ line ∈ samples (n * boxFor n size) size, line / boxFor n size = k) ↔ k < n := by
  have hbox := boxFor_pos n size
  generalize boxFor n size = box at hlt hbox ⊢
  have hsize0 : (0 : ℚ) < size := Nat.cast_pos.2 (by omega)
  have hedge1 : (1 : ℚ) ≤ (n * box : ℕ) := by exact_mod_cast Nat.mul_pos hn hbox
  have hedge : ((n * box : ℕ) : ℚ) + 1 ≤ size := by exact_mod_cast hlt
  have hsize500 : (size : ℚ) ≤ 500 := by exact_mod_cast hsize
  generalize hr : ((n * box : ℕ) : ℚ) / size = r
  have hr0 : 1 / 500 ≤ r := by
    rw [← hr, div_le_div_iff₀ (by norm_num) hsize0]
    linarith
  have hr1 : r ≤ 1 - 1 / 500 := by
    rw [← hr, div_le_iff₀ hsize0]
    linarith
  have hwhole : size * r = (n * box : ℕ) := by rw [← hr, mul_div_cancel₀ _ hsize0.ne']
  constructor
  · rintro ⟨line, hline, rfl⟩
    obtain ⟨i, hi, hget⟩ := List.getElem_of_mem hline
    rw [length_samples] at hi
    have hi' : (i : ℚ) + 1 ≤ size := by exact_mod_cast hi
    have hmiddle : ((i : ℚ) + 1 / 2) * r ≤ (size - 1 / 2) * r :=
      mul_le_mul_of_nonneg_right (by linarith) (by linarith)
    have hmiddle0 : 0 + 1 / 2 * r ≤ ((i : ℚ) + 1 / 2) * r := by
      rw [zero_add]
      exact mul_le_mul_of_nonneg_right (by linarith [Nat.cast_nonneg (α := ℚ) i]) (by linarith)
    obtain ⟨line', hline', -, hhigh⟩ := line_of_middle hlt hsize hi 0 (n * box)
      (by rw [hr, Nat.cast_zero, drift]; linarith)
      (by rw [hr, drift]; linarith)
    have heq : line' = line := by
      rw [List.getElem?_eq_some_iff] at hline'
      obtain ⟨_, hline'⟩ := hline'
      exact hline'.symm.trans hget
    rw [← heq, Nat.div_lt_iff_lt_mul hbox]
    exact hhigh
  · intro hk
    have hbox1 : (1 : ℚ) ≤ box := by exact_mod_cast hbox
    have hlow0 : (0 : ℚ) ≤ (k * box : ℕ) := Nat.cast_nonneg _
    obtain ⟨i, hlow, hhigh⟩ := exists_middle ((k * box : ℕ) + 500 * drift)
      (by linarith : 0 < r) (by rw [drift]; linarith)
    have hnext : ((k * box : ℕ) : ℚ) + box ≤ (n * box : ℕ) := by
      exact_mod_cast (Nat.succ_mul k box ▸ Nat.mul_le_mul_right box hk : k * box + box ≤ n * box)
    -- a middle before the last square is that of a line of the picture
    have hi : i < size := by
      have hlt' : ((i : ℚ) + 1 / 2) * r < (size + 1 / 2) * r := by
        rw [add_mul (size : ℚ), hwhole]
        rw [drift] at hhigh
        linarith
      have hcast := lt_of_mul_lt_mul_right hlt' (by linarith)
      exact_mod_cast (by linarith : (i : ℚ) < size)
    obtain ⟨line, hline, hin, hout⟩ := line_of_middle hlt hsize hi (k * box)
      (k * box + box) (by rw [hr]; exact hlow)
      (by rw [hr]; push_cast at hhigh ⊢; rw [drift] at hhigh ⊢; linarith)
    exact ⟨line, List.mem_of_getElem? hline, (within_module_iff hbox k line).1 ⟨hin, hout⟩⟩

/-- In a size that has room for all modules every line of them is shown, and nothing else is. -/
theorem mem_shownLines_iff (hn : 0 < n) (h : n ≤ size) (hsize : size ≤ 500) (k : Nat) :
    k ∈ shownLines n size ↔ k < n := by
  have hbox := boxFor_pos n size
  rw [shownLines, List.mem_map]
  split
  · rename_i hwhole
    constructor
    · rintro ⟨line, hline, rfl⟩
      rw [Nat.div_lt_iff_lt_mul hbox, hwhole]
      exact List.mem_range.1 hline
    · intro hk
      refine ⟨k * boxFor n size, List.mem_range.2 ?_, Nat.mul_div_cancel _ hbox⟩
      calc k * boxFor n size < n * boxFor n size := Nat.mul_lt_mul_of_pos_right hk hbox
        _ = size := hwhole
  · rename_i hne
    exact mem_samples_iff hn hsize (Nat.lt_of_le_of_ne (mul_boxFor_le hn h) hne) k

/-- A picture has no more lines of modules than lines. -/
theorem exists_lost_line (h : size < n) : ∃ k < n, k ∉ shownLines n size := by
  by_contra hall
  push Not at hall
  have hsub : List.range n ⊆ shownLines n size := fun k hk => hall k (List.mem_range.1 hk)
  have hle := (List.nodup_range.subperm hsub).length_le
  rw [List.length_range, length_shownLines] at hle
  omega

/-! ## The picture -/

theorem isSquare_scale (size : Nat) (b : Bitmap) : (scale size b).IsSquare size := by
  unfold scale
  constructor
  · rw [List.length_map, length_samples]
  · intro row hrow
    obtain ⟨y, -, rfl⟩ := List.mem_map.1 hrow
    rw [List.length_map, length_samples]

theorem at?_scale {b : Bitmap} {x y i j : Nat} (hx : (samples b.length size)[x]? = some i)
    (hy : (samples b.length size)[y]? = some j) :
    (scale size b).at? x y = some ((b.at? i j).getD false) := by
  simp only [at?, scale, List.getElem?_map, hx, hy, Option.map_some, Option.bind_some,
    Option.some.injEq, List.getD_eq_getElem?_getD]
  cases b[j]? <;> rfl

variable {symbol : Bitmap}

/-- A pixel of the picture is the module on the lines that its column and its row show. -/
theorem ofSymbol_shows (hsymbol : symbol.IsSquare n) (hn : 0 < n) (hsize : 0 < size) :
    ∃ b, ofSymbol size symbol = .ok b ∧ b.IsSquare size ∧
      ∀ x y i j, (shownLines n size)[x]? = some i → (shownLines n size)[y]? = some j →
        b.at? x y = some ((symbol.at? i j).getD false) := by
  have hbox := boxFor_pos n size
  have hdraw : (draw (boxFor n size) symbol).IsSquare (n * boxFor n size) := isSquare_draw hsymbol
  simp only [ofSymbol, hsymbol.rows, if_neg (Nat.ne_of_gt hn), hdraw.rows,
    if_neg (Nat.ne_of_gt hsize), shownLines, List.getElem?_map, Option.map_eq_some_iff]
  by_cases hwhole : n * boxFor n size = size
  · simp only [if_pos hwhole]
    rw [hwhole] at hdraw
    refine ⟨_, rfl, hdraw, ?_⟩
    rintro x y i j ⟨x', hx, rfl⟩ ⟨y', hy, rfl⟩
    obtain ⟨hxlt, rfl⟩ := List.getElem?_eq_some_iff.1 hx
    obtain ⟨hylt, rfl⟩ := List.getElem?_eq_some_iff.1 hy
    rw [List.getElem_range, List.getElem_range, ← at?_draw hbox hsymbol]
    rw [List.length_range] at hxlt hylt
    obtain ⟨dark, hdark⟩ := hdraw.at?_eq_some hxlt hylt
    rw [hdark, Option.getD_some]
  · simp only [if_neg hwhole]
    refine ⟨_, rfl, isSquare_scale .., ?_⟩
    rintro x y i j ⟨x', hx, rfl⟩ ⟨y', hy, rfl⟩
    rw [← hdraw.rows] at hx hy
    rw [at?_scale hx hy, at?_draw hbox hsymbol]

end

open Resolution (symbolEdges)

/-- The symbol of a payload is drawn in any size that codes have, each pixel being a module on the lines
that its column and its row show. Every line of modules is shown just when the size has room for all of
them, and then nothing else is shown. -/
theorem every_module_shown_iff {encode : Encoder} {border n size : Nat} {payload : Text}
    {l : ErrorLevel} {symbol : Bitmap} (hcode : encode ⟨payload, l, border⟩ = .ok symbol)
    (hsymbol : symbol.IsSquare n) (hn : 0 < n) (hmin : symbolEdges.1 ≤ size)
    (hmax : size ≤ symbolEdges.2) :
    ∃ b, ofPayload encode border size payload l.letter = .ok b ∧ b.IsSquare size ∧
      (∀ x < size, ∀ y < size, ∃ i j, (shownLines n size)[x]? = some i ∧
        (shownLines n size)[y]? = some j ∧ b.at? x y = some ((symbol.at? i j).getD false)) ∧
      ((∀ k < n, k ∈ shownLines n size) ↔ n ≤ size) ∧
      (n ≤ size → ∀ k ∈ shownLines n size, k < n) := by
  have hsize : 0 < size := Nat.lt_of_lt_of_le (by decide) hmin
  obtain ⟨b, hb, hsquare, hpixels⟩ := ofSymbol_shows hsymbol hn hsize
  have hlevel : ErrorLevel.ofLetter? l.letter = some l := by cases l <;> rfl
  refine ⟨b, ?_, hsquare, ?_, ⟨fun h => ?_, fun h k hk => ?_⟩, fun h k hk => ?_⟩
  · rw [ofPayload, hlevel]
    simp only [hcode, bind, Except.bind]
    exact hb
  · intro x hx y hy
    have hline {z : Nat} (hz : z < size) : ∃ k, (shownLines n size)[z]? = some k :=
      ⟨_, List.getElem?_eq_getElem ((length_shownLines n size).symm ▸ hz)⟩
    obtain ⟨i, hi⟩ := hline hx
    obtain ⟨j, hj⟩ := hline hy
    exact ⟨i, j, hi, hj, hpixels x y i j hi hj⟩
  · by_contra hnot
    obtain ⟨k, hk, hlost⟩ := exists_lost_line (Nat.not_le.1 hnot)
    exact hlost (h k hk)
  · exact (mem_shownLines_iff hn h hmax k).2 hk
  · exact (mem_shownLines_iff hn h hmax k).1 hk

/-! ## A line in two sizes -/

/-- A symbol whose only dark modules make one line. -/
def lined (n k : Nat) : Bitmap := (List.range n).map fun y => List.replicate n (y == k)

theorem isSquare_lined (n k : Nat) : (lined n k).IsSquare n where
  rows := by rw [lined, List.length_map, List.length_range]
  columns row hrow := by
    obtain ⟨y, -, rfl⟩ := List.mem_map.1 hrow
    exact List.length_replicate

theorem at?_lined {n k y : Nat} (x : Nat) (hy : y ≠ k) : ((lined n k).at? x y).getD false = false := by
  rw [at?, lined, List.getElem?_map]
  cases h : (List.range n)[y]? with
  | none => rfl
  | some y' =>
    obtain ⟨-, rfl⟩ := List.getElem?_eq_some_iff.1 h
    simp only [List.getElem_range, Option.map_some, Option.bind_some, beq_eq_false_iff_ne.2 hy,
      List.getElem?_replicate]
    split <;> rfl

/-- The least code but one, in the least size. -/
theorem every_module_shown_iff_lined : ∃ b,
    ofPayload (fun _ => .ok (lined 29 3)) 2 50 ['x'] ErrorLevel.low.letter = .ok b ∧
      b.IsSquare 50 ∧ ∀ k < 29, k ∈ shownLines 29 50 := by
  obtain ⟨b, hb, hsquare, -, hshown, -⟩ := @every_module_shown_iff
    (fun _ => .ok (lined 29 3)) 2 29 50 ['x'] .low (lined 29 3) rfl
    (isSquare_lined 29 3) (by decide) (by decide) (by decide)
  exact ⟨b, hb, hsquare, hshown.2 (by decide)⟩

/-- A code of fifty-three modules, as longer payloads have, loses a line of them in the least size: it
may be the only dark one, and nothing of it is seen in the picture. -/
theorem line_lost_in_least_size :
    (lined 53 8).IsSquare 53 ∧ (lined 53 8).at? 0 8 = some true ∧ 8 ∉ shownLines 53 50 ∧
      ∃ b, ofPayload (fun _ => .ok (lined 53 8)) 2 50 ['x'] ErrorLevel.low.letter = .ok b ∧
        b.IsSquare 50 ∧ ∀ x y, b.at? x y ≠ some true := by
  have hlost : 8 ∉ shownLines 53 50 := by decide +kernel
  obtain ⟨b, hb, hsquare, hpixels⟩ := @ofSymbol_shows 53 50 _ (isSquare_lined 53 8)
    (by decide) (by decide)
  refine ⟨isSquare_lined 53 8, by decide, hlost, b, hb, hsquare, fun x y hdark => ?_⟩
  by_cases hin : x < 50 ∧ y < 50
  · have hx : x < (shownLines 53 50).length := (length_shownLines 53 50).symm ▸ hin.1
    have hy : y < (shownLines 53 50).length := (length_shownLines 53 50).symm ▸ hin.2
    have hpixel := hpixels x y _ _ (List.getElem?_eq_getElem hx) (List.getElem?_eq_getElem hy)
    have hne : (shownLines 53 50)[y] ≠ 8 := fun h => hlost (h ▸ List.getElem_mem hy)
    rw [at?_lined _ hne, hdark] at hpixel
    cases hpixel
  · rw [hsquare.at?_eq_none hin] at hdark
    cases hdark

end MailMerge.Bitmap
