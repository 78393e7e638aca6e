import Mathlib.Order.Bounds.Defs
import MailMerge.Symbol.Drawing
/-!
# Symbols are drawn module by module

A dark square of `box` pixels to an edge, with its corner at the place of a module times `box`, darkens
the pixels that division by `box` leads back to the module, and no other (`at?_darken`). So it does not
matter which squares were painted before: after any of them a pixel is dark just when its module is among
those painted (`at?_foldl_darken`), and when all are painted it is what its module is (`at?_draw`).

* `boxFor_isGreatest`: no larger box fits.
* `draw_exact`: the picture before it is scaled, and when it is not scaled at all.
-/
namespace MailMerge.Bitmap

/-- The pixel in a column and a row, if there is one. -/
def at? (b : Bitmap) (x y : Nat) : Option Bool := b[y]?.bind (·[x]?)

/-- Whether a bitmap has so many rows, each with so many pixels. -/
structure IsSquare (edge : Nat) (b : Bitmap) : Prop where
  rows : b.length = edge
  columns : ∀ row ∈ b, row.length = edge

theorem IsSquare.at?_eq_some {edge : Nat} {b : Bitmap} (h : b.IsSquare edge) {x y : Nat}
    (hx : x < edge) (hy : y < edge) : ∃ p, b.at? x y = some p := by
  have hrow : y < b.length := h.rows.symm ▸ hy
  have hcolumn : x < b[y].length := (h.columns _ (List.getElem_mem hrow)).symm ▸ hx
  refine ⟨b[y][x], ?_⟩
  rw [at?, List.getElem?_eq_getElem hrow, Option.bind_some, List.getElem?_eq_getElem hcolumn]

theorem IsSquare.at?_eq_none {edge : Nat} {b : Bitmap} (h : b.IsSquare edge) {x y : Nat}
    (hout : ¬ (x < edge ∧ y < edge)) : b.at? x y = none := by
  rw [at?, Option.bind_eq_none_iff]
  intro row hrow
  obtain ⟨hy, rfl⟩ := List.getElem?_eq_some_iff.1 hrow
  have hlen := h.columns _ (List.getElem_mem hy)
  rw [h.rows] at hy
  rw [List.getElem?_eq_none_iff]
  omega

/-! ## One square -/

theorem getElem?_modifyRange {α : Type} (f : α → α) (i n : Nat) (l : List α) (j : Nat) :
    (modifyRange f i n l)[j]? = if i ≤ j ∧ j < i + n then l[j]?.map f else l[j]? := by
  fun_induction modifyRange f i n l generalizing j with
  | case1 => simp
  | case2 n i a l ih =>
    cases j with
    | zero => simp
    | succ j =>
      have hshift : (n + 1 ≤ j + 1 ∧ j + 1 < n + 1 + i) ↔ (n ≤ j ∧ j < n + i) := by omega
      simp only [List.getElem?_cons_succ, ih, hshift]
  | case3 l => simp
  | case4 n a l ih =>
    cases j with
    | zero => simp
    | succ j => simp [ih]

theorem length_modifyRange {α : Type} (f : α → α) (i n : Nat) (l : List α) :
    (modifyRange f i n l).length = l.length := by
  fun_induction modifyRange f i n l <;> simp_all

/-- What stands in a list after some of it was changed, stood there before or was changed. -/
theorem mem_modifyRange {α : Type} {f : α → α} {i n : Nat} {l : List α} {a : α}
    (h : a ∈ modifyRange f i n l) : a ∈ l ∨ ∃ a' ∈ l, a = f a' := by
  obtain ⟨j, hj⟩ := List.getElem?_of_mem h
  rw [getElem?_modifyRange] at hj
  split at hj
  · obtain ⟨a', ha', rfl⟩ := Option.map_eq_some_iff.1 hj
    exact Or.inr ⟨a', List.mem_of_getElem? ha', rfl⟩
  · exact Or.inl (List.mem_of_getElem? hj)

theorem IsSquare.darken {edge : Nat} {b : Bitmap} (h : b.IsSquare edge) (e column row : Nat) :
    (darken e column row b).IsSquare edge where
  rows := (length_modifyRange ..).trans h.rows
  columns r hr := by
    rcases mem_modifyRange hr with hr | ⟨r', hr', rfl⟩
    · exact h.columns r hr
    · exact (length_modifyRange ..).trans (h.columns r' hr')

section
variable {box : Nat}

/-- A place lies in the stretch of a module just when division leads to the module. -/
theorem within_module_iff (hbox : 0 < box) (i x : Nat) :
    (i * box ≤ x ∧ x < i * box + box) ↔ x / box = i := by
  rw [Nat.div_eq_iff hbox]
  omega

/-- The square of a module darkens its pixels and leaves all others as they are. -/
theorem at?_darken (hbox : 0 < box) (p : Nat × Nat) (b : Bitmap) (x y : Nat) :
    (darken box (p.1 * box) (p.2 * box) b).at? x y =
      (b.at? x y).map (· || decide ((x / box, y / box) = p)) := by
  obtain ⟨column, row⟩ := p
  simp only [at?, darken, getElem?_modifyRange, within_module_iff hbox, Prod.mk.injEq]
  cases hb : b[y]? with
  | none => simp
  | some r =>
    by_cases hrow : y / box = row
    · by_cases hcolumn : x / box = column
      · simp [hrow, hcolumn, getElem?_modifyRange, within_module_iff hbox]
      · simp [hrow, hcolumn, getElem?_modifyRange, within_module_iff hbox]
    · simp [hrow]

/-! ## All squares -/

/-- After the squares of some modules were painted, a pixel is dark when it was, or when its module is
among them. -/
theorem at?_foldl_darken (hbox : 0 < box) (ps : List (Nat × Nat)) (b : Bitmap) (x y : Nat) :
    (ps.foldl (fun b p => darken box (p.1 * box) (p.2 * box) b) b).at? x y =
      (b.at? x y).map (· || decide ((x / box, y / box) ∈ ps)) := by
  induction ps generalizing b with
  | nil => simp
  | cons p ps ih =>
    rw [List.foldl_cons, ih, at?_darken hbox, Option.map_map]
    congr 1
    funext dark
    simp [Bool.or_assoc]

theorem isSquare_blank (edge : Nat) : (blank edge).IsSquare edge where
  rows := List.length_replicate
  columns row h := by rw [List.eq_of_mem_replicate h, List.length_replicate]

theorem at?_blank {edge x y : Nat} (hx : x < edge) (hy : y < edge) :
    (blank edge).at? x y = some false := by
  simp [blank, at?, hx, hy]

theorem mem_darkPlaces {symbol : Bitmap} {column row : Nat} :
    (column, row) ∈ darkPlaces symbol ↔ symbol.at? column row = some true := by
  simp only [darkPlaces, List.mem_flatMap, Prod.exists, List.mem_filterMap, List.mem_zipIdx_iff_getElem?,
    at?, Option.bind_eq_some_iff]
  constructor
  · rintro ⟨cells, row', hrow, dark, column', hcolumn, h⟩
    cases dark with
    | false => cases h
    | true =>
      cases h
      exact ⟨cells, hrow, hcolumn⟩
  · rintro ⟨cells, hrow, hcolumn⟩
    exact ⟨cells, row, hrow, true, column, hcolumn, rfl⟩

variable {n : Nat} {symbol : Bitmap}

theorem isSquare_draw (h : symbol.IsSquare n) : (draw box symbol).IsSquare (n * box) := by
  unfold draw
  rw [h.rows]
  exact List.foldlRecOn _ _ (isSquare_blank _) fun b hb p _ => hb.darken ..

/-- A pixel of the drawn symbol is what its module is, and there is one just when there is such a
module. -/
theorem at?_draw (hbox : 0 < box) (h : symbol.IsSquare n) (x y : Nat) :
    (draw box symbol).at? x y = symbol.at? (x / box) (y / box) := by
  have hin (z : Nat) : z < n * box ↔ z / box < n := (Nat.div_lt_iff_lt_mul hbox).symm
  by_cases hxy : x / box < n ∧ y / box < n
  · obtain ⟨dark, hdark⟩ := h.at?_eq_some hxy.1 hxy.2
    have hblank : (blank (symbol.length * box)).at? x y = some false := by
      rw [h.rows]
      exact at?_blank ((hin x).2 hxy.1) ((hin y).2 hxy.2)
    rw [draw, at?_foldl_darken hbox, hblank, hdark, Option.map_some]
    cases dark <;> simp [mem_darkPlaces, hdark]
  · rw [h.at?_eq_none hxy, (isSquare_draw h).at?_eq_none]
    rwa [hin x, hin y]

end

/-! ## The box -/

/-- The box is the largest one with which a symbol fits, or the least one there is. -/
theorem boxFor_isGreatest {n : Nat} (hn : 0 < n) (size : Nat) :
    IsGreatest {b | 1 ≤ b ∧ (b = 1 ∨ n * b ≤ size)} (boxFor n size) := by
  have hle (b : Nat) : n * b ≤ size ↔ b ≤ size / n := by
    rw [Nat.le_div_iff_mul_le hn, Nat.mul_comm]
  constructor
  · refine ⟨Nat.le_max_left .., ?_⟩
    rcases Nat.le_total (size / n) 1 with hone | hmore
    · exact Or.inl (Nat.max_eq_left hone)
    · rw [boxFor, Nat.max_eq_right hmore]
      exact Or.inr ((hle _).2 (Nat.le_refl _))
  · rintro b ⟨-, rfl | hb⟩
    · exact Nat.le_max_left ..
    · exact Nat.le_trans ((hle b).1 hb) (Nat.le_max_right ..)

theorem boxFor_pos (n size : Nat) : 0 < boxFor n size := Nat.le_max_left ..

theorem mul_boxFor_of_dvd {n size : Nat} (hsize : 1 ≤ size) (h : n ∣ size) :
    n * boxFor n size = size := by
  obtain ⟨k, rfl⟩ := h
  have hn : 0 < n := Nat.pos_of_mul_pos_right hsize
  have hk : 1 ≤ k := Nat.pos_of_mul_pos_left hsize
  rw [boxFor, Nat.mul_div_cancel_left k hn, Nat.max_eq_right hk]

/-- The picture that the squares of a symbol make has so many pixels for each module as fit, each of them
what its module is; when the size is a multiple of the symbol's, this is the picture asked for. -/
theorem draw_exact {n size : Nat} {symbol : Bitmap} (hn : 1 ≤ n) (hsize : 1 ≤ size)
    (h : symbol.IsSquare n) :
    IsGreatest {b | 1 ≤ b ∧ (b = 1 ∨ n * b ≤ size)} (boxFor n size) ∧
      (draw (boxFor n size) symbol).IsSquare (n * boxFor n size) ∧
      (∀ x y, (draw (boxFor n size) symbol).at? x y =
        symbol.at? (x / boxFor n size) (y / boxFor n size)) ∧
      (n ∣ size → ofSymbol size symbol = .ok (draw (boxFor n size) symbol) ∧
        (draw (boxFor n size) symbol).IsSquare size) := by
  have hdraw : (draw (boxFor n size) symbol).IsSquare (n * boxFor n size) := isSquare_draw h
  refine ⟨boxFor_isGreatest hn size, hdraw, at?_draw (boxFor_pos n size) h, fun hdvd => ?_⟩
  rw [mul_boxFor_of_dvd hsize hdvd] at hdraw
  refine ⟨?_, hdraw⟩
  have hne : n ≠ 0 := by omega
  simp only [ofSymbol, h.rows, if_neg hne, hdraw.rows, if_true]

/-- A cross of dark modules, three to an edge. -/
def cross : Bitmap := [[true, false, true], [false, true, false], [true, false, true]]

/-- The cross drawn with seven pixels to a module. -/
theorem draw_exact_cross :
    cross.IsSquare 3 ∧ boxFor 3 21 = 7 ∧ (draw 7 cross).at? 20 6 = some true ∧
      ofSymbol 21 cross = .ok (draw 7 cross) ∧ (draw 7 cross).IsSquare 21 := by
  have hsymbol : cross.IsSquare 3 := ⟨rfl, by decide⟩
  obtain ⟨-, -, hpixels, hwhole⟩ := @draw_exact 3 21 cross (by decide) (by decide) hsymbol
  obtain ⟨hpicture, hsquare⟩ := hwhole (by decide)
  exact ⟨hsymbol, rfl, hpixels 20 6, hpicture, hsquare⟩

end MailMerge.Bitmap
