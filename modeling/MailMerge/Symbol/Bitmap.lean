import MailMerge.Number.Binary64
/-!
# Bitmaps

Pictures of dark and light pixels. A symbol, itself a bitmap of modules, is drawn by a dark square
for each dark module. A bitmap is scaled by sampling: each line and column of the result is one of
the given bitmap, the sampled places being added up in steps of binary floating point numbers.
-/
namespace MailMerge

/-- Rows of pixels, dark ones being `true`. -/
abbrev Bitmap := List (List Bool)

namespace Bitmap

/-- A square of light pixels. -/
def blank (edge : Nat) : Bitmap := List.replicate edge (List.replicate edge false)

/-- The list with `n` members from an index changed. -/
def modifyRange {α : Type} (f : α → α) : (index n : Nat) → List α → List α
  | _, _, [] => []
  | i + 1, n, a :: l => a :: modifyRange f i n l
  | 0, 0, l => l
  | 0, n + 1, a :: l => f a :: modifyRange f 0 n l

/-- The bitmap with a dark square of an edge, its corner in a column and a row. -/
def darken (edge column row : Nat) (b : Bitmap) : Bitmap :=
  modifyRange (modifyRange (fun _ => true) column edge) row edge b

/-- The places of the dark modules, as column and row. -/
def darkPlaces (symbol : Bitmap) : List (Nat × Nat) :=
  symbol.zipIdx.flatMap fun (cells, row) =>
    cells.zipIdx.filterMap fun (dark, column) => if dark then some (column, row) else none

/-- The symbol with `box` pixels to each edge of a module. -/
def draw (box : Nat) (symbol : Bitmap) : Bitmap :=
  (darkPlaces symbol).foldl (fun b p => darken box (p.1 * box) (p.2 * box) b)
    (blank (symbol.length * box))

/-- The largest number of pixels to a module that fits into a size, but at least one. -/
def boxFor (modules size : Nat) : Nat := max 1 (size / modules)

/-- The places sampled from a place on in steps of `step`. -/
def samplesFrom (step : Binary64) : (n : Nat) → (place : Binary64) → List Nat
  | 0, _ => []
  | n + 1, place =>
    (place.truncate?.getD 0).toNat :: samplesFrom step n (Binary64.add place step)

/-- Which of `edge` lines each of `size` lines is a sample of. -/
def samples (edge size : Nat) : List Nat :=
  let step := Binary64.ofFraction false edge size
  samplesFrom step size (Binary64.mul step (Binary64.ofFraction false 1 2))

/-- The bitmap of a size in which each line and column is a sample of the given one. -/
def scale (size : Nat) (b : Bitmap) : Bitmap :=
  let places := samples b.length size
  places.map fun y => let row := b.getD y []; places.map fun x => row.getD x false

/-- Width and height in pixels. -/
def size (b : Bitmap) : Nat × Nat := ((b.headD []).length, b.length)

end Bitmap
end MailMerge
