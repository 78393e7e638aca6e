/-!
# Tables

A table holds entries under keys, in the order in which the keys were first put in. Putting a value
under a present key keeps the key's place.

Results:
* `get?_insert`, `get?_erase`: what is found after a change.
* `keys_insert`: a new key comes last, a present one stays where it is.
* `nodup_keys_insert`: keys never repeat.
-/
namespace MailMerge

/-- Entries under keys, in order. -/
abbrev Table (κ α : Type) := List (κ × α)

namespace Table

variable {κ α : Type} [DecidableEq κ]

/-- The entry under a key. -/
def get? : Table κ α → κ → Option α
  | [], _ => none
  | (k, v) :: r, x => if k = x then some v else get? r x

/-- The keys in order. -/
def keys (t : Table κ α) : List κ := t.map (·.1)

/-- Whether there is an entry under a key. -/
def has (t : Table κ α) (x : κ) : Bool := (t.get? x).isSome

/-- The table with `v` under the key `x`. -/
def insert : Table κ α → κ → α → Table κ α
  | [], x, v => [(x, v)]
  | (k, w) :: r, x, v => if k = x then (k, v) :: r else (k, w) :: insert r x v

/-- The table without the entry under a key. -/
def erase (t : Table κ α) (x : κ) : Table κ α := t.filter fun e => e.1 ≠ x

/-- The table of a list of entries; the last of those under one key counts. -/
def ofList (l : List (κ × α)) : Table κ α := l.foldl (fun t e => t.insert e.1 e.2) []

theorem get?_insert (t : Table κ α) (x y : κ) (v : α) :
    (t.insert x v).get? y = if x = y then some v else t.get? y := by
  induction t with
  | nil => simp [insert, get?]
  | cons e r ih =>
    obtain ⟨k, w⟩ := e
    by_cases h : k = x
    · subst h; by_cases hy : k = y <;> simp [insert, get?, hy]
    · by_cases hy : k = y
      · subst hy; simp [insert, get?, h, Ne.symm h]
      · simp [insert, get?, h, hy, ih]

theorem get?_erase (t : Table κ α) (x y : κ) :
    (t.erase x).get? y = if x = y then none else t.get? y := by
  induction t with
  | nil => simp [erase, get?]
  | cons e r ih =>
    obtain ⟨k, w⟩ := e
    have ih' : get? (r.filter fun e => e.1 ≠ x) y = if x = y then none else get? r y := ih
    by_cases h : k = x
    · subst h; by_cases hy : k = y <;> simp_all [erase, get?]
    · by_cases hy : k = y
      · subst hy; simp [erase, get?, h, Ne.symm h]
      · simp only [erase, List.filter_cons]
        simp only [ne_eq, h, not_false_eq_true, decide_true, if_true, get?, hy, if_false]
        exact ih'

theorem keys_insert (t : Table κ α) (x : κ) (v : α) :
    (t.insert x v).keys = if x ∈ t.keys then t.keys else t.keys ++ [x] := by
  induction t with
  | nil => simp [insert, keys]
  | cons e r ih =>
    obtain ⟨k, w⟩ := e
    by_cases h : k = x
    · subst h; simp [insert, keys]
    · have hx : ¬ x = k := fun e => h e.symm
      simp only [keys] at ih
      by_cases hm : x ∈ r.map (·.1) <;> simp_all [insert, keys]

theorem nodup_keys_insert {t : Table κ α} (h : t.keys.Nodup) (x : κ) (v : α) :
    (t.insert x v).keys.Nodup := by
  rw [keys_insert]
  split
  · exact h
  · rename_i hx
    refine List.nodup_append.2 ⟨h, by simp, fun a ha b hb e => hx ?_⟩
    rw [List.mem_singleton] at hb
    exact hb ▸ e ▸ ha

end Table
end MailMerge
