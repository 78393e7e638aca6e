import Mathlib.Data.List.Induction
import MailMerge.Proofs.Placeholder.Token
/-!
# Finding tokens

A text is read once from the left, and what a token took up is not looked at again. Nothing is
missed by that: the only dollar sign of a token stands in front, so no token begins inside another
one.

* `mem_places_iff`: the places where tokens are found are those where tokens stand.
* `pairwise_distinct`: without repetitions, the first occurrences remain in their order.
* `find_exact`: each token of a text is found once, in the order of first occurrence.
-/
namespace MailMerge.Token

/-- Whether the token of an inner text stands at a place of a text. -/
def StandsAt (inner : Text) (place : Nat) (t : Text) : Prop :=
  IsInner inner ∧ wrap inner <+: t.drop place

section
variable {u inner t r : Text} {c : Char} {place : Nat}

theorem at?_eq_some_iff : at? t = some u ↔ StandsAt u 0 t := by
  constructor
  · intro h
    obtain ⟨hu, r, hr⟩ := at?_eq_some h
    exact ⟨hu, r, hr.symm⟩
  · intro h
    obtain ⟨hu, r, hr⟩ := h
    rw [List.drop_zero] at hr
    rw [← hr]
    exact at?_wrap_append hu r

theorem standsAt_nil : ¬ StandsAt u place [] := by
  intro h
  have := h.2.length_le
  simp [wrap_eq_cons] at this

theorem standsAt_cons : StandsAt u (place + 1) (c :: r) ↔ StandsAt u place r := by
  simp [StandsAt]

/-- A token begins with the dollar sign. -/
theorem StandsAt.getElem? (h : StandsAt u place t) : t[place]? = some '$' := by
  obtain ⟨-, r, hr⟩ := h
  have hhead : (t.drop place).head? = some '$' := by
    rw [← hr]
    rfl
  rwa [List.head?_drop] at hhead

/-- No token begins inside another one. -/
theorem not_standsAt_inside (h : StandsAt inner 0 (c :: r)) (hplace : place < inner.length + 2) :
    ¬ StandsAt u place r := by
  intro hu
  obtain ⟨hinner, s, hs⟩ := h
  rw [List.drop_zero, wrap_eq_cons, List.cons_append] at hs
  obtain ⟨-, rfl⟩ := List.cons.inj hs
  have hdollar := hu.getElem?
  rw [List.getElem?_append_left (by simp; omega)] at hdollar
  exact hinner.not_mem (List.mem_of_getElem? hdollar)

end

/-! ## Places -/

/-- The tokens after the first `skip` characters of a text that begins at the place `i`, each with
its place. -/
def places : (skip i : Nat) → Text → List (Nat × Text)
  | _, _, [] => []
  | skip + 1, i, _ :: r => places skip (i + 1) r
  | 0, i, c :: r =>
    match at? (c :: r) with
    | some inner => (i, inner) :: places (inner.length + 2) (i + 1) r
    | none => places 0 (i + 1) r

theorem map_places (t : Text) : ∀ skip i, (places skip i t).map Prod.snd = scan skip t := by
  induction t with
  | nil => intro skip i; cases skip <;> rfl
  | cons c r ih =>
    intro skip i
    cases skip with
    | succ skip => exact ih skip (i + 1)
    | zero =>
      rw [places, scan]
      cases at? (c :: r) <;> simp [ih]

/-- The places where tokens are found are those where tokens stand. -/
theorem mem_places_iff {u : Text} {k : Nat} (t : Text) : ∀ skip i,
    (k, u) ∈ places skip i t ↔ ∃ place, k = i + place ∧ skip ≤ place ∧ StandsAt u place t := by
  induction t with
  | nil => intro skip i; cases skip <;> simp [places, standsAt_nil]
  | cons c r ih =>
    -- the places in the rest, counted from the place of `c`
    have hrest : ∀ skip i, (k, u) ∈ places skip (i + 1) r ↔
        ∃ place, k = i + place ∧ skip + 1 ≤ place ∧ StandsAt u place (c :: r) := by
      intro skip i
      rw [ih]
      constructor
      · intro h
        obtain ⟨place, hk, hskip, hu⟩ := h
        exact ⟨place + 1, by omega, by omega, standsAt_cons.2 hu⟩
      · intro h
        obtain ⟨place, hk, hskip, hu⟩ := h
        obtain ⟨place, rfl⟩ := Nat.exists_eq_add_of_lt hskip
        rw [show skip + place + 1 = (skip + place) + 1 from rfl, standsAt_cons] at hu
        exact ⟨skip + place, by omega, by omega, hu⟩
    intro skip i
    cases skip with
    | succ skip => exact hrest skip i
    | zero =>
      rw [places]
      cases hat : at? (c :: r) with
      | none =>
        rw [hrest]
        have hno : ¬ StandsAt u 0 (c :: r) := by
          rw [← at?_eq_some_iff, hat]
          simp
        constructor
        · intro h
          obtain ⟨place, hk, -, hu⟩ := h
          exact ⟨place, hk, by omega, hu⟩
        · intro h
          obtain ⟨place, hk, -, hu⟩ := h
          cases place with
          | zero => exact absurd hu hno
          | succ place => exact ⟨place + 1, hk, by omega, hu⟩
      | some inner =>
        have hinner := at?_eq_some_iff.1 hat
        rw [List.mem_cons, hrest]
        constructor
        · intro h
          rcases h with h | h
          · obtain ⟨rfl, rfl⟩ := Prod.mk.inj h
            exact ⟨0, rfl, Nat.le_refl _, hinner⟩
          · obtain ⟨place, hk, -, hu⟩ := h
            exact ⟨place, hk, by omega, hu⟩
        · intro h
          obtain ⟨place, hk, -, hu⟩ := h
          cases place with
          | zero =>
            have hsame := hat.symm.trans (at?_eq_some_iff.2 hu)
            left
            rw [hk, ← Option.some.inj hsame]
            rfl
          | succ place =>
            right
            refine ⟨place + 1, hk, ?_, hu⟩
            have := mt (not_standsAt_inside hinner) (not_not_intro (standsAt_cons.1 hu))
            omega

theorem places_pairwise (t : Text) : ∀ skip i, (places skip i t).Pairwise (·.1 < ·.1) := by
  induction t with
  | nil => intro skip i; cases skip <;> exact List.Pairwise.nil
  | cons c r ih =>
    intro skip i
    cases skip with
    | succ skip => exact ih skip (i + 1)
    | zero =>
      rw [places]
      split
      · refine List.Pairwise.cons ?_ (ih _ _)
        intro q hq
        obtain ⟨place, hk, -⟩ := (mem_places_iff r _ _).1 hq
        simp only [hk]
        omega
      · exact ih 0 (i + 1)

/-! ## First occurrences -/

section
variable {α : Type} [DecidableEq α]

theorem distinct_concat (l : List α) (x : α) :
    distinct (l ++ [x]) = if x ∈ distinct l then distinct l else distinct l ++ [x] := by
  unfold distinct
  rw [List.foldl_append]
  rfl

theorem nodup_distinct (l : List α) : (distinct l).Nodup := by
  induction l using List.reverseRecOn with
  | nil => exact List.nodup_nil
  | append_singleton l x ih =>
    rw [distinct_concat]
    split
    · exact ih
    · rename_i hx
      refine List.nodup_append.2 ⟨ih, by simp, ?_⟩
      intro y hy z hz e
      rw [List.mem_singleton] at hz
      exact hx (hz ▸ e ▸ hy)

theorem distinct_of_nodup {l : List α} (h : l.Nodup) : distinct l = l := by
  induction l using List.reverseRecOn with
  | nil => rfl
  | append_singleton l x ih =>
    obtain ⟨hl, -, hx⟩ := List.nodup_append.1 h
    have hnot : x ∉ distinct l := fun hm => hx x (mem_distinct.1 hm) x (List.mem_singleton_self x) rfl
    rw [distinct_concat, if_neg hnot, ih hl]

/-- What follows in a list adds to the first occurrences in the same way, whatever the others are. -/
theorem distinct_append_congr {l l' : List α} (h : distinct l = distinct l') (r : List α) :
    distinct (l ++ r) = distinct (l' ++ r) := by
  induction r using List.reverseRecOn with
  | nil => rwa [List.append_nil, List.append_nil]
  | append_singleton r x ih =>
    rw [← List.append_assoc, ← List.append_assoc, distinct_concat, distinct_concat, ih]

theorem distinct_append_of_subset {l r : List α} (h : r ⊆ l) : distinct (l ++ r) = distinct l := by
  induction r using List.reverseRecOn with
  | nil => rw [List.append_nil]
  | append_singleton r x ih =>
    obtain ⟨hr, hx⟩ := List.append_subset.1 h
    have hmem : x ∈ distinct (l ++ r) :=
      mem_distinct.2 (List.mem_append_left _ (hx (List.mem_singleton_self x)))
    rw [← List.append_assoc, distinct_concat, if_pos hmem, ih hr]

/-- Whether one member of a list of members with their places comes before another one. -/
def Precedes (l : List (Nat × α)) (x y : α) : Prop :=
  ∃ i, (i, x) ∈ l ∧ ∀ j, (j, y) ∈ l → i < j

/-- Without repetitions, the first occurrences remain in their order. -/
theorem pairwise_distinct {l : List (Nat × α)} (h : l.Pairwise (·.1 < ·.1)) :
    (distinct (l.map Prod.snd)).Pairwise (Precedes l) := by
  induction l using List.reverseRecOn with
  | nil => exact List.Pairwise.nil
  | append_singleton l p ih =>
    obtain ⟨hl, -, hlast⟩ := List.pairwise_append.1 h
    -- a later occurrence changes nothing about which of two members comes first
    have hmore : ∀ {x y}, Precedes l x y → Precedes (l ++ [p]) x y := by
      intro x y hxy
      obtain ⟨i, hi, hj⟩ := hxy
      refine ⟨i, List.mem_append_left _ hi, fun j hjy => ?_⟩
      rcases List.mem_append.1 hjy with hjy | hjy
      · exact hj j hjy
      · have := hlast _ hi _ hjy
        exact this
    have ih := (ih hl).imp hmore
    rw [List.map_append, List.map_singleton, distinct_concat]
    split
    · exact ih
    · rename_i hp
      refine List.pairwise_append.2 ⟨ih, List.pairwise_singleton _ _, ?_⟩
      intro x hx y hy
      rw [List.mem_singleton] at hy
      obtain ⟨q, hq, rfl⟩ := List.mem_map.1 (mem_distinct.1 hx)
      refine ⟨q.1, List.mem_append_left _ hq, fun j hjy => ?_⟩
      rcases List.mem_append.1 hjy with hjy | hjy
      · exact absurd (mem_distinct.2 (List.mem_map_of_mem hjy)) (hy ▸ hp)
      · exact hlast _ hq _ hjy

end

/-- Each token that stands in a text is found once, and nothing else is: what is found are the
texts without dollar signs and braces that stand in the text between a dollar sign with an opening
brace and a closing brace, in the order of the places where they first do. -/
theorem find_exact (t : Text) :
    (find t).Nodup ∧
    (∀ u, u ∈ find t ↔
      (u ≠ [] ∧ ∀ c ∈ u, c ≠ '$' ∧ c ≠ '\x7b' ∧ c ≠ '\x7d') ∧ wrap u <:+: t) ∧
    (find t).Pairwise fun u v =>
      ∃ i, wrap u <+: t.drop i ∧ ∀ j, wrap v <+: t.drop j → i < j := by
  have hpairs : ∀ i u, (i, u) ∈ places 0 0 t ↔ StandsAt u i t := by
    intro i u
    rw [mem_places_iff]
    simp
  have hinner : ∀ u : Text, (u ≠ [] ∧ ∀ c ∈ u, c ≠ '$' ∧ c ≠ '\x7b' ∧ c ≠ '\x7d') ↔ IsInner u := by
    intro u
    simp [IsInner, isInner, and_assoc]
  refine ⟨nodup_distinct _, fun u => ?_, ?_⟩
  · rw [hinner, find, mem_distinct, ← map_places t 0 0, List.mem_map]
    constructor
    · intro h
      obtain ⟨⟨i, v⟩, hp, rfl⟩ := h
      obtain ⟨hv, hprefix⟩ := (hpairs i v).1 hp
      exact ⟨hv, hprefix.isInfix.trans (List.drop_suffix i t).isInfix⟩
    · intro h
      obtain ⟨hu, pre, post, hpost⟩ := h
      refine ⟨(pre.length, u), (hpairs _ _).2 ⟨hu, post, ?_⟩, rfl⟩
      rw [← hpost, List.append_assoc, List.drop_left]
  · have hfind : ∀ u ∈ find t, IsInner u := fun u hu => isInner_of_mem_find hu
    have horder := pairwise_distinct (places_pairwise t 0 0)
    rw [map_places] at horder
    refine horder.imp_of_mem ?_
    intro u v hu hv h
    obtain ⟨i, hi, hj⟩ := h
    exact ⟨i, ((hpairs i u).1 hi).2, fun j hjv => hj j ((hpairs j v).2 ⟨hfind v hv, hjv⟩)⟩

end MailMerge.Token
