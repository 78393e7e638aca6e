import MailMerge.Table
/-!
# Tables without repeated keys

* `get?_eq_some_iff`: where no key repeats, what is found is what is listed.
* `get?_perm`: the order of entries does not matter to what is found.
* `insert_get?`: putting in what is there changes nothing.
* `ofList_eq_self`: a list without repeated keys is its own table.
-/
namespace MailMerge.Table

variable {κ α : Type}

@[simp] theorem keys_cons (k : κ) (v : α) (t : Table κ α) : keys ((k, v) :: t) = k :: t.keys := rfl

theorem keys_perm {s t : Table κ α} (hp : s.Perm t) : s.keys.Perm t.keys := hp.map _

variable [DecidableEq κ]

theorem get?_cons (k : κ) (v : α) (t : Table κ α) (x : κ) :
    get? ((k, v) :: t) x = if k = x then some v else t.get? x := rfl

theorem get?_eq_none_iff (t : Table κ α) (x : κ) : t.get? x = none ↔ x ∉ t.keys := by
  induction t with
  | nil => simp [get?, keys]
  | cons e t ih =>
    obtain ⟨k, v⟩ := e
    rw [get?_cons, keys_cons, List.mem_cons, not_or, ← ih]
    split
    · rename_i h; simp [h]
    · rename_i h; simp [Ne.symm h]

theorem mem_of_get? {t : Table κ α} {x : κ} {v : α} (h : t.get? x = some v) : (x, v) ∈ t := by
  induction t with
  | nil => cases h
  | cons e t ih =>
    obtain ⟨k, w⟩ := e
    rw [get?_cons] at h
    split at h
    · rename_i hk
      rw [← hk, Option.some.inj h]
      exact List.mem_cons_self
    · exact List.mem_cons_of_mem _ (ih h)

theorem get?_eq_some_iff {t : Table κ α} (h : t.keys.Nodup) (x : κ) (v : α) :
    t.get? x = some v ↔ (x, v) ∈ t := by
  induction t with
  | nil => simp [get?]
  | cons e t ih =>
    obtain ⟨k, w⟩ := e
    rw [keys_cons, List.nodup_cons] at h
    rw [get?_cons, List.mem_cons, Prod.mk.injEq]
    split
    · rename_i hk
      subst hk
      refine ⟨fun hv => Or.inl ⟨rfl, (Option.some.inj hv).symm⟩, ?_⟩
      rintro (⟨-, rfl⟩ | hm)
      · rfl
      · exact absurd (List.mem_map.2 ⟨_, hm, rfl⟩) h.1
    · rename_i hk
      rw [ih h.2]
      exact ⟨Or.inr, fun hm => hm.resolve_left fun e => hk e.1.symm⟩

/-- The order of the entries does not matter to what is found. -/
theorem get?_perm {s t : Table κ α} (hp : s.Perm t) (h : s.keys.Nodup) (x : κ) :
    s.get? x = t.get? x := by
  have h' : t.keys.Nodup := (keys_perm hp).nodup_iff.1 h
  refine Option.ext fun v => ?_
  rw [get?_eq_some_iff h, get?_eq_some_iff h', hp.mem_iff]

theorem get?_filter (t : Table κ α) (keep : κ → Bool) (x : κ) :
    Table.get? (t.filter fun e => keep e.1) x = if keep x then t.get? x else none := by
  induction t with
  | nil => simp [get?]
  | cons e t ih =>
    obtain ⟨k, v⟩ := e
    rw [List.filter_cons, get?_cons]
    dsimp only
    by_cases hk : keep k = true
    · rw [if_pos hk, get?_cons, ih]
      by_cases hx : k = x
      · rw [if_pos hx, if_pos hx, ← hx, if_pos hk]
      · rw [if_neg hx, if_neg hx]
    · rw [if_neg hk, ih]
      by_cases hx : k = x
      · rw [← hx, if_neg hk, if_neg hk]
      · rw [if_neg hx]

theorem filter_insert (t : Table κ α) (keep : κ → Bool) (x : κ) (v : α) :
    ((t.insert x v).filter fun e => keep e.1) =
      if keep x then Table.insert (t.filter fun e => keep e.1) x v
      else t.filter fun e => keep e.1 := by
  induction t with
  | nil => cases hx : keep x <;> simp [insert, hx]
  | cons e t ih =>
    obtain ⟨k, w⟩ := e
    by_cases hk : k = x
    · subst hk
      cases hx : keep k <;> simp [insert, hx]
    · rw [insert, if_neg hk, List.filter_cons, ih, List.filter_cons]
      cases hx : keep x <;> cases hw : keep k <;> simp [insert, hk]

theorem filter_swap {α : Type} (p q : α → Bool) (l : List α) :
    (l.filter p).filter q = (l.filter q).filter p := by
  rw [List.filter_filter, List.filter_filter]
  exact List.filter_congr fun _ _ => Bool.and_comm ..

theorem filter_erase (t : Table κ α) (keep : κ → Bool) (x : κ) :
    ((t.erase x).filter fun e => keep e.1) = Table.erase (t.filter fun e => keep e.1) x :=
  filter_swap ..

theorem erase_of_get?_eq_none {t : Table κ α} {x : κ} (h : t.get? x = none) : t.erase x = t := by
  refine List.filter_eq_self.2 fun e he => decide_eq_true fun heq => ?_
  exact (get?_eq_none_iff t x).1 h (heq ▸ List.mem_map_of_mem he)

/-! ## Insertions -/

theorem insert_get? {t : Table κ α} {x : κ} {v : α} (h : t.get? x = some v) :
    t.insert x v = t := by
  induction t with
  | nil => cases h
  | cons e t ih =>
    obtain ⟨k, w⟩ := e
    rw [get?_cons] at h
    rw [insert]
    split
    · rename_i hk
      rw [if_pos hk] at h
      rw [Option.some.inj h]
    · rename_i hk
      rw [if_neg hk] at h
      rw [ih h]

theorem mem_insert {t : Table κ α} {x : κ} {v : α} {e : κ × α} (h : e ∈ t.insert x v) :
    e.2 = v ∨ e ∈ t := by
  induction t with
  | nil =>
    rw [insert, List.mem_singleton] at h
    exact Or.inl (h ▸ rfl)
  | cons f t ih =>
    obtain ⟨k, w⟩ := f
    rw [insert] at h
    split at h
    · rcases List.mem_cons.1 h with rfl | h
      · exact Or.inl rfl
      · exact Or.inr (List.mem_cons_of_mem _ h)
    · rcases List.mem_cons.1 h with rfl | h
      · exact Or.inr List.mem_cons_self
      · exact (ih h).imp_right (List.mem_cons_of_mem _)

theorem insert_of_not_mem {t : Table κ α} {x : κ} (h : x ∉ t.keys) (v : α) :
    t.insert x v = t ++ [(x, v)] := by
  induction t with
  | nil => rfl
  | cons e t ih =>
    obtain ⟨k, w⟩ := e
    rw [keys_cons, List.mem_cons, not_or] at h
    rw [insert, if_neg (Ne.symm h.1), ih h.2, List.cons_append]

/-- The insertions that make a table of a list. -/
theorem nodup_keys_foldl_insert (l : List (κ × α)) {t : Table κ α} (h : t.keys.Nodup) :
    (l.foldl (fun t e => t.insert e.1 e.2) t).keys.Nodup := by
  induction l generalizing t with
  | nil => exact h
  | cons e l ih => exact ih (nodup_keys_insert h e.1 e.2)

theorem mem_keys_insert {t : Table κ α} {x y : κ} {v : α} :
    y ∈ (t.insert x v).keys ↔ y = x ∨ y ∈ t.keys := by
  rw [keys_insert]
  split
  · rename_i hx
    exact ⟨Or.inr, fun h => h.elim (fun e => e ▸ hx) id⟩
  · rw [List.mem_append, List.mem_singleton, or_comm]

theorem mem_keys_foldl_insert {l : List (κ × α)} {t : Table κ α} {x : κ} :
    x ∈ keys (l.foldl (fun t e => t.insert e.1 e.2) t) ↔ x ∈ t.keys ∨ x ∈ keys l := by
  induction l generalizing t with
  | nil => simp [keys]
  | cons e l ih =>
    obtain ⟨k, v⟩ := e
    rw [List.foldl_cons, ih, mem_keys_insert, keys_cons, List.mem_cons, or_assoc, or_left_comm]

theorem mem_keys_ofList {l : List (κ × α)} {x : κ} : x ∈ (ofList l).keys ↔ x ∈ keys l := by
  rw [ofList, mem_keys_foldl_insert]
  simp [keys]

theorem nodup_keys_ofList (l : List (κ × α)) : (ofList l).keys.Nodup :=
  nodup_keys_foldl_insert l List.nodup_nil

theorem foldl_insert_eq_append (l : List (κ × α)) (t : Table κ α)
    (h : (keys (t ++ l)).Nodup) : l.foldl (fun t e => t.insert e.1 e.2) t = t ++ l := by
  induction l generalizing t with
  | nil => simp
  | cons e l ih =>
    obtain ⟨k, v⟩ := e
    have hk : k ∉ t.keys := by
      simp only [keys, List.map_append, List.map_cons, List.nodup_append] at h
      exact fun hm => h.2.2 k hm k (List.mem_cons_self ..) rfl
    rw [List.foldl_cons, insert_of_not_mem hk, ih]
    · simp
    · simpa using h

/-- A list without repeated keys is its own table. -/
theorem ofList_eq_self {l : List (κ × α)} (h : (keys l).Nodup) : ofList l = l :=
  foldl_insert_eq_append l [] h

end MailMerge.Table
