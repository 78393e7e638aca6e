import MailMerge.Placeholder.Token
/-!
# What stands in tokens

* `at?_wrap_append`, `at?_eq_some`: a text begins with a token just when it begins with the wrapping
  of a text that can stand in one.
* `isInner_of_mem_find`: only such texts are found.
* `mem_distinct`: leaving out repetitions leaves out no member.
-/
namespace MailMerge.Token

/-- Whether a text can stand between the braces of a token. -/
def IsInner (inner : Text) : Prop := inner ≠ [] ∧ ∀ c ∈ inner, isInner c = true

theorem wrap_eq_cons (inner : Text) : wrap inner = '$' :: ('\x7b' :: (inner ++ [closing])) := rfl

/-- The dollar sign stands only in front of a token. -/
theorem IsInner.not_mem {inner : Text} (h : IsInner inner) : '$' ∉ '\x7b' :: (inner ++ [closing]) := by
  simp only [List.mem_cons, List.mem_append, closing, not_or]
  refine ⟨by decide, fun hm => ?_, by decide, by simp⟩
  have := h.2 _ hm
  simp [isInner] at this

theorem IsInner.takeWhile {inner : Text} (h : IsInner inner) (r : Text) :
    (inner ++ closing :: r).takeWhile isInner = inner := by
  rw [List.takeWhile_append_of_pos h.2]
  simp [isInner, closing]

theorem at?_wrap_append {inner : Text} (h : IsInner inner) (r : Text) :
    at? (wrap inner ++ r) = some inner := by
  have hne : inner.isEmpty = false := by simpa using h.1
  have hshape : wrap inner ++ r = '$' :: '\x7b' :: (inner ++ closing :: r) := by
    simp [wrap_eq_cons]
  rw [hshape]
  simp only [at?, h.takeWhile r, hne, Bool.not_false, Bool.true_and, List.drop_left,
    List.head?_cons, decide_true, if_true]

theorem at?_eq_some {t inner : Text} (h : at? t = some inner) :
    IsInner inner ∧ ∃ r, t = wrap inner ++ r := by
  unfold at? at h
  split at h
  · rename_i r
    dsimp only at h
    split at h
    · rename_i hc
      simp only [Bool.and_eq_true, Bool.not_eq_true', List.isEmpty_eq_false_iff,
        decide_eq_true_eq] at hc
      obtain ⟨hne, hclose⟩ := hc
      injection h with h
      rw [h] at hne hclose
      refine ⟨⟨hne, fun c hc => ?_⟩, ?_⟩
      · rw [← h] at hc
        exact List.all_eq_true.1 List.all_takeWhile c hc
      · obtain ⟨r', hr'⟩ : ∃ r', r = inner ++ r' := by
          obtain ⟨r', hr'⟩ := List.takeWhile_prefix (p := isInner) (l := r)
          exact ⟨r', by rw [← h, hr']⟩
        rw [hr', List.drop_left] at hclose
        obtain ⟨r'', rfl⟩ : ∃ r'', r' = closing :: r'' := by
          cases r' with
          | nil => simp at hclose
          | cons d r'' => exact ⟨r'', by simpa using hclose⟩
        exact ⟨r'', by simp [wrap_eq_cons, hr']⟩
    · cases h
  · cases h

theorem at?_eq_of_isPrefixOf {inner t : Text} (h : IsInner inner)
    (hp : (wrap inner).isPrefixOf t = true) : at? t = some inner := by
  obtain ⟨r, rfl⟩ := List.isPrefixOf_iff_prefix.1 hp
  exact at?_wrap_append h r

/-- What can stand in a token is no token itself. -/
theorem IsInner.unwrap {inner : Text} (h : IsInner inner) : unwrap inner = inner := by
  have hp : opening.isPrefixOf inner = false := by
    cases inner with
    | nil => rfl
    | cons c r =>
      have hc := h.2 c (List.mem_cons_self ..)
      have hne : c ≠ '$' := fun e => by subst e; simp [isInner] at hc
      simp [opening, List.isPrefixOf, Ne.symm hne]
  rw [Token.unwrap, hp]
  rfl

theorem isInner_of_mem_scan {u t : Text} : ∀ {skip}, u ∈ scan skip t → IsInner u := by
  induction t with
  | nil => intro skip h; cases skip <;> cases h
  | cons c r ih =>
    intro skip h
    cases skip with
    | succ skip => exact ih h
    | zero =>
      rw [scan] at h
      split at h
      · rename_i inner hi
        rcases List.mem_cons.1 h with rfl | h
        · exact (at?_eq_some hi).1
        · exact ih h
      · exact ih h

/-! ## Distinct members -/

section
variable {α : Type} [DecidableEq α]

theorem mem_foldl_distinct (l seen : List α) (x : α) :
    x ∈ l.foldl (fun seen x => if x ∈ seen then seen else seen ++ [x]) seen ↔ x ∈ seen ∨ x ∈ l := by
  induction l generalizing seen with
  | nil => simp
  | cons y l ih =>
    rw [List.foldl_cons, ih]
    split
    · rename_i hy
      rw [List.mem_cons]
      refine ⟨fun h => h.imp_right Or.inr, ?_⟩
      rintro (h | rfl | h)
      · exact Or.inl h
      · exact Or.inl hy
      · exact Or.inr h
    · rw [List.mem_append, List.mem_singleton, List.mem_cons, or_assoc]

theorem mem_distinct {l : List α} {x : α} : x ∈ distinct l ↔ x ∈ l := by
  rw [distinct, mem_foldl_distinct]
  simp

end

theorem isInner_of_mem_find {u t : Text} (h : u ∈ find t) : IsInner u :=
  isInner_of_mem_scan (mem_distinct.1 h)

end MailMerge.Token
