import MailMerge.Proofs.Text.Replacement
import MailMerge.Proofs.Placeholder.Token
/-!
# A text as characters and tokens

A text is read once from the left as a sequence of pieces, a piece being a token or a character
outside all tokens. Written back with a text for each token, the sequence is a simultaneous
substitution.

* `write_read`: with every token written as it was, the text comes back;
* `hits_wrap`: the occurrences of a wrapped token in a text are its pieces;
* `replaceAll_write`: replacing one token in a written sequence changes what that token is written
  as, provided that the written text has no further occurrence of it.
-/
namespace MailMerge

open Text (hits replaceAll)
open Token (wrap IsInner)

/-! ## Occurrences of tokens -/

namespace Token

theorem hits_append_le {tok : Text} (h : IsInner tok) (u t : Text) :
    hits (wrap tok) t ≤ hits (wrap tok) (u ++ t) :=
  Text.hits_le_hits_append h.not_mem u t

theorem not_isPrefixOf_of_ne {u tok : Text} (hu : IsInner u) (ht : IsInner tok) (hne : tok ≠ u)
    (t : Text) : (wrap u).isPrefixOf (wrap tok ++ t) = false := by
  refine Bool.eq_false_iff.2 fun hp => hne ?_
  have := at?_eq_of_isPrefixOf hu hp
  rw [at?_wrap_append ht] at this
  exact Option.some.inj this

theorem hits_self_append {tok : Text} (h : IsInner tok) (t : Text) :
    hits (wrap tok) (wrap tok ++ t) = hits (wrap tok) t + 1 :=
  Text.hits_needle_append h.not_mem t

theorem hits_other_append {u tok : Text} (hu : IsInner u) (ht : IsInner tok) (hne : tok ≠ u)
    (t : Text) : hits (wrap u) (wrap tok ++ t) = hits (wrap u) t := by
  have hp := not_isPrefixOf_of_ne hu ht hne t
  rw [wrap_eq_cons tok, List.cons_append] at hp ⊢
  rw [wrap_eq_cons u] at hp ⊢
  rw [Text.hits_cons hu.not_mem, hp, Text.hits_append_of_not_mem hu.not_mem ht.not_mem]
  simp

/-- Replacing one token leaves another one whole. -/
theorem replaceAll_other_append {u tok : Text} (hu : IsInner u) (ht : IsInner tok) (hne : tok ≠ u)
    (value t : Text) :
    replaceAll (wrap u) value (wrap tok ++ t) = wrap tok ++ replaceAll (wrap u) value t := by
  have h := hits_other_append hu ht hne t
  rw [wrap_eq_cons u] at h ⊢
  exact Text.replaceAll_append_of_hits hu.not_mem value _ t h

theorem replaceAll_self_append (tok value t : Text) :
    replaceAll (wrap tok) value (wrap tok ++ t) = value ++ replaceAll (wrap tok) value t :=
  Text.replaceAll_append '$' _ value t

/-- Replacing one token loses no occurrence of another one. -/
theorem hits_le_hits_replaceAll {u tok : Text} (hu : IsInner u) (ht : IsInner tok) (hne : tok ≠ u)
    (value t : Text) : hits (wrap u) t ≤ hits (wrap u) (replaceAll (wrap tok) value t) := by
  induction hk : t.length using Nat.strongRecOn generalizing t with
  | ind k ih =>
    cases t with
    | nil => simp [Text.hits_nil]
    | cons c r =>
      by_cases hpt : (wrap tok).isPrefixOf (c :: r) = true
      · obtain ⟨r', hr⟩ := List.isPrefixOf_iff_prefix.1 hpt
        have hlen : r'.length < k := by
          have := congrArg List.length hr
          simp [wrap_eq_cons] at this hk
          omega
        rw [← hr, hits_other_append hu ht hne, replaceAll_self_append]
        exact Nat.le_trans (ih _ hlen r' rfl) (hits_append_le hu _ _)
      · by_cases hpu : (wrap u).isPrefixOf (c :: r) = true
        · obtain ⟨r', hr⟩ := List.isPrefixOf_iff_prefix.1 hpu
          have hlen : r'.length < k := by
            have := congrArg List.length hr
            simp [wrap_eq_cons] at this hk
            omega
          rw [← hr, hits_self_append hu, replaceAll_other_append ht hu (Ne.symm hne),
            hits_self_append hu]
          exact Nat.succ_le_succ (ih _ hlen r' rfl)
        · have hlen : r.length < k := by simp at hk; omega
          have hle := ih _ hlen r rfl
          have hcons := hits_append_le hu [c] (replaceAll (wrap tok) value r)
          rw [Text.replaceAll_cons _ (Bool.eq_false_iff.2 hpt)]
          have hnone : hits (wrap u) (c :: r) = hits (wrap u) r := by
            rw [wrap_eq_cons] at hpu ⊢
            rw [Text.hits_cons hu.not_mem, if_neg hpu, Nat.zero_add]
          rw [hnone]
          exact Nat.le_trans hle hcons

end Token

/-! ## Pieces -/

/-- What a text is made of: characters, and tokens by their inner texts. -/
inductive Piece where
  | char (c : Char)
  | token (inner : Text)
  deriving DecidableEq, Repr

namespace Piece

/-- The pieces of a text after its first `skip` characters. -/
def read : (skip : Nat) → Text → List Piece
  | _, [] => []
  | skip + 1, _ :: r => read skip r
  | 0, c :: r =>
    match Token.at? (c :: r) with
    | some inner => .token inner :: read (inner.length + 2) r
    | none => .char c :: read 0 r

/-- The text of pieces, each token being written as `σ` says. -/
def write (σ : Text → Text) : List Piece → Text
  | [] => []
  | .char c :: ps => c :: write σ ps
  | .token t :: ps => σ t ++ write σ ps

theorem drop_of_at? {c : Char} {r inner : Text} (h : Token.at? (c :: r) = some inner) :
    IsInner inner ∧ c :: r = wrap inner ++ r.drop (inner.length + 2) := by
  obtain ⟨hi, r', hr⟩ := Token.at?_eq_some h
  refine ⟨hi, ?_⟩
  rw [Token.wrap_eq_cons, List.cons_append] at hr
  obtain ⟨rfl, rfl⟩ := List.cons.inj hr
  simp [Token.wrap_eq_cons]

/-- With every token written as it was, the text comes back. -/
theorem write_read (t : Text) : ∀ skip, write wrap (read skip t) = t.drop skip := by
  induction t with
  | nil => intro skip; cases skip <;> simp [read, write]
  | cons c r ih =>
    intro skip
    cases skip with
    | succ skip => exact ih skip
    | zero =>
      rw [read]
      split
      · rename_i inner h
        rw [write, ih, List.drop_zero, ← (drop_of_at? h).2]
      · rw [write, ih, List.drop_zero, List.drop_zero]

/-- The occurrences of a wrapped token in a text are its pieces. -/
theorem hits_wrap {tok : Text} (h : IsInner tok) (t : Text) :
    ∀ skip, hits (wrap tok) (t.drop skip) = (read skip t).count (.token tok) := by
  induction t with
  | nil => intro skip; cases skip <;> simp [read, Text.hits_nil]
  | cons c r ih =>
    intro skip
    cases skip with
    | succ skip => exact ih skip
    | zero =>
      rw [read, List.drop_zero]
      split
      · rename_i inner hi
        obtain ⟨hin, hshape⟩ := drop_of_at? hi
        rw [hshape, List.count_cons, ← ih]
        by_cases he : inner = tok
        · subst he
          simp [Token.hits_self_append h]
        · simp [Token.hits_other_append h hin he, he]
      · rename_i hnone
        have hp : ¬ (wrap tok).isPrefixOf (c :: r) = true := by
          intro hp
          rw [Token.at?_eq_of_isPrefixOf h hp] at hnone
          cases hnone
        have hcount := ih 0
        rw [List.drop_zero] at hcount
        rw [List.count_cons_of_ne (by simp), ← hcount]
        rw [Token.wrap_eq_cons] at hp ⊢
        rw [Text.hits_cons h.not_mem, if_neg hp, Nat.zero_add]

/-- The tokens that are found in a text are pieces of it. -/
theorem mem_read_of_mem_scan {u t : Text} : ∀ {skip}, u ∈ Token.scan skip t →
    .token u ∈ read skip t := by
  induction t with
  | nil => intro skip h; cases skip <;> cases h
  | cons c r ih =>
    intro skip h
    cases skip with
    | succ skip => exact ih h
    | zero =>
      rw [Token.scan] at h
      rw [read]
      cases hi : Token.at? (c :: r) with
      | some inner =>
        rw [hi] at h
        rcases List.mem_cons.1 h with rfl | h
        · exact List.mem_cons_self ..
        · exact List.mem_cons_of_mem _ (ih h)
      | none =>
        rw [hi] at h
        exact List.mem_cons_of_mem _ (ih h)

theorem inner_of_mem_read {u t : Text} : ∀ {skip}, .token u ∈ read skip t → IsInner u := by
  induction t with
  | nil => intro skip h; cases skip <;> simp [read] at h
  | cons c r ih =>
    intro skip h
    cases skip with
    | succ skip => exact ih h
    | zero =>
      rw [read] at h
      split at h
      · rename_i inner hi
        rcases List.mem_cons.1 h with he | h
        · cases he
          exact (drop_of_at? hi).1
        · exact ih h
      · exact ih ((List.mem_cons.1 h).resolve_left (by simp))

section
variable {tok : Text} {σ : Text → Text}

/-- A token that is written as it was occurs at least at its pieces. -/
theorem count_le_hits (h : IsInner tok) (hσ : σ tok = wrap tok) (ps : List Piece) :
    ps.count (.token tok) ≤ hits (wrap tok) (write σ ps) := by
  induction ps with
  | nil => simp
  | cons p ps ih =>
    cases p with
    | char c =>
      rw [write, List.count_cons_of_ne (by simp)]
      exact Nat.le_trans ih (Token.hits_append_le h [c] _)
    | token u =>
      rw [write]
      by_cases hu : u = tok
      · subst hu
        rw [List.count_cons_self, hσ, Token.hits_self_append h]
        exact Nat.succ_le_succ ih
      · rw [List.count_cons_of_ne (by simpa using hu)]
        exact Nat.le_trans ih (Token.hits_append_le h _ _)

/-- Without further occurrences, replacing a token changes what its pieces are written as. -/
theorem replaceAll_write (h : IsInner tok) (hσ : σ tok = wrap tok) (value : Text) (ps : List Piece)
    (hc : hits (wrap tok) (write σ ps) = ps.count (.token tok)) :
    replaceAll (wrap tok) value (write σ ps) =
      write (fun u => if u = tok then value else σ u) ps := by
  induction ps with
  | nil => exact Text.replaceAll_nil _ _
  | cons p ps ih =>
    have hle := count_le_hits h hσ ps
    -- text that is no piece of the token holds no beginning of an occurrence
    have hother : ∀ u : Text, p ≠ .token tok → write σ (p :: ps) = u ++ write σ ps →
        replaceAll (wrap tok) value (u ++ write σ ps) =
          u ++ write (fun u => if u = tok then value else σ u) ps := by
      intro u hp hu
      rw [hu, List.count_cons_of_ne hp] at hc
      have hmore := Token.hits_append_le h u (write σ ps)
      rw [← ih (by omega)]
      exact Text.replaceAll_append_of_hits h.not_mem value u _ (by
        rw [Token.wrap_eq_cons] at *; omega)
    cases p with
    | char c => exact hother [c] (by simp) rfl
    | token u =>
      rw [write, write]
      by_cases hu : u = tok
      · subst hu
        rw [write, List.count_cons_self, hσ, Token.hits_self_append h] at hc
        rw [hσ, Token.replaceAll_self_append, ih (by omega), if_pos rfl]
      · rw [if_neg hu]
        exact hother (σ u) (by simpa using hu) rfl

/-- Where the dollar sign only stands in front of tokens, a token that is written as it was occurs
at its pieces only. -/
theorem hits_write_of_plain (h : IsInner tok) (hσ : σ tok = wrap tok) (ps : List Piece)
    (hp : .char '$' ∉ ps) (hi : ∀ u, .token u ∈ ps → IsInner u)
    (hd : ∀ u, σ u = wrap u ∨ '$' ∉ σ u) :
    hits (wrap tok) (write σ ps) = ps.count (.token tok) := by
  induction ps with
  | nil => exact Text.hits_nil _
  | cons p ps ih =>
    rw [List.mem_cons, not_or] at hp
    have ih := ih hp.2 fun u hu => hi u (List.mem_cons_of_mem _ hu)
    cases p with
    | char c =>
      have hc : '$' ∉ [c] := by
        rw [List.mem_singleton]
        exact fun e => hp.1 (e ▸ rfl)
      rw [write, List.count_cons_of_ne (by simp), ← ih]
      exact Text.hits_append_of_not_mem h.not_mem hc _
    | token u =>
      rw [write]
      by_cases hu : u = tok
      · subst hu
        rw [hσ, Token.hits_self_append h, List.count_cons_self, ih]
      · rw [List.count_cons_of_ne (by simpa using hu), ← ih]
        rcases hd u with hw | hw
        · rw [hw]
          exact Token.hits_other_append h (hi u (List.mem_cons_self ..)) hu _
        · exact Text.hits_append_of_not_mem h.not_mem hw _

end

end Piece

end MailMerge
