import MailMerge.Proofs.Placeholder.Piece
import MailMerge.Proofs.Table
/-!
# Replacing tokens one after the other and at once

A table gives texts for tokens. `substitute` puts all of them in at once, reading the text a single
time; `replaceEach` replaces one token after the other, so that a later replacement also reads what
an earlier one put in.

* `listed_le_found`: one after the other, no fewer occurrences are found than the text has.
* `found_eq_listed_iff`: as many are found just when nothing arises on the way.
* `replaceEach_eq_substitute`: then both ways give the same text.
* `nothingArises_of_plain`: nothing arises where the dollar sign only begins tokens.
-/
namespace MailMerge

open Text (hits replaceAll)
open Token (wrap IsInner)

namespace Substitution

/-- The text with the listed texts in the places of their tokens, all put in at once. -/
def substitute (fs : Table Text Text) (t : Text) : Text :=
  Piece.write (fun u => (fs.get? u).getD (wrap u)) (Piece.read 0 t)

/-- The text with the listed tokens replaced one after the other. -/
def replaceEach : Table Text Text → Text → Text
  | [], t => t
  | (tok, v) :: fs, t => replaceEach fs (replaceAll (wrap tok) v t)

/-- How many occurrences are found when the listed tokens are replaced one after the other. -/
def found : Table Text Text → Text → Nat
  | [], _ => 0
  | (tok, v) :: fs, t => hits (wrap tok) t + found fs (replaceAll (wrap tok) v t)

/-- How many occurrences of listed tokens a text has. -/
def listed : Table Text Text → Text → Nat
  | [], _ => 0
  | (tok, _) :: fs, t => hits (wrap tok) t + listed fs t

/-- Whether each replacement finds just as many occurrences of its token as the text `orig` has,
when `t` is what has become of it. -/
def NothingArises (orig : Text) : Table Text Text → Text → Prop
  | [], _ => True
  | (tok, v) :: fs, t =>
    hits (wrap tok) t = hits (wrap tok) orig ∧ NothingArises orig fs (replaceAll (wrap tok) v t)

instance (orig : Text) : ∀ fs t, Decidable (NothingArises orig fs t)
  | [], _ => isTrue trivial
  | (tok, v) :: fs, t =>
    have := instDecidableNothingArises orig fs (replaceAll (wrap tok) v t)
    inferInstanceAs (Decidable (_ ∧ _))

/-- Whether the keys of a table can stand in tokens and none repeats. -/
structure Proper (fs : Table Text Text) : Prop where
  inner : ∀ u ∈ fs.keys, IsInner u
  nodup : fs.keys.Nodup

theorem Proper.tail {tok v : Text} {fs : Table Text Text} (h : Proper ((tok, v) :: fs)) :
    IsInner tok ∧ tok ∉ fs.keys ∧ Proper fs := by
  have hn := List.nodup_cons.1 h.nodup
  exact ⟨h.inner _ (List.mem_cons_self ..), hn.1,
    ⟨fun u hu => h.inner u (List.mem_cons_of_mem _ hu), hn.2⟩⟩

/-! ## Nothing is lost on the way -/

section
variable {orig : Text}

theorem hits_le_of_mem {tok v t : Text} {fs : Table Text Text} (h : Proper ((tok, v) :: fs))
    (ht : ∀ u ∈ Table.keys ((tok, v) :: fs), hits (wrap u) orig ≤ hits (wrap u) t) (x : Text) :
    ∀ u ∈ fs.keys, hits (wrap u) orig ≤ hits (wrap u) (replaceAll (wrap tok) x t) := by
  intro u hu
  obtain ⟨hi, hn, hfs⟩ := h.tail
  have hne : tok ≠ u := fun e => hn (e ▸ hu)
  exact Nat.le_trans (ht u (List.mem_cons_of_mem _ hu))
    (Token.hits_le_hits_replaceAll (hfs.inner u hu) hi hne x t)

theorem listed_le_found {fs : Table Text Text} (h : Proper fs) {t : Text}
    (ht : ∀ u ∈ fs.keys, hits (wrap u) orig ≤ hits (wrap u) t) :
    listed fs orig ≤ found fs t := by
  induction fs generalizing t with
  | nil => exact Nat.le_refl _
  | cons f fs ih =>
    obtain ⟨tok, v⟩ := f
    have hhead := ht tok (List.mem_cons_self ..)
    have htail := ih h.tail.2.2 (hits_le_of_mem h ht v)
    rw [listed, found]
    omega

/-- As many occurrences are found as there were just when nothing arises. -/
theorem found_eq_listed_iff {fs : Table Text Text} (h : Proper fs) {t : Text}
    (ht : ∀ u ∈ fs.keys, hits (wrap u) orig ≤ hits (wrap u) t) :
    found fs t = listed fs orig ↔ NothingArises orig fs t := by
  induction fs generalizing t with
  | nil => exact iff_of_true rfl trivial
  | cons f fs ih =>
    obtain ⟨tok, v⟩ := f
    have hhead := ht tok (List.mem_cons_self ..)
    have hle := listed_le_found h.tail.2.2 (hits_le_of_mem h ht v)
    rw [listed, found, NothingArises, ← ih h.tail.2.2 (hits_le_of_mem h ht v)]
    omega

end

/-! ## One after the other is at once -/

theorem getD_get?_cons (tok v : Text) (fs : Table Text Text) (hn : tok ∉ fs.keys)
    (σ : Text → Text) (u : Text) :
    (fs.get? u).getD (if u = tok then v else σ u) = (Table.get? ((tok, v) :: fs) u).getD (σ u) := by
  rw [Table.get?_cons]
  by_cases hu : u = tok
  · subst hu
    rw [(Table.get?_eq_none_iff fs u).2 hn, if_pos rfl, if_pos rfl]
    rfl
  · rw [if_neg hu, if_neg (Ne.symm hu)]

/-- The pieces stay those of the original text; the induction is on the table, and `σ` is what the
tokens are written as by now. -/
theorem replaceEach_write (orig : Text) {fs : Table Text Text} (h : Proper fs)
    (σ : Text → Text) (hσ : ∀ u ∈ fs.keys, σ u = wrap u)
    (hna : NothingArises orig fs (Piece.write σ (Piece.read 0 orig))) :
    replaceEach fs (Piece.write σ (Piece.read 0 orig)) =
      Piece.write (fun u => (fs.get? u).getD (σ u)) (Piece.read 0 orig) := by
  induction fs generalizing σ with
  | nil => rfl
  | cons f fs ih =>
    obtain ⟨tok, v⟩ := f
    obtain ⟨hi, hn, hfs⟩ := h.tail
    have hcount := Piece.hits_wrap hi orig 0
    rw [List.drop_zero] at hcount
    rw [NothingArises, hcount] at hna
    have hstep := Piece.replaceAll_write hi (hσ tok (List.mem_cons_self ..)) v _ hna.1
    have hσ' : ∀ u ∈ Table.keys fs, (if u = tok then v else σ u) = wrap u := by
      intro u hu
      have hne : u ≠ tok := fun e => hn (e ▸ hu)
      rw [if_neg hne]
      exact hσ u (List.mem_cons_of_mem _ hu)
    rw [replaceEach, hstep, ih hfs _ hσ' (hstep ▸ hna.2)]
    congr 1
    funext u
    exact getD_get?_cons tok v fs hn σ u

/-- Where nothing arises, replacing one after the other is replacing at once. -/
theorem replaceEach_eq_substitute {fs : Table Text Text} (h : Proper fs) {t : Text}
    (hna : NothingArises t fs t) : replaceEach fs t = substitute fs t := by
  have hw := Piece.write_read t 0
  rw [List.drop_zero] at hw
  have := replaceEach_write t h wrap (fun _ _ => rfl) (hw.symm ▸ hna)
  rwa [hw] at this

/-! ## A sufficient condition -/

/-- Whether the dollar sign only begins tokens in a text. -/
def Plain (t : Text) : Prop := .char '$' ∉ Piece.read 0 t

/-- Texts without dollar signs make no token out of what stands around them. -/
theorem nothingArises_write (orig : Text) {fs : Table Text Text} (h : Proper fs)
    (hp : Plain orig) (hv : ∀ f ∈ fs, '$' ∉ f.2) (σ : Text → Text)
    (hσ : ∀ u ∈ fs.keys, σ u = wrap u) (hd : ∀ u, σ u = wrap u ∨ '$' ∉ σ u) :
    NothingArises orig fs (Piece.write σ (Piece.read 0 orig)) := by
  induction fs generalizing σ with
  | nil => exact trivial
  | cons f fs ih =>
    obtain ⟨tok, v⟩ := f
    obtain ⟨hi, hn, hfs⟩ := h.tail
    have htok := hσ tok (List.mem_cons_self ..)
    have hcount := Piece.hits_wrap hi orig 0
    rw [List.drop_zero] at hcount
    have hc : hits (wrap tok) (Piece.write σ (Piece.read 0 orig)) =
        (Piece.read 0 orig).count (.token tok) :=
      Piece.hits_write_of_plain hi htok _ hp (fun _ hu => Piece.inner_of_mem_read hu) hd
    refine ⟨hc.trans hcount.symm, ?_⟩
    rw [Piece.replaceAll_write hi htok v _ hc]
    refine ih hfs (fun f hf => hv f (List.mem_cons_of_mem _ hf)) _ (fun u hu => ?_) fun u => ?_
    · have hne : u ≠ tok := fun e => hn (e ▸ hu)
      rw [if_neg hne]
      exact hσ u (List.mem_cons_of_mem _ hu)
    · split
      · exact Or.inr (hv _ (List.mem_cons_self ..))
      · exact hd u

theorem nothingArises_of_plain {fs : Table Text Text} (h : Proper fs) {t : Text}
    (hp : Plain t) (hv : ∀ f ∈ fs, '$' ∉ f.2) : NothingArises t fs t := by
  have := nothingArises_write t h hp hv wrap (fun _ _ => rfl) fun _ => Or.inl rfl
  rwa [Piece.write_read, List.drop_zero] at this

/-! ## The order of the table -/

/-- What is put in at once does not depend on the order of the table. -/
theorem substitute_perm {fs fs' : Table Text Text} (hp : fs.Perm fs') (h : fs.keys.Nodup)
    (t : Text) : substitute fs t = substitute fs' t := by
  unfold substitute
  congr 1
  funext u
  rw [Table.get?_perm hp h]

theorem listed_perm {fs fs' : Table Text Text} (hp : fs.Perm fs') (t : Text) :
    listed fs t = listed fs' t := by
  induction hp with
  | nil => rfl
  | cons f _ ih => rw [listed, listed, ih]
  | swap f g l => rw [listed, listed, listed, listed]; omega
  | trans _ _ ih₁ ih₂ => exact ih₁.trans ih₂

end Substitution

end MailMerge
