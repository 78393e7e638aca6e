import MailMerge.Calendar.Format
import MailMerge.Calendar.Indonesian
import MailMerge.Proofs.Text.Within
/-!
# The characters of written dates

A moment in a date format consists of numerals, names, and characters of the format itself
(`DateFormat.within_render`), and the Indonesian names put in afterwards are plain words
(`Indonesian.within_localize`). So a class of characters with all plain ones holds it whenever it
holds the format.
-/
namespace MailMerge

open Text

section
variable {p : Char → Bool} [HasPlain p]

theorem Date.within_toText (d : Date) : d.toText.Within p := by
  have hdash : p '-' = true := HasPlain.plain '-' (by decide)
  simp only [Date.toText, List.append_assoc, List.cons_append, within_append, within_cons,
    within_ofNatPadded, hdash, and_self]

theorem Offset.within_toText (o : Offset) : o.toText.Within p := by
  have hcolon : p ':' = true := HasPlain.plain ':' (by decide)
  have hpoint : p '.' = true := HasPlain.plain '.' (by decide)
  have hsign : p (if o.micros < 0 then '-' else '+') = true := by
    split <;> exact HasPlain.plain _ (by decide)
  have hfine : ∀ n, Within p (if n % 1000000 = 0 then [] else '.' :: ofNatPadded 6 (n % 1000000)) :=
    fun n => within_ite within_nil (within_cons.2 ⟨hpoint, within_ofNatPadded 6 _⟩)
  unfold Offset.toText
  dsimp only
  rw [within_cons, within_append, within_append, within_cons]
  refine ⟨hsign, ⟨within_ofNatPadded 2 _, hcolon, within_ofNatPadded 2 _⟩,
    within_ite within_nil ?_⟩
  rw [List.cons_append, within_cons, within_append]
  exact ⟨hcolon, within_ofNatPadded 2 _, hfine _⟩

theorem Offset.within_name (o : Offset) : o.name.Within p :=
  within_ite (within_of_plain (by decide))
    (within_append.2 ⟨within_of_plain (by decide), o.within_toText⟩)

theorem Moment.within_toTextWith {sep : Char} (h : p sep = true) (x : Moment) :
    (x.toTextWith sep).Within p := by
  have hdash : p '-' = true := HasPlain.plain '-' (by decide)
  have hcolon : p ':' = true := HasPlain.plain ':' (by decide)
  have hpoint : p '.' = true := HasPlain.plain '.' (by decide)
  have hfine : ∀ n, Within p (if n = 0 then [] else '.' :: ofNatPadded 6 n) := fun n =>
    within_ite within_nil (within_cons.2 ⟨hpoint, within_ofNatPadded 6 n⟩)
  have hoffset : Within p (x.offset.elim [] Offset.toText) := by
    cases x.offset with
    | none => exact within_nil
    | some o => exact o.within_toText
  simp only [Moment.toTextWith, List.append_assoc, List.cons_append, within_append, within_cons,
    within_ofNatPadded, h, hfine, hoffset, hdash, hcolon, and_self]

theorem isPlainChar_of_inZoneName {c : Char} (h : inZoneName c = true) : isPlainChar c = true := by
  rw [inZoneName, Bool.or_eq_true, Bool.or_eq_true, beq_iff_eq, beq_iff_eq] at h
  rcases h with (h | rfl) | rfl
  · have hcode := code_of_isAlphanum h
    rw [isPlainChar, Bool.and_eq_true, decide_eq_true_eq, decide_eq_true_eq]
    omega
  · decide
  · decide

/-- The name of a clock is plain, be it that of a zone or that of a distance. -/
theorem Zone.within_name_of_place {z : Zone} {x : Moment} {s : Placed} (h : z.place x = .ok s) :
    s.name.Within p := by
  unfold Zone.place at h
  split at h
  · rename_i o _
    exact Except.ok.inj h ▸ o.within_name
  · cases hu : z.instant (x.sinceEpoch / 1000000) x.again with
    | error e => rw [hu] at h; cases h
    | ok u =>
      simp only [hu, bind, Except.bind] at h
      split at h
      · cases h
      · split at h
        · cases h
        · exact Except.ok.inj h ▸ fun c hc =>
            HasPlain.plain c (isPlainChar_of_inZoneName (z.isName _ c hc))

namespace DateFormat

theorem within_dayName (x : Moment) : (dayName x).Within p := within_getD (by decide) _

theorem within_monthName (x : Moment) : (monthName x).Within p := within_getD (by decide) _

theorem within_ordinalEnding (day : Nat) : (ordinalEnding day).Within p := by
  unfold ordinalEnding
  split
  · exact within_of_plain (by decide)
  · split <;> exact within_of_plain (by decide)

theorem within_localLetter? {x : Moment} {c : Char} {t : Text} (h : localLetter? x c = some t) :
    t.Within p := by
  unfold localLetter? at h
  dsimp only at h
  split at h <;> cases h <;>
    first
    | exact within_ofNat _
    | exact within_ofNatPadded _ _
    | exact within_dayName x
    | exact within_monthName x
    | exact (within_dayName x).of_subset (List.take_subset _ _)
    | exact (within_monthName x).of_subset (List.take_subset _ _)
    | exact within_ordinalEnding _
    | (split <;> exact within_of_plain (by decide))

theorem within_offsetText (colon : Bool) (o : Offset) : (offsetText colon o).Within p := by
  unfold offsetText
  dsimp only
  rw [List.cons_append, List.cons_append, within_cons, within_append, within_append]
  refine ⟨?_, ⟨within_ofNatPadded 2 _, ?_⟩, within_ofNatPadded 2 _⟩
  · split <;> exact HasPlain.plain _ (by decide)
  · cases colon <;> exact within_of_plain (by decide)

theorem within_mailDate (x : Moment) (o : Offset) : (mailDate x o).Within p := by
  have hpart : ∀ c, Within p ((localLetter? x c).getD []) := fun c => by
    cases h : localLetter? x c with
    | none => exact within_nil
    | some t => exact within_localLetter? h
  have hblank : p ' ' = true := HasPlain.plain ' ' (by decide)
  have hcomma : p ',' = true := HasPlain.plain ',' (by decide)
  have hcolon : p ':' = true := HasPlain.plain ':' (by decide)
  simp only [mailDate, List.append_assoc, List.cons_append, within_append, within_cons, hpart,
    hblank, hcomma, hcolon, within_offsetText, and_self]

theorem within_placedLetter {s : Placed} {c : Char} (hname : s.name.Within p) (hc : p c = true) :
    (placedLetter s c).Within p := by
  unfold placedLetter
  split
  · exact hname
  · exact hname
  · exact within_offsetText true s.offset
  · exact within_offsetText false s.offset
  · exact within_ofInt _
  · exact within_ofInt _
  · exact Moment.within_toTextWith (HasPlain.plain 'T' (by decide)) _
  · exact within_mailDate s.moment s.offset
  · exact within_cons.2 ⟨hc, within_nil⟩

theorem within_letter {z : Zone} {x : Moment} {c : Char} {t : Text} (hc : p c = true)
    (h : letter z x c = .ok t) : t.Within p := by
  unfold letter at h
  split at h
  · rename_i hlocal
    exact within_localLetter? (Except.ok.inj h ▸ hlocal)
  · cases hs : z.place x with
    | error e => rw [hs] at h; cases h
    | ok s =>
      rw [hs] at h
      exact Except.ok.inj h ▸ within_placedLetter (Zone.within_name_of_place hs) hc

/-- A moment in a format adds nothing but plain characters to those of the format. -/
theorem within_render {z : Zone} {x : Moment} {fmt t : Text} (hfmt : fmt.Within p)
    (h : render z x fmt = .ok t) : t.Within p := by
  fun_induction render z x fmt generalizing t with
  | case1 | case2 => cases h; exact within_nil
  | case3 c r ih =>
    rw [within_cons, within_cons] at hfmt
    cases hu : render z x r with
    | error e => rw [hu] at h; cases h
    | ok u =>
      rw [hu] at h
      exact Except.ok.inj h ▸ within_cons.2 ⟨hfmt.2.1, ih hfmt.2.2 hu⟩
  | case4 c r _ _ ih =>
    rw [within_cons] at hfmt
    cases hs : letter z x c with
    | error e => rw [hs] at h; cases h
    | ok s =>
      cases hu : render z x r with
      | error e => rw [hs, hu] at h; cases h
      | ok u =>
        rw [hs, hu] at h
        exact Except.ok.inj h ▸ within_append.2 ⟨within_letter hfmt.1 hs, ih hfmt.2 hu⟩

end DateFormat

end

namespace Indonesian

theorem mem_of_nameAt? {table : List (Text × Text)} {t : Text} {e : Text × Text}
    (h : nameAt? table t = some e) : e ∈ table ∧ e.1.isPrefixOf t = true := by
  have hmem : ∀ e, nameAt? table t = some e → e ∈ table.filter fun e => e.1.isPrefixOf t := by
    unfold nameAt?
    refine List.foldlRecOn (motive := fun best => ∀ e, best = some e → e ∈ _) _ _
      (fun _ h => nomatch h) fun best hbest f hf e he => ?_
    cases best with
    | none => exact Option.some.inj he ▸ hf
    | some b =>
      dsimp only at he
      split at he
      · exact Option.some.inj he ▸ hf
      · exact hbest e he
  exact List.mem_filter.1 (hmem e h)

variable {p : Char → Bool}

theorem within_replaceFrom {table : List (Text × Text)} (htable : ∀ e ∈ table, Within p e.2)
    {t : Text} (ht : t.Within p) (skip : Nat) : (replaceFrom table skip t).Within p := by
  fun_induction replaceFrom table skip t with
  | case1 => exact within_nil
  | case2 skip c r ih => exact ih (within_cons.1 ht).2
  | case3 c r en name hname ih =>
    exact within_append.2 ⟨htable _ (mem_of_nameAt? hname).1, ih (within_cons.1 ht).2⟩
  | case4 c r hname ih =>
    rw [within_cons] at ht ⊢
    exact ⟨ht.1, ih ht.2⟩

/-- Indonesian names put in a text are plain words. -/
theorem within_localize [HasPlain p] {t : Text} (h : t.Within p) : (localize t).Within p := by
  have hmonths : ∀ e ∈ monthTable, e.2.Within isPlainChar := by decide
  have hdays : ∀ e ∈ dayTable, e.2.Within isPlainChar := by decide
  have hmonthly := within_replaceFrom (fun e he => within_of_plain (hmonths e he)) h 0
  exact within_replaceFrom (fun e he => within_of_plain (hdays e he)) hmonthly 0

end Indonesian
end MailMerge
