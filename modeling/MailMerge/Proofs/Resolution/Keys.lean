import MailMerge.Placeholder.Grammar
import MailMerge.Proofs.Text.Cutting
/-!
# The keys of placeholders

A placeholder is stored under its inner text, which begins with the name of its kind and a colon
(`raw_eq`). The keys it reads hold no colon, but for those of pictures: their source stands under
the name of the kind, a colon and the first field, which is also the inner text of the placeholder
without further fields (`eq_of_raw_eq_sourceKey`).
-/
namespace MailMerge

namespace Kind

theorem name_ne_nil (k : Kind) : k.name ≠ [] := by cases k <;> decide

theorem colon_not_mem_name (k : Kind) : ':' ∉ k.name := by cases k <;> decide

theorem head?_name (k : Kind) : k.name.head? ≠ some '$' := by cases k <;> decide

theorem name_injective {k k' : Kind} (h : k.name = k'.name) : k = k' := by
  have := ofName?_name k
  rw [h, ofName?_name] at this
  exact (Option.some.inj this).symm

theorem eq_of_isPicture {k : Kind} (h : k.isPicture = true) : k = .qrcode ∨ k = .image := by
  cases k <;> first | exact Or.inl rfl | exact Or.inr rfl | exact absurd h (by decide)

end Kind

namespace FieldPattern

theorem colon_not_mem_takeWhile (t : Text) : ':' ∉ t.takeWhile inField := by
  intro h
  have := List.all_eq_true.1 List.all_takeWhile _ h
  simp [inField] at this

theorem colon_not_mem_more {n : Nat} {t : Text} {fields : List Text}
    (h : more n t = some fields) : ∀ a ∈ fields, ':' ∉ a := by
  induction n generalizing t fields with
  | zero =>
    cases t with
    | nil =>
      rw [more] at h
      cases h
      exact fun a ha => absurd ha List.not_mem_nil
    | cons c t => simp [more] at h
  | succ n ih =>
    cases t with
    | nil =>
      rw [more] at h
      cases h
      exact fun a ha => absurd ha List.not_mem_nil
    | cons c t =>
      rw [more] at h
      obtain ⟨rest, hrest, rfl⟩ := Option.map_eq_some_iff.1 h
      intro a ha
      rcases List.mem_cons.1 ha with rfl | ha
      · exact colon_not_mem_takeWhile _
      · exact ih hrest a ha

/-- The first field is everything up to the first colon. -/
theorem read?_eq_some {p : FieldPattern} {t : Text} {args : List Text}
    (h : p.read? t = some args) :
    ∃ more, args = t.takeWhile inField :: more ∧ (p.openEnd = false → ∀ a ∈ more, ':' ∉ a) := by
  unfold read? at h
  dsimp only at h
  split at h
  · cases h
  · split at h
    · rename_i hopen
      split at h
      · cases h
        exact ⟨[], rfl, fun _ a ha => absurd ha List.not_mem_nil⟩
      · cases h
        exact ⟨_, rfl, fun hc => absurd hopen (by rw [hc]; decide)⟩
    · obtain ⟨rest, hrest, rfl⟩ := Option.map_eq_some_iff.1 h
      exact ⟨rest, rfl, fun _ => colon_not_mem_more hrest⟩

theorem takeWhile_inField {t : Text} (h : ':' ∉ t) : t.takeWhile inField = t := by
  have : (t ++ []).takeWhile inField = t ++ [].takeWhile inField := by
    refine List.takeWhile_append_of_pos fun c hc => ?_
    have hne : c ≠ ':' := fun e => h (e ▸ hc)
    simpa [inField] using hne
  simpa using this

/-- Without a colon there is one field. -/
theorem eq_singleton_of_read? {p : FieldPattern} {t : Text} {args : List Text} (h : ':' ∉ t)
    (hr : p.read? t = some args) : args = [t] := by
  have hdrop : t.dropWhile inField = [] := by
    have := List.takeWhile_append_dropWhile (p := inField) (l := t)
    rw [takeWhile_inField h] at this
    exact List.append_cancel_left (this.trans (List.append_nil t).symm)
  unfold read? at hr
  rw [takeWhile_inField h, hdrop] at hr
  dsimp only at hr
  split at hr
  · cases hr
  · split at hr
    · cases hr
      rfl
    · cases hopt : p.optional <;> rw [hopt] at hr <;> cases hr <;> rfl

end FieldPattern

namespace Placeholder

theorem parse_eq (t : Text) :
    parse t = (Text.cut ':' (Token.unwrap t)).2.bind fun rest =>
      (Kind.ofName? (Text.cut ':' (Token.unwrap t)).1).bind fun kind =>
        (kind.fields.read? rest).map fun args => ⟨kind, Token.unwrap t, args⟩ := by
  unfold parse
  dsimp only
  generalize Text.cut ':' (Token.unwrap t) = c
  obtain ⟨name, rest⟩ := c
  cases rest with
  | none => rfl
  | some rest =>
    simp only [bind, pure, Option.bind_some]
    cases Kind.ofName? name with
    | none => rfl
    | some kind =>
      simp only [Option.bind_some]
      cases kind.fields.read? rest <;> rfl

/-- A placeholder is stored under the name of its kind, a colon and what its fields are read from. -/
theorem parse_eq_some {t : Text} {d : Descriptor} (h : parse t = some d) :
    d.raw = Token.unwrap t ∧
      ∃ rest, d.raw = d.kind.name ++ ':' :: rest ∧ d.kind.fields.read? rest = some d.args := by
  rw [parse_eq] at h
  obtain ⟨rest, hrest, h⟩ := Option.bind_eq_some_iff.1 h
  obtain ⟨kind, hkind, h⟩ := Option.bind_eq_some_iff.1 h
  obtain ⟨args, hargs, h⟩ := Option.map_eq_some_iff.1 h
  cases h
  refine ⟨rfl, rest, ?_, hargs⟩
  rw [Kind.name_ofName? hkind]
  exact (Text.cut_eq_some (Prod.ext rfl hrest)).1

theorem parse_of_eq {d : Descriptor} {rest : Text} (hraw : d.raw = d.kind.name ++ ':' :: rest)
    (hu : Token.unwrap d.raw = d.raw) (hargs : d.kind.fields.read? rest = some d.args) :
    parse d.raw = some d := by
  have hcut := Text.cut_append (Kind.colon_not_mem_name d.kind) rest
  rw [← hraw] at hcut
  rw [parse_eq, hu, hcut]
  simp only [Option.bind_some, Kind.ofName?_name, hargs, Option.map_some]

end Placeholder

namespace Token

theorem unwrap_of_head? {t : Text} (h : t.head? ≠ some '$') : unwrap t = t := by
  have hp : opening.isPrefixOf t = false := by
    cases t with
    | nil => rfl
    | cons c r =>
      have hne : '$' ≠ c := fun e => h (by rw [← e]; rfl)
      simp [opening, List.isPrefixOf, hne]
  rw [unwrap, hp]
  rfl

end Token

namespace Descriptor

/-- Whether a placeholder is what its own inner text writes. -/
def IsParsed (d : Descriptor) : Prop := Placeholder.parse d.raw = some d

variable {d e : Descriptor}

theorem raw_eq (h : IsParsed d) : Token.unwrap d.raw = d.raw ∧
    ∃ rest, d.raw = d.kind.name ++ ':' :: rest ∧ d.kind.fields.read? rest = some d.args := by
  obtain ⟨hu, h⟩ := Placeholder.parse_eq_some h
  exact ⟨hu.symm, h⟩

theorem isParsed_of_parse {t : Text} (h : Placeholder.parse t = some d) : IsParsed d := by
  obtain ⟨-, rest, hraw, hargs⟩ := Placeholder.parse_eq_some h
  refine Placeholder.parse_of_eq hraw (Token.unwrap_of_head? ?_) hargs
  have hname := Kind.head?_name d.kind
  have hne := Kind.name_ne_nil d.kind
  rw [hraw]
  cases hn : d.kind.name with
  | nil => exact absurd hn hne
  | cons c r => rwa [hn] at hname

theorem eq_of_raw_eq (hd : IsParsed d) (he : IsParsed e) (h : d.raw = e.raw) : d = e := by
  unfold IsParsed at hd he
  rw [h, he] at hd
  exact (Option.some.inj hd).symm

theorem colon_mem_raw (h : IsParsed d) : ':' ∈ d.raw := by
  obtain ⟨-, rest, hraw, -⟩ := raw_eq h
  rw [hraw]
  simp

/-- The first field of a placeholder, and that the others hold no colon either unless the last one
is everything up to the end. -/
theorem args_eq (h : IsParsed d) :
    ∃ first more, d.args = first :: more ∧ ':' ∉ first ∧
      (d.kind.fields.openEnd = false → ∀ a ∈ more, ':' ∉ a) := by
  obtain ⟨-, rest, -, hargs⟩ := raw_eq h
  obtain ⟨more, ha, hm⟩ := FieldPattern.read?_eq_some hargs
  exact ⟨_, more, ha, FieldPattern.colon_not_mem_takeWhile rest, hm⟩

theorem colon_not_mem_arg? (h : IsParsed d) (hopen : d.kind.fields.openEnd = false) {i : Nat}
    {a : Text} (ha : d.arg? i = some a) : ':' ∉ a := by
  obtain ⟨first, more, hargs, hfirst, hmore⟩ := args_eq h
  have hmem : a ∈ d.args := by
    unfold arg? at ha
    split at ha
    · cases ha
    · cases ha
    · rename_i t ht
      cases ha
      exact List.mem_of_getElem? ht
  rw [hargs] at hmem
  rcases List.mem_cons.1 hmem with rfl | hmem
  · exact hfirst
  · exact hmore hopen a hmem

theorem colon_not_mem_arg?_zero (h : IsParsed d) {a : Text} (ha : d.arg? 0 = some a) : ':' ∉ a := by
  obtain ⟨first, more, hargs, hfirst, -⟩ := args_eq h
  unfold arg? at ha
  rw [hargs] at ha
  simp only [List.getElem?_cons_zero] at ha
  split at ha
  · cases ha
  · cases ha
  · rename_i t _ ht
    cases ha
    cases ht
    exact hfirst

/-- The source of a picture stands under the name of its kind, a colon and the first field. -/
theorem sourceKey?_of_isPicture (h : IsParsed d) (hp : d.kind.isPicture = true) :
    ∃ first more, d.args = first :: more ∧ ':' ∉ first ∧
      d.sourceKey? = some (d.kind.name ++ ':' :: first) := by
  obtain ⟨first, more, hargs, hfirst, -⟩ := args_eq h
  refine ⟨first, more, hargs, hfirst, ?_⟩
  unfold sourceKey?
  rw [hargs]
  cases hk : d.kind <;> rw [hk] at hp <;> first | rfl | exact absurd hp (by decide)

/-- What is stored under the source of a picture belongs to the placeholder of the same kind and
first field that has no other fields. -/
theorem eq_of_raw_eq_sourceKey (hd : IsParsed d) (he : IsParsed e) (hp : d.kind.isPicture = true)
    (h : d.sourceKey? = some e.raw) :
    e.kind = d.kind ∧ e.sourceKey? = d.sourceKey? ∧ ∃ first, e.args = [first] := by
  obtain ⟨first, more, -, hfirst, hsource⟩ := sourceKey?_of_isPicture hd hp
  rw [hsource, Option.some.injEq] at h
  obtain ⟨-, rest, hraw, hargs⟩ := raw_eq he
  have hcut := Text.cut_append (Kind.colon_not_mem_name d.kind) first
  rw [h, hraw, Text.cut_append (Kind.colon_not_mem_name e.kind) rest] at hcut
  simp only [Prod.mk.injEq, Option.some.injEq] at hcut
  obtain ⟨hname, rfl⟩ := hcut
  have hkind := Kind.name_injective hname
  have hargs' := FieldPattern.eq_singleton_of_read? hfirst hargs
  refine ⟨hkind, ?_, _, hargs'⟩
  obtain ⟨first, more, hargs'', -, hsource'⟩ := sourceKey?_of_isPicture he (hkind ▸ hp)
  rw [hargs'] at hargs''
  cases hargs''
  rw [hsource', hsource, hkind]

end Descriptor

end MailMerge
