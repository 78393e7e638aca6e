import MailMerge.Proofs.Resolution.Keys
/-!
# What the grammar accepts

A text writes a placeholder just when it is the name of a kind and fields that the kind takes, each
after a colon, and the reader gives back that kind and these fields. Nothing is lost: the fields
after their colons are the whole text again, and the inner text and the token of a placeholder are
read as the placeholder they came from.

* `FieldPattern.read?_eq_some_iff`: the reader of fields against the fields that it takes.
* `Kind.takes_iff`: which those are, kind by kind.
* `Placeholder.parse_eq_some_iff`: the same for a whole placeholder.
-/
namespace MailMerge

theorem Text.join_cons_eq_flatMap (sep : Char) (t : Text) (l : List Text) :
    join [sep] (t :: l) = t ++ l.flatMap (sep :: ·) := by
  induction l generalizing t with
  | nil => simp [join]
  | cons u l ih => simp [join, ih]

namespace FieldPattern

variable {p : FieldPattern}

/-- The fields that fit a pattern: how many, whether the first may be empty, and where a colon may
stand in them. -/
def Takes (p : FieldPattern) : List Text → Prop
  | [] => False
  | first :: more =>
    ':' ∉ first ∧ (first = [] → p.emptyFirst = true) ∧
      if p.openEnd then more.length ≤ 1 else more.length ≤ p.optional ∧ ∀ f ∈ more, ':' ∉ f

theorem takeWhile_append_colon {t : Text} (h : ':' ∉ t) (r : Text) :
    (t ++ ':' :: r).takeWhile inField = t ∧ (t ++ ':' :: r).dropWhile inField = ':' :: r := by
  have hall : ∀ c ∈ t, inField c = true := fun c hc => by
    have hne : c ≠ ':' := fun e => h (e ▸ hc)
    simpa [inField] using hne
  rw [List.takeWhile_append_of_pos hall, List.dropWhile_append_of_pos hall]
  simp [inField]

theorem takeWhile_append_flatMap {t : Text} (h : ':' ∉ t) (l : List Text) :
    (t ++ l.flatMap (':' :: ·)).takeWhile inField = t ∧
      (t ++ l.flatMap (':' :: ·)).dropWhile inField = l.flatMap (':' :: ·) := by
  cases l with
  | nil =>
    have hdrop := List.takeWhile_append_dropWhile (p := inField) (l := t)
    rw [takeWhile_inField h] at hdrop
    simp only [List.flatMap_nil, List.append_nil]
    exact ⟨takeWhile_inField h, by simpa using hdrop⟩
  | cons u l => exact takeWhile_append_colon h (u ++ l.flatMap (':' :: ·))

/-- What is left after a field is empty or begins with a colon. -/
theorem dropWhile_inField_eq (t : Text) :
    t.dropWhile inField = [] ∨ ∃ r, t.dropWhile inField = ':' :: r := by
  cases h : t.dropWhile inField with
  | nil => exact Or.inl rfl
  | cons c r =>
    have hc := List.head?_dropWhile_not inField t
    rw [h] at hc
    have : c = ':' := by simpa [inField] using hc
    exact Or.inr ⟨r, by rw [this]⟩

theorem more_flatMap {n : Nat} {fields : List Text} (hlen : fields.length ≤ n)
    (hcolon : ∀ f ∈ fields, ':' ∉ f) : more n (fields.flatMap (':' :: ·)) = some fields := by
  -- each field is cut off where the colon of the next one stands
  induction fields generalizing n with
  | nil => cases n <;> rfl
  | cons f fields ih =>
    obtain ⟨m, rfl⟩ : ∃ m, n = m + 1 := ⟨n - 1, by simp at hlen; omega⟩
    obtain ⟨htake, hdrop⟩ := takeWhile_append_flatMap (hcolon f (List.mem_cons_self ..)) fields
    have ih := ih (Nat.le_of_succ_le_succ hlen) fun g hg => hcolon g (List.mem_cons_of_mem _ hg)
    simp only [List.flatMap_cons, List.cons_append, more, htake, hdrop, ih, Option.map_some]

/-- The fields after the first one are all that is left after it. -/
theorem eq_flatMap_of_more {n : Nat} {t : Text} {fields : List Text} (h : more n t = some fields)
    (ht : t = [] ∨ ∃ r, t = ':' :: r) : t = fields.flatMap (':' :: ·) ∧ fields.length ≤ n := by
  induction n generalizing t fields with
  | zero =>
    rcases ht with rfl | ⟨r, rfl⟩
    · rw [more] at h
      cases h
      exact ⟨rfl, Nat.le_refl _⟩
    · cases h
  | succ n ih =>
    rcases ht with rfl | ⟨r, rfl⟩
    · rw [more] at h
      cases h
      exact ⟨rfl, Nat.zero_le _⟩
    · rw [more] at h
      obtain ⟨rest, hrest, rfl⟩ := Option.map_eq_some_iff.1 h
      obtain ⟨hr, hlen⟩ := ih hrest (dropWhile_inField_eq r)
      refine ⟨?_, Nat.succ_le_succ hlen⟩
      rw [List.flatMap_cons, ← hr, List.cons_append, List.takeWhile_append_dropWhile]

/-- The reader takes the fields that fit the pattern and no others, and they are the whole text. -/
theorem read?_eq_some_iff {t : Text} {fields : List Text} :
    p.read? t = some fields ↔ p.Takes fields ∧ t = Text.join [':'] fields := by
  constructor
  · intro h
    have hsplit := List.takeWhile_append_dropWhile (p := inField) (l := t)
    have hcolon := colon_not_mem_takeWhile t
    unfold read? at h
    dsimp only at h
    split at h
    · cases h
    · rename_i hempty
      have hfirst : t.takeWhile inField = [] → p.emptyFirst = true := by
        intro hnil
        simpa [hnil] using hempty
      split at h
      · rename_i hopen
        rcases dropWhile_inField_eq t with hdrop | ⟨r, hdrop⟩ <;> rw [hdrop] at h hsplit <;> cases h
        · refine ⟨⟨hcolon, hfirst, by simp [hopen]⟩, ?_⟩
          rw [Text.join, ← hsplit]
          simp [takeWhile_inField hcolon]
        · refine ⟨⟨hcolon, hfirst, by simp [hopen]⟩, ?_⟩
          rw [Text.join_cons_eq_flatMap]
          simpa using hsplit.symm
      · rename_i hopen
        obtain ⟨rest, hrest, rfl⟩ := Option.map_eq_some_iff.1 h
        obtain ⟨hr, hlen⟩ := eq_flatMap_of_more hrest (dropWhile_inField_eq t)
        refine ⟨⟨hcolon, hfirst, by simpa [hopen] using ⟨hlen, colon_not_mem_more hrest⟩⟩, ?_⟩
        rw [Text.join_cons_eq_flatMap, ← hr, hsplit]
  · rintro ⟨htakes, rfl⟩
    cases fields with
    | nil => exact htakes.elim
    | cons first more =>
      obtain ⟨hcolon, hfirst, hmore⟩ := htakes
      obtain ⟨htake, hdrop⟩ := takeWhile_append_flatMap hcolon more
      have hempty : (first.isEmpty && !p.emptyFirst) = false := by
        cases first with
        | nil => simp [hfirst rfl]
        | cons c r => rfl
      rw [read?, Text.join_cons_eq_flatMap]
      simp only [htake, hdrop, hempty]
      split at hmore
      · rename_i hopen
        cases more with
        | nil => simp [hopen]
        | cons rest more =>
          have hlen : more.length = 0 := Nat.le_zero.1 (Nat.le_of_succ_le_succ hmore)
          obtain rfl := List.eq_nil_of_length_eq_zero hlen
          simp [hopen]
      · rename_i hopen
        simp [hopen, more_flatMap hmore.1 hmore.2]

end FieldPattern

namespace Kind

/-- One to `n` fields, the first not empty, none with a colon. -/
def TakesUpTo (n : Nat) (fields : List Text) : Prop :=
  ∃ first more, fields = first :: more ∧ first ≠ [] ∧ fields.length ≤ n ∧ ∀ f ∈ fields, ':' ∉ f

/-- A field without a colon, and perhaps everything after the colon behind it. -/
def TakesOpen (fields : List Text) : Prop :=
  ∃ first, ':' ∉ first ∧ (fields = [first] ∨ ∃ rest, fields = [first, rest])

/-- The fields that each kind takes. -/
def Takes (fields : List Text) : Kind → Prop
  | .user | .site | .terbilang | .custom => ∃ field, fields = [field] ∧ field ≠ [] ∧ ':' ∉ field
  | .image | .alamat => TakesUpTo 5 fields
  | .qrcode | .gelar => TakesUpTo 3 fields
  | .number => TakesUpTo 2 fields
  | .money => TakesOpen fields ∧ fields.head? ≠ some []
  | .date => TakesOpen fields

/-- The inner text of the placeholder of a kind with the given fields. -/
def written (k : Kind) (fields : List Text) : Text := k.name ++ ':' :: Text.join [':'] fields

theorem takesUpTo_iff {n : Nat} {fields : List Text} :
    TakesUpTo (n + 1) fields ↔ FieldPattern.Takes { optional := n } fields := by
  cases fields with
  | nil => simp [TakesUpTo, FieldPattern.Takes]
  | cons first more =>
    simp only [TakesUpTo, FieldPattern.Takes, List.cons.injEq, List.length_cons, List.forall_mem_cons]
    constructor
    · rintro ⟨_, _, ⟨rfl, rfl⟩, hne, hlen, hfirst, hmore⟩
      exact ⟨hfirst, fun h => absurd h hne, by simpa using ⟨by omega, hmore⟩⟩
    · rintro ⟨hfirst, hne, hrest⟩
      obtain ⟨hlen, hmore⟩ : more.length ≤ n ∧ ∀ f ∈ more, ':' ∉ f := by simpa using hrest
      exact ⟨first, more, ⟨rfl, rfl⟩, fun h => by simpa using hne h, by omega, hfirst, hmore⟩

theorem takesOpen_iff (fields : List Text) (emptyFirst : Bool) :
    (TakesOpen fields ∧ (fields.head? = some [] → emptyFirst = true)) ↔
      FieldPattern.Takes { emptyFirst, openEnd := true } fields := by
  match fields with
  | [] => simp [TakesOpen, FieldPattern.Takes]
  | [first] => simp [TakesOpen, FieldPattern.Takes]
  | [first, rest] => simp [TakesOpen, FieldPattern.Takes]
  | first :: _ :: _ :: _ => simp [TakesOpen, FieldPattern.Takes]

theorem takes_iff (k : Kind) (fields : List Text) : k.fields.Takes fields ↔ k.Takes fields := by
  have hone : FieldPattern.Takes {} fields ↔ ∃ f, fields = [f] ∧ f ≠ [] ∧ ':' ∉ f := by
    rw [← takesUpTo_iff]
    constructor
    · rintro ⟨first, more, rfl, hne, hlen, hcolon⟩
      obtain rfl : more = [] := List.eq_nil_of_length_eq_zero (by simpa using hlen)
      exact ⟨first, rfl, hne, hcolon first (List.mem_singleton_self first)⟩
    · rintro ⟨f, rfl, hne, hcolon⟩
      exact ⟨f, [], rfl, hne, Nat.le_refl _, by simpa using hcolon⟩
  cases k with
  | user | site | terbilang | custom => exact hone
  | image | alamat => exact (takesUpTo_iff (n := 4)).symm
  | qrcode | gelar => exact (takesUpTo_iff (n := 2)).symm
  | number => exact (takesUpTo_iff (n := 1)).symm
  | money =>
    have := takesOpen_iff fields false
    simpa [Takes, Kind.fields] using this.symm
  | date =>
    have := takesOpen_iff fields true
    simpa [Takes, Kind.fields] using this.symm

end Kind

namespace Placeholder

/-- A text is read as a placeholder just when it writes its kind and its fields. -/
theorem parse_eq_some_iff {t : Text} {d : Descriptor} :
    parse t = some d ↔
      d.raw = Token.unwrap t ∧ d.kind.Takes d.args ∧ d.raw = d.kind.written d.args := by
  constructor
  · intro h
    obtain ⟨hraw, rest, hwritten, hread⟩ := parse_eq_some h
    obtain ⟨htakes, rfl⟩ := FieldPattern.read?_eq_some_iff.1 hread
    exact ⟨hraw, (Kind.takes_iff d.kind d.args).1 htakes, hwritten⟩
  · rintro ⟨hraw, htakes, hwritten⟩
    have hread := FieldPattern.read?_eq_some_iff.2 ⟨(Kind.takes_iff d.kind d.args).2 htakes, rfl⟩
    rw [parse_eq, ← hraw, hwritten, Kind.written, Text.cut_append (Kind.colon_not_mem_name d.kind)]
    simp only [Option.bind_some, Kind.ofName?_name, hread, Option.map_some]
    rw [← Kind.written, ← hwritten]

example : parse "date::H:i".toList =
    some ⟨.date, "date::H:i".toList, [[], "H:i".toList]⟩ := by decide

theorem parse_token {t : Text} {d : Descriptor} (h : parse t = some d) :
    parse d.token = some d := by
  have hparsed := Descriptor.isParsed_of_parse h
  exact (parse_wrap d.raw (Descriptor.raw_eq hparsed).1).trans hparsed

/-- A text writes a placeholder just when, its wrapping aside, it is the name of a kind and fields
that the kind takes, each after a colon; the placeholder read from it has that kind and these
fields, and its inner text and its token are read as the same placeholder. -/
theorem parse_accepts_written (t : Text) :
    ((∃ d, parse t = some d) ↔
      ∃ (k : Kind) (fields : List Text), k.Takes fields ∧ Token.unwrap t = k.written fields) ∧
    (∀ (k : Kind) (fields : List Text), k.Takes fields → Token.unwrap t = k.written fields →
      parse t = some ⟨k, Token.unwrap t, fields⟩) ∧
    ∀ d, parse t = some d →
      d.raw = Token.unwrap t ∧ d.kind.Takes d.args ∧
      d.kind.name ++ ":".toList ++ Text.join ":".toList d.args = d.raw ∧
      parse d.raw = some d ∧ parse d.token = some d := by
  have hread : ∀ (k : Kind) (fields : List Text), k.Takes fields →
      Token.unwrap t = k.written fields → parse t = some ⟨k, Token.unwrap t, fields⟩ :=
    fun k fields htakes hwritten => parse_eq_some_iff.2 ⟨rfl, htakes, hwritten⟩
  refine ⟨⟨?_, ?_⟩, hread, ?_⟩
  · rintro ⟨d, h⟩
    obtain ⟨hraw, htakes, hwritten⟩ := parse_eq_some_iff.1 h
    exact ⟨d.kind, d.args, htakes, hraw ▸ hwritten⟩
  · rintro ⟨k, fields, htakes, hwritten⟩
    exact ⟨_, hread k fields htakes hwritten⟩
  · intro d h
    obtain ⟨hraw, htakes, hwritten⟩ := parse_eq_some_iff.1 h
    refine ⟨hraw, htakes, ?_, Descriptor.isParsed_of_parse h, parse_token h⟩
    rw [hwritten, Kind.written, List.append_assoc]
    rfl

end Placeholder
end MailMerge
