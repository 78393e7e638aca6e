import MailMerge.Proofs.Text.Replacement
import MailMerge.Document.Splice
/-!
# What splicing does to the joined text of the runs

Occurrences are spliced from the last to the first, with places that were taken before the first of
them was changed. They stay right because a change only touches what begins at or after it:
`Agrees q` says that the runs are as they were before the place `q`.

* `putText_spec`: one splice is a cut in the joined text, and the runs before it stay.
* `atEach_putText`: all splices together replace every occurrence in the joined text.
* `atEach_putText_fault`: a text that no document holds breaks the work off at an occurrence.
-/
namespace MailMerge

namespace Attempt

variable {α β : Type}

theorem each_concat (f : β → α → Attempt α) (l : List β) (b : β) (x : α) :
    each f (l ++ [b]) x = (each f l x).andThen (f b) := by
  rw [each, List.foldl_append]
  rfl

theorem foldl_andThen_of_fault (f : β → α → Attempt α) (l : List β) {a : Attempt α} {e : Fault}
    (h : a.fault = some e) : l.foldl (fun a b => a.andThen (f b)) a = a := by
  induction l with
  | nil => rfl
  | cons b l ih =>
    have hb : a.andThen (f b) = a := by rw [andThen, h]
    rw [List.foldl_cons, hb, ih]

theorem eq_of_fault_eq_none {a : Attempt α} (h : a.fault = none) : a = { value := a.value } := by
  cases a
  simp only at h
  rw [h]

theorem each_cons_of_none (f : β → α → Attempt α) (b : β) (l : List β) {x : α}
    (h : (f b x).fault = none) : each f (b :: l) x = each f l (f b x).value := by
  rw [each, List.foldl_cons, andThen, eq_of_fault_eq_none h]
  rfl

theorem each_cons_of_fault (f : β → α → Attempt α) (b : β) (l : List β) {x : α} {e : Fault}
    (h : (f b x).fault = some e) : each f (b :: l) x = f b x :=
  foldl_andThen_of_fault f l h

end Attempt

/-! ## Stored texts -/

namespace Run

/-- How a stored text is read back. -/
def readBack (t : Text) : Text := t.map fun c => if c = '\r' then '\n' else c

/-- Whether a text is read back as it was stored. -/
def IsStored (t : Text) : Prop := ∀ c ∈ t, isXmlChar c = true ∧ c ≠ '\r'

theorem storable_eq_self {t : Text} (h : ∀ c ∈ t, isXmlChar c = true) : storable t = t := by
  have ht : t.takeWhile isXmlChar = t := by
    have : (t ++ []).takeWhile isXmlChar = t ++ [].takeWhile isXmlChar :=
      List.takeWhile_append_of_pos h
    simpa using this
  simp [storable, ht]

theorem text_store {t : Text} (h : ∀ c ∈ t, isXmlChar c = true) (r : Run) :
    (r.store t).text = readBack t := by
  rw [store, storable_eq_self h, readBack]

theorem readBack_append (s t : Text) : readBack (s ++ t) = readBack s ++ readBack t :=
  List.map_append

theorem IsStored.readBack {t : Text} (h : IsStored t) : readBack t = t := by
  refine (List.map_congr_left fun c hc => ?_).trans (List.map_id t)
  rw [if_neg (h c hc).2, id]

theorem isStored_readBack {t : Text} (h : ∀ c ∈ t, isXmlChar c = true) :
    IsStored (Run.readBack t) := by
  intro c hc
  obtain ⟨d, hd, rfl⟩ := List.mem_map.1 hc
  split
  · exact ⟨by decide, by decide⟩
  · rename_i hne
    exact ⟨h d hd, hne⟩

theorem IsStored.append {s t : Text} (hs : IsStored s) (ht : IsStored t) : IsStored (s ++ t) := by
  intro c hc
  exact (List.mem_append.1 hc).elim (hs c) (ht c)

theorem IsStored.of_sublist {s t : Text} (ht : IsStored t) (h : s.Sublist t) : IsStored s :=
  fun c hc => ht c (h.subset hc)

theorem IsStored.isXmlChar {t : Text} (h : IsStored t) : ∀ c ∈ t, isXmlChar c = true :=
  fun c hc => (h c hc).1

end Run

namespace Splice

/-- The texts of the runs of a content. -/
def texts (c : List Inline) : List Text := (c.filterMap Inline.run?).map Run.text

/-- Whether the texts of all runs are read back as they were stored. -/
def AllStored (l : List Text) : Prop := ∀ t ∈ l, Run.IsStored t

theorem flatten_texts (c : List Inline) : (texts c).flatten = text (c.filterMap Inline.run?) := rfl

theorem textAt_eq (c : List Inline) (i : Nat) : textAt c i = ((texts c)[i]?).getD [] := by
  rw [textAt, texts, List.getElem?_map]

theorem edit_link (f : Run → List Inline) (i : Nat) (rs : List Run) (c : List Inline) :
    edit f i (.link rs :: c) = .link rs :: edit f i c := by
  cases i <;> rfl

theorem texts_put (t : Text) (i : Nat) (c : List Inline) (h : ∀ a ∈ t, isXmlChar a = true) :
    texts (put i t c) = (texts c).set i (Run.readBack t) := by
  unfold texts put
  induction c generalizing i with
  | nil => cases i <;> simp [edit]
  | cons x c ih =>
    cases x with
    | link rs =>
      rw [edit_link, List.filterMap_cons, List.filterMap_cons]
      exact ih i
    | run r =>
      cases i with
      | zero => simp [edit, Inline.run?, Run.text_store h]
      | succ i => simpa [edit, Inline.run?] using ih i

theorem set_middle (p q : List Text) (x y : Text) :
    (p ++ x :: q).set p.length y = p ++ y :: q := by
  simp

theorem getD_middle (p q : List Text) (x : Text) : ((p ++ x :: q)[p.length]?).getD [] = x := by
  simp

theorem texts_foldl_put (m p q : List Text) (c : List Inline) (h : texts c = p ++ (m ++ q)) :
    texts ((List.range' p.length m.length).foldl (fun c i => put i [] c) c) =
      p ++ (m.map (fun _ => []) ++ q) := by
  induction m generalizing p c with
  | nil => simpa using h
  | cons x m ih =>
    have hput : texts (put p.length [] c) = (p ++ [[]]) ++ (m ++ q) := by
      rw [texts_put _ _ _ (by simp), h, List.cons_append, set_middle]
      simp [Run.readBack]
    have := ih (p ++ [[]]) (put p.length [] c) hput
    rw [List.length_append] at this
    rw [List.length_cons, List.range'_succ, List.foldl_cons]
    simpa using this

theorem texts_clearBetween (p m q : List Text) (x y : Text) (c : List Inline)
    (h : texts c = p ++ x :: (m ++ y :: q)) :
    texts (clearBetween p.length (p.length + 1 + m.length) c) =
      p ++ x :: (m.map (fun _ => []) ++ y :: q) := by
  have := texts_foldl_put m (p ++ [x]) (y :: q) c (by simpa using h)
  rw [List.length_append] at this
  have hlen : p.length + 1 + m.length - p.length - 1 = m.length := by omega
  rw [clearBetween, hlen]
  simpa using this

/-! ## Holders -/

/-- Where the text of a run begins, after those of the runs before it. -/
theorem starts_getElem (rs : List Run) (place i : Nat) (h : i < rs.length) :
    (starts place rs).getD i 0 = place + (text (rs.take i)).length := by
  induction rs generalizing place i with
  | nil => exact absurd h (Nat.not_lt_zero i)
  | cons r rs ih =>
    cases i with
    | zero => simp [starts, text]
    | succ i =>
      have := ih (place + r.text.length) i (by simpa using h)
      simp only [starts, List.getD_cons_succ, this, List.take_succ_cons, text, List.map_cons,
        List.flatten_cons, List.length_append]
      omega

/-- The run that holds a character of the joined text. -/
theorem takeWhile_starts (rs : List Run) (place p : Nat) (hle : place ≤ p)
    (hlt : p < place + (text rs).length) :
    ∃ a r b, rs = a ++ r :: b ∧ ((starts place rs).takeWhile (· ≤ p)).length = a.length + 1 ∧
      place + (text a).length ≤ p ∧ p < place + (text a).length + r.text.length := by
  induction rs generalizing place with
  | nil => simp [text] at hlt; omega
  | cons r rs ih =>
    by_cases hp : p < place + r.text.length
    · refine ⟨[], r, rs, rfl, ?_, by simpa [text] using hle, by simpa [text] using hp⟩
      cases rs with
      | nil => simp [starts, hle]
      | cons r' rs => simp [starts, hle, hp]
    · have hlen : (text (r :: rs)).length = r.text.length + (text rs).length := by simp [text]
      obtain ⟨a, r', b, rfl, hcount, hge, hlt'⟩ :=
        ih (place + r.text.length) (by omega) (by omega)
      have htext : (text (r :: a)).length = r.text.length + (text a).length := by simp [text]
      refine ⟨r :: a, r', b, rfl, ?_, by omega, by omega⟩
      rw [starts, List.takeWhile_cons_of_pos (by simpa using hle), List.length_cons, hcount,
        List.length_cons]

theorem holder_spec (rs : List Run) (p : Nat) (h : p < (text rs).length) :
    ∃ a x b, rs.map Run.text = a ++ x :: b ∧ holder (starts 0 rs) p = a.length ∧
      (starts 0 rs).getD a.length 0 = a.flatten.length ∧
      a.flatten.length ≤ p ∧ p < a.flatten.length + x.length := by
  obtain ⟨a, r, b, rfl, hcount, hle, hlt⟩ := takeWhile_starts rs 0 p (Nat.zero_le p) (by omega)
  have hstart := starts_getElem (a ++ r :: b) 0 a.length (by simp)
  rw [List.take_left, Nat.zero_add] at hstart
  rw [Nat.zero_add] at hle hlt
  refine ⟨a.map Run.text, r.text, b.map Run.text, by simp, ?_, ?_, hle, hlt⟩
  · rw [holder, hcount, List.length_map, Nat.add_sub_cancel]
  · rw [List.length_map, hstart]
    rfl

/-! ## One splice -/

/-- Whether the runs are as they were before a place of the joined text. -/
def Agrees (q : Nat) (l₀ l : List Text) : Prop :=
  ∀ a x b, l₀ = a ++ x :: b → ∀ u ≤ x.length, a.flatten.length + u ≤ q →
    ∃ x' b', l = a ++ x' :: b' ∧ x'.take u = x.take u ∧ u ≤ x'.length

theorem agrees_refl (q : Nat) (l : List Text) : Agrees q l l :=
  fun _ x b h _ hu _ => ⟨x, b, h, rfl, hu⟩

theorem Agrees.mono {q q' : Nat} {l₀ l : List Text} (h : Agrees q l₀ l) (hq : q' ≤ q) :
    Agrees q' l₀ l :=
  fun a x b hl u hu ha => h a x b hl u hu (Nat.le_trans ha hq)

/-- Two members of a list: the same one, or one before the other. -/
theorem append_cons_cases {a b a' b' : List Text} {x y : Text} (h : a ++ x :: b = a' ++ y :: b') :
    (a = a' ∧ x = y ∧ b = b') ∨ (∃ m, a' = a ++ x :: m ∧ b = m ++ y :: b') ∨
      (∃ m, a = a' ++ y :: m ∧ b' = m ++ x :: b) := by
  rcases List.append_eq_append_iff.1 h with ⟨m, ha, hb⟩ | ⟨m, ha, hb⟩
  · cases m with
    | nil => simp_all
    | cons z m =>
      obtain ⟨rfl, rfl⟩ := List.cons.inj hb
      exact Or.inr (Or.inl ⟨m, ha, rfl⟩)
  · cases m with
    | nil => simp_all
    | cons z m =>
      obtain ⟨rfl, rfl⟩ := List.cons.inj hb
      exact Or.inr (Or.inr ⟨m, ha, rfl⟩)

theorem agrees_of_split {a b b' : List Text} {x x' : Text} {u : Nat} (hu : u < x.length)
    (hx : x'.take u = x.take u) (hx' : u ≤ x'.length) :
    Agrees (a.flatten.length + u) (a ++ x :: b) (a ++ x' :: b') := by
  intro a₁ x₁ b₁ hsplit u₁ hu₁ hle
  rcases append_cons_cases hsplit with ⟨rfl, rfl, rfl⟩ | ⟨m, rfl, rfl⟩ | ⟨m, rfl, rfl⟩
  · have hle' : u₁ ≤ u := by omega
    refine ⟨x', b', rfl, ?_, by omega⟩
    have := congrArg (List.take u₁) hx
    rwa [List.take_take, List.take_take, Nat.min_eq_left hle'] at this
  · simp only [List.flatten_append, List.flatten_cons, List.length_append] at hle
    omega
  · exact ⟨x₁, m ++ x' :: b', by simp, rfl, hu₁⟩

theorem AllStored.append {l l' : List Text} (h : AllStored l) (h' : AllStored l') :
    AllStored (l ++ l') := by
  intro t ht
  exact (List.mem_append.1 ht).elim (h t) (h' t)

theorem AllStored.cons {t : Text} {l : List Text} (ht : Run.IsStored t) (h : AllStored l) :
    AllStored (t :: l) := by
  intro s hs
  rcases List.mem_cons.1 hs with rfl | hs
  · exact ht
  · exact h s hs

theorem AllStored.split {a b : List Text} {x : Text} (h : AllStored (a ++ x :: b)) :
    AllStored a ∧ Run.IsStored x ∧ AllStored b :=
  ⟨fun t ht => h t (List.mem_append_left _ ht), h x (by simp),
    fun t ht => h t (List.mem_append_right _ (List.mem_cons_of_mem _ ht))⟩

theorem allStored_map_nil (l : List Text) : AllStored (l.map fun _ => []) := by
  intro t ht
  obtain ⟨-, -, rfl⟩ := List.mem_map.1 ht
  exact fun c hc => absurd hc List.not_mem_nil

section
variable {c : List Inline} {value : Text} {a b : List Text} {x y : Text}

/-- An occurrence within one run is cut out there. -/
theorem texts_putText_within (hv : ∀ d ∈ value, isXmlChar d = true) (u w : Nat)
    (hc : texts c = a ++ x :: b) (hx : Run.IsStored x) :
    (putText value ⟨a.length, a.length, u, w⟩ c).fault = none ∧
      texts (putText value ⟨a.length, a.length, u, w⟩ c).value =
        a ++ (x.take u ++ (Run.readBack value ++ x.drop w)) :: b := by
  have hat : textAt c a.length = x := by rw [textAt_eq, hc, getD_middle]
  have hfst : Run.IsStored (x.take u) := hx.of_sublist (List.take_sublist _ _)
  have hlst : Run.IsStored (x.drop w) := hx.of_sublist (List.drop_sublist _ _)
  have hall : value.all isXmlChar = true := List.all_eq_true.2 hv
  simp only [putText, head, tail, hat, if_true, hall]
  refine ⟨trivial, ?_⟩
  rw [texts_put, hc, set_middle, Run.readBack_append, Run.readBack_append, hfst.readBack,
    hlst.readBack, List.append_assoc]
  intro d hd
  rcases List.mem_append.1 hd with hd | hd
  · exact (List.mem_append.1 hd).elim (hfst.isXmlChar d) (hv d)
  · exact hlst.isXmlChar d hd

/-- Of an occurrence over several runs the first takes the text, the last keeps what follows. -/
theorem texts_putText_across (hv : ∀ d ∈ value, isXmlChar d = true) (u w : Nat) (m : List Text)
    (hc : texts c = a ++ x :: (m ++ y :: b)) (hx : Run.IsStored x) (hy : Run.IsStored y) :
    (putText value ⟨a.length, a.length + 1 + m.length, u, w⟩ c).fault = none ∧
      texts (putText value ⟨a.length, a.length + 1 + m.length, u, w⟩ c).value =
        a ++ (x.take u ++ Run.readBack value) :: (m.map (fun _ => []) ++ y.drop w :: b) := by
  have hlen : (a ++ x :: m).length = a.length + 1 + m.length := by simp; omega
  have hat : textAt c a.length = x := by rw [textAt_eq, hc, getD_middle]
  have hat' : textAt c (a.length + 1 + m.length) = y := by
    have hc' : texts c = (a ++ x :: m) ++ y :: b := by simpa using hc
    rw [textAt_eq, hc', ← hlen, getD_middle]
  have hfst : Run.IsStored (x.take u) := hx.of_sublist (List.take_sublist _ _)
  have hlst : Run.IsStored (y.drop w) := hy.of_sublist (List.drop_sublist _ _)
  have hlead : ∀ d ∈ x.take u ++ value, isXmlChar d = true := fun d hd =>
    (List.mem_append.1 hd).elim (hfst.isXmlChar d) (hv d)
  have hall : value.all isXmlChar = true := List.all_eq_true.2 hv
  have hne : a.length ≠ a.length + 1 + m.length := by omega
  simp only [putText, head, tail, hat, hat', if_neg hne, hall, if_true]
  refine ⟨trivial, ?_⟩
  have hfirst : texts (put a.length (x.take u ++ value) c) =
      a ++ (x.take u ++ Run.readBack value) :: (m ++ y :: b) := by
    rw [texts_put _ _ _ hlead, hc, set_middle, Run.readBack_append, hfst.readBack]
  have hclear := texts_clearBetween a m b _ y _ hfirst
  rw [texts_put _ _ _ hlst.isXmlChar, hclear, hlst.readBack]
  have hlen' : a.length + 1 + m.length =
      (a ++ (x.take u ++ Run.readBack value) :: m.map fun _ => ([] : Text)).length := by
    simp; omega
  have := set_middle (a ++ (x.take u ++ Run.readBack value) :: m.map fun _ => []) b y (y.drop w)
  rw [← hlen'] at this
  simpa using this

end

/-! The joined text falls into what is before the occurrence, the occurrence, and what is behind. -/

theorem flatten_within (v : Text) {a b : List Text} {x : Text} {u w n : Nat} (hw : u + n = w)
    (hx : w ≤ x.length) :
    (a ++ (x.take u ++ (v ++ x.drop w)) :: b).flatten =
      Text.cutOut n v (a.flatten.length + u) (a ++ x :: b).flatten := by
  have hmid : (x.drop u).take n ++ x.drop w = x.drop u := by
    rw [← hw, ← List.drop_drop, List.take_append_drop]
  have hs : (a.flatten ++ x.take u).length = a.flatten.length + u := by
    rw [List.length_append, List.length_take]; omega
  have hm : ((x.drop u).take n).length = n := by
    rw [List.length_take, List.length_drop]; omega
  have hcut := Text.cutOut_parts v (x.drop w ++ b.flatten) hs hm
  have hall : (a ++ x :: b).flatten =
      (a.flatten ++ x.take u) ++ ((x.drop u).take n ++ (x.drop w ++ b.flatten)) := by
    rw [List.flatten_append, List.flatten_cons, ← List.append_assoc ((x.drop u).take n), hmid,
      List.append_assoc, ← List.append_assoc (x.take u), List.take_append_drop]
  rw [hall, hcut]
  simp only [List.flatten_append, List.flatten_cons, List.append_assoc]

theorem flatten_across (v : Text) {a m b : List Text} {x y : Text} {u w n : Nat}
    (hu : u ≤ x.length) (hw : w ≤ y.length) (hn : u + n = x.length + m.flatten.length + w) :
    (a ++ (x.take u ++ v) :: (m.map (fun _ => []) ++ y.drop w :: b)).flatten =
      Text.cutOut n v (a.flatten.length + u) (a ++ x :: (m ++ y :: b)).flatten := by
  have hs : (a.flatten ++ x.take u).length = a.flatten.length + u := by
    rw [List.length_append, List.length_take]; omega
  have hm : (x.drop u ++ (m.flatten ++ y.take w)).length = n := by
    rw [List.length_append, List.length_append, List.length_drop, List.length_take]; omega
  have hcut := Text.cutOut_parts v (y.drop w ++ b.flatten) hs hm
  have hall : (a ++ x :: (m ++ y :: b)).flatten =
      (a.flatten ++ x.take u) ++
        ((x.drop u ++ (m.flatten ++ y.take w)) ++ (y.drop w ++ b.flatten)) := by
    simp only [List.flatten_append, List.flatten_cons, List.append_assoc]
    rw [← List.append_assoc (x.take u), List.take_append_drop,
      ← List.append_assoc (y.take w), List.take_append_drop]
  have hempty : (m.map fun _ => ([] : Text)).flatten = [] := by simp
  rw [hall, hcut]
  simp only [List.flatten_append, List.flatten_cons, List.append_assoc, hempty, List.nil_append]

/-- What one splice leaves behind. -/
structure Spliced (n : Nat) (value : Text) (l₀ : List Text) (p : Nat) (c : List Inline)
    (r : Attempt (List Inline)) : Prop where
  fault : r.fault = none
  stored : AllStored (texts r.value)
  agrees : Agrees p l₀ (texts r.value)
  flatten : (texts r.value).flatten = Text.cutOut n (Run.readBack value) p (texts c).flatten

/-- One splice is a cut in the joined text, and what is before it stays. -/
theorem putText_spec {rs : List Run} {c : List Inline} {n p : Nat} {value : Text}
    (hv : ∀ d ∈ value, isXmlChar d = true) (hn : 0 < n) (hp : p + n ≤ (text rs).length)
    (hs : AllStored (texts c)) (ha : Agrees (p + n) (rs.map Run.text) (texts c)) :
    Spliced n value (rs.map Run.text) p c (putText value (span (starts 0 rs) n p) c) := by
  obtain ⟨a, x, b, hfst, hhold, hstart, hle, hlt⟩ := holder_spec rs p (by omega)
  obtain ⟨a', y, b', hlst, hhold', hstart', hle', hlt'⟩ := holder_spec rs (p + n - 1) (by omega)
  obtain ⟨u, rfl⟩ : ∃ u, p = a.flatten.length + u := ⟨_, (Nat.add_sub_cancel' hle).symm⟩
  obtain ⟨w, hw⟩ : ∃ w, a.flatten.length + u + n = a'.flatten.length + w :=
    ⟨_, (Nat.add_sub_cancel' (by omega)).symm⟩
  have hspan : span (starts 0 rs) n (a.flatten.length + u) = ⟨a.length, a'.length, u, w⟩ := by
    simp only [span, hhold, hhold', hstart, hstart', Nat.add_sub_cancel_left]
    rw [hw, Nat.add_sub_cancel_left]
  obtain ⟨y', b₁, hc, htake, hlen⟩ := ha a' y b' hlst w (by omega) (by omega)
  have hback := Run.isStored_readBack hv
  have hall := hs
  rw [hc] at hall
  obtain ⟨hsa, hsy, hsb⟩ := hall.split
  have htail := hsy.of_sublist (List.drop_sublist w y')
  rw [hspan]
  rw [hfst] at hlst ⊢
  rcases append_cons_cases hlst with ⟨rfl, rfl, rfl⟩ | ⟨m, rfl, rfl⟩ | ⟨m, rfl, rfl⟩
  · -- both ends lie in one run
    obtain ⟨hfault, ht⟩ := texts_putText_within hv u w hc hsy
    have hu : (y'.take u).length = u := by rw [List.length_take]; omega
    refine ⟨hfault, ?_, ?_, ?_⟩
    · rw [ht]
      exact hsa.append
        (.cons ((hsy.of_sublist (List.take_sublist _ _)).append (hback.append htail)) hsb)
    · have htake' := congrArg (List.take u) htake
      rw [List.take_take, List.take_take, Nat.min_eq_left (by omega)] at htake'
      rw [ht]
      refine agrees_of_split (by omega) ?_ ?_
      · rw [List.take_left' hu, htake']
      · rw [List.length_append, hu]; omega
    · rw [ht, hc]
      exact flatten_within _ (by omega) hlen
  · -- the last run is a later one
    have hlenm : (a ++ x :: m).length = a.length + 1 + m.length := by
      rw [List.length_append, List.length_cons]; omega
    have hflat : (a ++ x :: m).flatten.length =
        a.flatten.length + (x.length + m.flatten.length) := by
      rw [List.flatten_append, List.flatten_cons, List.length_append, List.length_append]
    rw [hflat] at hw
    rw [List.append_assoc, List.cons_append] at hc
    obtain ⟨hsa, hsx, hsm⟩ := hsa.split
    obtain ⟨hfault, ht⟩ := texts_putText_across hv u w m hc hsx hsy
    have hu : (x.take u).length = u := by rw [List.length_take]; omega
    rw [hlenm]
    refine ⟨hfault, ?_, ?_, ?_⟩
    · rw [ht]
      exact hsa.append (.cons ((hsx.of_sublist (List.take_sublist _ _)).append hback)
        ((allStored_map_nil m).append (.cons htail hsb)))
    · rw [ht]
      refine agrees_of_split (by omega) (List.take_left' hu) ?_
      rw [List.length_append, hu]; omega
    · rw [ht, hc]
      exact flatten_across _ (by omega) hlen (by omega)
  · -- the last run cannot be an earlier one
    rw [List.flatten_append, List.flatten_cons, List.length_append, List.length_append] at hlt'
    omega

/-! ## All splices -/

section
variable {c : List Inline} {value : Text}

/-- The induction is on the places; those behind the first have been spliced before it. -/
theorem each_putText (hv : ∀ d ∈ value, isXmlChar d = true) (hs : AllStored (texts c)) {n : Nat}
    (hn : 0 < n) (ps : List Nat) (hpair : ps.Pairwise (· + n ≤ ·))
    (hb : ∀ p ∈ ps, p + n ≤ (text (c.filterMap Inline.run?)).length) :
    let r := Attempt.each (putText value)
      (ps.map (span (starts 0 (c.filterMap Inline.run?)) n)).reverse c
    r.fault = none ∧ AllStored (texts r.value) ∧
      (∀ q, (∀ p ∈ ps, q ≤ p) → Agrees q (texts c) (texts r.value)) ∧
      (texts r.value).flatten =
        ps.foldr (Text.cutOut n (Run.readBack value)) (texts c).flatten := by
  induction ps with
  | nil => exact ⟨rfl, hs, fun q _ => agrees_refl q _, rfl⟩
  | cons p ps ih =>
    obtain ⟨hgap, hpair⟩ := List.pairwise_cons.1 hpair
    obtain ⟨hf, hst, hag, hfl⟩ := ih hpair fun p hp => hb p (List.mem_cons_of_mem _ hp)
    have hone := putText_spec hv hn (hb p (List.mem_cons_self ..)) hst (hag _ hgap)
    intro r
    have hr : r = putText value (span (starts 0 (c.filterMap Inline.run?)) n p)
        (Attempt.each (putText value)
          (ps.map (span (starts 0 (c.filterMap Inline.run?)) n)).reverse c).value := by
      show Attempt.each _ _ _ = _
      rw [List.map_cons, List.reverse_cons, Attempt.each_concat, Attempt.andThen, hf]
    rw [← hr] at hone
    refine ⟨hone.fault, hone.stored, fun q hq => ?_, ?_⟩
    · exact hone.agrees.mono (hq p (List.mem_cons_self ..))
    · rw [hone.flatten, hfl, List.foldr_cons]

/-- All splices together replace every occurrence in the joined text. -/
theorem atEach_putText (hv : ∀ d ∈ value, isXmlChar d = true) (hs : AllStored (texts c))
    (a : Char) (n : Text) :
    (atEach (a :: n) (putText value) c).fault = none ∧
      AllStored (texts (atEach (a :: n) (putText value) c).value) ∧
      (texts (atEach (a :: n) (putText value) c).value).flatten =
        Text.replaceAll (a :: n) (Run.readBack value) (texts c).flatten := by
  have hn : 0 < (a :: n).length := Nat.succ_pos _
  have hb := Text.occurrences_bounds (a :: n) (text (c.filterMap Inline.run?)) 0 0
  obtain ⟨hf, hst, -, hfl⟩ := each_putText hv hs hn _
    (Text.occurrences_pairwise hn (text (c.filterMap Inline.run?)) 0 0)
    (fun p hp => by have := (hb p hp).2; omega)
  refine ⟨hf, hst, hfl.trans ?_⟩
  rw [flatten_texts]
  exact Text.foldr_cutOut a n _ _

theorem fault_putText (value : Text) (s : Span) (c : List Inline) :
    (putText value s c).fault = if value.all isXmlChar then none else some .notStorable := by
  unfold putText
  dsimp only
  split
  · rfl
  · split <;> rfl

theorem fault_each_putText (hv : ∀ d ∈ value, isXmlChar d = true) (l : List Span)
    (c : List Inline) : (Attempt.each (putText value) l c).fault = none := by
  induction l generalizing c with
  | nil => rfl
  | cons s l ih =>
    rw [Attempt.each_cons_of_none, ih]
    rw [fault_putText, if_pos (List.all_eq_true.2 hv)]

/-- A text that no document holds is put nowhere, and breaks the work off at an occurrence. -/
theorem atEach_putText_fault (hv : ¬ ∀ d ∈ value, isXmlChar d = true) (needle : Text)
    (ho : 0 < Text.hits needle (text (c.filterMap Inline.run?))) :
    (atEach needle (putText value) c).fault = some .notStorable := by
  have hput : ∀ s c, (putText value s c).fault = some .notStorable := by
    intro s c
    rw [fault_putText, if_neg fun hall => hv (List.all_eq_true.1 hall)]
  unfold atEach
  dsimp only
  obtain ⟨s, l, hl⟩ : ∃ s l, ((Text.occurrences needle 0 0 (text (c.filterMap Inline.run?))).map
      (span (starts 0 (c.filterMap Inline.run?)) needle.length)).reverse = s :: l := by
    refine List.exists_cons_of_length_pos ?_
    rwa [List.length_reverse, List.length_map]
  rw [hl, Attempt.each_cons_of_fault _ _ _ (hput s c), hput]

end

end Splice

end MailMerge
