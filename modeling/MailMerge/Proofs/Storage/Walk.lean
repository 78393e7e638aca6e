import MailMerge.Storage.FileSystem
/-!
# Ways through a file system

`Leads` is the relation of a successful walk, with one rule for each thing that may stand under the
next name (`walk_eq_ok_iff`).

* `Leads.open_or`: a way that begins in a directory ends in one, or at a last name that is none.
* `Leads.append`, `Leads.split`: a way to a name in a directory is the way to the directory and one
  more step.
* `Leads.mono`: a way stays as long as no directory or link on it goes.
-/
namespace MailMerge.FileSystem

/-- Whether a name is a step down: not too long, and neither `.` nor `..`. -/
structure IsStep (n : Text) : Prop where
  short : Text.byteLength n ≤ maxName
  ne_here : n ≠ ['.']
  ne_up : n ≠ ['.', '.']

/-- Where the names of a target are followed from, and the names. -/
def jumpFrom (target : Text) (p : Place) : Place := if (steps target).1 then [] else p

/-- The way of names from a directory, `links` links being allowed, ends at a place. -/
inductive Leads (fs : FileSystem) (follow : Bool) : Nat → Place → List Text → Place → Prop where
  | done {links p} : Leads fs follow links p [] p
  | stay {links p rest q} (h : Leads fs follow links p rest q) :
      Leads fs follow links p (['.'] :: rest) q
  | up {links p rest q} (h : Leads fs follow links p.dropLast rest q) :
      Leads fs follow links p (['.', '.'] :: rest) q
  | missing {links p n} (hn : IsStep n) (hg : fs.get? (p ++ [n]) = none) :
      Leads fs follow links p [n] (p ++ [n])
  | file {links p n c t x} (hn : IsStep n) (hg : fs.get? (p ++ [n]) = some (.file c t x)) :
      Leads fs follow links p [n] (p ++ [n])
  | enter {links p n t rest q} (hn : IsStep n) (hg : fs.get? (p ++ [n]) = some (.directory t))
      (h : Leads fs follow links (p ++ [n]) rest q) : Leads fs follow links p (n :: rest) q
  | stop {links p n target} (hn : IsStep n) (hg : fs.get? (p ++ [n]) = some (.link target))
      (hf : follow = false) : Leads fs follow links p [n] (p ++ [n])
  | jump {links p n target rest q} (hn : IsStep n)
      (hg : fs.get? (p ++ [n]) = some (.link target)) (hf : rest ≠ [] ∨ follow = true)
      (h : Leads fs follow links (jumpFrom target p) ((steps target).2 ++ rest) q) :
      Leads fs follow (links + 1) p (n :: rest) q

section
variable {fs : FileSystem} {follow : Bool}

theorem IsStep.walk {n : Text} (h : IsStep n) (links : Nat) (p : Place) (rest : List Text) :
    walk fs follow links p (n :: rest) =
      match fs.get? (p ++ [n]) with
      | none => if rest.isEmpty then .ok (p ++ [n]) else .error .absent
      | some (.directory _) => walk fs follow links (p ++ [n]) rest
      | some (.file ..) => if rest.isEmpty then .ok (p ++ [n]) else .error .notDirectory
      | some (.link target) =>
        if rest.isEmpty && !follow then .ok (p ++ [n])
        else match links with
          | 0 => .error .tooManyLinks
          | links + 1 => walk fs follow links (jumpFrom target p) ((steps target).2 ++ rest) := by
  rw [FileSystem.walk, if_neg (Nat.not_lt.2 h.short), if_neg h.ne_here, if_neg h.ne_up]
  rfl

theorem leads_of_walk {links : Nat} {p q : Place} {names : List Text} :
    walk fs follow links p names = .ok q → Leads fs follow links p names q := by
  induction links, p, names using walk.induct fs follow with
  | case1 links p =>
    intro h
    rw [walk] at h
    cases h
    exact .done
  | case2 links p n rest hlong =>
    intro h
    rw [walk, if_pos hlong] at h
    cases h
  | case3 links p rest hlong ih =>
    intro h
    rw [walk, if_neg hlong, if_pos rfl] at h
    exact .stay (ih h)
  | case4 links p rest hlong hne ih =>
    intro h
    rw [walk, if_neg hlong, if_neg hne, if_pos rfl] at h
    exact .up (ih h)
  | case5 links p n rest hlong h1 h2 here hg hrest =>
    intro h
    have hn : IsStep n := ⟨Nat.not_lt.1 hlong, h1, h2⟩
    rw [hn.walk, hg] at h
    simp only [hrest, if_true] at h
    cases h
    rw [List.isEmpty_iff.1 hrest]
    exact .missing hn hg
  | case6 links p n rest hlong h1 h2 here hg hrest =>
    intro h
    have hn : IsStep n := ⟨Nat.not_lt.1 hlong, h1, h2⟩
    rw [hn.walk, hg] at h
    simp only [hrest] at h
    cases h
  | case7 links p n rest hlong h1 h2 here t hg ih =>
    intro h
    have hn : IsStep n := ⟨Nat.not_lt.1 hlong, h1, h2⟩
    rw [hn.walk, hg] at h
    exact .enter hn hg (ih h)
  | case8 links p n rest hlong h1 h2 here c t x hg hrest =>
    intro h
    have hn : IsStep n := ⟨Nat.not_lt.1 hlong, h1, h2⟩
    rw [hn.walk, hg] at h
    simp only [hrest, if_true] at h
    cases h
    rw [List.isEmpty_iff.1 hrest]
    exact .file hn hg
  | case9 links p n rest hlong h1 h2 here c t x hg hrest =>
    intro h
    have hn : IsStep n := ⟨Nat.not_lt.1 hlong, h1, h2⟩
    rw [hn.walk, hg] at h
    simp only [hrest] at h
    cases h
  | case10 links p n rest hlong h1 h2 here target hg hstop =>
    intro h
    have hn : IsStep n := ⟨Nat.not_lt.1 hlong, h1, h2⟩
    rw [hn.walk, hg] at h
    simp only [hstop, if_true] at h
    cases h
    simp only [Bool.and_eq_true, Bool.not_eq_true', List.isEmpty_iff] at hstop
    rw [hstop.1]
    exact .stop hn hg hstop.2
  | case11 p n rest hlong h1 h2 here target hg hstop =>
    intro h
    have hn : IsStep n := ⟨Nat.not_lt.1 hlong, h1, h2⟩
    rw [hn.walk, hg] at h
    simp only [hstop] at h
    cases h
  | case12 p n rest hlong h1 h2 here target hg hstop links fromRoot names hsteps ih =>
    intro h
    have hn : IsStep n := ⟨Nat.not_lt.1 hlong, h1, h2⟩
    rw [hn.walk, hg] at h
    simp only [hstop, Bool.false_eq_true, if_false] at h
    have hf : rest ≠ [] ∨ follow = true := by
      simp only [Bool.and_eq_true, Bool.not_eq_true', List.isEmpty_iff, not_and] at hstop
      by_cases hr : rest = []
      · exact Or.inr (by simpa using hstop hr)
      · exact Or.inl hr
    refine .jump hn hg hf ?_
    have hnames : (steps target).2 = names := by rw [hsteps]
    have hfrom : jumpFrom target p = if fromRoot = true then [] else p := by
      rw [jumpFrom, hsteps]
    rw [hnames, hfrom] at h ⊢
    exact ih h

theorem Leads.walk {links : Nat} {p q : Place} {names : List Text}
    (h : Leads fs follow links p names q) : FileSystem.walk fs follow links p names = .ok q := by
  induction h with
  | done => rw [FileSystem.walk]
  | stay _ ih =>
    rw [FileSystem.walk, if_neg (by decide), if_pos rfl]
    exact ih
  | up _ ih =>
    rw [FileSystem.walk, if_neg (by decide), if_neg (by decide), if_pos rfl]
    exact ih
  | missing hn hg =>
    rw [hn.walk, hg]
    rfl
  | file hn hg =>
    rw [hn.walk, hg]
    rfl
  | enter hn hg _ ih =>
    rw [hn.walk, hg]
    exact ih
  | stop hn hg hf =>
    rw [hn.walk, hg, hf]
    rfl
  | @jump links p n target rest q hn hg hf _ ih =>
    have hstop : (rest.isEmpty && !follow) = false := by
      rcases hf with hr | hf
      · rw [List.isEmpty_eq_false_iff.2 hr, Bool.false_and]
      · rw [hf, Bool.not_true, Bool.and_false]
    rw [hn.walk, hg]
    simp only [hstop, Bool.false_eq_true, if_false]
    exact ih

theorem walk_eq_ok_iff {links : Nat} {p q : Place} {names : List Text} :
    walk fs follow links p names = .ok q ↔ Leads fs follow links p names q :=
  ⟨leads_of_walk, Leads.walk⟩

end

/-! ## Directories on the way -/

/-- Whether a directory stands at a place. -/
def IsDirectory (fs : FileSystem) (p : Place) : Prop := ∃ t, fs.get? p = some (.directory t)

/-- Whether directories stand all the way down to a place. -/
def Chain (fs : FileSystem) (p : Place) : Prop := ∀ q, q <+: p → fs.IsDirectory q

section
variable {fs : FileSystem} {follow : Bool} {links : Nat} {p q : Place} {names rest : List Text}

theorem chain_nil : fs.Chain [] := by
  intro q hq
  rw [List.prefix_nil.1 hq]
  exact ⟨0, rfl⟩

theorem Chain.isDirectory (h : fs.Chain p) : fs.IsDirectory p := h p (List.prefix_refl p)

theorem Chain.dropLast (h : fs.Chain p) : fs.Chain p.dropLast :=
  fun q hq => h q (hq.trans (List.dropLast_prefix p))

theorem Chain.concat {n : Text} (h : fs.Chain p) (hd : fs.IsDirectory (p ++ [n])) :
    fs.Chain (p ++ [n]) := by
  intro q hq
  rcases List.prefix_concat_iff.1 hq with rfl | hq
  · exact hd
  · exact h q hq

theorem Chain.jumpFrom (h : fs.Chain p) (target : Text) : fs.Chain (jumpFrom target p) := by
  unfold FileSystem.jumpFrom
  split
  · exact chain_nil
  · exact h

/-- A way from a directory ends in one, or at a last name under which there is none. -/
theorem Leads.open_or (h : Leads fs follow links p names q) (hp : fs.Chain p) :
    fs.Chain q ∨ ∃ r n, q = r ++ [n] ∧ fs.Chain r ∧ IsStep n ∧ ¬ fs.IsDirectory q := by
  induction h with
  | done => exact Or.inl hp
  | stay _ ih => exact ih hp
  | up _ ih => exact ih hp.dropLast
  | missing hn hg =>
    refine Or.inr ⟨_, _, rfl, hp, hn, ?_⟩
    rintro ⟨t, ht⟩
    rw [hg] at ht
    cases ht
  | file hn hg =>
    refine Or.inr ⟨_, _, rfl, hp, hn, ?_⟩
    rintro ⟨t, ht⟩
    rw [hg] at ht
    cases ht
  | enter hn hg _ ih => exact ih (hp.concat ⟨_, hg⟩)
  | stop hn hg hf =>
    refine Or.inr ⟨_, _, rfl, hp, hn, ?_⟩
    rintro ⟨t, ht⟩
    rw [hg] at ht
    cases ht
  | jump _ _ _ _ ih => exact ih (hp.jumpFrom _)

/-- The way to a directory can be continued. -/
theorem Leads.append (h : Leads fs true links p names q) (hq : fs.IsDirectory q)
    (hrest : rest ≠ []) {r : Place} (hr : ∀ links, Leads fs follow links q rest r) :
    Leads fs follow links p (names ++ rest) r := by
  induction h with
  | done => exact hr _
  | stay _ ih => exact .stay (ih hq hr)
  | up _ ih => exact .up (ih hq hr)
  | missing hn hg =>
    obtain ⟨t, ht⟩ := hq
    rw [hg] at ht
    cases ht
  | file hn hg =>
    obtain ⟨t, ht⟩ := hq
    rw [hg] at ht
    cases ht
  | enter hn hg _ ih => exact .enter hn hg (ih hq hr)
  | stop hn hg hf => cases hf
  | jump hn hg _ _ ih =>
    have ih := ih hq hr
    rw [List.append_assoc] at ih
    exact .jump hn hg (Or.inl (by simp [hrest])) ih

/-- A way with a last name is the way to a directory and one more step. -/
theorem Leads.split {n : Text} {r : Place} {all : List Text} (h : Leads fs follow links p all r)
    (hall : all = names ++ [n]) (hp : fs.Chain p) :
    ∃ links' q, Leads fs true links p names q ∧ fs.Chain q ∧ Leads fs follow links' q [n] r := by
  induction h generalizing names with
  | done => simp at hall
  | @stay links p rest q h ih =>
    cases names with
    | nil =>
      obtain ⟨rfl, rfl⟩ := List.cons.inj hall
      exact ⟨_, _, .done, hp, .stay h⟩
    | cons m names =>
      obtain ⟨rfl, rfl⟩ := List.cons.inj hall
      obtain ⟨l, q, h1, hq, h2⟩ := ih rfl hp
      exact ⟨l, q, .stay h1, hq, h2⟩
  | @up links p rest q h ih =>
    cases names with
    | nil =>
      obtain ⟨rfl, rfl⟩ := List.cons.inj hall
      exact ⟨_, _, .done, hp, .up h⟩
    | cons m names =>
      obtain ⟨rfl, rfl⟩ := List.cons.inj hall
      obtain ⟨l, q, h1, hq, h2⟩ := ih rfl hp.dropLast
      exact ⟨l, q, .up h1, hq, h2⟩
  | missing hn hg =>
    cases names with
    | nil =>
      obtain ⟨rfl, -⟩ := List.cons.inj hall
      exact ⟨0, _, .done, hp, .missing hn hg⟩
    | cons m names => simp at hall
  | file hn hg =>
    cases names with
    | nil =>
      obtain ⟨rfl, -⟩ := List.cons.inj hall
      exact ⟨0, _, .done, hp, .file hn hg⟩
    | cons m names => simp at hall
  | @enter links p m t rest q hn hg h ih =>
    cases names with
    | nil =>
      obtain ⟨rfl, rfl⟩ := List.cons.inj hall
      exact ⟨_, _, .done, hp, .enter hn hg h⟩
    | cons m' names =>
      obtain ⟨rfl, rfl⟩ := List.cons.inj hall
      obtain ⟨l, q, h1, hq, h2⟩ := ih rfl (hp.concat ⟨_, hg⟩)
      exact ⟨l, q, .enter hn hg h1, hq, h2⟩
  | stop hn hg hf =>
    cases names with
    | nil =>
      obtain ⟨rfl, -⟩ := List.cons.inj hall
      exact ⟨0, _, .done, hp, .stop hn hg hf⟩
    | cons m names => simp at hall
  | @jump links p m target rest q hn hg hf h ih =>
    cases names with
    | nil =>
      obtain ⟨rfl, rfl⟩ := List.cons.inj hall
      exact ⟨_, _, .done, hp, .jump hn hg hf h⟩
    | cons m' names =>
      obtain ⟨rfl, rfl⟩ := List.cons.inj hall
      obtain ⟨l, q, h1, hq, h2⟩ := ih (List.append_assoc _ _ _).symm (hp.jumpFrom _)
      exact ⟨l, q, .jump hn hg (Or.inr rfl) h1, hq, h2⟩

/-- A way to a directory stays as long as no directory or link on it goes. -/
theorem Leads.mono {fs' : FileSystem} (h : Leads fs true links p names q) (hq : fs.IsDirectory q)
    (hdir : ∀ r, fs.IsDirectory r → fs'.IsDirectory r)
    (hlink : ∀ r target, fs.get? r = some (.link target) → fs'.get? r = some (.link target)) :
    Leads fs' true links p names q := by
  induction h with
  | done => exact .done
  | stay _ ih => exact .stay (ih hq)
  | up _ ih => exact .up (ih hq)
  | missing hn hg =>
    obtain ⟨t, ht⟩ := hq
    rw [hg] at ht
    cases ht
  | file hn hg =>
    obtain ⟨t, ht⟩ := hq
    rw [hg] at ht
    cases ht
  | enter hn hg _ ih =>
    obtain ⟨t', ht'⟩ := hdir _ ⟨_, hg⟩
    exact .enter hn ht' (ih hq)
  | stop hn hg hf => cases hf
  | jump hn hg hf _ ih => exact .jump hn (hlink _ _ hg) hf (ih hq)

/-- Directories on the way down are entered one by one. -/
theorem leads_of_chain {r : Place} (hr : ∀ n ∈ r, IsStep n) (hc : fs.Chain (p ++ r))
    (h : Leads fs follow links (p ++ r) rest q) : Leads fs follow links p (r ++ rest) q := by
  induction r generalizing p with
  | nil => simpa using h
  | cons n r ih =>
    have happ : p ++ n :: r = (p ++ [n]) ++ r := by simp
    rw [happ] at hc h
    obtain ⟨t, ht⟩ := hc (p ++ [n]) (List.prefix_append _ _)
    exact .enter (hr n (List.mem_cons_self ..)) ht
      (ih (fun m hm => hr m (List.mem_cons_of_mem _ hm)) hc h)

end

end MailMerge.FileSystem
