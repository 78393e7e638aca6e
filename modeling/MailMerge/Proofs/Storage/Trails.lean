import MailMerge.Proofs.Storage.Locate
/-!
# What is looked at on a way

The trail of a path is every place that is looked at when the path is followed, links included. What a
path means depends on nothing else.

* `read_congr`: a file is read as before when nothing has changed on the trail of its path.
* `get?_ne_none_of_mem_trail`: where a path means a file, something is at every place of its trail.
-/
namespace MailMerge.FileSystem

/-- The places that are looked at when names are followed from a directory. -/
def trailFrom (fs : FileSystem) (links : Nat) (at' : Place) : List Text → List Place
  | [] => []
  | n :: rest =>
    if maxName < Text.byteLength n then []
    else if n = ['.'] then trailFrom fs links at' rest
    else if n = ['.', '.'] then trailFrom fs links at'.dropLast rest
    else (at' ++ [n]) :: match fs.get? (at' ++ [n]) with
      | some (.directory _) => trailFrom fs links (at' ++ [n]) rest
      | some (.link target) =>
        match links with
        | 0 => []
        | links + 1 => trailFrom fs links (jumpFrom target at') ((steps target).2 ++ rest)
      | _ => []
termination_by names => (links, names.length)

/-- The places that are looked at when a path is followed to its end. -/
def trail (fs : FileSystem) (t : Text) : List Place :=
  trailFrom fs maxLinks (fs.origin t) (steps t).2

section
variable {fs fs' : FileSystem} {links : Nat} {p q : Place} {names : List Text} {t : Text}

theorem trailFrom_stay (rest : List Text) :
    trailFrom fs links p (['.'] :: rest) = trailFrom fs links p rest := by
  rw [trailFrom, if_neg (by decide), if_pos rfl]

theorem trailFrom_up (rest : List Text) :
    trailFrom fs links p (['.', '.'] :: rest) = trailFrom fs links p.dropLast rest := by
  rw [trailFrom, if_neg (by decide), if_neg (by decide), if_pos rfl]

theorem IsStep.trailFrom {n : Text} (h : IsStep n) (rest : List Text) :
    trailFrom fs links p (n :: rest) = (p ++ [n]) :: match fs.get? (p ++ [n]) with
      | some (.directory _) => trailFrom fs links (p ++ [n]) rest
      | some (.link target) =>
        match links with
        | 0 => []
        | links + 1 => FileSystem.trailFrom fs links (jumpFrom target p) ((steps target).2 ++ rest)
      | _ => [] := by
  rw [FileSystem.trailFrom, if_neg (Nat.not_lt.2 h.short), if_neg h.ne_here, if_neg h.ne_up]

/-- A way stays when nothing has changed on its trail. -/
theorem Leads.congr (h : Leads fs true links p names q)
    (hsame : ∀ r ∈ trailFrom fs links p names, fs'.get? r = fs.get? r) :
    Leads fs' true links p names q := by
  induction h with
  | done => exact .done
  | stay _ ih =>
    rw [trailFrom_stay] at hsame
    exact .stay (ih hsame)
  | up _ ih =>
    rw [trailFrom_up] at hsame
    exact .up (ih hsame)
  | missing hn hg =>
    rw [hn.trailFrom, List.forall_mem_cons] at hsame
    exact .missing hn (hsame.1.trans hg)
  | file hn hg =>
    rw [hn.trailFrom, List.forall_mem_cons] at hsame
    exact .file hn (hsame.1.trans hg)
  | enter hn hg _ ih =>
    rw [hn.trailFrom, List.forall_mem_cons, hg] at hsame
    exact .enter hn hsame.1 (ih hsame.2)
  | stop _ _ hf => cases hf
  | jump hn hg hf _ ih =>
    rw [hn.trailFrom, List.forall_mem_cons, hg] at hsame
    exact .jump hn hsame.1 hf (ih hsame.2)

/-- Something is at every place on the way to something. -/
theorem Leads.get?_ne_none (h : Leads fs true links p names q) (hq : fs.get? q ≠ none) :
    ∀ r ∈ trailFrom fs links p names, fs.get? r ≠ none := by
  induction h with
  | done => rw [FileSystem.trailFrom]; exact fun _ h => absurd h List.not_mem_nil
  | stay _ ih =>
    rw [trailFrom_stay]
    exact ih hq
  | up _ ih =>
    rw [trailFrom_up]
    exact ih hq
  | missing hn hg => exact absurd hg hq
  | file hn hg =>
    rw [hn.trailFrom, List.forall_mem_cons, hg]
    exact ⟨nofun, fun _ h => absurd h List.not_mem_nil⟩
  | enter hn hg _ ih =>
    rw [hn.trailFrom, List.forall_mem_cons, hg]
    exact ⟨nofun, ih hq⟩
  | stop _ _ hf => cases hf
  | jump hn hg hf _ ih =>
    rw [hn.trailFrom, List.forall_mem_cons, hg]
    exact ⟨nofun, ih hq⟩

/-- A way from a directory that does not end in one ends in its trail. -/
theorem Leads.mem_trailFrom (h : Leads fs true links p names q) (hp : fs.Chain p)
    (hq : ¬ fs.IsDirectory q) : q ∈ trailFrom fs links p names := by
  induction h with
  | done => exact absurd hp.isDirectory hq
  | stay _ ih =>
    rw [trailFrom_stay]
    exact ih hp hq
  | up _ ih =>
    rw [trailFrom_up]
    exact ih hp.dropLast hq
  | missing hn hg =>
    rw [hn.trailFrom]
    exact List.mem_cons_self ..
  | file hn hg =>
    rw [hn.trailFrom]
    exact List.mem_cons_self ..
  | enter hn hg _ ih =>
    rw [hn.trailFrom, hg]
    exact List.mem_cons_of_mem _ (ih (hp.concat ⟨_, hg⟩) hq)
  | stop _ _ hf => cases hf
  | jump hn hg hf _ ih =>
    rw [hn.trailFrom, hg]
    exact List.mem_cons_of_mem _ (ih (hp.jumpFrom _) hq)

/-! ## Files -/

/-- What can be read is a file at the place that its path means. -/
theorem read_eq_ok_iff {c : Content} :
    fs.read t = .ok c ↔ ∃ q m x, fs.locate true t = .ok q ∧ fs.get? q = some (.file c m x) := by
  unfold read find
  constructor
  · intro h
    cases hq : fs.locate true t with
    | error e =>
      rw [hq] at h
      cases h
    | ok q =>
      rw [hq] at h
      simp only [bind, Except.bind] at h
      cases hnode : fs.get? q with
      | none =>
        rw [hnode] at h
        cases h
      | some node =>
        rw [hnode] at h
        cases node <;> cases h
        exact ⟨q, _, _, rfl, hnode⟩
  · rintro ⟨q, m, x, hq, hfile⟩
    simp only [hq, hfile, bind, Except.bind]

/-- A file is read as before when nothing has changed on the trail of its path. -/
theorem read_congr (hs : fs.IsSound) (hcurrent : fs'.current = fs.current) {c : Content}
    (hsame : ∀ r ∈ fs.trail t, fs'.get? r = fs.get? r) (h : fs.read t = .ok c) :
    fs'.read t = .ok c := by
  obtain ⟨q, m, x, hq, hfile⟩ := read_eq_ok_iff.1 h
  obtain ⟨hz, hne, hlen, hleads⟩ := locate_eq_ok_iff.1 hq
  have horigin : fs'.origin t = fs.origin t := by
    unfold origin
    rw [hcurrent]
  have hdir : ¬ fs.IsDirectory q := by
    rintro ⟨t', ht'⟩
    rw [hfile] at ht'
    cases ht'
  refine read_eq_ok_iff.2 ⟨q, m, x, locate_eq_ok_iff.2 ⟨hz, hne, hlen, ?_⟩, ?_⟩
  · rw [horigin]
    exact hleads.congr hsame
  · rw [hsame q (hleads.mem_trailFrom (chain_origin hs t) hdir), hfile]

/-- Something is at every place of the trail of a file. -/
theorem get?_ne_none_of_mem_trail {c : Content} (h : fs.read t = .ok c) (hq : q ∈ fs.trail t) :
    fs.get? q ≠ none := by
  obtain ⟨r, m, x, hr, hfile⟩ := read_eq_ok_iff.1 h
  obtain ⟨-, -, -, hleads⟩ := locate_eq_ok_iff.1 hr
  exact hleads.get?_ne_none (by rw [hfile]; exact nofun) q hq

end

end MailMerge.FileSystem
