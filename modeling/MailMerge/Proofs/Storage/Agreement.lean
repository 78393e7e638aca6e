import MailMerge.Proofs.Storage.Operations
/-!
# File systems that agree

Two file systems agree but for some places when everything else in them is the same, the order of the
nodes included. What an operation answers, and how it edits the nodes, depends on the places that it
looks at alone, so it does the same in file systems that agree on these.

* `Agree.apply`: the same edit leaves file systems as alike as they were.
* `apply_filter`: an edit leaves alone what it does not change.
* `Agree.locate`: a path means the same place.
* `Agree.put_absent`, `Agree.write`, `Agree.remove`, `Agree.rename`, `Agree.removeTree`: operations edit
  in the same way.
-/
namespace MailMerge.FileSystem

/-- Whether two file systems are the same but for what stands at some places. -/
structure Agree (loose : Place → Prop) (fs fs' : FileSystem) : Prop where
  current : fs'.current = fs.current
  nodes : ∀ keep : Place → Bool, (∀ q, keep q = true → q ≠ [] ∧ ¬ loose q) →
    (fs'.nodes.filter fun e => keep e.1) = fs.nodes.filter fun e => keep e.1

/-- A change of the nodes of a file system. -/
inductive Edit where
  | nothing
  | put (q : Place) (n : Node)
  | drop (q : Place)
  | move (p q : Place) (n : Node) (hp : p ≠ []) (hq : q ≠ []) (h : p ≠ q)
  | prune (q : Place)

/-- The file system after a change of its nodes. -/
def Edit.apply (fs : FileSystem) : Edit → FileSystem
  | .nothing => fs
  | .put q n => fs.put q n
  | .drop q => fs.drop q
  | .move p q n _ _ _ => (fs.drop p).put q n
  | .prune q => fs.prune q

/-- Whether a place is one where a change of the nodes may change something. -/
def Edit.At : Edit → Place → Prop
  | .nothing, _ => False
  | .put q _, r => r = q
  | .drop q, r => r = q
  | .move p q _ _ _ _, r => r = p ∨ r = q
  | .prune q, r => q <+: r

section
variable {fs fs' : FileSystem} {loose loose' : Place → Prop} {q : Place}

theorem agree_refl (loose : Place → Prop) (fs : FileSystem) : Agree loose fs fs :=
  ⟨rfl, fun _ _ => rfl⟩

theorem Agree.get? (h : Agree loose fs fs') (hq : ¬ loose q) : fs'.get? q = fs.get? q := by
  unfold FileSystem.get?
  split
  · rfl
  · rename_i hne
    have hnodes := h.nodes (fun r => decide (r = q)) fun r hr => by
      rw [of_decide_eq_true hr]
      exact ⟨fun heq => hne (List.isEmpty_iff.2 heq), hq⟩
    have hget := congrArg (Table.get? · q) hnodes
    simpa only [Table.get?_filter _ fun r => decide (r = q), decide_true, if_true] using hget

theorem Agree.children (h : Agree loose fs fs') {p : Place} (hp : ∀ n, ¬ loose (p ++ [n])) :
    fs'.children p = fs.children p := by
  have hchild : ∀ r : Place, (decide (r.dropLast = p) && !r.isEmpty) = true →
      r ≠ [] ∧ ¬ loose r := by
    intro r hr
    simp only [Bool.and_eq_true, decide_eq_true_eq, Bool.not_eq_true', List.isEmpty_eq_false_iff]
      at hr
    obtain ⟨rfl, hne⟩ := hr
    have hlast := hp (r.getLast hne)
    rw [List.dropLast_concat_getLast hne] at hlast
    exact ⟨hne, hlast⟩
  have hall : ∀ l : Table Place Node,
      (l.filterMap fun e => if (decide (e.1.dropLast = p) && !e.1.isEmpty) = true
        then e.1.getLast? else none) =
      (l.filter fun e => decide (e.1.dropLast = p) && !e.1.isEmpty).filterMap
        fun e => e.1.getLast? := by
    intro l
    rw [List.filterMap_filter]
  show fs'.nodes.filterMap _ = fs.nodes.filterMap _
  rw [hall, hall, h.nodes _ hchild]

theorem Agree.origin (h : Agree loose fs fs') (t : Text) : fs'.origin t = fs.origin t := by
  unfold FileSystem.origin
  rw [h.current]

theorem Agree.mono (h : Agree loose fs fs') (hsub : ∀ q, loose q → loose' q) :
    Agree loose' fs fs' :=
  ⟨h.current, fun keep hkeep => h.nodes keep fun q hq =>
    ⟨(hkeep q hq).1, fun hl => (hkeep q hq).2 (hsub q hl)⟩⟩

theorem Agree.symm (h : Agree loose fs fs') : Agree loose fs' fs :=
  ⟨h.current.symm, fun keep hkeep => (h.nodes keep hkeep).symm⟩

theorem Agree.trans {fs'' : FileSystem} (h : Agree loose fs fs') (h' : Agree loose fs' fs'') :
    Agree loose fs fs'' :=
  ⟨h'.current.trans h.current, fun keep hkeep => (h'.nodes keep hkeep).trans (h.nodes keep hkeep)⟩

/-! ## Edits -/

theorem Edit.current_apply (e : Edit) (fs : FileSystem) : (e.apply fs).current = fs.current := by
  cases e <;> rfl

theorem Agree.put (h : Agree loose fs fs') (q : Place) (n : Node) :
    Agree loose (fs.put q n) (fs'.put q n) := by
  refine ⟨h.current, fun keep hkeep => ?_⟩
  unfold FileSystem.put
  rw [Table.filter_insert fs'.nodes, Table.filter_insert fs.nodes, h.nodes keep hkeep]

theorem Agree.drop (h : Agree loose fs fs') (q : Place) : Agree loose (fs.drop q) (fs'.drop q) := by
  refine ⟨h.current, fun keep hkeep => ?_⟩
  unfold FileSystem.drop
  rw [Table.filter_erase fs'.nodes, Table.filter_erase fs.nodes, h.nodes keep hkeep]

/-- The same edit leaves file systems as alike as they were. -/
theorem Agree.apply (h : Agree loose fs fs') (e : Edit) : Agree loose (e.apply fs) (e.apply fs') := by
  cases e with
  | nothing => exact h
  | put q n => exact h.put q n
  | drop q => exact h.drop q
  | move p q n => exact (h.drop p).put q n
  | prune q =>
    refine ⟨h.current, fun keep hkeep => ?_⟩
    show (fs'.nodes.filter _).filter _ = (fs.nodes.filter _).filter _
    rw [Table.filter_swap, h.nodes keep hkeep, Table.filter_swap]

theorem get?_prune_below {r : Place} (hr : r ≠ []) (hq : q <+: r) :
    (fs.prune q).get? r = none := by
  unfold prune
  rw [FileSystem.get?, if_neg (by simpa using hr), Table.get?_filter fs.nodes (!q.isPrefixOf ·),
    List.isPrefixOf_iff_prefix.2 hq]
  rfl

theorem put_filter {keep : Place → Bool} {n : Node}
    (hq : keep q = true → q ≠ [] ∧ fs.get? q = some n) :
    ((fs.put q n).nodes.filter fun e => keep e.1) = fs.nodes.filter fun e => keep e.1 := by
  unfold put
  rw [Table.filter_insert]
  split
  · rename_i hkeep
    obtain ⟨hne, hget⟩ := hq hkeep
    refine Table.insert_get? ?_
    rw [Table.get?_filter _ keep, if_pos hkeep]
    rwa [FileSystem.get?, if_neg (by simpa using hne)] at hget
  · rfl

theorem drop_filter {keep : Place → Bool} (hq : keep q = true → q ≠ [] ∧ fs.get? q = none) :
    ((fs.drop q).nodes.filter fun e => keep e.1) = fs.nodes.filter fun e => keep e.1 := by
  unfold drop
  rw [Table.filter_erase]
  refine Table.erase_of_get?_eq_none ?_
  rw [Table.get?_filter _ keep]
  split
  · rename_i hkeep
    obtain ⟨hne, hget⟩ := hq hkeep
    rwa [FileSystem.get?, if_neg (by simpa using hne)] at hget
  · rfl

/-- An edit leaves alone what it does not change. -/
theorem apply_filter {keep : Place → Bool} (e : Edit)
    (hkeep : ∀ q, keep q = true → q ≠ [] ∧ (e.At q → (e.apply fs).get? q = fs.get? q)) :
    ((e.apply fs).nodes.filter fun e => keep e.1) = fs.nodes.filter fun e => keep e.1 := by
  cases e with
  | nothing => rfl
  | put q n =>
    refine put_filter fun hq => ?_
    obtain ⟨hne, hsame⟩ := hkeep q hq
    exact ⟨hne, (hsame rfl).symm.trans (get?_put_self hne n)⟩
  | drop q =>
    refine drop_filter fun hq => ?_
    obtain ⟨hne, hsame⟩ := hkeep q hq
    exact ⟨hne, (hsame rfl).symm.trans (get?_drop_self hne)⟩
  | move p q n hp hq hpq =>
    have hput : (((fs.drop p).put q n).nodes.filter fun e => keep e.1) =
        (fs.drop p).nodes.filter fun e => keep e.1 := by
      refine put_filter fun hkept => ⟨hq, ?_⟩
      have hget : ((fs.drop p).put q n).get? q = fs.get? q := (hkeep q hkept).2 (Or.inr rfl)
      rw [get?_put_self hq] at hget
      rw [get?_drop_of_ne hp (Ne.symm hpq), hget]
    refine hput.trans (drop_filter fun hkept => ⟨hp, ?_⟩)
    have hget : ((fs.drop p).put q n).get? p = fs.get? p := (hkeep p hkept).2 (Or.inl rfl)
    rw [get?_put_of_ne hq hpq, get?_drop_self hp] at hget
    exact hget.symm
  | prune q =>
    refine (List.filter_filter ..).trans (List.filter_congr fun e he => ?_)
    cases hkept : keep e.1 with
    | false => rfl
    | true =>
      obtain ⟨hne, hsame⟩ := hkeep e.1 hkept
      rw [Bool.true_and, Bool.not_eq_true', ← Bool.not_eq_true, List.isPrefixOf_iff_prefix]
      intro hq
      -- something is there, but not after the edit
      have hgone : fs.get? e.1 = none := (hsame hq).symm.trans (get?_prune_below hne hq)
      rw [FileSystem.get?, if_neg (by simpa using hne), Table.get?_eq_none_iff] at hgone
      exact hgone (List.mem_map_of_mem he)

/-- An edit changes nothing but at its places. -/
theorem agree_apply (e : Edit) (fs : FileSystem) : Agree e.At fs (e.apply fs) :=
  ⟨e.current_apply fs, fun _ hkeep => apply_filter e fun q hq =>
    ⟨(hkeep q hq).1, fun hat => absurd hat (hkeep q hq).2⟩⟩

theorem Edit.get?_apply (e : Edit) (hq : ¬ e.At q) : (e.apply fs).get? q = fs.get? q :=
  (agree_apply e fs).get? hq

end

/-! ## What a path depends on -/

/-- The places that are looked at when names are followed from a directory. -/
def visitedFrom (fs : FileSystem) (follow : Bool) (links : Nat) (at' : Place) :
    List Text → List Place
  | [] => []
  | n :: rest =>
    if maxName < Text.byteLength n then []
    else if n = ['.'] then visitedFrom fs follow links at' rest
    else if n = ['.', '.'] then visitedFrom fs follow links at'.dropLast rest
    else (at' ++ [n]) :: match fs.get? (at' ++ [n]) with
      | some (.directory _) => visitedFrom fs follow links (at' ++ [n]) rest
      | some (.link target) =>
        if rest.isEmpty && !follow then []
        else match links with
          | 0 => []
          | links + 1 =>
            visitedFrom fs follow links (jumpFrom target at') ((steps target).2 ++ rest)
      | _ => []
termination_by names => (links, names.length)

/-- The places that are looked at when a path is followed. -/
def visited (fs : FileSystem) (follow : Bool) (t : Text) : List Place :=
  visitedFrom fs follow maxLinks (fs.origin t) (steps t).2

/-- Whether a place is looked at to find what a path means. -/
def On (fs : FileSystem) (follow : Bool) (t : Text) (q : Place) : Prop :=
  q ∈ fs.visited follow t ∨ fs.locate follow t = .ok q

section
variable {fs fs' : FileSystem} {loose : Place → Prop} {follow : Bool} {links : Nat} {p q : Place}
  {names : List Text} {t : Text}

theorem IsStep.visitedFrom {n : Text} (h : IsStep n) (rest : List Text) :
    visitedFrom fs follow links p (n :: rest) = (p ++ [n]) :: match fs.get? (p ++ [n]) with
      | some (.directory _) => FileSystem.visitedFrom fs follow links (p ++ [n]) rest
      | some (.link target) =>
        if rest.isEmpty && !follow then []
        else match links with
          | 0 => []
          | links + 1 => FileSystem.visitedFrom fs follow links (jumpFrom target p)
              ((steps target).2 ++ rest)
      | _ => [] := by
  rw [FileSystem.visitedFrom, if_neg (Nat.not_lt.2 h.short), if_neg h.ne_here, if_neg h.ne_up]

/-- Names lead to the same place when nothing has changed on the way. -/
theorem walk_congr :
    (∀ r ∈ visitedFrom fs follow links p names, fs'.get? r = fs.get? r) →
      fs'.walk follow links p names = fs.walk follow links p names := by
  induction links, p, names using walk.induct fs follow with
  | case1 links p => rw [walk, walk]; exact fun _ => rfl
  | case2 links p n rest hlong =>
    rw [walk, walk, if_pos hlong, if_pos hlong]
    exact fun _ => rfl
  | case3 links p rest hlong ih =>
    rw [visitedFrom, if_neg hlong, if_pos rfl, walk, walk, if_neg hlong, if_neg hlong, if_pos rfl,
      if_pos rfl]
    exact ih
  | case4 links p rest hlong hne ih =>
    rw [visitedFrom, if_neg hlong, if_neg hne, if_pos rfl, walk, walk, if_neg hlong, if_neg hlong,
      if_neg hne, if_neg hne, if_pos rfl, if_pos rfl]
    exact ih
  | case5 links p n rest hlong h1 h2 here hg hrest =>
    have hn : IsStep n := ⟨Nat.not_lt.1 hlong, h1, h2⟩
    rw [hn.visitedFrom, hn.walk, hn.walk, List.forall_mem_cons]
    rintro ⟨hsame, -⟩
    rw [hsame, hg]
  | case6 links p n rest hlong h1 h2 here hg hrest =>
    have hn : IsStep n := ⟨Nat.not_lt.1 hlong, h1, h2⟩
    rw [hn.visitedFrom, hn.walk, hn.walk, List.forall_mem_cons]
    rintro ⟨hsame, -⟩
    rw [hsame, hg]
  | case7 links p n rest hlong h1 h2 here t hg ih =>
    have hn : IsStep n := ⟨Nat.not_lt.1 hlong, h1, h2⟩
    rw [hn.visitedFrom, hn.walk, hn.walk, List.forall_mem_cons]
    rintro ⟨hsame, hrest⟩
    rw [hg] at hrest
    rw [hsame, hg]
    exact ih hrest
  | case8 links p n rest hlong h1 h2 here c t x hg hrest =>
    have hn : IsStep n := ⟨Nat.not_lt.1 hlong, h1, h2⟩
    rw [hn.visitedFrom, hn.walk, hn.walk, List.forall_mem_cons]
    rintro ⟨hsame, -⟩
    rw [hsame, hg]
  | case9 links p n rest hlong h1 h2 here c t x hg hrest =>
    have hn : IsStep n := ⟨Nat.not_lt.1 hlong, h1, h2⟩
    rw [hn.visitedFrom, hn.walk, hn.walk, List.forall_mem_cons]
    rintro ⟨hsame, -⟩
    rw [hsame, hg]
  | case10 links p n rest hlong h1 h2 here target hg hstop =>
    have hn : IsStep n := ⟨Nat.not_lt.1 hlong, h1, h2⟩
    rw [hn.visitedFrom, hn.walk, hn.walk, List.forall_mem_cons]
    rintro ⟨hsame, -⟩
    rw [hsame, hg]
    dsimp only
    rw [if_pos hstop, if_pos hstop]
  | case11 p n rest hlong h1 h2 here target hg hstop =>
    have hn : IsStep n := ⟨Nat.not_lt.1 hlong, h1, h2⟩
    rw [hn.visitedFrom, hn.walk, hn.walk, List.forall_mem_cons]
    rintro ⟨hsame, -⟩
    rw [hsame, hg]
  | case12 p n rest hlong h1 h2 here target hg hstop links fromRoot names hsteps ih =>
    have hn : IsStep n := ⟨Nat.not_lt.1 hlong, h1, h2⟩
    have hnames : (steps target).2 = names := by rw [hsteps]
    have hfrom : jumpFrom target p = if fromRoot = true then [] else p := by
      rw [jumpFrom, hsteps]
    rw [hn.visitedFrom, hn.walk, hn.walk, List.forall_mem_cons]
    rintro ⟨hsame, hrest⟩
    rw [hg] at hrest
    rw [hsame, hg]
    dsimp only at hrest ⊢
    rw [if_neg hstop] at hrest
    rw [if_neg hstop, if_neg hstop]
    rw [hnames, hfrom] at hrest ⊢
    exact ih hrest

/-- A path means the same place where the same stands on its way. -/
theorem locate_congr (hcurrent : fs'.current = fs.current)
    (ht : ∀ q ∈ fs.visited follow t, fs'.get? q = fs.get? q) :
    fs'.locate follow t = fs.locate follow t := by
  have hwalk : fs'.walk follow maxLinks (fs'.origin t) (steps t).2 =
      fs.walk follow maxLinks (fs.origin t) (steps t).2 := by
    unfold FileSystem.origin
    rw [hcurrent]
    exact walk_congr ht
  unfold FileSystem.locate
  split
  · rfl
  · split
    · rfl
    · split
      · rfl
      · exact hwalk

theorem find_congr (hcurrent : fs'.current = fs.current)
    (ht : ∀ q, fs.On follow t q → fs'.get? q = fs.get? q) :
    fs'.find follow t = fs.find follow t := by
  unfold FileSystem.find
  rw [locate_congr hcurrent fun q hq => ht q (Or.inl hq)]
  cases hq : fs.locate follow t with
  | error e => rfl
  | ok q =>
    simp only [bind, Except.bind]
    rw [ht q (Or.inr hq)]

/-- A path means the same place where nothing on its way is loose. -/
theorem Agree.locate (h : Agree loose fs fs') (ht : ∀ q ∈ fs.visited follow t, ¬ loose q) :
    fs'.locate follow t = fs.locate follow t :=
  locate_congr h.current fun q hq => h.get? (ht q hq)

theorem Agree.find (h : Agree loose fs fs') (ht : ∀ q, fs.On follow t q → ¬ loose q) :
    fs'.find follow t = fs.find follow t :=
  find_congr h.current fun q hq => h.get? (ht q hq)

end

/-! ## Operations -/

/-- Whether an operation does the same on two file systems: it fails for the same cause, or it makes
the same edit of places that are alike. -/
inductive Paired (loose : Place → Prop) (fs fs' : FileSystem) :
    Except Cause FileSystem → Except Cause FileSystem → Prop where
  | failed (e : Cause) : Paired loose fs fs' (.error e) (.error e)
  | edited (e : Edit) (h : ∀ q, e.At q → ¬ loose q) :
      Paired loose fs fs' (.ok (e.apply fs)) (.ok (e.apply fs'))

section
variable {fs fs' : FileSystem} {loose : Place → Prop} (h : Agree loose fs fs') {t : Text}
include h

/-- What is put where there is nothing. -/
theorem Agree.put_absent (node : Node) (ht : ∀ q, fs.On false t q → ¬ loose q) :
    Paired loose fs fs'
      (do
        let q ← fs.locate false t
        match fs.get? q with
        | some _ => .error .present
        | none => .ok (fs.put q node))
      (do
        let q ← fs'.locate false t
        match fs'.get? q with
        | some _ => .error .present
        | none => .ok (fs'.put q node)) := by
  rw [h.locate fun q hq => ht q (Or.inl hq)]
  cases hq : fs.locate false t with
  | error e => exact .failed e
  | ok q =>
    have hloose := ht q (Or.inr hq)
    simp only [bind, Except.bind]
    rw [h.get? hloose]
    cases fs.get? q with
    | some node => exact .failed _
    | none => exact .edited (.put q node) fun r hr => hr ▸ hloose

theorem Agree.write (now : Time) (c : Content) (ht : ∀ q, fs.On true t q → ¬ loose q) :
    Paired loose fs fs' (fs.write now t c) (fs'.write now t c) := by
  unfold FileSystem.write
  rw [h.locate fun q hq => ht q (Or.inl hq)]
  cases hq : fs.locate true t with
  | error e => exact .failed e
  | ok q =>
    have hloose := ht q (Or.inr hq)
    have hput : ∀ node, Paired loose fs fs' (.ok (fs.put q node)) (.ok (fs'.put q node)) :=
      fun node => .edited (.put q node) fun r hr => hr ▸ hloose
    simp only [bind, Except.bind]
    rw [h.get? hloose]
    cases fs.get? q with
    | none => exact hput _
    | some node =>
      cases node with
      | directory m => exact .failed _
      | file c' m x => exact hput _
      | link target => exact hput _

theorem Agree.fill (now : Time) (c : Content) (ht : ∀ q, fs.On false t q → ¬ loose q) :
    ∃ e : Edit, (∀ q, e.At q → ¬ loose q) ∧ fs.fill now t c = e.apply fs ∧
      fs'.fill now t c = e.apply fs' := by
  have hnothing : ∃ e : Edit, (∀ q, e.At q → ¬ loose q) ∧ fs = e.apply fs ∧ fs' = e.apply fs' :=
    ⟨.nothing, fun _ h => h.elim, rfl, rfl⟩
  unfold FileSystem.fill
  rw [h.find ht]
  cases hfind : fs.find false t with
  | error e => exact hnothing
  | ok found =>
    obtain ⟨q, node⟩ := found
    have hloose := ht q (Or.inr (find_eq_ok_iff.1 hfind).1)
    cases node with
    | directory m => exact hnothing
    | file c' m x => exact ⟨.put q (.file c now x), fun r hr => hr ▸ hloose, rfl, rfl⟩
    | link target => exact hnothing

theorem Agree.remove (ht : ∀ q, fs.On false t q → ¬ loose q) :
    Paired loose fs fs' (fs.remove t) (fs'.remove t) := by
  unfold FileSystem.remove
  rw [h.find ht]
  cases hfind : fs.find false t with
  | error e => exact .failed e
  | ok found =>
    obtain ⟨q, node⟩ := found
    have hloose := ht q (Or.inr (find_eq_ok_iff.1 hfind).1)
    cases node with
    | directory m => exact .failed _
    | file c m x => exact .edited (.drop q) fun r hr => hr ▸ hloose
    | link target => exact .edited (.drop q) fun r hr => hr ▸ hloose

theorem Agree.removeTree
    (ht : ∀ q, fs.On false t q ∨ (∃ r, fs.locate false t = .ok r ∧ r <+: q) → ¬ loose q) :
    Paired loose fs fs' (fs.removeTree t) (fs'.removeTree t) := by
  unfold FileSystem.removeTree
  rw [h.find fun q hq => ht q (Or.inl hq)]
  cases hfind : fs.find false t with
  | error e => exact .failed e
  | ok found =>
    obtain ⟨q, node⟩ := found
    cases node with
    | directory m =>
      exact .edited (.prune q) fun r hr => ht r (Or.inr ⟨q, (find_eq_ok_iff.1 hfind).1, hr⟩)
    | file c m x => exact .failed _
    | link target => exact .failed _

theorem Agree.rename {a b : Text} (ha : ∀ q, fs.On false a q → ¬ loose q)
    (hb : ∀ q, fs.On false b q → ¬ loose q) :
    Paired loose fs fs' (fs.rename a b) (fs'.rename a b) := by
  unfold FileSystem.rename
  rw [h.find ha, h.locate fun q hq => hb q (Or.inl hq)]
  cases hfind : fs.find false a with
  | error e => exact .failed e
  | ok found =>
    obtain ⟨p, node⟩ := found
    obtain ⟨hp, hnode⟩ := find_eq_ok_iff.1 hfind
    simp only [bind, Except.bind]
    cases hq : fs.locate false b with
    | error e => exact .failed e
    | ok q =>
      have hloose := hb q (Or.inr hq)
      have hmove : (∀ m, node ≠ .directory m) → (∀ m, fs.get? q ≠ some (.directory m)) →
          Paired loose fs fs' (if p = q then .ok fs else .ok ((fs.drop p).put q node))
            (if p = q then .ok fs' else .ok ((fs'.drop p).put q node)) := by
        intro hfile hfree
        have hpne : p ≠ [] := fun hroot => by
          rw [hroot, get?_nil] at hnode
          exact hfile _ (Option.some.inj hnode).symm
        have hqne : q ≠ [] := fun hroot => hfree 0 (by rw [hroot, get?_nil])
        split
        · exact .edited .nothing fun _ h => h.elim
        · refine .edited (.move p q node hpne hqne ‹_›) fun r hr => ?_
          rcases hr with rfl | rfl
          · exact ha _ (Or.inr hp)
          · exact hloose
      dsimp only
      rw [h.get? hloose]
      cases node with
      | directory m => exact .failed _
      | _ =>
        cases hthere : fs.get? q with
        | none => exact hmove (fun _ => nofun) fun m => by rw [hthere]; exact nofun
        | some there =>
          cases there with
          | directory m => exact .failed _
          | _ => exact hmove (fun _ => nofun) fun m => by rw [hthere]; exact nofun

end

end MailMerge.FileSystem
