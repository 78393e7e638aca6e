import Mathlib.Data.Nat.Find
import MailMerge.Storage.Script
/-!
# Scripts that share a world

The scripts of a pool take their steps in any order (`Interleaved.steps`), and between two steps the
clock may be set to any time (`Interleaved.moves`). A discipline says what holds of the world all the
time, what a script knows of it by what it holds, and which holdings get along. A script is safe when
each of its steps, taken in any world that the discipline allows, leaves everybody knowing what they know
(`Safe`). Then whole pools of safe scripts keep the discipline (`guarded_steps`, and `guarded_moves` where
the clock does not matter): it is enough to look at each script alone.

* `Interleaved.exists_all_done`: in an order in which everybody's turn always comes again, all scripts end.
-/
namespace MailMerge

namespace Interleaved

/-- One of the scripts takes its next step, or the clock is set. -/
inductive Move where
  | step (i : Nat)
  | clock (t : Time)
  deriving DecidableEq, Repr

variable {α : Type}

/-- The pool and the world after a move. -/
def move (pool : List (Script α)) (w : World) : Move → List (Script α) × World
  | .step i => stepAt pool w i
  | .clock t => (pool, { w with clock := t })

/-- The pool and the world after moves, one after the other. -/
def moves (pool : List (Script α)) (w : World) : List Move → List (Script α) × World
  | [] => (pool, w)
  | m :: r => moves (move pool w m).1 (move pool w m).2 r

section
variable {pool : List (Script α)} {w : World} {i : Nat}

theorem stepAt_none (hi : pool[i]? = none) : stepAt pool w i = (pool, w) := by
  unfold stepAt
  rw [hi]

theorem set_of_getElem? {s : Script α} (hi : pool[i]? = some s) : pool.set i s = pool := by
  obtain ⟨hlength, rfl⟩ := List.getElem?_eq_some_iff.1 hi
  exact List.set_getElem_self hlength

/-- A script that has ended takes no steps. -/
theorem stepAt_done {a : α} (hi : pool[i]? = some (.done a)) : stepAt pool w i = (pool, w) := by
  unfold stepAt
  rw [hi]
  dsimp only [Script.advance]
  rw [set_of_getElem? hi]

theorem stepAt_step {s : Step} {next : s.Reply → Script α} (hi : pool[i]? = some (.step s next)) :
    stepAt pool w i = (pool.set i (next (w.perform s).1), (w.perform s).2) := by
  unfold stepAt
  rw [hi]
  rfl

end

theorem steps_append (pool : List (Script α)) (w : World) (l l' : List Nat) :
    steps pool w (l ++ l') = steps (steps pool w l).1 (steps pool w l).2 l' := by
  induction l generalizing pool w with
  | nil => rfl
  | cons i l ih => exact ih _ _

theorem length_steps (pool : List (Script α)) (w : World) (l : List Nat) :
    (steps pool w l).1.length = pool.length := by
  induction l generalizing pool w with
  | nil => rfl
  | cons i l ih =>
    rw [steps, ih]
    unfold stepAt
    split
    · rfl
    · exact List.length_set ..

theorem getElem?_steps_of_not_mem {i : Nat} {l : List Nat} (hl : i ∉ l) (pool : List (Script α))
    (w : World) : (steps pool w l).1[i]? = pool[i]? := by
  induction l generalizing pool w with
  | nil => rfl
  | cons j l ih =>
    obtain ⟨hij, hl⟩ := not_or.1 fun h => hl (List.mem_cons.2 h)
    rw [steps, ih hl]
    unfold stepAt
    cases pool[j]? with
    | none => rfl
    | some s => exact List.getElem?_set_ne (Ne.symm hij)

/-- A script that has ended stays as it is. -/
theorem getElem?_steps_done {pool : List (Script α)} {i : Nat} {a : α}
    (hi : pool[i]? = some (.done a)) (w : World) (l : List Nat) :
    (steps pool w l).1[i]? = some (.done a) := by
  induction l generalizing pool w with
  | nil => exact hi
  | cons j l ih =>
    refine ih ?_ _
    by_cases hji : j = i
    · rw [hji, stepAt_done hi]
      exact hi
    · have hnot : i ∉ [j] := fun h => hji (List.mem_singleton.1 h).symm
      exact (getElem?_steps_of_not_mem hnot pool w).trans hi

/-- The first turns of an endless order. -/
def turnsOf (order : Nat → Nat) (m : Nat) : List Nat := (List.range m).map order

theorem turnsOf_add (order : Nat → Nat) (m n : Nat) :
    turnsOf order (m + n) = turnsOf order m ++ turnsOf (fun k => order (m + k)) n := by
  unfold turnsOf
  rw [List.range_add, List.map_append, List.map_map]
  rfl

/-- A script whose turn always comes again ends. -/
theorem exists_done {pool : List (Script α)} {i : Nat} {x : Script α} (hi : pool[i]? = some x)
    (w : World) (order : Nat → Nat) (hfair : ∀ m, ∃ n, m ≤ n ∧ order n = i) :
    ∃ m a, (steps pool w (turnsOf order m)).1[i]? = some (.done a) := by
  induction x generalizing pool w order with
  | done a => exact ⟨0, a, hi⟩
  | step s next ih =>
    -- the others take their turns until the script takes its step
    have hturn : ∃ n, order n = i := by
      obtain ⟨n, -, hn⟩ := hfair 0
      exact ⟨n, hn⟩
    classical
    obtain ⟨n, hn, hleast⟩ : ∃ n, order n = i ∧ i ∉ turnsOf order n := by
      refine ⟨Nat.find hturn, Nat.find_spec hturn, fun hmem => ?_⟩
      obtain ⟨k, hk, hki⟩ := List.mem_map.1 hmem
      exact Nat.find_min hturn (List.mem_range.1 hk) hki
    obtain ⟨⟨pool', w'⟩, hbefore⟩ : ∃ r, steps pool w (turnsOf order n) = r := ⟨_, rfl⟩
    have hthere : pool'[i]? = some (.step s next) := by
      rw [← hi, ← getElem?_steps_of_not_mem hleast pool w, hbefore]
    have hlength : i < pool'.length := (List.getElem?_eq_some_iff.1 hthere).1
    have hafter : steps pool w (turnsOf order (n + 1)) =
        (pool'.set i (next (w'.perform s).1), (w'.perform s).2) := by
      rw [turnsOf_add, steps_append, hbefore]
      show stepAt pool' w' (order n) = _
      rw [hn, stepAt_step hthere]
    obtain ⟨m, a, hm⟩ := ih (w'.perform s).1 (List.getElem?_set_self hlength) (w'.perform s).2
      (fun k => order (n + 1 + k)) fun m => by
        obtain ⟨k, hk, hki⟩ := hfair (n + 1 + m)
        exact ⟨k - (n + 1), by omega, by rw [← hki]; congr 1; omega⟩
    refine ⟨n + 1 + m, a, ?_⟩
    rw [turnsOf_add, steps_append, hafter]
    exact hm

/-- In an order in which the turn of every script always comes again all of them end. -/
theorem exists_all_done (pool : List (Script α)) (w : World) (order : Nat → Nat)
    (hfair : ∀ i, i < pool.length → ∀ m, ∃ n, m ≤ n ∧ order n = i) :
    ∃ m, ∀ i, i < pool.length → ∃ a, (steps pool w (turnsOf order m)).1[i]? = some (.done a) := by
  suffices hsome : ∀ k, ∃ m, ∀ i, i < k → i < pool.length →
      ∃ a, (steps pool w (turnsOf order m)).1[i]? = some (.done a) by
    obtain ⟨m, hm⟩ := hsome pool.length
    exact ⟨m, fun i hi => hm i hi hi⟩
  intro k
  induction k with
  | zero => exact ⟨0, fun i hi => absurd hi (Nat.not_lt_zero i)⟩
  | succ k ih =>
    obtain ⟨m, hm⟩ := ih
    by_cases hk : k < pool.length
    · obtain ⟨n, a, hn⟩ := exists_done (List.getElem?_eq_getElem hk) w order (hfair k hk)
      have hstays : ∀ i j : Nat, (∃ a, (steps pool w (turnsOf order i)).1[j]? = some (Script.done a)) →
          ∀ i', i ≤ i' → ∃ a, (steps pool w (turnsOf order i')).1[j]? = some (Script.done a) := by
        rintro i j ⟨a, ha⟩ i' hle
        obtain ⟨d, rfl⟩ := Nat.exists_eq_add_of_le hle
        rw [turnsOf_add, steps_append]
        exact ⟨a, getElem?_steps_done ha _ _⟩
      refine ⟨max m n, fun i hi hlength => ?_⟩
      obtain hi | rfl := Nat.lt_succ_iff_lt_or_eq.1 hi
      · exact hstays m i (hm i hi hlength) _ (Nat.le_max_left ..)
      · exact hstays n i ⟨a, hn⟩ _ (Nat.le_max_right ..)
    · refine ⟨m, fun i hi hlength => hm i ?_ hlength⟩
      omega

/-- The first part of a script of a pool can be run without the others. -/
theorem exists_steps_bind {α β : Type} {pool : List (Script α)} {i : Nat} {x : Script β} {f : β → Script α}
    (hs : pool[i]? = some (x >>= f)) (w : World) :
    ∃ l, steps pool w l = (pool.set i (f (Script.run x w).1), (Script.run x w).2) := by
  induction x generalizing pool w with
  | done a =>
    refine ⟨[], ?_⟩
    rw [steps, Script.run]
    exact congrArg (·, w) (set_of_getElem? (s := f a) hs).symm
  | step s next ih =>
    have hi : i < pool.length := (List.getElem?_eq_some_iff.1 hs).1
    have hstep : stepAt pool w i = (pool.set i (next (w.perform s).1 >>= f), (w.perform s).2) :=
      stepAt_step hs
    obtain ⟨l, hl⟩ := ih (w.perform s).1 (List.getElem?_set_self hi) (w.perform s).2
    refine ⟨i :: l, ?_⟩
    rw [steps, hstep, hl, List.set_set]
    rfl

/-- A script of a pool can be run to its end without the others. -/
theorem exists_moves_run {pool : List (Script α)} {i : Nat} {s : Script α} (hs : pool[i]? = some s)
    (w : World) :
    ∃ l, moves pool w l = (pool.set i (.done (Script.run s w).1), (Script.run s w).2) := by
  induction s generalizing pool w with
  | done a =>
    refine ⟨[], ?_⟩
    rw [moves, Script.run, set_of_getElem? hs]
  | step s next ih =>
    have hi : i < pool.length := (List.getElem?_eq_some_iff.1 hs).1
    have hstep : move pool w (.step i) =
        (pool.set i (next (w.perform s).1), (w.perform s).2) := stepAt_step hs
    have hnext : (pool.set i (next (w.perform s).1))[i]? = some (next (w.perform s).1) :=
      List.getElem?_set_self hi
    obtain ⟨l, hl⟩ := ih (w.perform s).1 hnext (w.perform s).2
    refine ⟨.step i :: l, ?_⟩
    rw [moves, hstep, hl, List.set_set]
    rfl

end Interleaved

/-- What scripts that share a world abide by: what holds of the world all the time, what a script knows
of it that holds something, and which holdings get along. -/
structure Discipline (H : Type) where
  inv : World → Prop
  knows : H → World → Prop
  apart : H → H → Prop
  apart_symm : ∀ {h g : H}, apart h g → apart g h

namespace Discipline

variable {H α β : Type} {D : Discipline H} {h h' : H} {w w' : World}

/-- Whether nothing that a discipline says depends on the time. -/
structure Timeless (D : Discipline H) : Prop where
  inv : ∀ {w : World} (t : Time), D.inv w → D.inv { w with clock := t }
  knows : ∀ {h : H} {w : World} (t : Time), D.knows h w → D.knows h { w with clock := t }

/-- Whether a script that holds `h` may take one world to another one and hold `h'` then: the others go
on knowing what they know, and their holdings get along with its own. -/
structure Allows (D : Discipline H) (h : H) (w : World) (h' : H) (w' : World) : Prop where
  inv : D.inv w'
  knows : D.knows h' w'
  others : ∀ g, D.apart h g → D.knows g w → D.knows g w' ∧ D.apart h' g

/-- Whether a script that holds `h` does only what is allowed, and ends as `Q` says. -/
def Safe (D : Discipline H) (Q : α → H → Prop) : Script α → H → Prop
  | .done a, h => Q a h
  | .step s next, h => ∀ w, D.inv w → D.knows h w →
      ∃ h', D.Allows h w h' (w.perform s).2 ∧ Safe D Q (next (w.perform s).1) h'

theorem allows_refl (hw : D.inv w) (hh : D.knows h w) : D.Allows h w h w :=
  ⟨hw, hh, fun _ hapart hg => ⟨hg, hapart⟩⟩

section
variable {Q : α → H → Prop} {Q' : β → H → Prop} {x : Script α} {f : α → Script β}

theorem safe_pure {a : α} (hq : Q a h) : D.Safe Q (pure a) h := hq

/-- A sequence is safe when its parts are. -/
theorem Safe.bind (hx : D.Safe Q x h) (hf : ∀ a h', Q a h' → D.Safe Q' (f a) h') :
    D.Safe Q' (x >>= f) h := by
  show D.Safe Q' (Script.bind x f) h
  induction x generalizing h with
  | done a => exact hf a h hx
  | step s next ih =>
    intro w hw hh
    obtain ⟨h', hallows, hnext⟩ := hx w hw hh
    exact ⟨h', hallows, ih _ hnext⟩

theorem Safe.mono {P : α → H → Prop} (hx : D.Safe P x h) (hq : ∀ a g, P a g → Q a g) :
    D.Safe Q x h := by
  induction x generalizing h with
  | done a => exact hq a h hx
  | step s next ih =>
    intro w hw hh
    obtain ⟨h', hallows, hnext⟩ := hx w hw hh
    exact ⟨h', hallows, ih _ hnext⟩

/-- A single step is safe when it is allowed wherever it is taken. -/
theorem safe_ask {s : Step} {Q : s.Reply → H → Prop}
    (hstep : ∀ w, D.inv w → D.knows h w →
      ∃ h', D.Allows h w h' (w.perform s).2 ∧ Q (w.perform s).1 h') : D.Safe Q (Script.ask s) h :=
  hstep

/-- A script may take its first step as one that holds something else which it can know then. -/
theorem safe_step {s : Step} {next : s.Reply → Script α}
    (hstep : ∀ w, D.inv w → D.knows h w → ∃ h', D.knows h' w ∧
      (∀ g, D.apart h g → D.apart h' g) ∧ D.Safe Q (.step s next) h') :
    D.Safe Q (.step s next) h := by
  intro w hw hh
  obtain ⟨h', hknows, hapart, hsafe⟩ := hstep w hw hh
  obtain ⟨h'', hallows, hnext⟩ := hsafe w hw hknows
  exact ⟨h'', ⟨hallows.inv, hallows.knows, fun g hg => hallows.others g (hapart g hg)⟩, hnext⟩

/-- A step that changes nothing is safe. -/
theorem safe_look {s : Step} {Q : s.Reply → H → Prop} (hlook : ∀ w : World, (w.perform s).2 = w)
    (hq : ∀ w, D.inv w → D.knows h w → Q (w.perform s).1 h) : D.Safe Q (Script.ask s) h :=
  safe_ask fun w hw hh => ⟨h, (hlook w).symm ▸ allows_refl hw hh, hq w hw hh⟩

end

/-- Whether the scripts of a pool are safe and end as is said of each, while they hold what gets along. -/
structure Guarded (D : Discipline H) (Q : Nat → α → H → Prop) (pool : List (Script α)) (w : World) :
    Prop where
  inv : D.inv w
  safe : ∃ holds : Nat → H, (∀ i, D.knows (holds i) w) ∧
    (∀ i j, i ≠ j → D.apart (holds i) (holds j)) ∧
    ∀ i s, pool[i]? = some s → D.Safe (Q i) s (holds i)

section
variable {Q : Nat → α → H → Prop} {pool : List (Script α)}

/-- A step of one of its scripts keeps a pool guarded. -/
theorem Guarded.stepAt (hg : D.Guarded Q pool w) (i : Nat) :
    D.Guarded Q (Interleaved.stepAt pool w i).1 (Interleaved.stepAt pool w i).2 := by
  obtain ⟨hinv, holds, hknows, hapart, hsafe⟩ := hg
  cases hi : pool[i]? with
  | none =>
    rw [Interleaved.stepAt_none hi]
    exact ⟨hinv, holds, hknows, hapart, hsafe⟩
  | some s =>
    cases s with
    | done a =>
      rw [Interleaved.stepAt_done hi]
      exact ⟨hinv, holds, hknows, hapart, hsafe⟩
    | step s next =>
      rw [Interleaved.stepAt_step hi]
      obtain ⟨h', hallows, hnext⟩ := hsafe i _ hi w hinv (hknows i)
      have hlength : i < pool.length := (List.getElem?_eq_some_iff.1 hi).1
      have hothers : ∀ j, j ≠ i → D.knows (holds j) (w.perform s).2 ∧ D.apart h' (holds j) :=
        fun j hj => hallows.others _ (hapart i j (Ne.symm hj)) (hknows j)
      -- the script holds something else, and the others what they held
      refine ⟨hallows.inv, fun j => if j = i then h' else holds j, fun j => ?_, fun j k hjk => ?_,
        fun j x hj => ?_⟩
      · dsimp only
        split
        · exact hallows.knows
        · rename_i hji
          exact (hothers j hji).1
      · dsimp only
        split
        · rename_i hji
          rw [if_neg fun hki => hjk (hji.trans hki.symm)]
          exact (hothers k fun hki => hjk (hji.trans hki.symm)).2
        · rename_i hji
          split
          · exact D.apart_symm (hothers j hji).2
          · exact hapart j k hjk
      · dsimp only at hj ⊢
        split
        · rename_i hji
          rw [hji, List.getElem?_set_self hlength] at hj
          rw [hji, ← Option.some.inj hj]
          exact hnext
        · rename_i hji
          rw [List.getElem?_set_ne (Ne.symm hji)] at hj
          exact hsafe j x hj

/-- In whatever order the scripts take their steps, a guarded pool stays guarded. -/
theorem guarded_steps (hg : D.Guarded Q pool w) (l : List Nat) :
    D.Guarded Q (Interleaved.steps pool w l).1 (Interleaved.steps pool w l).2 := by
  induction l generalizing pool w with
  | nil => exact hg
  | cons i l ih => exact ih (hg.stepAt i)

/-- Whatever moves are made, a guarded pool stays guarded. -/
theorem guarded_moves (htime : D.Timeless) (hg : D.Guarded Q pool w) (l : List Interleaved.Move) :
    D.Guarded Q (Interleaved.moves pool w l).1 (Interleaved.moves pool w l).2 := by
  induction l generalizing pool w with
  | nil => exact hg
  | cons m l ih =>
    refine ih ?_
    cases m with
    | step i => exact hg.stepAt i
    | clock t =>
      obtain ⟨hinv, holds, hknows, hapart, hsafe⟩ := hg
      exact ⟨htime.inv t hinv, holds, fun i => htime.knows t (hknows i), hapart, hsafe⟩

end

end Discipline

end MailMerge
