import MailMerge.Generation.Generator
import MailMerge.Proofs.Storage.Running
/-!
# Running tasks and works

Tasks are scripts that may end early, works are tasks that may ask the cache. These are the rules by
which their runs are taken apart: one for each way of putting them together.
-/
namespace MailMerge

namespace Task

variable {α β : Type}

/-- The result of a task and the world after it. -/
def perform (x : Task α) (w : World) : Except Abort α × World := Script.run x.run w

theorem perform_pure (a : α) (w : World) : perform (pure a : Task α) w = (.ok a, w) := rfl

theorem perform_throw (e : Abort) (w : World) : perform (throw e : Task α) w = (.error e, w) := rfl

theorem perform_bind (x : Task α) (f : α → Task β) (w : World) :
    perform (x >>= f) w = match perform x w with
      | (.ok a, w') => perform (f a) w'
      | (.error e, w') => (.error e, w') := by
  show Script.run (x.run >>= _) w = _
  rw [Script.run_bind, perform]
  obtain ⟨r, w'⟩ := Script.run x.run w
  cases r <;> rfl

theorem perform_script (x : Script α) (w : World) :
    perform (liftM x : Task α) w = (.ok (Script.run x w).1, (Script.run x w).2) := by
  show Script.run (x >>= (pure ∘ Except.ok)) w = _
  rw [Script.run_bind]
  rfl

theorem perform_ofExcept (r : Except Abort α) (w : World) :
    perform (ofExcept r) w = (r, w) := rfl

theorem perform_step (p : Text) (x : Script (Except Cause α)) (w : World) :
    perform (Task.step p x) w = match Script.run x w with
      | (.ok a, w') => (.ok a, w')
      | (.error c, w') => (.error (.fault (.storage ⟨c, p, none⟩)), w') := by
  show Script.run (x >>= _) w = _
  rw [Script.run_bind]
  obtain ⟨r, w'⟩ := Script.run x w
  cases r <;> rfl

theorem perform_thenTidy (x : Task α) (tidy : Script Unit) (w : World) :
    perform (Task.thenTidy x tidy) w =
      ((perform x w).1, (Script.run tidy (perform x w).2).2) := by
  show Script.run (x.run >>= fun r => tidy >>= fun _ => pure r) w = _
  rw [Script.run_bind, Script.run_bind]
  rfl

variable {x : Task α} {r : Except Abort α} {w w' : World}

/-- A task does not set the clock, and gives away each number once. -/
theorem perform_follows (h : perform x w = (r, w')) : World.Follows w w' := by
  have hfollows := Script.run_follows x.run w
  rw [show Script.run x.run w = (r, w') from h] at hfollows
  exact hfollows

end Task

namespace Generation

variable {α β : Type}

/-- The result of a work with the cache and the world after it. -/
def perform (x : Work α) (cache : AssetCache) (w : World) :
    (Except Abort α × AssetCache) × World := Script.run (x.run.run cache) w

theorem perform_pure (a : α) (cache : AssetCache) (w : World) :
    perform (pure a : Work α) cache w = ((.ok a, cache), w) := rfl

theorem perform_throw (e : Abort) (cache : AssetCache) (w : World) :
    perform (throw e : Work α) cache w = ((.error e, cache), w) := rfl

theorem perform_get (cache : AssetCache) (w : World) :
    perform (get : Work AssetCache) cache w = ((.ok cache, cache), w) := rfl

theorem perform_set (cache cache' : AssetCache) (w : World) :
    perform (set cache' : Work PUnit) cache w = ((.ok (), cache'), w) := rfl

theorem perform_bind (x : Work α) (f : α → Work β) (cache : AssetCache) (w : World) :
    perform (x >>= f) cache w = match perform x cache w with
      | ((.ok a, cache'), w') => perform (f a) cache' w'
      | ((.error e, cache'), w') => ((.error e, cache'), w') := by
  show Script.run (x.run.run cache >>= _) w = _
  rw [Script.run_bind, perform]
  obtain ⟨⟨r, cache'⟩, w'⟩ := Script.run (x.run.run cache) w
  cases r <;> rfl

theorem perform_lift (x : Task α) (cache : AssetCache) (w : World) :
    perform (Generation.lift x) cache w = (((x.perform w).1, cache), (x.perform w).2) := by
  show Script.run (x.run >>= fun r => pure (r, cache)) w = _
  rw [Script.run_bind]
  rfl

theorem perform_thenTidy (x : Work α) (tidy : Script Unit) (cache : AssetCache) (w : World) :
    perform (thenTidy x tidy) cache w =
      ((perform x cache w).1, (Script.run tidy (perform x cache w).2).2) := by
  show Script.run (x.run.run cache >>= _) w = _
  rw [Script.run_bind, perform]
  obtain ⟨⟨r, cache'⟩, w'⟩ := Script.run (x.run.run cache) w
  show Script.run ((tidy >>= fun a => pure (a, cache')) >>= _) w' = _
  rw [Script.run_bind, Script.run_bind]
  rfl

end Generation

end MailMerge
