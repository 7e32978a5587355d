import Faberun.Soundness.MigrateRuns

/-! # What a migration keeps

A call throws only over a lease, over an entry that the published tree lacks or has otherwise, or over a layout it
cannot read, and leaves both trees alone then. Otherwise it goes on, every step nearer to its end.
-/

namespace Faberun.Migrate

variable {layout : Layout} {around : Surroundings} {original tree : Tree} {w next : World} {event : Event}
  {thrown : Thrown}

/-! ## Throwing -/

def home : Layout := ⟨"/repo/.runs", "/home/projects/p/runs", "/home/projects/p/runs.incoming"⟩

/-- No lock is held, and the links of the legacy tree read as `followed`. -/
def quiet (followed : Followed) : Surroundings := ⟨[], fun _ => .invalid, fun _ _ => followed, fun _ _ => .missing⟩

def before (tree : Tree) : World := ⟨some tree, none, none, .idle, false, none, false, []⟩

end Faberun.Migrate
