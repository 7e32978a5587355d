import Mathlib.Data.Finset.Basic
import Faberun.Machine.Core

/-! # The evidence ledger

`preserveCampaignLedger` and `reledgerCampaignLedger` of `campaign/ledger.mjs`: the copies of the runs' files in the ledger
of a campaign, with the manifest of their sources. A file is written in place, so a process that dies may leave the
beginning of one. What `projectJsonl` and the projection of the node snapshots make of a source is a parameter; a source
they throw on ends the pass. One process works on a ledger at a time, and what it finds of a run's files is part of its
labels.
-/

namespace Faberun.Ledger

abbrev Bytes := List UInt8

/-- `RUN_SOURCES`, and the node snapshots. -/
inductive RunSource where
  | events
  | usage
  | notify
  | nodes
  deriving DecidableEq, Repr

/-- A file of the ledger; its name is that of the run and of the source. -/
structure LedgerFile where
  runId : String
  source : RunSource
  deriving DecidableEq, Repr

/-- What `LEDGER_SOURCE_MANIFEST_FILE` holds. -/
structure Manifest where
  absent : Finset LedgerFile
  preserved : Finset LedgerFile
  planning : Finset String
  deriving DecidableEq

/-- `readSourceManifest`; one that cannot be read is empty. -/
def readSourceManifest (manifest : Option Manifest) : Manifest := manifest.getD ⟨∅, ∅, ∅⟩

/-- `writeIfStrictExtension`: what is written, if anything is. -/
def writeIfStrictExtension (existing : Option Bytes) (bytes : Bytes) : Option Bytes :=
  match existing with
  | none => some bytes
  | some held => if bytes.length ≤ held.length ∨ bytes.take held.length ≠ held then none else some bytes

inductive Verb where
  | preserve
  | reledger
  deriving DecidableEq, Repr

/-- What one turn of the loop over the linked runs looks at. -/
inductive Item where
  | run (runId : String)
  | file (file : LedgerFile)
  deriving DecidableEq, Repr

def items (linkedRunIds : List String) : List Item :=
  linkedRunIds.flatMap fun runId =>
    .run runId :: ([.events, .usage, .notify, .nodes] : List RunSource).map fun source => .file ⟨runId, source⟩

/-- A process at work: what it has yet to look at, and the sets of its manifest. -/
structure Pass where
  verb : Verb
  todo : List Item
  sets : Manifest

/-- A ledger directory, the process at work, and the sources that were read. -/
structure State where
  files : LedgerFile → Option Bytes
  manifest : Option Manifest
  pass : Option Pass
  read : List (LedgerFile × Bytes)

inductive Label where
  | begins (verb : Verb) (linkedRunIds : List String)
  /-- `isPlanningRun`. -/
  | run (planning : Bool)
  /-- A source that is not there. -/
  | missing
  | copy (source : Bytes)
  /-- The process dies in the write of a copy. -/
  | torn (source : Bytes) (kept : Nat)
  | finish
  /-- The process dies in the write of the manifest. -/
  | tornManifest
  | die
  deriving Repr

namespace Manifest

/-- A source that is missing. -/
def miss (sets : Manifest) (verb : Verb) (file : LedgerFile) : Manifest :=
  match verb with
  | .preserve => if file ∈ sets.preserved then sets else { sets with absent := insert file sets.absent }
  | .reledger => sets

/-- A source whose copy stands in the ledger. -/
def keep (sets : Manifest) (file : LedgerFile) : Manifest :=
  { sets with absent := sets.absent.erase file, preserved := insert file sets.preserved }

end Manifest

/-- What a pass writes to a file of the ledger. -/
def written (verb : Verb) (existing : Option Bytes) (projected : Bytes) : Option Bytes :=
  match verb with
  | .preserve => some projected
  | .reledger => writeIfStrictExtension existing projected

def State.put (s : State) (file : LedgerFile) (bytes : Bytes) : State :=
  { s with files := Function.update s.files file (some bytes) }

section

variable (project : RunSource → Bytes → Option Bytes)

/-- The turn of a source that is there. -/
def State.copy (s : State) (pass : Pass) (file : LedgerFile) (rest : List Item) (source : Bytes) : State :=
  let seen := { s with read := (file, source) :: s.read }
  match project file.source source with
  | none => { seen with pass := none }
  | some projected =>
    let next := some { pass with todo := rest, sets := pass.sets.keep file }
    match written pass.verb (s.files file) projected with
    | none => { seen with pass := next }
    | some bytes => { seen.put file bytes with pass := next }

/-- The turn of a source whose copy is only begun. -/
def State.torn (s : State) (pass : Pass) (file : LedgerFile) (source : Bytes) (kept : Nat) : Option State :=
  (project file.source source).bind fun projected =>
    (written pass.verb (s.files file) projected).map fun bytes =>
      { s.put file (bytes.take kept) with read := (file, source) :: s.read, pass := none }

def step (s : State) : Label → Option State
  | .begins verb linkedRunIds => some { s with pass := some ⟨verb, items linkedRunIds, readSourceManifest s.manifest⟩ }
  | .run planning => do
    let pass ← s.pass
    let .run runId :: rest := pass.todo | none
    let sets := if planning then { pass.sets with planning := insert runId pass.sets.planning } else pass.sets
    return { s with pass := some { pass with todo := rest, sets } }
  | .missing => do
    let pass ← s.pass
    let .file file :: rest := pass.todo | none
    return { s with pass := some { pass with todo := rest, sets := pass.sets.miss pass.verb file } }
  | .copy source => do
    let pass ← s.pass
    let .file file :: rest := pass.todo | none
    return s.copy project pass file rest source
  | .torn source kept => do
    let pass ← s.pass
    let .file file :: _ := pass.todo | none
    s.torn project pass file source kept
  | .finish => do
    let pass ← s.pass
    let [] := pass.todo | none
    return { s with manifest := some pass.sets, pass := none }
  | .tornManifest => do
    let pass ← s.pass
    let [] := pass.todo | none
    return { s with manifest := none, pass := none }
  | .die => some { s with pass := none }

def machine : Machine State Label := ⟨step project⟩

end

/-- A ledger that is not there yet. -/
def empty : State := ⟨fun _ => none, none, none, []⟩

end Faberun.Ledger
