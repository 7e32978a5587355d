import Mathlib.Data.List.AList

/-! # Dispatch capacity

The embedding of `engine/capacity.mjs` and of the judgment of `engine/aux-admission.mjs`: how many
attempts a runtime may run at once, what a dispatch pass counts, and what an auxiliary spawn counts.
The runtimes on a quota hold are a parameter: they only ever refuse.
-/

namespace Faberun

/-- A map keyed by node id, with the runtime of the job it holds. -/
abbrev JobMap (ν ρ : Type) := AList fun _ : ν => ρ

/-- The runtimes of the jobs of a map. -/
def JobMap.runtimes {ν ρ : Type} (jobs : JobMap ν ρ) : List ρ := jobs.entries.map Sigma.snd

/-- What admission reads of a contract. -/
structure Limits (ρ : Type) where
  maxParallel : Nat
  maxConcurrent : ρ → Option Nat

variable {ν ρ : Type} [DecidableEq ν] [DecidableEq ρ]

/-- `runningPerRuntime`, read at one runtime. -/
def runningPerRuntime (holders : List ρ) (runtime : ρ) : Nat := holders.count runtime

/-- `runtimeHasCapacity`. -/
def runtimeHasCapacity (limits : Limits ρ) (holders held : List ρ) (runtime : ρ) : Bool :=
  if runtime ∈ held then false
  else
    match limits.maxConcurrent runtime with
    | none => true
    | some limit => decide (runningPerRuntime holders runtime < limit)

/-- `admissionHold`: live jobs and closed jobs whose settlement has not finished. -/
def admissionHold (running settling : JobMap ν ρ) : List ρ := running.runtimes ++ settling.runtimes

/-- `admissionPass`: the free slots, read once, and the holders its reservations grow. -/
structure AdmissionPass (ρ : Type) where
  slots : Nat
  holders : List ρ

def admissionPass (limits : Limits ρ) (running settling : JobMap ν ρ) : AdmissionPass ρ :=
  let hold := admissionHold running settling
  { slots := limits.maxParallel - hold.length, holders := hold }

/-- `take`: judge a runtime and reserve it in the same breath. -/
def AdmissionPass.take (limits : Limits ρ) (held : List ρ) (pass : AdmissionPass ρ) (runtime : ρ) :
    Option (AdmissionPass ρ) :=
  if runtimeHasCapacity limits pass.holders held runtime then
    some { pass with holders := pass.holders ++ [runtime] }
  else none

/-- `auxSpawnAdmission`: one judgment against the live jobs only. -/
def auxSpawnAdmission (limits : Limits ρ) (running : JobMap ν ρ) (held : List ρ) (runtime : ρ) : Bool :=
  if limits.maxParallel ≤ running.entries.length then false
  else runtimeHasCapacity limits running.runtimes held runtime

end Faberun
