import Faberun.Model.UtilWords

/-! # The shape of a `node --test` command

The embedding of `nodeTestShape` of `plan/proof-scope.mjs`: the name filters and the path arguments of an argument vector.
-/

namespace Faberun.ProofScope

/-- `NODE_VALUE_OPTIONS`. -/
def nodeValueOptions : List String :=
  ["--import", "--require", "-r", "--loader", "--experimental-loader", "--env-file", "--test-reporter", "--test-reporter-destination",
    "--test-name-pattern", "--test-skip-pattern", "--test-concurrency", "--test-timeout"]

/-- `NAME_FILTER_FLAGS`. -/
def nameFilterFlags : List String := ["--test-name-pattern", "--test-skip-pattern"]

structure NameFilter where
  flag : String
  value : String

structure NodeTestShape where
  nameFilters : List NameFilter
  paths : List String

/-- The name filter a token begins, if it begins one. -/
def nameFilter (token : String) (next : Option String) : Option NameFilter :=
  match nameFilterFlags.find? fun flag => (flag ++ "=").toList.isPrefixOf token.toList with
  | some inline => some ⟨inline, String.ofList (token.toList.drop (inline.toList.length + 1))⟩
  | none => if nameFilterFlags.contains token then some ⟨token, next.getD ""⟩ else none

/-- The loop over the arguments; a value option takes the next one with it. -/
def scanArguments : Bool → List String → NodeTestShape
  | _, [] => ⟨[], []⟩
  | true, _ :: rest => scanArguments false rest
  | false, token :: rest =>
    let takesValue := nodeValueOptions.contains token
    let later := scanArguments takesValue rest
    { nameFilters := (nameFilter token rest.head?).toList ++ later.nameFilters
      paths := if !takesValue && !(['-'].isPrefixOf token.toList) then token :: later.paths else later.paths }

/-- `nodeTestShape(argv)`. -/
def nodeTestShape (argv : List String) : Option NodeTestShape :=
  if argv.head? = some "node" ∧ argv.contains "--test" then some (scanArguments false argv.tail) else none

end Faberun.ProofScope
