import ImportRank.Import.Extraction
import ImportRank.Import.Resolution
import ImportRank.Order.DependencyOrder
import ImportRank.Rank.Solver
import ImportRank.Report.Event
import ImportRank.Source.LineCount
import ImportRank.Source.Search

/-!
# A ranking run

Modules are found and their imports resolved; those with a wanted extension are kept and become
candidates; the solver ranks them, and on demand the ranking is turned into dependency order.
-/

namespace ImportRank

/-- What a run is asked. -/
structure RunOptions where
  roots : List String
  extensions : Option (List String)
  dependenciesFirst : Bool
  search : SearchOptions
  pooled : Bool
deriving Repr

/-! ## Modules -/

namespace Module

/-- The dependencies that an import resolves to. -/
def dependenciesOf (resolver : Resolver) (file : SourceFile) (record : Import) :
    Run (List Dependency) := do
  let targets := resolver.resolve file.key file.language record
  if targets.isEmpty then Run.tell (.unresolved file.key record.dotted)
  return targets.map fun target => { target, specifier := record.dotted }

/-- The module of a file: its imports in source order, each with its targets. -/
def ofFile (workspace : Workspace) (resolver : Resolver) (file : SourceFile) : Run Module := do
  match workspace.files.read (Path.ofString file.key) with
  | .error fault => throw (.discovery file.key (fault.report file.key))
  | .ok bytes =>
    let extraction := workspace.engine.extract file.language bytes
    if !extraction.complete then Run.tell (.syntaxErrors file.key)
    let dependencies ← extraction.imports.mapM (dependenciesOf resolver file)
    return { key := file.key, dependencies := dependencies.flatten }

/-- The modules of all source files under some roots. -/
def discover (workspace : Workspace) (search : SearchOptions) (roots : List String) :
    Run (List Module) := do
  let found ← ExceptT.mk (pure (Search.search workspace search roots))
  let importRoots ← ExceptT.mk (pure ((importRoots workspace.files roots).mapError Error.fault))
  let resolver := { keys := found.map SourceFile.key, roots := importRoots }
  let modules ← found.mapM (ofFile workspace resolver)
  Run.tell (.discovered modules.length roots)
  return modules

/-- The modules that have one of the wanted extensions. -/
def keepWanted (extensions : Option (List String)) (modules : List Module) : Run (List Module) := do
  let kept := modules.filter fun entry => hasExtension extensions entry.key
  Run.tell (.kept kept.length modules.length)
  return kept

/-- Finds the modules of a run with a source of modules. Without a root there is nothing to
search. -/
def find (discover : List String → Run (List Module)) (roots : List String)
    (extensions : Option (List String)) : Run (List Module) := do
  if roots.isEmpty then throw (.discovery "." "no paths to search")
  keepWanted extensions (← discover roots)

end Module

/-! ## Candidates -/

namespace Candidate

variable {α : Type} [Arithmetic α]

/-- The candidate of a module of a known size. Only dependencies with a wanted extension count. -/
def ofModule (extensions : Option (List String)) (lines : Nat) (entry : Module) : Candidate α :=
  let targets := entry.dependencies.map Dependency.target
  fresh entry.key lines targets (targets.filter (hasExtension extensions))

/-- The candidates of modules: one each, in order, with their dependents counted. -/
def build (files : FileSystem) (modules : List Module) (extensions : Option (List String))
    (pooled : Bool) : Run (List (Candidate α)) := do
  let keys := modules.map Module.key
  let counts ← ExceptT.mk
    (pure (if pooled then files.countInPool id keys else files.countEach keys))
  let candidates := modules.map fun entry =>
    ofModule extensions ((counts.lookup entry.key).getD 0) entry
  Run.tell (.built candidates.length)
  return countDependents candidates

/-- The candidates of the modules that a source of modules finds, before anything is solved. -/
def gather (files : FileSystem) (options : RunOptions)
    (discover : List String → Run (List Module)) : Run (List (Candidate α)) := do
  let modules ← Module.find discover options.roots options.extensions
  build files modules options.extensions options.pooled

/-- Solves for the weights of candidates. Without candidates there is nothing to solve. -/
def weigh (settings : Settings Float) (candidates : List (Candidate Float)) :
    Run (List (Candidate Float)) := do
  if candidates.isEmpty then return []
  let solved := solve settings candidates
  let final := solved.solution.final
  if solved.solution.converged then
    Run.tell (.converged final.steps final.change)
    return solved.candidates
  else throw (.convergence final.steps final.change)

end Candidate

/-! ## Runs -/

/-- Ranks the modules that a source of modules finds. -/
def rankModules (files : FileSystem) (options : RunOptions)
    (discover : List String → Run (List Module)) : Run (List (Candidate Float)) := do
  let candidates ← Candidate.gather files options discover
  let weighed ← Candidate.weigh Settings.standard candidates
  let ranked := Candidate.standing.sort weighed
  if options.dependenciesFirst then
    return Candidate.standing.dependencyOrder weighed ranked
  else return ranked

/-- Ranks every source file under the roots of a run. -/
def rankWorkspace (workspace : Workspace) (options : RunOptions) : Run (List (Candidate Float)) :=
  rankModules workspace.files options (Module.discover workspace options.search)

end ImportRank
