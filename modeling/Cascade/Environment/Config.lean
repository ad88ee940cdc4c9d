import Cascade.Files.Path
import Cascade.Node.Basic
/-!
Where an environment keeps its things. Relative paths are taken from its root.
-/
namespace Cascade

structure EnvironmentConfig where
  name : String
  root : String
  modulesDir : String
  cacheDir : String
  factsDir : String
  hierarchyFile : String
  classListKey : String
  /-- The command line of a compiler; without one, artifacts are only read. -/
  compiler : Option String
  jobs : Option Nat
  deriving DecidableEq, Inhabited

namespace EnvironmentConfig

def standard (name root : String) : EnvironmentConfig :=
  { name, root, modulesDir := "modules", cacheDir := ".strata/artifacts", factsDir := "facts",
    hierarchyFile := "hiera.yaml", classListKey := Node.standardClassListKey, compiler := none,
    jobs := none }

def modulesPath (c : EnvironmentConfig) : String := Path.join c.root c.modulesDir
def cachePath (c : EnvironmentConfig) : String := Path.join c.root c.cacheDir
def factsPath (c : EnvironmentConfig) : String := Path.join c.root c.factsDir
def hierarchyPath (c : EnvironmentConfig) : String := Path.join c.root c.hierarchyFile

def buildConfig (c : EnvironmentConfig) : Build.Config :=
  let config := Build.Config.ofLayout ⟨c.modulesPath, c.cachePath⟩
  match c.jobs with
  | some n => config.withWorkers n
  | none => config

end EnvironmentConfig
end Cascade
