import Cascade.Build.Layout
/-!
Settings of a build. Both numbers are at least one, whatever is asked for.
-/
namespace Cascade.Build

structure Config where
  layout : Layout
  /-- How many batches may run side by side. -/
  workers : Nat
  /-- How many sources the compiler gets at once. -/
  batchSize : Nat
  workers_pos : 0 < workers := by omega
  batchSize_pos : 0 < batchSize := by omega

namespace Config

def ofLayout (layout : Layout) : Config :=
  { layout, workers := 1, batchSize := 16 }

def withWorkers (c : Config) (n : Nat) : Config :=
  { c with workers := max n 1, workers_pos := by omega }

def withBatchSize (c : Config) (n : Nat) : Config :=
  { c with batchSize := max n 1, batchSize_pos := by omega }

end Config
end Cascade.Build
