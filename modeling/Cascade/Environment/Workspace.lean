import Cascade.Environment.Basic
/-!
The environments that are open, by name, and the warnings that no open environment owns.
-/
namespace Cascade

structure Workspace where
  environments : Table String Environment
  warnings : List Notice

namespace Workspace

def empty : Workspace := ⟨[], []⟩

/-- Adds an environment in the place of any other of its name. -/
def insert (ws : Workspace) (e : Environment) : Workspace :=
  { ws with environments := ws.environments.set e.name e }

/-- Opens an environment; a failure is also kept as a warning. -/
def «open» (ws : Workspace) (w : World) (config : EnvironmentConfig) :
    Except Notice Environment × Workspace × World :=
  match Environment.open w config with
  | .error n => (.error n, { ws with warnings := ws.warnings ++ [n] }, w)
  | .ok (e, w) => (.ok e, ws.insert e, w)

/-- Closes an environment, whose warnings stay with the workspace. -/
def close (ws : Workspace) (name : String) : Bool × Workspace :=
  match ws.environments.get? name with
  | none => (false, ws)
  | some e =>
    (true, ⟨ws.environments.erase name, ws.warnings ++ e.warnings⟩)

def environment? (ws : Workspace) (name : String) : Option Environment := ws.environments.get? name

def names (ws : Workspace) : List String := Text.sorted ws.environments.keys

/-- Takes all warnings, those of the environments included. -/
def drainWarnings (ws : Workspace) : List Notice × Workspace :=
  (ws.warnings ++ ws.environments.flatMap fun e => e.2.warnings,
    ⟨Table.mapValues (fun e => { e with warnings := [] }) ws.environments, []⟩)

end Workspace
end Cascade
