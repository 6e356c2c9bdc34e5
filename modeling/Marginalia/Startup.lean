import Marginalia.Language.Builtin
import Marginalia.Service.Client
import Marginalia.Workflow

/-! # Building a workflow from settings

The registry of a workflow is the one known from the start, with the table of the settings
merged over it.
-/

namespace Marginalia

variable [Pattern.Compiler]

/-- Merges the table of a file into a registry. -/
def Registry.mergeFile (registry : Registry) (tree : FileTree) (path : String) :
    Except Failure Registry :=
  match tree.readText path with
  | .ok source => registry.mergeText source
  | .error fault => .error (.setting (.tableUnreadable path fault))

/-- The registry that settings ask for. -/
def Settings.registry (settings : Settings) (tree : FileTree) : Except Failure Registry := do
  let builtin ← Registry.builtin
  match settings.languagesFile with
  | some path => builtin.mergeFile tree path
  | none => return builtin

/-- The workflow that settings ask for. -/
def Workflow.ofSettings {σ : Type} (settings : Settings) (tree : FileTree)
    (network : Http.Network σ) (pause : σ → Bool × σ) (state : σ) :
    Except Failure (Workflow σ) := do
  return {
    registry := ← settings.registry tree
    session := Session.ofSettings settings.translate network pause state
    history := { capacity := settings.historyCapacity }
    options := settings.translate.options }

end Marginalia
