import Marginalia.CommandLine.Arguments
import Marginalia.Settings

/-! # Settings in force

The settings that a run of the program goes by: those of a configuration file, or else the
defaults, with what the command line puts in their place. LibreTranslate needs a base URL, and
without one no command is carried out.
-/

namespace Marginalia.CommandLine

/-- The service that settings ask for, unless the command line names one. -/
def Overrides.providerOr (overrides : Overrides) (provider : Provider) :
    Except Failure Provider :=
  match overrides.provider with
  | none => .ok provider
  | some name =>
    match Provider.ofUserName name with
    | .ok provider => .ok provider
    | .error name => .error (.setting (.unknownProvider name))

/-- Whether the service of the settings can be asked. -/
def isUsable (settings : TranslateSettings) : Bool :=
  match settings.provider with
  | .google => true
  | .libreTranslate => !(Text.trim settings.libreUrl).isEmpty

/-- Puts what the command line gives in the place of settings. -/
def Overrides.apply (overrides : Overrides) (settings : Settings) : Except Failure Settings := do
  let current := settings.translate
  let translate := { current with
    sourceLanguage := overrides.source.getD current.sourceLanguage
    targetLanguage := overrides.target.getD current.targetLanguage
    provider := ← overrides.providerOr current.provider
    libreUrl := overrides.libreUrl.getD current.libreUrl }
  if isUsable translate then return { settings with translate }
  else throw (.setting .missingUrl)

/-- The settings of the configuration file, which may be missing where none is named. -/
def baseSettings (tree : FileTree) : Option String → Except Failure Settings
  | some path => Settings.load tree path
  | none =>
    if tree.pathExists defaultConfigPath then Settings.load tree defaultConfigPath else .ok { }

/-- The settings in force. -/
def Arguments.settings (arguments : Arguments) (tree : FileTree) : Except Failure Settings := do
  arguments.overrides.apply (← baseSettings tree arguments.config)

end Marginalia.CommandLine
