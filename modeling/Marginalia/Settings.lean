import Marginalia.Data.Decode
import Marginalia.FileTree
import Marginalia.History
import Marginalia.Toml.Parser
import Marginalia.Toml.Printer
import Marginalia.Translation.Cache

/-! # Settings

What a configuration file decides. Every setting has a default, so a file may leave out any
part; counts are natural numbers, and what is saved can be read again.
-/

namespace Marginalia

structure TranslateSettings where
  sourceLanguage : String := "auto"
  targetLanguage : String := "en"
  provider : Provider := .google
  libreUrl : String := "https://libretranslate.de"
  /-- The pause between the requests of a run, in milliseconds. -/
  delay : Nat := 100
  /-- How long an answer may take, in seconds. -/
  timeout : Nat := 30
  cacheCapacity : Nat := Cache.defaultCapacity
  deriving DecidableEq, Repr

structure Settings where
  translate : TranslateSettings := { }
  historyCapacity : Nat := History.defaultCapacity
  /-- A table of languages that is merged over the languages known from the start. -/
  languagesFile : Option String := none
  deriving DecidableEq, Repr

namespace TranslateSettings

/-- The options of requests under the settings. Only LibreTranslate has an endpoint of its own. -/
def options (settings : TranslateSettings) : Options where
  source := settings.sourceLanguage
  target := settings.targetLanguage
  provider := settings.provider
  endpoint :=
    match settings.provider with
    | .libreTranslate => some settings.libreUrl
    | .google => none

def ofData? (dialect : Dialect) (data : Data) : Option TranslateSettings := do
  let fields ← data.fields? dialect ["source_language", "target_language", "provider",
    "libre_translate_url", "request_delay_ms", "request_timeout_secs", "cache_capacity"]
  let provider (value : Data) : Option Provider := (value.choice? dialect).bind Provider.ofKey?
  let defaults : TranslateSettings := { }
  return {
    sourceLanguage := ← fields.orDefault "source_language" Data.asText? defaults.sourceLanguage
    targetLanguage := ← fields.orDefault "target_language" Data.asText? defaults.targetLanguage
    provider := ← fields.orDefault "provider" provider defaults.provider
    libreUrl := ← fields.orDefault "libre_translate_url" Data.asText? defaults.libreUrl
    delay := ← fields.orDefault "request_delay_ms" Data.asCount? defaults.delay
    timeout := ← fields.orDefault "request_timeout_secs" Data.asCount? defaults.timeout
    cacheCapacity := ← fields.orDefault "cache_capacity" Data.asCount? defaults.cacheCapacity }

end TranslateSettings

namespace Settings

/-- Reads the capacity of the undo history out of its group of settings. -/
def historyOfData? (dialect : Dialect) (data : Data) : Option Nat := do
  let fields ← data.fields? dialect ["capacity"]
  fields.orDefault "capacity" Data.asCount? History.defaultCapacity

/-- Reads the path of the table of languages out of its group of settings. -/
def extractOfData? (dialect : Dialect) (data : Data) : Option (Option String) := do
  let fields ← data.fields? dialect ["languages_file"]
  fields.orDefault "languages_file" (Fields.nullable Data.asText?) none

def ofData? (dialect : Dialect) (data : Data) : Option Settings := do
  let fields ← data.fields? dialect ["translate", "history", "extract"]
  let defaults : Settings := { }
  return {
    translate :=
      ← fields.orDefault "translate" (TranslateSettings.ofData? dialect) defaults.translate
    historyCapacity :=
      ← fields.orDefault "history" (historyOfData? dialect) defaults.historyCapacity
    languagesFile :=
      ← fields.orDefault "extract" (extractOfData? dialect) defaults.languagesFile }

def parse (source : String) : Except Failure Settings :=
  match (Toml.parse? source).bind (ofData? .toml) with
  | some settings => .ok settings
  | none => .error (.setting .malformed)

def load (tree : FileTree) (path : String) : Except Failure Settings :=
  match tree.readText path with
  | .ok source => parse source
  | .error fault => .error (.setting (.unreadable fault))

def tables (settings : Settings) : List Toml.Section :=
  let translate := settings.translate
  [⟨"translate",
      [("source_language", .text translate.sourceLanguage),
        ("target_language", .text translate.targetLanguage),
        ("provider", .text translate.provider.key),
        ("libre_translate_url", .text translate.libreUrl),
        ("request_delay_ms", .count translate.delay),
        ("request_timeout_secs", .count translate.timeout),
        ("cache_capacity", .count translate.cacheCapacity)]⟩,
    ⟨"history", [("capacity", .count settings.historyCapacity)]⟩,
    ⟨"extract", settings.languagesFile.toList.map fun path => ("languages_file", .text path)⟩]

/-- The text of a configuration file with the settings; counts beyond the signed 64 bits cannot
be written. -/
def render? (settings : Settings) : Option String := Toml.render? settings.tables

def save (settings : Settings) (tree : FileTree) (path : String) : Except Failure FileTree :=
  match settings.render? with
  | none => .error (.setting .unwritable)
  | some text =>
    match tree.writeText path text with
    | .ok tree => .ok tree
    | .error fault => .error (.setting (.notWritten fault))

end Settings

end Marginalia
