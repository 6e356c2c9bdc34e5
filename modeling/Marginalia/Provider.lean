import Marginalia.Text.Lowercase

/-! # Translation services

The two services that can be asked for a translation, and their names.
-/

namespace Marginalia

inductive Provider
  /-- The public endpoint of Google that needs no key. -/
  | google
  /-- An instance of LibreTranslate, which requests have to name. -/
  | libreTranslate
  deriving DecidableEq, Repr

namespace Provider

/-- The name in configuration files. -/
def key : Provider → String
  | google => "google"
  | libreTranslate => "libretranslate"

/-- The name that users see. -/
def displayName : Provider → String
  | google => "Google Translate"
  | libreTranslate => "LibreTranslate"

/-- The service with the name in a configuration file. -/
def ofKey? : String → Option Provider
  | "google" => some google
  | "libretranslate" => some libreTranslate
  | _ => none

/-- The service that a user names, in any mixture of cases; a name that is none is given back
in lowercase. -/
def ofUserName (name : String) : Except String Provider :=
  match Text.lower name with
  | "google" => .ok google
  | "libretranslate" => .ok libreTranslate
  | "libre" => .ok libreTranslate
  | other => .error other

theorem ofKey?_key (provider : Provider) : ofKey? provider.key = some provider := by
  cases provider <;> rfl

end Provider

end Marginalia
