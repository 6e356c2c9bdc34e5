import Marginalia.Provider

/-! # Failures

Everything that can go wrong, by cause. The wording of all of it is in `message`.
-/

namespace Marginalia

/-- Why a file could not be read or written. -/
inductive FileFault
  | notFound
  | isDirectory
  | notDirectory
  | alreadyExists
  | notText
  deriving DecidableEq, Repr

/-- Why a table of comment patterns was refused. -/
inductive TableFault
  /-- A pattern captures fewer than two groups. -/
  | missingGroups (pattern : String)
  /-- A language has a rule for the end of a block and no closing token. -/
  | missingClose (language : String)
  | missingIds
  | unknownParent (language parent : String)
  | undefinedFallback (language : String)
  | missingFallback
  deriving DecidableEq, Repr

/-- Why settings, or what they ask for, cannot be used. -/
inductive SettingFault
  | unreadable (fault : FileFault)
  | malformed
  | unwritable
  | notWritten (fault : FileFault)
  | unknownProvider (name : String)
  | unregistered (provider : Provider)
  | missingUrl
  | unknownLanguage (path : String)
  | notDirectory (path : String)
  | tableUnreadable (path : String) (fault : FileFault)
  | alreadyExists (path : String)
  deriving DecidableEq, Repr

/-- Why a service gave no translation. -/
inductive TransportFault
  | noAnswer
  | brokenOff
  | malformed
  | missingSegments
  /-- The service refused, with a status and a body. -/
  | status (code : Nat) (reason : Option String) (body : String)
  | other (message : String)
  deriving DecidableEq, Repr

/-- Whatever can go wrong. -/
inductive Failure
  | file (fault : FileFault)
  | json
  | toml
  | pattern
  | transport (provider : Provider) (fault : TransportFault)
  | setting (fault : SettingFault)
  | table (fault : TableFault)
  | lineOutOfRange (line length : Nat)
  | missingFile (path : String)
  deriving DecidableEq, Repr

/-- The wording of a fault of the file system. -/
def FileFault.message : FileFault → String
  | notFound => "No such file or directory (os error 2)"
  | isDirectory => "Is a directory (os error 21)"
  | notDirectory => "Not a directory (os error 20)"
  | alreadyExists => "File exists (os error 17)"
  | notText => "stream did not contain valid UTF-8"

def TableFault.message : TableFault → String
  | missingGroups pattern =>
    "pattern '" ++ pattern ++ "' must capture at least prefix and comment groups"
  | missingClose language =>
    "language '" ++ language ++ "' declares block_end without block_close"
  | missingIds => "language entry without ids"
  | unknownParent language parent =>
    "language '" ++ language ++ "' extends unknown language '" ++ parent ++ "'"
  | undefinedFallback language => "fallback language '" ++ language ++ "' is not defined"
  | missingFallback => "pattern table must name a fallback language"

def SettingFault.message : SettingFault → String
  | unreadable fault => "Failed to read config file: " ++ fault.message
  | malformed => "Failed to parse config file"
  | unwritable => "Failed to serialize config"
  | notWritten fault => "Failed to write config file: " ++ fault.message
  | unknownProvider name =>
    "Unknown translation provider '" ++ name ++ "' (expected 'google' or 'libretranslate')"
  | unregistered provider => "No translator registered for " ++ provider.displayName
  | missingUrl => "LibreTranslate URL is not configured"
  | unknownLanguage path => "Cannot infer language for " ++ path ++ "; pass --language"
  | notDirectory path => path ++ " is not a directory"
  | tableUnreadable path fault =>
    "Failed to read languages file " ++ path ++ ": " ++ fault.message
  | alreadyExists path => path ++ " already exists; pass --force to overwrite"

def TransportFault.message (provider : Provider) : TransportFault → String
  | noAnswer => "HTTP request failed"
  | brokenOff =>
    match provider with
    | .google => "Failed to parse response"
    | .libreTranslate => "Failed to read response"
  | malformed => "Failed to parse response"
  | missingSegments => "unexpected response shape: no translation segments"
  | status code reason body =>
    "API error " ++ toString code ++ " " ++ reason.getD "<unknown status code>" ++ ": " ++ body
  | other message => message

def Failure.message : Failure → String
  | file fault => "IO error: " ++ fault.message
  | json => "JSON serialization error"
  | toml => "TOML parsing error"
  | pattern => "Invalid comment pattern"
  | transport provider fault =>
    provider.displayName ++ " error: " ++ fault.message provider
  | setting fault => "Configuration error: " ++ fault.message
  | table fault => "Pattern table error: " ++ fault.message
  | lineOutOfRange line length =>
    "Line " ++ toString line ++ " is out of range (document has " ++ toString length ++ " lines)"
  | missingFile path => "File not found: " ++ path

end Marginalia
