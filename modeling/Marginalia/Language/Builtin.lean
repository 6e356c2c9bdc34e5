import Marginalia.Language.Registry

/-! # The languages that are known from the start

Most languages share the comments of JavaScript. The quotes of a Python docstring count as the
opening of a comment on one line, since every line is judged on its own, and comments of markup
have to close on the line on which they open.
-/

namespace Marginalia

def cLikeLanguages : List LanguageDecl := [
  { ids := ["javascript", "javascriptreact"]
    extensions := ["js", "mjs", "cjs", "jsx"]
    singleLine := [r"^(\s*//\s*)(.+)$"]
    inlineBlock := some r"^(\s*/\*\s*)(.+?)(\s*\*/\s*)$"
    blockStart := some r"^(\s*/\*\s*)(.+)$"
    blockMiddle := some r"^(\s*\*\s*)(.+)$"
    blockEnd := some r"^(\s*)(.+?)(\s*\*/\s*)$"
    blockClose := some "*/" },
  { ids := ["typescript", "typescriptreact"]
    parent := some "javascript"
    extensions := ["ts", "tsx", "mts", "cts"] },
  { ids := ["c"], parent := some "javascript", extensions := ["c", "h"] },
  { ids := ["cpp"]
    parent := some "javascript"
    extensions := ["cpp", "cc", "cxx", "hpp", "hh", "hxx"] },
  { ids := ["csharp"], parent := some "javascript", extensions := ["cs"] },
  { ids := ["java"], parent := some "javascript", extensions := ["java"] },
  { ids := ["go"], parent := some "javascript", extensions := ["go"] },
  { ids := ["swift"], parent := some "javascript", extensions := ["swift"] },
  { ids := ["kotlin"], parent := some "javascript", extensions := ["kt", "kts"] },
  { ids := ["rust"]
    parent := some "javascript"
    extensions := ["rs"]
    singleLine := [r"^(\s*//[/!]?\s*)(.+)$"] }]

/-- The declarations of the languages whose comments begin with a number sign. -/
def hashLanguages : List LanguageDecl := [
  { ids := ["python"]
    extensions := ["py", "pyw", "pyi"]
    singleLine := [r"^(\s*#\s*)(.+)$", "^(\\s*\"\"\"\\s*)(.+)$", r"^(\s*'''\s*)(.+)$"]
    lineMarkers := ["#", "\"\"\"", "'''"] },
  { ids := ["ruby"]
    extensions := ["rb"]
    singleLine := [r"^(\s*#\s*)(.+)$"]
    lineMarkers := ["#"] },
  { ids := ["shellscript"], parent := some "ruby", extensions := ["sh", "bash", "zsh"] },
  { ids := ["yaml"], parent := some "ruby", extensions := ["yml", "yaml"] },
  { ids := ["php"]
    extensions := ["php"]
    singleLine := [r"^(\s*//\s*)(.+)$", r"^(\s*#\s*)(.+)$"]
    inlineBlock := some r"^(\s*/\*\s*)(.+?)(\s*\*/\s*)$"
    lineMarkers := ["#"] }]

def webLanguages : List LanguageDecl := [
  { ids := ["html"]
    extensions := ["html", "htm"]
    singleLine := [r"^(\s*<!--\s*)(.+?)(\s*-->\s*)$"]
    lineMarkers := ["<!--"]
    trailingMarkers := ["-->"] },
  { ids := ["xml"], parent := some "html", extensions := ["xml", "svg"] },
  { ids := ["css"]
    extensions := ["css"]
    inlineBlock := some r"^(\s*/\*\s*)(.+?)(\s*\*/\s*)$"
    blockStart := some r"^(\s*/\*\s*)(.+)$"
    blockEnd := some r"^(\s*)(.+?)(\s*\*/\s*)$"
    blockClose := some "*/" },
  { ids := ["scss", "less"]
    parent := some "css"
    extensions := ["scss", "less"]
    singleLine := [r"^(\s*//\s*)(.+)$"] }]

/-- The table of the languages that are known from the start. -/
def builtinTable : LanguageTable where
  fallback := some "javascript"
  commonMarkers := ["//", "/*", "*"]
  commonContains := ["*/"]
  languages := cLikeLanguages ++ hashLanguages ++ webLanguages

/-- The registry of the languages that are known from the start. -/
def Registry.builtin [Pattern.Compiler] : Except Failure Registry :=
  Registry.ofTable builtinTable

end Marginalia
