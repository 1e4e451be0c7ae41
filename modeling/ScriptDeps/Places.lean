import ScriptDeps.Path

/-! # Places

    Where a user keeps things: home directories, and the directories for
    settings and for caches below them. -/

namespace ScriptDeps

/-- The home directories of users. -/
structure Homes where
  home?   : Option Path
  homeOf? : Text → Option Path

/-- What tells where the user keeps settings and caches. -/
structure Places where
  home?     : Option Path
  /-- Directories that the user has chosen; relative ones do not count. -/
  settings? : Option Path
  caches?   : Option Path
deriving DecidableEq, Repr

namespace Places

/-- The chosen directory if it is absolute, or else `name` in the home
    directory; without a home, the current directory. -/
def directory (p : Places) (chosen : Option Path) (name : String) : Path :=
  match chosen.filter Path.isAbsolute with
  | some d => d
  | none =>
      match p.home? with
      | some h => h.join (Path.ofText name)
      | none => "."

/-- The part of a user's directories that belongs to this tool. -/
def toolName : Path := "swift-sh"

/-- The file of settings where none is named. -/
def settingsFile (p : Places) : Path :=
  ((p.directory p.settings? ".config").join toolName).join "config.toml"

/-- The root of the cache where none is named. -/
def cacheRoot (p : Places) : Path := (p.directory p.caches? ".cache").join toolName

end Places
end ScriptDeps
