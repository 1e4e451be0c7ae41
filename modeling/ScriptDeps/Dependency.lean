import ScriptDeps.Path
import ScriptDeps.Version

/-! # Dependencies

    What one annotated import line asks for: a module, where its package
    comes from, and which versions of it will do. -/

namespace ScriptDeps

/-! ## Section 1: Model -/

/-- Where a package comes from. -/
inductive Origin where
  /-- A URL with a scheme. -/
  | url (text : Text)
  /-- A remote in the form `user@host:path`. -/
  | remote (text : Text)
  /-- `@owner` or `@owner/repo` on the well-known host. -/
  | shorthand (owner : Text) (repo : Option Text)
  /-- A directory; relative paths start at `base`, the script's directory. -/
  | directory (path base : Path)
deriving DecidableEq, Repr

/-- Which versions are acceptable. -/
inductive Constraint where
  /-- `~> version`: up to the next major version. -/
  | upToNextMajor (v : Version)
  /-- `== version` -/
  | exactly (v : Version)
  /-- `== ref`: a branch, tag or commit. -/
  | reference (ref : Text)
  | latest
deriving DecidableEq, Repr

/-- One declared dependency. -/
structure Dependency where
  module     : Text
  origin     : Origin
  constraint : Constraint
deriving DecidableEq, Repr

/-- Where a directory origin leads: `path` tidied and taken from `base`. -/
def Origin.location (path base : Path) : Path := base.join path.tidy

/-- Whether the package has to be fetched. -/
def Dependency.isRemote (d : Dependency) : Bool :=
  match d.origin with
  | .directory .. => false
  | _ => true

/-! ## Section 2: The companion library -/

/-- The module of the library that goes with this tool. -/
def companionModule : Text := "SwiftSH_Helpers".toList

/-- The companion library at the given constraint. -/
def Dependency.companion (c : Constraint) : Dependency :=
  ⟨companionModule, .shorthand "xcode-actions".toList (some "swift-sh".toList), c⟩

/-! ## Section 3: Showing -/

def Origin.text : Origin → Text
  | .url t => t
  | .remote t => t
  | .shorthand owner none => '@' :: owner
  | .shorthand owner (some repo) => '@' :: owner ++ '/' :: repo
  | .directory path base => (Origin.location path base).display

def Constraint.text : Constraint → Text
  | .upToNextMajor v => "~> " ++ v.text
  | .exactly v => "== " ++ v.text
  | .reference r => "== " ++ r
  | .latest => "latest".toList

def Dependency.text (d : Dependency) : Text :=
  d.module ++ " (" ++ d.origin.text ++ " " ++ d.constraint.text ++ ")"

end ScriptDeps
