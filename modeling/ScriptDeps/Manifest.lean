import ScriptDeps.Dependency
import ScriptDeps.Digest
import ScriptDeps.Platform

/-! # The dependencies package

    The manifest of a package that does nothing but depend on everything a
    script declares.  Each dependency becomes an `Entry`, which holds the
    values that the manifest states; `render` writes the entries into a fixed
    frame.  The digest of the manifest names its place in the store. -/

namespace ScriptDeps
namespace Manifest

/-! ## Section 1: Names -/

def packageName : Text := "SwiftSH_DummyDepsPackage".toList
def productName : Text := "SwiftSH_Deps".toList
def targetName : Text := "SwiftSH_DummyDepsLib".toList

/-- The only source file of the target, always empty. -/
def placeholderFile : Text := "empty.swift".toList

def manifestFile : Text := "Package.swift".toList

/-! ## Section 2: Entries -/

/-- Which revisions of a fetched package are allowed. -/
inductive Requirement where
  | atLeast (version : Text)
  | revision (ref : Text)
  | unbounded
deriving DecidableEq, Repr

/-- Where the manifest takes a package from. -/
inductive Location where
  | path (p : Text)
  | url (u : Text) (r : Requirement)
deriving DecidableEq, Repr

/-- What the manifest states about one dependency. -/
structure Entry where
  location : Location
  product  : Text
  package  : Text
deriving DecidableEq, Repr

/-- What a manifest depends on besides the dependencies. -/
structure Options where
  /-- Fetch shorthand origins over SSH rather than HTTPS. -/
  ssh      : Bool
  platform : Platform
deriving DecidableEq, Repr

/-- The address of a repository on the well-known host. -/
def hostUrl (ssh : Bool) (owner repo : Text) : Text :=
  (if ssh then "git@github.com:" else "https://github.com/") ++ owner ++ "/" ++ repo ++ ".git"

/-- The name of the last component of a URL, without its extension. -/
def lastStem (url : Text) : Text :=
  let pieces := Cut.pieces (· = '/') (Cut.trimEnd (· = '/') url)
  let last := pieces.getLastD url
  match (Path.ofText last).stem? with
  | some stem => Utf8.decodeLossy stem
  | none => last

/-- The name the toolchain gives to the package of a dependency. -/
def packageOf (d : Dependency) : Text :=
  match d.origin with
  | .directory path _ =>
      match path.stem? with
      | some stem => Utf8.decodeLossy stem
      | none => d.module
  | .url t => lastStem t
  | .remote t =>
      match Cut.splitFirst (· = ':') t with
      | some (_, path) => lastStem path
      | none => lastStem t
  | .shorthand _ repo => repo.getD d.module

def requirementOf : Constraint → Requirement
  | .upToNextMajor v => .atLeast v.text
  | .exactly v => .revision v.text
  | .reference r => .revision r
  | .latest => .unbounded

def locationOf (ssh : Bool) (d : Dependency) : Location :=
  match d.origin with
  | .directory path base => .path (Origin.location path base).display
  | .url t => .url t (requirementOf d.constraint)
  | .remote t => .url t (requirementOf d.constraint)
  | .shorthand owner repo =>
      .url (hostUrl ssh owner (repo.getD d.module)) (requirementOf d.constraint)

/-- The entry of a dependency. -/
def entryOf (ssh : Bool) (d : Dependency) : Entry :=
  ⟨locationOf ssh d, d.module, packageOf d⟩

/-! ## Section 3: String literals -/

/-- A character inside a string literal.  Printable ASCII stands for itself,
    apart from quotes and backslashes. -/
def escapeChar (c : Char) : Text :=
  if c = '\t' then ['\\', 't']
  else if c = '\r' then ['\\', 'r']
  else if c = '\n' then ['\\', 'n']
  else if c = '\'' then ['\\', '\'']
  else if c = '"' then ['\\', '"']
  else if c = '\\' then ['\\', '\\']
  else if 0x20 ≤ c.toNat ∧ c.toNat ≤ 0x7E then [c]
  else ['\\', 'u', '{'] ++ Hex.ofNat c.toNat ++ ['}']

/-- The inside of a string literal that stands for `t`. -/
def escape (t : Text) : Text := t.flatMap escapeChar

/-- The string literal that stands for `t`. -/
def literal (t : Text) : Text := '"' :: escape t ++ ['"']

/-! ## Section 4: Rendering -/

/-- The range that admits every version. -/
def unboundedRange : Text := "Version(0,0,0)...Version(1_000_000,0,0)".toList

def Requirement.render : Requirement → Text
  | .atLeast v => "from: " ++ literal v
  | .revision r => "revision: " ++ literal r
  | .unbounded => unboundedRange

def Location.render : Location → Text
  | .path p => ".package(path: " ++ literal p ++ ")"
  | .url u r => ".package(url: " ++ literal u ++ ", " ++ r.render ++ ")"

/-- The entry's line in the list of products. -/
def Entry.renderProduct (e : Entry) : Text :=
  ".product(name: " ++ literal e.product ++ ", package: " ++ literal e.package ++ ")"

/-- The frame up to the list of packages. -/
def opening (platform : Platform) : Text :=
  "// swift-tools-version:5.7\nimport PackageDescription\n\n\nlet package = Package(\n\tname: \""
    ++ packageName ++ "\",\n\tplatforms: " ++ platform.clause
    ++ ",\n\tproducts: [.library(name: \"" ++ productName ++ "\", targets: [\"" ++ targetName
    ++ "\"])],\n\tdependencies: [\n\t\t"

/-- The frame between the packages and the products. -/
def middle : Text :=
  "\n\t],\n\ttargets: [\n\t\t.target(name: \"" ++ targetName ++ "\", dependencies: [\n\t\t\t"

/-- The frame after the products. -/
def closing : Text :=
  "\n\t\t], path: \".\", sources: [\"" ++ placeholderFile ++ "\"])\n\t]\n)\n"

/-- Writes entries into the frame. -/
def render (platform : Platform) (entries : List Entry) : Text :=
  opening platform
    ++ Cut.join ",\n\t\t".toList (entries.map fun e => e.location.render)
    ++ middle
    ++ Cut.join ",\n\t\t\t".toList (entries.map Entry.renderProduct)
    ++ closing

end Manifest

/-! ## Section 5: The manifest of a script -/

/-- The text of the manifest for the given dependencies. -/
def manifestText (options : Manifest.Options) (ds : List Dependency) : Text :=
  Manifest.render options.platform (ds.map (Manifest.entryOf options.ssh))

/-- The bytes of a manifest, filed under their digest. -/
structure Manifest where
  bytes : Bytes
deriving DecidableEq, Repr

namespace Manifest

/-- The manifest for the given dependencies. -/
def ofDependencies (options : Options) (ds : List Dependency) : Manifest :=
  ⟨Utf8.encode (manifestText options ds)⟩

/-- The digest that the manifest is filed under. -/
def hash (m : Manifest) : Text := sha256Hex m.bytes

end Manifest
end ScriptDeps
