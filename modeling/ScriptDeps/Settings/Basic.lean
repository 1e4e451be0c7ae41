import ScriptDeps.Places
import ScriptDeps.Text.Hex

/-! # Settings

    What a user can set for all scripts.  Every setting has a default, and
    belongs to a section of the file of settings. -/

namespace ScriptDeps

structure Settings where
  /-- How log events are shown: `json`, or as text otherwise. -/
  logFormat      : Text := "text".toList
  /-- The toolchain's driver; the compiler is looked up next to it. -/
  swift          : Path := "swift"
  /-- Build dependencies in release mode. -/
  release        : Bool := true
  /-- Resolve dependencies without a sandbox. -/
  noSandbox      : Bool := false
  /-- Fetch `@owner/repo` over SSH. -/
  ssh            : Bool := false
  /-- Run scripts without dependencies without a package. -/
  skipPackage    : Bool := true
  /-- The root of the cache, if it is not the user's. -/
  root           : Option Path := none
  /-- The age in hours after which a manifest is written again. -/
  stalenessHours : Nat := 168
  /-- Use the record of an earlier resolution. -/
  reuse          : Bool := true
deriving DecidableEq, Repr, Inhabited

namespace Settings

/-! ## Section 1: Names -/

inductive Field where
  | logFormat | swift | release | noSandbox | ssh | skipPackage | root | stalenessHours | reuse
deriving DecidableEq, Repr

def Field.name : Field → Text
  | logFormat => "log_format".toList
  | swift => "swift_path".toList
  | release => "build_dependencies_in_release_mode".toList
  | noSandbox => "disable_sandbox_for_package_resolution".toList
  | ssh => "use_ssh_for_github".toList
  | skipPackage => "skip_package_on_no_remote_modules".toList
  | root => "root".toList
  | stalenessHours => "staleness_hours".toList
  | reuse => "reuse_resolved_invocation".toList

inductive Group where
  | general | toolchain | dependencies | cache
deriving DecidableEq, Repr

namespace Group

/-- The sections of the file, in order. -/
def all : List Group := [general, toolchain, dependencies, cache]

def name : Group → Text
  | general => "general".toList
  | toolchain => "toolchain".toList
  | dependencies => "dependencies".toList
  | cache => "cache".toList

/-- The settings of a section, in order. -/
def fields : Group → List Field
  | general => [.logFormat]
  | toolchain => [.swift, .release, .noSandbox]
  | dependencies => [.ssh, .skipPackage]
  | cache => [.root, .stalenessHours, .reuse]

end Group

/-- The section of a setting. -/
def Field.group : Field → Group
  | logFormat => .general
  | swift | release | noSandbox => .toolchain
  | ssh | skipPackage => .dependencies
  | root | stalenessHours | reuse => .cache

theorem Field.mem_fields_iff (f : Field) (g : Group) : f ∈ g.fields ↔ f.group = g := by
  cases f <;> cases g <;> decide

/-! ## Section 2: What settings mean -/

/-- The root of the cache. -/
def cacheRoot (s : Settings) (p : Places) : Path := s.root.getD p.cacheRoot

/-- The age in seconds after which a manifest is written again, as far as
    sixty-four bits can hold it. -/
def staleness (s : Settings) : Nat := min (s.stalenessHours * 3600) (Decimal.wordLimit - 1)

end Settings
end ScriptDeps
