import ScriptDeps.Places
import ScriptDeps.Script.Source
import ScriptDeps.Store.Marker
import ScriptDeps.Toolchain.Resolve

/-! # Preparing a script

    Scans a script, finds or makes the store entry of its dependencies, and
    returns the arguments with which the toolchain runs it.  The toolchain is
    asked only where no usable record is there. -/

namespace ScriptDeps

/-- The version of this tool, to which a bare import of the companion library
    is pinned. -/
def toolVersion : Version := ⟨3, 0, 0, [], []⟩

namespace Prepare

/-! ## Section 1: Model -/

structure Options where
  swift       : Path
  release     : Bool
  noSandbox   : Bool
  ssh         : Bool
  /-- Do without a package where nothing is declared. -/
  skipPackage : Bool
  /-- Use the record of an earlier resolution. -/
  reuse       : Bool
  /-- Leave a marker for the script. -/
  marker      : Bool
  platform    : Platform := .unspecified
deriving DecidableEq, Repr

/-- What it takes to hand the script to the toolchain. -/
structure Prepared where
  args     : List Text
  /-- The script's path, or `-` if its content is piped. -/
  script   : Text
  /-- The content of a script that cannot be read again. -/
  stdin    : Option Bytes
  record   : Option Record
deriving DecidableEq, Repr

def Options.manifest (o : Options) : Manifest.Options := ⟨o.ssh, o.platform⟩

def Options.resolve (o : Options) : Resolve.Options := ⟨o.swift, o.release, o.noSandbox⟩

/-! ## Section 2: Steps -/

/-- Scans a source, giving each notice once. -/
def scan (homes : Homes) (source : Script.Source) : Action (Script.Scan × Bytes) := do
  let content ← source.read
  let place : Origin.Place := ⟨source.folder, homes.home?, homes.homeOf?⟩
  let scan := Script.scan ⟨place, toolVersion⟩ content
  Action.logAll (({} : Log.Given).limit scan.events).2
  return (scan, content)

/-- Brings the manifest of an entry up to date; whether it had to be written. -/
def refresh (store : Store) (dir : Path) (m : Manifest) : Action Bool := do
  let refreshed ← store.needsRefresh dir m.bytes
  if refreshed then Store.materialize dir m else Store.ensurePlaceholder dir
  return refreshed

/-- The record that saves asking the toolchain, if there is one. -/
def reusable (o : Options) (dir : Path) (m : Manifest) (refreshed : Bool) :
    Action (Option Record) := do
  if o.reuse && !refreshed then
    return (← Store.loadRecord dir m.hash).filter fun r => r.releaseMode = o.release
  else return none

/-- Asks the toolchain and records its answer. -/
def resolve (o : Options) (dir : Path) (m : Manifest) : Action Record := do
  Action.ask (.progress "Resolving dependencies...".toList)
  let args ← Resolve.invocation dir o.resolve
  let record : Record :=
    ⟨m.hash, dir, args, o.release, Timestamp.ofNanoseconds (← Action.ask .now)⟩
  -- Without a record the next run only has to ask again.
  match ← ExceptT.lift (ExceptT.run (Store.saveRecord record)) with
  | .ok () => return record
  | .error f => do
      Action.ask (.log (.recordNotSaved f.message))
      return record

/-- The record for the manifest `m`, from the store or from the toolchain. -/
def record (o : Options) (store : Store) (m : Manifest) : Action Record := do
  let dir ← store.makeEntry m.hash
  let refreshed ← refresh store dir m
  match ← reusable o dir m refreshed with
  | some r => do
      Action.ask (.log (.reusing r.resolvedAt.display))
      return r
  | none => resolve o dir m

end Prepare

/-! ## Section 3: The whole -/

/-- Prepares the script of a source. -/
def prepare (homes : Homes) (o : Prepare.Options) (store : Store) (source : Script.Source) :
    Action Prepare.Prepared := do
  let (scan, content) ← Prepare.scan homes source
  let stdin := if source.isReplayable then none else some content
  if scan.dependencies.isEmpty && o.skipPackage then
    Action.ask (.log .nothingToResolve)
    return ⟨[], source.argument, stdin, none⟩
  let m := Manifest.ofDependencies o.manifest scan.dependencies
  let record ← Prepare.record o store m
  -- Every failure ends the run before this, so a failed run leaves no marker.
  if o.marker then store.writeMarker (source.identity scan.hash) m.hash
  return ⟨record.args, source.argument, stdin, some record⟩

end ScriptDeps
