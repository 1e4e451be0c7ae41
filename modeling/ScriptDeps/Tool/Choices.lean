import ScriptDeps.CommandLine.Basic
import ScriptDeps.Prepare
import ScriptDeps.Settings.Basic

/-! # Options and settings together

    What is said on the command line counts before what is set. -/

namespace ScriptDeps
namespace Tool

/-- What a run of the tool depends on besides its arguments and the files. -/
structure Environment where
  places    : Places
  homeOf?   : Text → Option Path
  /-- The file of settings that the environment names. -/
  settings? : Option Path
  /-- The filter of log events that the environment names. -/
  filter?   : Option Text
  /-- The current directory. -/
  cwd       : Path

def Environment.homes (e : Environment) : Homes := ⟨e.places.home?, e.homeOf?⟩

open CommandLine (Preparation)

/-- How a script is prepared. -/
def prepareOptions (p : Preparation) (s : Settings) (marker : Bool) : Prepare.Options where
  swift := p.swift.getD s.swift
  release := p.release.getD s.release
  noSandbox := p.noSandbox.getD s.noSandbox
  ssh := p.ssh || s.ssh
  skipPackage := p.skipPackage.getD s.skipPackage
  reuse := s.reuse
  marker := marker

/-- The store that settings choose. -/
def store (e : Environment) (s : Settings) : Store := ⟨s.cacheRoot e.places, s.staleness⟩

/-- The script that an argument names, or is. -/
def openScript (e : Environment) (p : Preparation) (script : Text) : Action Script.Source :=
  if p.content then Script.Source.ofContent e.cwd script
  else Script.Source.ofPath e.cwd (Path.ofText script)

end Tool
end ScriptDeps
