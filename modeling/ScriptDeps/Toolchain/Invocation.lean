import ScriptDeps.Program

/-! # Completing an invocation

    The arguments shown by the toolchain are not always enough.  Recent
    toolchains name the directory above `Modules` as include path, binary
    frameworks need the path of their headers, and system libraries that of
    their module map. -/

namespace ScriptDeps
namespace Invocation

/-! ## Section 1: Checking -/

/-- Whether some argument starts with `start`. -/
def hasFlag (start : String) (args : List Text) : Bool :=
  args.any fun a => start.toList.isPrefixOf a

/-- Whether an invocation has no include path, no library path or no library. -/
def isOdd (args : List Text) : Bool :=
  !(hasFlag "-I" args && hasFlag "-L" args && hasFlag "-l" args)

/-- What is to be said about an invocation. -/
def events (args : List Text) : List Log.Event :=
  if isOdd args then [.oddInvocation args] else []

/-! ## Section 2: Include paths -/

/-- The include path below `path` that is preferred if it is a directory. -/
def modulesPath (path : Text) : Text := Cut.trimEnd (· = '/') path ++ "/Modules"

/-- `path`, or its `Modules` directory if there is one. -/
def preferModules (path : Text) : Program Text := do
  let modules := modulesPath path
  if ← Program.request (.isDirectory (Path.ofText modules)) then return modules
  else return path

/-- Replaces include paths by their `Modules` directories, from left to
    right: the word after a bare `-I`, and the rest of a word that starts
    with `-I`. -/
def preferModulesAll : List Text → Program (List Text)
  | [] => pure []
  | ['-', 'I'] :: path :: rest => do
      let path ← preferModules path
      return ['-', 'I'] :: path :: (← preferModulesAll rest)
  | ('-' :: 'I' :: path) :: rest => do
      -- A bare `-I` at the end has no path to change.
      if path.isEmpty then return ['-', 'I'] :: (← preferModulesAll rest)
      else
        let path ← preferModules path
        return ('-' :: 'I' :: path) :: (← preferModulesAll rest)
  | word :: rest => do return word :: (← preferModulesAll rest)

/-- An argument that names an include path. -/
def includeArg (p : Path) : Text := "-I" ++ p.display

/-! ## Section 3: Binary frameworks -/

/-- The last name of a path in lower case. -/
def lowerName? (p : Path) : Option Text :=
  p.fileName?.map fun n => (Utf8.decodeLossy n).map Text.lowerChar

/-- Whether `p` lies directly in a slice for macOS of a binary framework. -/
def isInMacSlice (p : Path) : Bool :=
  match p.parent? with
  | none => false
  | some slice =>
      ((lowerName? slice).any fun n => "macos-".toList.isPrefixOf n) &&
        (slice.parent?.bind Path.extension?) = some (Utf8.encode "xcframework".toList)

/-- The headers that a node of a slice stands for. -/
def headersOf? (p : Path) : Option Path :=
  if !isInMacSlice p then none
  else if p.extension? = some (Utf8.encode "framework".toList) then
    some (p.join (Path.ofText "Headers".toList))
  else if lowerName? p = some "headers".toList then some p
  else none

/-- The header paths in a listed tree.  After one is found, what lies below
    the node is skipped; if the node is no directory, so is what follows it
    in its directory. -/
def headerPaths (vs : List Visit) : List Path :=
  match vs with
  | [] => []
  | v :: rest =>
      match headersOf? v.path with
      | some p => p :: headerPaths (v.skipFrom rest)
      | none => headerPaths rest
termination_by vs.length
decreasing_by
  · have := v.skipFrom_length rest
    simp
    omega
  · simp

/-! ## Section 4: System libraries -/

/-- Whether a visited node is a module map by its name. -/
def isModuleMap (v : Visit) : Bool :=
  v.kind = .file && lowerName? v.path = some "module.modulemap".toList

/-- Whether the content of a module map declares a system library. -/
def declaresSystem (content : Bytes) : Bool :=
  match Utf8.decode content with
  | some t => (Cut.splitAt? "[system]".toList t).isSome
  | none => false

/-- The directories of the module maps of system libraries. -/
def systemPaths : List Visit → Program (List Path)
  | [] => pure []
  | v :: rest => do
      if !isModuleMap v then systemPaths rest
      else match ← Program.request (.read v.path) with
        | .error _ => systemPaths rest
        | .ok content =>
            let later ← systemPaths rest
            match declaresSystem content, v.path.parent? with
            | true, some dir => return dir :: later
            | _, _ => return later

/-! ## Section 5: All of it -/

/-- Completes the invocation of the package in `dir`. -/
def complete (args : List Text) (dir : Path) : Program (List Text) := do
  let build := dir.join (Path.ofText ".build".toList)
  let args ← preferModulesAll args
  let artifacts ← Program.request (.walk (build.join (Path.ofText "artifacts".toList)))
  let checkouts ← Program.request (.walk (build.join (Path.ofText "checkouts".toList)))
  let system ← systemPaths checkouts
  return args ++ (headerPaths artifacts).map includeArg ++ system.map includeArg

end Invocation
end ScriptDeps
