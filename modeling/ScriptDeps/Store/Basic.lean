import ScriptDeps.Manifest
import ScriptDeps.Program
import ScriptDeps.Store.Record

/-! # The store of dependency packages

    Below the cache root, `store/<hash>` is the entry of the manifest with
    that digest.  An entry holds the manifest, an empty source file, whatever
    the toolchain builds, and the record of its last resolution.  Entries are
    never locked: of two runs on one entry the last record written stays. -/

namespace ScriptDeps

/-! ## Section 1: Places -/

structure Store where
  root      : Path
  /-- The age in seconds above which a manifest is written again. -/
  staleness : Nat
deriving DecidableEq, Repr

namespace Store

def storeName : Name := Utf8.encode "store".toList
def markersName : Name := Utf8.encode "markers".toList

/-- The directory of an entry in which the toolchain builds. -/
def buildName : Name := Utf8.encode ".build".toList

/-- The directory of all entries. -/
def entries (s : Store) : Path := s.root.child storeName

/-- The directory of all markers. -/
def markers (s : Store) : Path := s.root.child markersName

/-- The directory of the entry for a digest. -/
def entry (s : Store) (hash : Text) : Path := s.entries.join (Path.ofText hash)

def manifestIn (dir : Path) : Path := dir.join (Path.ofText Manifest.manifestFile)
def placeholderIn (dir : Path) : Path := dir.join (Path.ofText Manifest.placeholderFile)
def recordIn (dir : Path) : Path := dir.join (Path.ofText Record.fileName)
def buildIn (dir : Path) : Path := dir.child buildName

/-! ## Section 2: Manifests -/

/-- Makes the entry for a digest, if it is not there. -/
def makeEntry (s : Store) (hash : Text) : Action Path := do
  let dir := s.entry hash
  Action.orFail (← Action.ask (.makeDirectories dir)) fun e => .cacheDirectory dir e
  return dir

/-- Whether something written at `modified` is too old at `now`.  What was
    written in the future is not old at all. -/
def isStale (s : Store) (modified now : Instant) : Bool :=
  now - modified > s.staleness * 1000000000

/-- Whether the manifest in `dir` has to be written: it is missing, differs
    from `manifest`, or is stale. -/
def needsRefresh (s : Store) (dir : Path) (manifest : Bytes) : Action Bool := do
  let path := manifestIn dir
  match ← Action.ask (.read path) with
  | .error .noEntry => return true
  | .error e => throw (.io ("reading manifest " ++ path.display) e)
  | .ok existing =>
      -- The age only matters where the text is the same.
      if existing != manifest then return true
      else
        let status ← Action.orFail (← Action.ask (.status path true)) fun e =>
          .io ("reading metadata of " ++ path.display) e
        return s.isStale status.modified (← Action.ask .now)

/-- Makes the empty source file in `dir`, unless there is one. -/
def ensurePlaceholder (dir : Path) : Action PUnit := do
  let path := placeholderIn dir
  if ← Action.ask (.isPresent path) then return ()
  Action.orFail (← Action.ask (.write path [])) fun e => .io ("writing " ++ path.display) e

/-- Writes the manifest and the empty source file into `dir`. -/
def materialize (dir : Path) (m : Manifest) : Action PUnit := do
  let path := manifestIn dir
  Action.orFail (← Action.ask (.write path m.bytes)) fun e =>
    .io ("writing manifest " ++ path.display) e
  ensurePlaceholder dir

/-! ## Section 3: Records -/

/-- The record in `dir`, if it can be used for the manifest with digest
    `hash`: it can be read, carries that digest, and what was built is still
    there.  No fault of the record is a failure. -/
def loadRecord (dir : Path) (hash : Text) : Action (Option Record) := do
  let path := recordIn dir
  match ← Action.ask (.read path) with
  | .error .noEntry => return none
  | .error e => do
      Action.ask (.log (.recordUnreadable path e.text))
      return none
  | .ok bytes =>
      match Utf8.decode bytes with
      | none => do
          Action.ask (.log (.recordUnreadable path IoError.notText.text))
          return none
      | some content =>
          match Record.ofText? content with
          | none => do
              Action.ask (.log (.recordCorrupt path "not a record".toList))
              return none
          | some r =>
              if r.hash != hash then return none
              -- The arguments name what was built, which may be gone since.
              else if ← Action.ask (.isPresent (buildIn dir)) then return some r
              else return none

/-- Writes a record into its directory. -/
def saveRecord (r : Record) : Action PUnit := do
  match r.render? with
  | none => throw (.record "path contains invalid UTF-8 characters".toList)
  | some content =>
      Action.orFail (← Action.ask (.write r.file (Utf8.encode content))) fun e =>
        .io ("writing record " ++ r.file.display) e

/-! ## Section 4: Removing -/

/-- Removes a file, a link or a whole directory; whether it was there. -/
def removePath (p : Path) : Action Bool := do
  match ← Action.ask (.status p false) with
  | .error .noEntry => return false
  | .error e => throw (.io ("inspecting " ++ p.display) e)
  | .ok status =>
      let removed ← if status.kind = .directory then Action.ask (.removeTree p)
        else Action.ask (.removeFile p)
      Action.orFail removed fun e => .io ("removing " ++ p.display) e
      return true

/-- Removes the whole cache. -/
def removeAll (s : Store) : Action Bool := removePath s.root

/-- The total size of the regular files in the tree at `p`. -/
def diskUsage (p : Path) : Action Nat := do
  return Visit.fileBytes (← Action.ask (.walk p))

end Store
end ScriptDeps
