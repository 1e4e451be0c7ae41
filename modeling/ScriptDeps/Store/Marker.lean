import ScriptDeps.Store.Basic
import ScriptDeps.Store.Identity

/-! # Markers

    A marker is a link `markers/<name>--<discriminator>` to `../store/<hash>`.
    It says that a script uses an entry.  No run reads markers: they only let
    a clean-up find the entries that nobody uses. -/

namespace ScriptDeps

/-- A marker as found. -/
structure Marker where
  path : Path
  /-- The entry that the link names, if it is a link. -/
  hash : Option Text
  /-- Whether that entry is there. -/
  live : Bool
deriving DecidableEq, Repr

namespace Marker

/-- Whether the marker is that of a script without a file. -/
def isEphemeral (m : Marker) : Bool := Identity.isEphemeralMarker m.path

end Marker

/-- What no script needs: entries without a live marker, and markers whose
    entry is gone. -/
structure Unused where
  entries  : List Path
  dangling : List Path
deriving DecidableEq, Repr

namespace Store

/-! ## Section 1: Writing -/

/-- The marker of an identity. -/
def markerPath (s : Store) (i : Identity) : Path := s.markers.join (Path.ofText i.markerName)

/-- What a marker for the entry of `hash` links to. -/
def markerTarget (hash : Text) : Path :=
  ((⟨Path.upName⟩ : Path).child storeName).join (Path.ofText hash)

/-- Makes the link, in place of one that is there. -/
def replaceMarker (s : Store) (path : Path) (hash : Text) : Program (Except IoError PUnit) :=
  ExceptT.run (m := Program) do
    ExceptT.mk (Program.request (.makeDirectories s.markers))
    -- A link is never made over another one, so the old one goes first.
    match ← ExceptT.lift (Program.request (.removeFile path)) with
    | .ok () | .error .noEntry => ExceptT.mk (Program.request (.link (markerTarget hash) path))
    | .error e => throw e

/-- Lets the marker of `i` name the entry of `hash`.  A marker that cannot be
    made is no failure. -/
def writeMarker (s : Store) (i : Identity) (hash : Text) : Action PUnit := do
  let path := s.markerPath i
  match ← ExceptT.lift (s.replaceMarker path hash) with
  | .ok () => return ()
  | .error e => Action.ask (.log (.markerFailed path e.text))

/-! ## Section 2: Listing -/

/-- The paths in a directory, in order; a missing directory holds none. -/
def listDirectory (dir : Path) : Action (List Path) := do
  match ← Action.ask (.list dir) with
  | .ok names => return names.map dir.child
  | .error .noEntry => return []
  | .error e => throw (.io ("listing " ++ dir.display) e)

/-- Looks at the marker at `path`. -/
def readMarker (s : Store) (path : Path) : Action Marker := do
  match ← Action.ask (.readLink path) with
  | .ok target =>
      -- A target is relative to the directory of the link.
      let live ← Action.ask (.isPresent (s.markers.join target))
      return ⟨path, target.fileName?.map Utf8.decodeLossy, live⟩
  | .error _ => return ⟨path, none, false⟩

/-- Every marker, in order of its path. -/
def listMarkers (s : Store) : Action (List Marker) := do
  (← listDirectory s.markers).mapM s.readMarker

/-- The markers of scripts without a file. -/
def ephemeralMarkers (s : Store) : Action (List Marker) := do
  return (← s.listMarkers).filter Marker.isEphemeral

/-- The entries that live markers name. -/
def referenced (ms : List Marker) : List Text :=
  (ms.filter (·.live)).filterMap (·.hash)

/-- What no script needs, given all markers and entries. -/
def unusedOf (ms : List Marker) (entries : List Path) : Unused where
  entries := entries.filter fun p =>
    match p.fileName? with
    | some n => !(referenced ms).contains (Utf8.decodeLossy n)
    | none => false
  dangling := (ms.filter fun m => !m.live).map (·.path)

/-- What no script needs. -/
def unused (s : Store) : Action Unused := do
  let ms ← s.listMarkers
  return unusedOf ms (← listDirectory s.entries)

end Store
end ScriptDeps
