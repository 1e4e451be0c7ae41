import ScriptDeps.Digest
import ScriptDeps.Path

/-! # Script identities

    The name under which the store remembers a script: the stem of its file
    and the digest of its absolute path, or, for a script that has no file, a
    fixed word and the digest of its content. -/

namespace ScriptDeps

/-- Who a marker belongs to. -/
structure Identity where
  name          : Text
  discriminator : Text
deriving DecidableEq, Repr

namespace Identity

/-! ## Section 1: The kinds of identity -/

/-- The name of scripts read from standard input or a pipe. -/
def stdinName : Text := "stdin".toList

/-- The name of scripts given on the command line. -/
def inlineName : Text := "inline-content".toList

/-- What stands between name and discriminator. -/
def separator : Text := "--".toList

/-- The identity of the script file at an absolute path. -/
def ofPath (absolute : Path) : Identity :=
  ⟨(absolute.stem?.map Utf8.decodeLossy).getD "unknown".toList, sha256Hex absolute.bytes⟩

/-- The identity of a script read from standard input. -/
def stdin (contentHash : Text) : Identity := ⟨stdinName, contentHash⟩

/-- The identity of a script given on the command line. -/
def inlined (contentHash : Text) : Identity := ⟨inlineName, contentHash⟩

/-! ## Section 2: Marker names -/

/-- The file name of the marker. -/
def markerName (i : Identity) : Text := i.name ++ separator ++ i.discriminator

/-- Whether a marker name is that of a script without a file. -/
def isEphemeralName (name : Text) : Bool :=
  [stdinName, inlineName].any fun n => (n ++ separator).isPrefixOf name

/-- Whether the marker at `path` is that of a script without a file. -/
def isEphemeralMarker (path : Path) : Bool :=
  match path.fileName? with
  | some name => isEphemeralName (Utf8.decodeLossy name)
  | none => false

end Identity
end ScriptDeps
