import ScriptDeps.Dependency

/-! # Reading origins

    The forms are tried in a fixed order: `@owner/repo`, `user@host:path`,
    the bare `owner/repo`, URLs with a scheme, and last directories.  Only a
    URL and a directory can be refused. -/

namespace ScriptDeps
namespace Origin

/-! ## Section 1: Model -/

/-- Who is asking: the script's directory and the home directories. -/
structure Place where
  folder   : Path
  home?    : Option Path
  homeOf?  : Text → Option Path

/-- Why an origin is refused. -/
inductive Refusal where
  | unknownUser (user : Text)
  | noHome
  | malformedUrl (text : Text)
deriving DecidableEq, Repr

def Refusal.message : Refusal → Text
  | .unknownUser user => "cannot get home directory for user " ++ user
  | .noHome => "cannot get home directory".toList
  | .malformedUrl text => "malformed URL " ++ text

/-- An accepted origin; `bare` says that it was written as `owner/repo`
    without the `@`. -/
structure Reading where
  origin : Origin
  bare   : Bool
deriving DecidableEq, Repr

/-! ## Section 2: Character classes -/

def isOwnerChar (c : Char) : Bool := Text.isLetterOrDigit c || c = '-'

def isRepoChar (c : Char) : Bool := Text.isLetterOrDigit c || c = '.' || c = '_' || c = '-'

def isHostChar (c : Char) : Bool := Text.isLetterOrDigit c || c = '.' || c = '-'

def isRemotePathChar (c : Char) : Bool := isRepoChar c || c = '/'

def isSchemeChar (c : Char) : Bool := Text.isLetterOrDigit c || c = '+' || c = '-' || c = '.'

/-- One or more characters, all of one class. -/
def isWord (p : Char → Bool) (t : Text) : Bool := !t.isEmpty && t.all p

/-! ## Section 3: The forms -/

/-- Drops one final `.git` unless nothing would remain. -/
def dropGit (repo : Text) : Text :=
  match Cut.before? ".git".toList repo with
  | some [] | none => repo
  | some stem => stem

/-- The owner and the repository name, if `t` has the form `owner/repo`. -/
def ownerRepo? (t : Text) : Option (Text × Text) :=
  match Cut.splitFirst (· = '/') t with
  | none => none
  | some (owner, rest) =>
      let repo := dropGit rest
      if isWord isOwnerChar owner && isWord isRepoChar repo then some (owner, repo) else none

/-- The form `@owner` or `@owner/repo`. -/
def shorthand? : Text → Option Origin
  | '@' :: t =>
      if t.contains '/' then (ownerRepo? t).map fun (owner, repo) => .shorthand owner (some repo)
      else if isWord isOwnerChar t then some (.shorthand t none)
      else none
  | _ => none

/-- Whether `t` has the form `user@host:path`. -/
def isRemote (t : Text) : Bool :=
  match Cut.splitFirst (· = '@') t with
  | none => false
  | some (user, rest) =>
      match Cut.splitFirst (· = ':') rest with
      | none => false
      | some (host, path) =>
          isWord Text.isLetterOrDigit user && isWord isHostChar host && isWord isRemotePathChar path

/-- Whether `t` starts with a URI scheme and a colon. -/
def hasScheme (t : Text) : Bool :=
  match Cut.splitFirst (· = ':') t with
  | some (c :: scheme, _) => Text.isLetter c && scheme.all isSchemeChar
  | _ => false

/-- The path that `t` stands for: a leading `~` or `~user` is replaced by the
    home directory it names. -/
def expandHome (place : Place) : Text → Except Refusal Path
  | '~' :: rest =>
      -- The name of a user goes up to the first slash.
      let (user, tail) := rest.span (· != '/')
      if user.isEmpty then
        match place.home? with
        | some home => .ok ⟨home.bytes ++ Utf8.encode tail⟩
        | none => .error .noHome
      else
        match place.homeOf? user with
        | some home => .ok ⟨home.bytes ++ Utf8.encode tail⟩
        | none => .error (.unknownUser user)
  | t => .ok (Path.ofText t)

/-! ## Section 4: Reading -/

/-- Reads the origin part of an annotation. -/
def ofText (place : Place) (t : Text) : Except Refusal Reading :=
  match shorthand? t with
  | some origin => .ok ⟨origin, false⟩
  | none =>
      if isRemote t then .ok ⟨.remote t, false⟩
      else match ownerRepo? t with
        | some (owner, repo) => .ok ⟨.shorthand owner (some repo), true⟩
        | none =>
            if hasScheme t then
              if t.any fun c => Text.isBlank c || Text.isControl c then .error (.malformedUrl t)
              else .ok ⟨.url t, false⟩
            else match expandHome place t with
              | .ok path => .ok ⟨.directory path place.folder, false⟩
              | .error e => .error e

end Origin
end ScriptDeps
