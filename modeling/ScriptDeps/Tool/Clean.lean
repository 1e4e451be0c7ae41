import ScriptDeps.SizeText
import ScriptDeps.Tool.Choices

/-! # Cleaning the cache

    Each target removes markers or store entries.  Entries that nobody uses
    are removed last, unless that is not wanted.  A dry run only says what
    would be removed. -/

namespace ScriptDeps

/-- What is left of the path behind `base`, if its components start with
    those of `base`. -/
def Path.behind? (base p : Path) : Option Path :=
  (Cut.after? base.components p.components).map fun cs =>
    cs.foldl (fun q c => q.join c.path) ⟨[]⟩

namespace Tool

/-! ## Section 1: Targets -/

inductive Target where
  /-- The marker of one script. -/
  | script (p : Path)
  /-- Entries without a live marker, and markers whose entry is gone. -/
  | unused
  /-- The markers of scripts without a file. -/
  | ephemeral
  /-- The whole cache. -/
  | all
deriving DecidableEq, Repr

namespace Target

def ofText (t : Text) : Target :=
  if t = "unused".toList then unused
  else if t = "ephemeral".toList then ephemeral
  else if t = "all".toList then all
  else script (Path.ofText t)

/-- Whether two targets are the same; of a path its components count. -/
def same : Target → Target → Bool
  | script p, script q => p.same q
  | t, u => t = u

/-- Adds a target that is not there yet. -/
def add (ts : List Target) (t : Target) : List Target :=
  if ts.any (same t) then ts else ts ++ [t]

/-- The targets in the order in which they are cleaned.  `endUnused` puts
    what is unused at the end. -/
def plan (args : List Text) (endUnused : Bool) : List Target :=
  let targets := args.map ofText
  -- Without the cache there is nothing left for other targets.
  if targets.contains all then [all]
  else
    let targets := if targets.isEmpty then [ephemeral] else targets
    let targets := if endUnused then targets.filter (· != unused) else targets
    targets.foldl add [] ++ if endUnused then [unused] else []

end Target

/-! ## Section 2: Removing -/

structure Clean where
  store  : Store
  dryRun : Bool
deriving DecidableEq, Repr

/-- How much has been removed. -/
structure Tally where
  items : Nat := 0
  bytes : Nat := 0
deriving DecidableEq, Repr

namespace Clean

/-- How a path is shown: from the root of the cache on. -/
def shown (c : Clean) (p : Path) : Path :=
  match c.store.root.behind? p with
  | some q => if q.bytes.isEmpty then p else q
  | none => p

/-- The line for a removed item. -/
def itemLine (c : Clean) (p : Path) (size : Nat) : Text :=
  "  • ".toList ++ (c.shown p).display ++ " (".toList ++ sizeText size ++ [')']

/-- Removes a path, or says that it would; whether it was there. -/
def remove (c : Clean) (t : Tally) (p : Path) : Action (Bool × Tally) := do
  match ← Action.ask (.status p false) with
  | .error _ => return (false, t)
  | .ok status => do
      -- A link takes no room, and what it leads to stays.
      let size ← if status.kind = .directory then Store.diskUsage p else pure 0
      let gone ← if c.dryRun then pure true else Store.removePath p
      if gone then
        Action.ask (.say (c.itemLine p size))
        return (true, ⟨t.items + 1, t.bytes + size⟩)
      else return (false, t)

/-- Removes several paths in order. -/
def removeAll (c : Clean) (t : Tally) : List Path → Action Tally
  | [] => return t
  | p :: ps => do
      let (_, t) ← c.remove t p
      c.removeAll t ps

/-- Cleans one target. -/
def target (c : Clean) (cwd : Path) (t : Tally) : Target → Action Tally
  | .all => return (← c.remove t c.store.root).2
  | .ephemeral => do c.removeAll t ((← c.store.ephemeralMarkers).map (·.path))
  | .unused => do
      let u ← c.store.unused
      c.removeAll t (u.dangling ++ u.entries)
  | .script p => do
      let full ← Action.orFail (p.absolute cwd) fun e => .io ("resolving " ++ p.display) e
      let (found, t) ← c.remove t (c.store.markerPath (Identity.ofPath full))
      if !found then Action.ask (.say ("No cache entry for " ++ p.display))
      return t

/-- Cleans several targets in order. -/
def targets (c : Clean) (cwd : Path) (t : Tally) : List Target → Action Tally
  | [] => return t
  | x :: xs => do c.targets cwd (← c.target cwd t x) xs

/-! ## Section 3: The whole -/

/-- The lines that sum a clean-up up. -/
def summary (c : Clean) (t : Tally) : List Text :=
  if t.items = 0 then ["Nothing to clean.".toList]
  else if c.dryRun then
    [[], "Dry run - would remove ".toList ++ Decimal.ofNat t.items ++ " item(s), ".toList
      ++ sizeText t.bytes ++ ['.']]
  else
    ["✓ removed ".toList ++ Decimal.ofNat t.items ++ " item(s), freed ".toList ++ sizeText t.bytes]

/-- Writes lines to standard output. -/
def sayAll : List Text → Action PUnit
  | [] => return ()
  | l :: ls => do
      Action.ask (.say l)
      sayAll ls

end Clean

/-- Cleans the targets that are named. -/
def clean (e : Environment) (s : Settings) (args : List Text) (dryRun keepUnused : Bool) :
    Action PUnit := do
  let c : Clean := ⟨store e s, dryRun⟩
  let t ← c.targets e.cwd {} (Target.plan args !keepUnused)
  Clean.sayAll (c.summary t)

end Tool
end ScriptDeps
