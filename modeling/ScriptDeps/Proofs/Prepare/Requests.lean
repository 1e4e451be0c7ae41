import ScriptDeps.Proofs.Prepare.Run
import ScriptDeps.Tool.Build
import ScriptDeps.Tool.Run

/-! # What preparing a script asks for

    Whatever the answers are, a script is opened by looking around and making
    one private file (`opens_openScript`, `opens_openCopy`), and preparing it
    asks for nothing but changes of its entry and its marker and for the
    toolchain (`asks_prepare`). -/

namespace ScriptDeps

/-! ## Section 1: Model -/

/-- What preparing the script of `source` may ask for. -/
inductive Prepare.Asks (s : Store) (source : Script.Source) : Request → Prop
  | looks {r : Request} (h : r.looks = true) : Asks s source r
  | makeEntry (mf : Manifest) : Asks s source (.makeDirectories (s.entry mf.hash))
  | writeManifest (mf : Manifest) (content : Bytes) :
      Asks s source (.write (Store.manifestIn (s.entry mf.hash)) content)
  | writePlaceholder (mf : Manifest) :
      Asks s source (.write (Store.placeholderIn (s.entry mf.hash)) [])
  | writeRecord (mf : Manifest) (content : Bytes) :
      Asks s source (.write (Store.recordIn (s.entry mf.hash)) content)
  | capture (call : Call) : Asks s source (.capture call)
  | makeMarkers : Asks s source (.makeDirectories s.markers)
  | removeMarker (script : Bytes) :
      Asks s source (.removeFile (s.markerPath (source.identity (sha256Hex script))))
  | linkMarker (script : Bytes) (target : Path) :
      Asks s source (.link target (s.markerPath (source.identity (sha256Hex script))))

/-- Whether opening a script may ask for this: to look around, and to make,
    fill and remove a private file. -/
def Request.opens : Request → Bool
  | temporary .. | write .. | setMode .. | removeFile _ => true
  | r => r.looks

/-- Whether running a prepared script may ask for this. -/
def Request.runs : Request → Bool
  | execute .. => true
  | r => r.looks

variable {s : Store} {source : Script.Source}

theorem Request.opens_of_looks {r : Request} (h : r.looks = true) : r.opens = true := by
  cases r <;> first | exact h | rfl

theorem Request.runs_of_looks {r : Request} (h : r.looks = true) : r.runs = true := by
  cases r <;> first | exact h | rfl

section

variable {α : Type} {a : Action α}

theorem Action.Looks.asks (ha : a.Looks) : a.Only (Prepare.Asks s source) :=
  Program.Only.mono ha fun _ => .looks

theorem Action.Looks.opens (ha : a.Looks) : a.Only (·.opens = true) :=
  Program.Only.mono ha fun _ => Request.opens_of_looks

theorem Action.Looks.runs (ha : a.Looks) : a.Only (·.runs = true) :=
  Program.Only.mono ha fun _ => Request.runs_of_looks

end

theorem Action.only_ask {P : Request → Prop} {r : Request} (hr : P r) : (Action.ask r).Only P :=
  ⟨hr, fun _ => trivial⟩

/-! ## Section 2: The entry -/

namespace Store

theorem gives_makeEntry (s : Store) (hash : Text) : (s.makeEntry hash).Gives (· = s.entry hash) :=
  Action.Gives.of_bind fun _ => Action.Gives.of_bind fun _ => Action.gives_pure rfl

theorem asks_makeEntry (mf : Manifest) : (s.makeEntry mf.hash).Only (Prepare.Asks s source) :=
  (Action.only_ask (.makeEntry mf)).bind fun made => (Action.only_orFail made _).bind fun _ =>
    Action.only_pure _

theorem asks_ensurePlaceholder (mf : Manifest) :
    (ensurePlaceholder (s.entry mf.hash)).Only (Prepare.Asks s source) := by
  refine (Action.only_ask (.looks rfl)).bind fun present => ?_
  split
  · exact Action.only_pure _
  · exact (Action.only_ask (.writePlaceholder mf)).bind fun written => Action.only_orFail written _

theorem asks_materialize (mf : Manifest) :
    (materialize (s.entry mf.hash) mf).Only (Prepare.Asks s source) :=
  (Action.only_ask (.writeManifest mf _)).bind fun written =>
    (Action.only_orFail written _).bind fun _ => asks_ensurePlaceholder mf

theorem asks_saveRecord (mf : Manifest) {r : Record} (hr : r.directory = s.entry mf.hash) :
    (saveRecord r).Only (Prepare.Asks s source) := by
  have hfile : r.file = recordIn (s.entry mf.hash) := by rw [Record.file, hr]; rfl
  unfold saveRecord
  split
  · exact Action.only_throw _
  · rw [hfile]
    exact (Action.only_ask (.writeRecord mf _)).bind fun written => Action.only_orFail written _

/-! ## Section 3: The marker -/

theorem asks_writeMarker (script : Bytes) (hash : Text) :
    (s.writeMarker (source.identity (sha256Hex script)) hash).Only (Prepare.Asks s source) := by
  have hreplace : (s.replaceMarker (s.markerPath (source.identity (sha256Hex script))) hash).Only
      (Prepare.Asks s source) :=
    only_replaceMarker .makeMarkers (.removeMarker script) (.linkMarker script _)
  refine (Action.only_lift hreplace).bind fun made => ?_
  cases made with
  | ok _ => exact Action.only_pure _
  | error e => exact Action.only_ask (.looks rfl)

end Store

/-! ## Section 4: Preparing -/

theorem Resolve.asks_invocation (dir : Path) (o : Resolve.Options) :
    (Resolve.invocation dir o).Only (Prepare.Asks s source) := by
  have hcapture : (Resolve.capture dir o).Only (Prepare.Asks s source) := by
    rw [capture_eq]
    exact (Action.only_ask (.capture _)).bind fun answer => (looks_hear o answer).asks
  exact hcapture.bind fun args => (Action.looks_logAll _).asks.bind fun _ =>
    Action.only_lift ((only_complete args dir).mono fun _ => .looks)

namespace Prepare

theorem asks_resolve (o : Options) (mf : Manifest) :
    (resolve o (s.entry mf.hash) mf).Only (Asks s source) := by
  refine (Action.only_ask (.looks rfl)).bind fun _ =>
    (Resolve.asks_invocation _ o.resolve).bind fun args =>
      (Action.only_ask (.looks rfl)).bind fun now => ?_
  refine (Action.only_lift (Store.asks_saveRecord mf rfl)).bind fun saved => ?_
  split
  · exact Action.only_pure _
  · exact (Action.only_ask (.looks rfl)).bind fun _ => Action.only_pure _

theorem asks_record (o : Options) (mf : Manifest) :
    (record o s mf).Only (Asks s source) := by
  refine (Store.asks_makeEntry mf).bind_of_gives (s.gives_makeEntry mf.hash) fun dir hdir => ?_
  subst hdir
  refine Action.Only.bind ?_ fun refreshed =>
    (looks_reusable o _ mf refreshed).asks.bind fun found => ?_
  · refine (Store.looks_needsRefresh s _ mf.bytes).asks.bind fun refreshed => ?_
    split
    · exact (Store.asks_materialize mf).bind fun _ => Action.only_pure _
    · exact (Store.asks_ensurePlaceholder mf).bind fun _ => Action.only_pure _
  · split
    · exact (Action.only_ask (.looks rfl)).bind fun _ => Action.only_pure _
    · exact asks_resolve o mf

/-- A scan tells the digest of what it has read. -/
theorem gives_scan (homes : Homes) (source : Script.Source) :
    (scan homes source).Gives fun x => x.1.hash = sha256Hex x.2 :=
  Action.Gives.of_bind fun _ => Action.Gives.of_bind fun _ => Action.gives_pure rfl

end Prepare

/-- Whatever the answers are, preparing a script changes its entry and its
    marker. -/
theorem asks_prepare (homes : Homes) (o : Prepare.Options) (s : Store) (source : Script.Source) :
    (prepare homes o s source).Only (Prepare.Asks s source) := by
  refine (Prepare.looks_scan homes source).asks.bind_of_gives (Prepare.gives_scan homes source)
    fun scanned hhash => ?_
  dsimp only
  split
  · exact (Action.only_ask (Prepare.Asks.looks rfl)).bind fun _ => Action.only_pure _
  · refine (Prepare.asks_record o _).bind fun record => ?_
    rw [hhash]
    split
    · exact (Store.asks_writeMarker _ _).bind fun _ => Action.only_pure _
    · exact Action.only_pure _

/-- Whatever the answers are, the toolchain is told to run the script. -/
theorem gives_prepare (homes : Homes) (o : Prepare.Options) (s : Store) (source : Script.Source) :
    (prepare homes o s source).Gives (·.script = source.argument) := by
  refine Action.Gives.of_bind fun scanned => ?_
  dsimp only
  split
  · exact Action.Gives.of_bind fun _ => Action.gives_pure rfl
  · refine Action.Gives.of_bind fun record => ?_
    split
    · exact Action.Gives.of_bind fun _ => Action.gives_pure rfl
    · exact Action.gives_pure rfl

/-! ## Section 5: Opening -/

namespace Script.Source

theorem opens_discard (file : Path) : (discard file).Only (·.opens = true) :=
  ⟨rfl, fun _ => trivial⟩

theorem opens_fill (file : Path) (content : Bytes) (mode : Nat) :
    (fill file content mode).Only (·.opens = true) := by
  have hask : ∀ r : Request, r.opens = true → (Action.ask r).Only (·.opens = true) :=
    fun r hr => Action.only_ask hr
  exact (hask (.write file content) rfl).bind fun written => (Action.only_orFail written _).bind
    fun _ => (hask (.setMode file mode) rfl).bind fun set => Action.only_orFail set _

theorem opens_makeTemporary (content : Bytes) (mode : Nat) :
    (makeTemporary content mode).Only (·.opens = true) := by
  refine (Action.only_ask (P := (Request.opens · = true)) rfl).bind fun made =>
    (Action.only_orFail made _).bind fun file => ?_
  exact ((opens_fill file content mode).orUndo (opens_discard file)).bind fun _ =>
    Action.only_pure _

theorem looks_needDirectory : needDirectory.Looks :=
  (Action.looks_ask rfl).bind fun answer => Action.only_orFail answer _

theorem looks_resolve (cwd p : Path) : (resolve cwd p).Looks := by
  refine (Action.only_orFail _ _).bind fun full => ?_
  dsimp only
  split
  · exact (Action.looks_ask rfl).bind fun answer => (Action.only_orFail answer _).bind fun _ =>
      Action.only_pure _
  · exact Action.only_pure _

theorem gives_resolve (cwd p : Path) :
    (resolve cwd p).Gives fun full => p.absolute cwd = .ok full := by
  refine (Action.gives_orFail _ _).bind fun full hfull => ?_
  dsimp only
  split
  · exact Action.Gives.of_bind fun _ => Action.Gives.of_bind fun _ => Action.gives_pure hfull
  · exact Action.gives_pure hfull

/-- A host can tell the current directory, so a path that has an absolute form
    is resolved. -/
theorem run_resolve_ok {cwd p full : Path} (habsolute : p.absolute cwd = .ok full) (h : Host)
    (m : Machine) : (resolve cwd p).run h m = (.ok full, m) := by
  unfold resolve
  rw [habsolute]
  cases p.isAbsolute <;> rfl

theorem opens_ofContent (cwd : Path) (content : Text) :
    (ofContent cwd content).Only (·.opens = true) :=
  (opens_makeTemporary _ _).bind fun file =>
    (looks_needDirectory.opens.orUndo (opens_discard file)).bind fun _ => Action.only_pure _

theorem looks_ofPath (cwd p : Path) : (ofPath cwd p).Looks := by
  unfold ofPath
  split
  · exact looks_needDirectory.bind fun _ => Action.only_pure _
  · refine (Action.looks_ask rfl).bind fun answer => ?_
    split
    · exact Action.only_throw _
    · exact Action.only_throw _
    · dsimp only
      split
      · exact (Action.only_throw _).bind fun _ => (looks_resolve _ _).bind fun _ => by
          split <;> exact Action.only_pure _
      · refine (looks_resolve _ _).bind fun _ => ?_
        split <;> exact Action.only_pure _

/-- What is opened at a path: standard input, or what its absolute form names. -/
theorem gives_ofPath (cwd p : Path) : (ofPath cwd p).Gives fun source => source = ofStdin cwd ∨
    ∃ full folder, p.absolute cwd = .ok full ∧
      (source = ⟨.file, some full, some full, folder, none⟩ ∨
        source = ⟨.pipe, none, some full, folder, none⟩) := by
  unfold ofPath
  split
  · exact Action.Gives.of_bind fun _ => Action.gives_pure (.inl rfl)
  · refine Action.Gives.of_bind fun answer => ?_
    split
    · exact Action.gives_throw _
    · exact Action.gives_throw _
    · dsimp only
      split
      · exact (Action.gives_throw (R := fun _ => False) _).bind fun _ h => h.elim
      · refine (gives_resolve _ _).bind fun full hfull => ?_
        split
        · exact Action.gives_pure (.inr ⟨full, _, hfull, .inl rfl⟩)
        · exact Action.gives_pure (.inr ⟨full, _, hfull, .inr rfl⟩)

theorem only_close (source : Source) :
    source.close.Only fun r => ∃ file, source.temporary = some file ∧ r = .removeFile file := by
  unfold close
  split
  · trivial
  · next file hfile => exact ⟨⟨file, hfile, rfl⟩, fun _ => trivial⟩

end Script.Source

namespace Tool

open CommandLine (Preparation)

theorem opens_openScript (e : Environment) (p : Preparation) (script : Text) :
    (openScript e p script).Only (·.opens = true) := by
  unfold openScript
  split
  · exact Script.Source.opens_ofContent _ _
  · exact (Script.Source.looks_ofPath _ _).opens

theorem opens_openCopy (e : Environment) (p : Preparation) (script : Text) :
    (openCopy e p script).Only (·.opens = true) := by
  have hcopied : ∀ (content : Bytes) (origin : Option Path) (folder : Path),
      Action.Only (·.opens = true) (do
        let file ← Script.Source.makeTemporary content 0o600
        return (⟨.inlined, some file, origin, folder, some file⟩ : Script.Source)) :=
    fun content origin folder => (Script.Source.opens_makeTemporary content _).bind fun _ =>
      Action.only_pure _
  unfold openCopy
  split
  · exact Script.Source.opens_ofContent _ _
  · dsimp only
    split
    · exact Action.only_throw _
    · show (Script.Source.copyOf e.cwd _).Only _
      unfold Script.Source.copyOf
      split
      · refine (Action.looks_ask rfl).opens.bind fun answer => ?_
        refine (Action.only_orFail answer _).bind fun content => ?_
        exact Script.Source.looks_needDirectory.opens.bind fun _ => hcopied content none e.cwd
      · exact (Script.Source.looks_ofPath _ _).opens.bind fun named =>
          (Action.looks_ask rfl).opens.bind fun answer =>
            (Action.only_orFail answer _).bind fun content =>
              hcopied content named.origin named.folder

/-! ## Section 6: Running -/

/-- What is made of the answer when the script has been run. -/
def exitCodeOf (swift : Path) : Except IoError Execution → Action Nat
  | .error _ => throw (.toolchainStart swift.display)
  | .ok x => do
      Action.logAll x.events
      if let .signaled n := x.ending then Action.ask (.log (.scriptKilled n))
      return x.ending.exitCode

theorem execute_eq (swift : Path) (prepared : Prepare.Prepared) (args : List Text) :
    execute swift prepared args =
      Action.ask (.execute (runCall swift prepared args) (runInput prepared)) >>=
        exitCodeOf swift := by
  unfold execute
  congr
  funext answer
  cases answer <;> rfl

theorem looks_exitCodeOf (swift : Path) (answer : Except IoError Execution) :
    (exitCodeOf swift answer).Looks := by
  cases answer with
  | error e => exact Action.only_throw _
  | ok x =>
    refine (Action.looks_logAll _).bind fun _ => ?_
    dsimp only
    split
    · exact (Action.looks_ask rfl).bind fun _ => Action.only_pure _
    · exact Action.only_pure _

theorem runs_execute (swift : Path) (prepared : Prepare.Prepared) (args : List Text) :
    (execute swift prepared args).Only (·.runs = true) := by
  rw [execute_eq]
  exact (Action.only_ask (P := (Request.runs · = true)) rfl).bind fun answer =>
    (looks_exitCodeOf swift answer).runs

end Tool
end ScriptDeps
