import ScriptDeps.Proofs.Run
import ScriptDeps.Proofs.Store.Names

/-! # The steps of a store

    What each step of a store does to the machine it runs on, as an equation
    or as the answer that it gives.  The steps that only look around leave the
    machine as it is but for what they log. -/

namespace ScriptDeps
namespace Store

variable {s : Store} {dir : Path} {h : Host} {m m' : Machine}

/-! ## Section 1: Making the entry -/

theorem run_makeEntry (s : Store) (hash : Text) (h : Host) (m : Machine) :
    (s.makeEntry hash).run h m =
      match m.files.makeDirectories h.cwd (s.entry hash) with
      | .ok fs => (.ok (s.entry hash), { m with files := fs })
      | .error e => (.error (.cacheDirectory (s.entry hash) e), m) := by
  have hmake : m.respond h (.makeDirectories (s.entry hash)) =
      m.change (m.files.makeDirectories h.cwd (s.entry hash)) := rfl
  unfold makeEntry
  rw [Action.run_bind, Action.run_ask, hmake]
  cases m.files.makeDirectories h.cwd (s.entry hash) <;> rfl

theorem alone_makeEntry (s : Store) (hash : Text) : Action.Alone (s.makeEntry hash) :=
  (Action.alone_ask rfl).bind fun made => (Action.only_orFail made _).bind fun _ =>
    Action.only_pure _

/-! ## Section 2: The manifest -/

/-- The manifest in `dir` has the bytes `content` and is not stale. -/
def IsFresh (s : Store) (h : Host) (fs : FileSystem) (dir : Path) (content : Bytes) : Prop :=
  ∃ loc node, fs.findNode h.cwd true (manifestIn dir) = .ok (loc, node) ∧
    fs.read h.cwd (manifestIn dir) = .ok content ∧
    s.isStale (Machine.statusOf node).modified h.now = false

theorem looks_needsRefresh (s : Store) (dir : Path) (content : Bytes) :
    Action.Looks (s.needsRefresh dir content) := by
  refine (Action.looks_ask rfl).bind fun found => ?_
  split
  · exact Action.only_pure _
  · exact Action.only_throw _
  · split
    · exact Action.only_pure _
    · refine (Action.looks_ask rfl).bind fun status => ?_
      refine (Action.only_orFail _ _).bind fun status => ?_
      exact (Action.looks_ask rfl).bind fun now => Action.only_pure _

theorem exists_node_of_read {fs : FileSystem} {cwd : Location} {p : Path} {content : Bytes}
    (hread : fs.read cwd p = .ok content) :
    ∃ loc node, fs.findNode cwd true p = .ok (loc, node) := by
  unfold FileSystem.read at hread
  cases hfind : fs.findNode cwd true p with
  | error e => rw [hfind] at hread; cases hread
  | ok found => exact ⟨found.1, found.2, rfl⟩

theorem respond_status {p : Path} {loc : Location} {node : Node}
    (hfind : m.files.findNode h.cwd true p = .ok (loc, node)) :
    m.respond h (.status p true) = (.ok (Machine.statusOf node), m) := by
  show ((m.files.findNode h.cwd true p).map fun found => Machine.statusOf found.2, m) = _
  rw [hfind]
  rfl

/-- The manifest is left as it is exactly when it is fresh. -/
theorem run_needsRefresh {content : Bytes} {b : Bool}
    (hrun : (s.needsRefresh dir content).run h m = (.ok b, m')) :
    m' = m ∧ (b = false ↔ s.IsFresh h m.files dir content) := by
  have hlook : ∀ p, m.respond h (.read p) = (m.files.read h.cwd p, m) := fun _ => rfl
  unfold needsRefresh at hrun
  rw [Action.run_bind, Action.run_ask, hlook] at hrun
  dsimp only at hrun
  cases hread : m.files.read h.cwd (manifestIn dir) with
  | error e =>
    -- Nothing that can be read is there, so it is not fresh.
    have hnot : ¬ s.IsFresh h m.files dir content := by
      rintro ⟨_, _, _, hok, _⟩
      rw [hread] at hok
      cases hok
    rw [hread] at hrun
    split at hrun
    · cases hrun
      exact ⟨rfl, by simp [hnot]⟩
    · cases hrun
    · next heq => cases heq
  | ok existing =>
    obtain ⟨loc, node, hfind⟩ := exists_node_of_read hread
    rw [hread] at hrun
    dsimp only at hrun
    by_cases hsame : existing = content
    · -- The bytes are the same: the age decides.
      rw [if_neg (by simp [hsame]), Action.run_bind, Action.run_ask, respond_status hfind] at hrun
      cases hrun
      subst hsame
      refine ⟨rfl, fun hstale => ⟨loc, node, hfind, hread, hstale⟩, ?_⟩
      rintro ⟨loc', node', hfind', _, hstale⟩
      rw [hfind] at hfind'
      cases hfind'
      exact hstale
    · have hnot : ¬ s.IsFresh h m.files dir content := by
        rintro ⟨_, _, _, hok, _⟩
        rw [hread] at hok
        exact hsame (Except.ok.inj hok)
      rw [if_pos (by simpa using hsame)] at hrun
      cases hrun
      exact ⟨rfl, by simp [hnot]⟩

/-- A manifest that is missing, or can be read, is no failure. -/
theorem exists_run_needsRefresh (s : Store) (content : Bytes)
    (hread : m.files.read h.cwd (manifestIn dir) = .error .noEntry ∨
      ∃ existing, m.files.read h.cwd (manifestIn dir) = .ok existing) :
    ∃ b, (s.needsRefresh dir content).run h m = (.ok b, m) := by
  have hlook : ∀ p, m.respond h (.read p) = (m.files.read h.cwd p, m) := fun _ => rfl
  unfold needsRefresh
  rw [Action.run_bind, Action.run_ask, hlook]
  dsimp only
  rcases hread with hread | ⟨existing, hread⟩
  · rw [hread]
    exact ⟨true, rfl⟩
  · obtain ⟨loc, node, hfind⟩ := exists_node_of_read hread
    rw [hread]
    dsimp only
    split
    · exact ⟨true, rfl⟩
    · rw [Action.run_bind, Action.run_ask, respond_status hfind]
      exact ⟨_, rfl⟩

/-! ## Section 3: The placeholder -/

theorem run_ensurePlaceholder (dir : Path) (h : Host) (m : Machine) :
    (ensurePlaceholder dir).run h m =
      if m.files.isPresent h.cwd (placeholderIn dir) = true then (.ok (), m)
      else match m.files.write h.cwd h.now (placeholderIn dir) [] with
        | .ok fs => (.ok (), { m with files := fs })
        | .error e => (.error (.io ("writing " ++ (placeholderIn dir).display) e), m) := by
  have hlook : m.respond h (.isPresent (placeholderIn dir)) =
      (m.files.isPresent h.cwd (placeholderIn dir), m) := rfl
  have hwrite : m.respond h (.write (placeholderIn dir) []) =
      m.change (m.files.write h.cwd h.now (placeholderIn dir) []) := rfl
  unfold ensurePlaceholder
  rw [Action.run_bind, Action.run_ask, hlook]
  dsimp only
  split
  · rfl
  · rw [Action.run_bind, Action.run_ask, hwrite]
    cases m.files.write h.cwd h.now (placeholderIn dir) [] <;> rfl

theorem run_materialize (dir : Path) (manifest : Manifest) (h : Host) (m : Machine) :
    (materialize dir manifest).run h m =
      match m.files.write h.cwd h.now (manifestIn dir) manifest.bytes with
      | .ok fs => (ensurePlaceholder dir).run h { m with files := fs }
      | .error e => (.error (.io ("writing manifest " ++ (manifestIn dir).display) e), m) := by
  have hwrite : m.respond h (.write (manifestIn dir) manifest.bytes) =
      m.change (m.files.write h.cwd h.now (manifestIn dir) manifest.bytes) := rfl
  unfold materialize
  rw [Action.run_bind, Action.run_ask, hwrite]
  cases m.files.write h.cwd h.now (manifestIn dir) manifest.bytes <;> rfl

theorem alone_ensurePlaceholder (dir : Path) : Action.Alone (ensurePlaceholder dir) := by
  refine (Action.alone_ask rfl).bind fun present => ?_
  split
  · exact Action.only_pure _
  · exact (Action.alone_ask rfl).bind fun written => Action.only_orFail written _

theorem alone_materialize (dir : Path) (manifest : Manifest) :
    Action.Alone (materialize dir manifest) :=
  (Action.alone_ask rfl).bind fun written => (Action.only_orFail written _).bind fun _ =>
    alone_ensurePlaceholder dir

/-! ## Section 4: The record -/

/-- The record in `dir` that can be used for the manifest with digest
    `hash`. -/
def usable? (fs : FileSystem) (cwd : Location) (dir : Path) (hash : Text) : Option Record :=
  match fs.read cwd (recordIn dir) with
  | .error _ => none
  | .ok bytes =>
      ((Utf8.decode bytes).bind Record.ofText?).filter fun r =>
        r.hash = hash && fs.isPresent cwd (buildIn dir)

theorem looks_loadRecord (dir : Path) (hash : Text) : Action.Looks (loadRecord dir hash) := by
  refine (Action.looks_ask rfl).bind fun found => ?_
  split
  · exact Action.only_pure _
  · exact (Action.looks_ask rfl).bind fun _ => Action.only_pure _
  · split
    · exact (Action.looks_ask rfl).bind fun _ => Action.only_pure _
    · split
      · exact (Action.looks_ask rfl).bind fun _ => Action.only_pure _
      · split
        · exact Action.only_pure _
        · refine (Action.looks_ask rfl).bind fun present => ?_
          split
          · exact Action.only_pure _
          · exact Action.only_pure _

/-- A machine that has only logged something more, if anything. -/
def AtMostLogged (m m' : Machine) : Prop := m' = m ∨ ∃ e, m' = m.see (.logged e)

theorem AtMostLogged.files (hlogged : AtMostLogged m m') : m'.files = m.files := by
  rcases hlogged with rfl | ⟨e, rfl⟩
  · rfl
  · rfl

/-- Whatever the file of the record is, loading it is no failure: it gives
    the record that can be used, if there is one. -/
theorem run_loadRecord (dir : Path) (hash : Text) (h : Host) (m : Machine) :
    ∃ m', (loadRecord dir hash).run h m = (.ok (usable? m.files h.cwd dir hash), m') ∧
      AtMostLogged m m' := by
  have hlook : m.respond h (.read (recordIn dir)) = (m.files.read h.cwd (recordIn dir), m) := rfl
  have hbuild : m.respond h (.isPresent (buildIn dir)) =
      (m.files.isPresent h.cwd (buildIn dir), m) := rfl
  -- Each thing that can be wrong with the record ends the loading, some with a notice.
  unfold loadRecord usable?
  rw [Action.run_bind, Action.run_ask, hlook]
  dsimp only
  cases m.files.read h.cwd (recordIn dir) with
  | error e =>
    split
    · exact ⟨m, rfl, .inl rfl⟩
    · exact ⟨_, rfl, .inr ⟨_, rfl⟩⟩
    · next heq => cases heq
  | ok bytes =>
    dsimp only
    cases Utf8.decode bytes with
    | none => exact ⟨_, rfl, .inr ⟨_, rfl⟩⟩
    | some content =>
      rw [Option.bind_some]
      dsimp only
      cases Record.ofText? content with
      | none => exact ⟨_, rfl, .inr ⟨_, rfl⟩⟩
      | some r =>
        dsimp only
        by_cases hhash : r.hash = hash
        · rw [if_neg (by simp [hhash]), Action.run_bind, Action.run_ask, hbuild]
          dsimp only
          refine ⟨m, ?_, .inl rfl⟩
          by_cases hpresent : m.files.isPresent h.cwd (buildIn dir) = true
          · rw [if_pos hpresent]
            simp [Option.filter, hhash, hpresent]
          · rw [if_neg hpresent]
            simp [Option.filter, hpresent]
        · refine ⟨m, ?_, .inl rfl⟩
          rw [if_pos (by simpa using hhash)]
          simp [Option.filter, hhash]

theorem alone_saveRecord (r : Record) : Action.Alone (saveRecord r) := by
  unfold saveRecord
  split
  · exact Action.only_throw _
  · exact (Action.alone_ask rfl).bind fun written => Action.only_orFail written _

theorem run_saveRecord (r : Record) (h : Host) (m : Machine) :
    (saveRecord r).run h m =
      match r.render? with
      | none => (.error (.record "path contains invalid UTF-8 characters".toList), m)
      | some content =>
          match m.files.write h.cwd h.now (recordIn r.directory) (Utf8.encode content) with
          | .ok fs => (.ok (), { m with files := fs })
          | .error e => (.error (.io ("writing record " ++ r.file.display) e), m) := by
  unfold saveRecord
  cases r.render? with
  | none => rfl
  | some content =>
    have hwrite : m.respond h (.write r.file (Utf8.encode content)) =
        m.change (m.files.write h.cwd h.now (recordIn r.directory) (Utf8.encode content)) := rfl
    dsimp only
    rw [Action.run_bind, Action.run_ask, hwrite]
    cases m.files.write h.cwd h.now (recordIn r.directory) (Utf8.encode content) <;> rfl

/-! ## Section 5: The marker -/

/-- The files after a marker at `path` has been made as far as it can be. -/
def markedFiles (s : Store) (h : Host) (path : Path) (hash : Text) (fs : FileSystem) :
    FileSystem :=
  match fs.makeDirectories h.cwd s.markers with
  | .error _ => fs
  | .ok fs =>
      match fs.removeFile h.cwd path with
      | .ok fs => ((fs.link h.cwd (markerTarget hash) path).toOption).getD fs
      | .error .noEntry => ((fs.link h.cwd (markerTarget hash) path).toOption).getD fs
      | .error _ => fs

theorem run_replaceMarker (s : Store) (path : Path) (hash : Text) (h : Host) (m : Machine) :
    ((s.replaceMarker path hash).run h m).2 =
      { m with files := s.markedFiles h path hash m.files } := by
  have hlink : ∀ m : Machine,
      (Program.run h (Program.request (.link (markerTarget hash) path)) m).2 =
        { m with
          files := ((m.files.link h.cwd (markerTarget hash) path).toOption).getD m.files } := by
    intro m
    show (m.change (m.files.link h.cwd (markerTarget hash) path)).2 = _
    cases m.files.link h.cwd (markerTarget hash) path <;> rfl
  have hmake : Program.run h (ExceptT.run (ExceptT.mk (m := Program)
      (Program.request (.makeDirectories s.markers)))) m =
        m.change (m.files.makeDirectories h.cwd s.markers) := rfl
  have hremove : ∀ m : Machine, Program.run h (ExceptT.run (ExceptT.lift (ε := IoError)
      (Program.request (.removeFile path)))) m =
        (.ok (m.change (m.files.removeFile h.cwd path)).1,
          (m.change (m.files.removeFile h.cwd path)).2) := fun _ => rfl
  unfold replaceMarker markedFiles
  rw [Program.run_except_bind, hmake]
  cases m.files.makeDirectories h.cwd s.markers with
  | error e => rfl
  | ok fs =>
    dsimp only [Machine.change]
    rw [Program.run_except_bind, hremove]
    dsimp only
    -- The link is made if there is no other one, or none any more.
    cases fs.removeFile h.cwd path with
    | ok fs' => exact hlink _
    | error e =>
      dsimp only [Machine.change]
      cases e with
      | noEntry => exact hlink _
      | _ => rfl

/-- Making a marker is no failure. -/
theorem run_writeMarker (s : Store) (i : Identity) (hash : Text) (h : Host) (m : Machine) :
    ∃ m', (s.writeMarker i hash).run h m = (.ok (), m') ∧
      m'.files = s.markedFiles h (s.markerPath i) hash m.files := by
  have hfiles := run_replaceMarker s (s.markerPath i) hash h m
  unfold writeMarker
  dsimp only
  rw [Action.run_bind, Action.run_lift]
  dsimp only
  cases hx : (Program.run h (s.replaceMarker (s.markerPath i) hash) m).1 with
  | ok _ => exact ⟨_, rfl, by rw [hfiles]⟩
  | error e => exact ⟨_, rfl, by rw [hfiles]; rfl⟩

/-- To make a marker anew is to ask for three things. -/
theorem only_replaceMarker {P : Request → Prop} {s : Store} {path : Path} {hash : Text}
    (hmake : P (.makeDirectories s.markers)) (hremove : P (.removeFile path))
    (hlink : P (.link (markerTarget hash) path)) :
    Program.Only P (s.replaceMarker path hash) := by
  have hrequest : ∀ r : Request, P r → Program.Only P (Program.request r) := fun r hr =>
    ⟨hr, fun _ => trivial⟩
  refine Program.Only.bind (hrequest _ hmake) fun made => ?_
  cases made with
  | error e => trivial
  | ok _ =>
    refine Program.Only.bind ((hrequest _ hremove).bind fun _ => trivial) fun removed => ?_
    cases removed with
    | error e => trivial
    | ok removed =>
      cases removed with
      | ok _ => exact hrequest _ hlink
      | error e =>
        cases e with
        | noEntry => exact hrequest _ hlink
        | _ => trivial

theorem alone_writeMarker (s : Store) (i : Identity) (hash : Text) :
    Action.Alone (s.writeMarker i hash) := by
  refine Program.Only.bind ((only_replaceMarker (P := (Request.isCapture · = false)) rfl rfl
    rfl).bind fun _ => trivial) fun made => ?_
  cases made with
  | error e => trivial
  | ok made =>
    cases made with
    | ok _ => trivial
    | error e => exact ⟨rfl, fun _ => trivial⟩

end Store
end ScriptDeps
