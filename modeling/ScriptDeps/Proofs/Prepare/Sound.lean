import ScriptDeps.Proofs.Prepare.Settled
import ScriptDeps.Proofs.Store.Record

/-! # Sound stores

    The invariant of a store that only runs have written: below its root
    every manifest has the digest that its entry is named after, and every
    record is that of the latest answer of the toolchain for its entry
    (`IsSound`).  It speaks of one node at a time, so each stage of a run
    keeps it if what the stage writes is right. -/

namespace ScriptDeps

open FileSystem

namespace Store

/-! ## Section 1: Model -/

/-- What a resolution answers: the arguments, and whether it is made in release
    mode. -/
abbrev Answer := List Text × Bool

/-- For the name of each entry the answer of the latest resolution in it. -/
abbrev Answers := Name → Option Answer

/-- A manifest whose digest is the name `n`. -/
def IsManifestOf (n : Name) (node : Node) : Prop :=
  ∃ content modified mode, node = .file content modified mode ∧
    n = Utf8.encode (sha256Hex content)

/-- A record for the entry called `n`, with the latest answer for it. -/
def IsRecordOf (s : Store) (latest : Answers) (n : Name) (node : Node) : Prop :=
  ∃ t modified mode r, node = .file (Utf8.encode t) modified mode ∧
    Record.ofText? t = some r ∧ n = Utf8.encode r.hash ∧ r.directory = s.entry r.hash ∧
    latest n = some (r.args, r.releaseMode)

/-- What the file called `f` may be in the entry called `n`. -/
structure IsRightFile (s : Store) (latest : Answers) (n f : Name) (node : Node) : Prop where
  manifest    : f = manifestName → IsManifestOf n node
  placeholder : f = placeholderName → node.isFile = true
  record      : f = recordName → IsRecordOf s latest n node

/-- What may be found at the end of `names` from the root of the store. -/
def IsRight (s : Store) (latest : Answers) (names : List Name) (node : Node) : Prop :=
  match names with
  | [n] => n = storeName ∨ n = markersName → node = .directory
  | [n, _] => n = storeName → node = .directory
  | [n, e, f] => n = storeName → s.IsRightFile latest e f node
  | _ => True

/-- Whatever is below the root of the store is right, and no answer is lost. -/
structure IsSound (s : Store) (top : Location) (latest : Answers) (fs : FileSystem) : Prop where
  right : ∀ names node, fs.at? (top ++ names) = some node → s.IsRight latest names node
  kept  : ∀ n answer, latest n = some answer →
    (fs.at? (top ++ [storeName, n, recordName])).isSome

variable {s : Store} {h : Host} {cwd top : Location} {mf : Manifest} {latest : Answers}
  {fs fs' : FileSystem} {names : List Name} {node : Node}

/-! ## Section 2: Nodes that are right -/

theorem isRight_of_directory (hlength : names.length ≤ 2) :
    s.IsRight latest names .directory := by
  match names with
  | [] => trivial
  | [_] => exact fun _ => rfl
  | [_, _] => exact fun _ => rfl
  | _ :: _ :: _ :: _ =>
    simp only [List.length_cons] at hlength
    omega

/-- Nothing is asked of what the store does not know in an entry. -/
theorem isRight_of_build {n : Name} {rest : List Name} :
    s.IsRight latest (storeName :: n :: buildName :: rest) node := by
  cases rest with
  | nil =>
    intro _
    exact ⟨fun hf => absurd hf (by decide), fun hf => absurd hf (by decide),
      fun hf => absurd hf (by decide)⟩
  | cons _ _ => trivial

/-- Nothing is asked of a marker. -/
theorem isRight_of_marker {n : Name} {rest : List Name} :
    s.IsRight latest (markersName :: n :: rest) node := by
  have hne : markersName ≠ storeName := by decide
  match rest with
  | [] => exact fun hn => absurd hn hne
  | [_] => exact fun hn => absurd hn hne
  | _ :: _ :: _ => trivial

theorem isRight_manifest {n : Name} (hmanifest : IsManifestOf n node) :
    s.IsRight latest [storeName, n, manifestName] node :=
  fun _ => ⟨fun _ => hmanifest, fun hf => absurd hf (by decide), fun hf => absurd hf (by decide)⟩

theorem isRight_placeholder {n : Name} (hfile : node.isFile = true) :
    s.IsRight latest [storeName, n, placeholderName] node :=
  fun _ => ⟨fun hf => absurd hf (by decide), fun _ => hfile, fun hf => absurd hf (by decide)⟩

theorem isRight_record {n : Name} (hrecord : s.IsRecordOf latest n node) :
    s.IsRight latest [storeName, n, recordName] node :=
  fun _ => ⟨fun hf => absurd hf (by decide), fun hf => absurd hf (by decide), fun _ => hrecord⟩

/-! ## Section 3: What is right in a sound store -/

theorem isSound_of_absent (h : s.Absent cwd top fs) : s.IsSound top (fun _ => none) fs := by
  refine ⟨fun names node hnode => ?_, nofun⟩
  rw [h.at?_eq_none names] at hnode
  cases hnode

/-- As long as no record is touched, no answer is lost. -/
theorem IsSound.of_right (hsound : s.IsSound top latest fs)
    (hright : ∀ names node, fs'.at? (top ++ names) = some node → s.IsRight latest names node)
    (hsame : ∀ n, fs'.at? (top ++ [storeName, n, recordName]) =
      fs.at? (top ++ [storeName, n, recordName])) : s.IsSound top latest fs' := by
  refine ⟨hright, fun n answer hlatest => ?_⟩
  rw [hsame]
  exact hsound.kept n answer hlatest

theorem IsSound.file (hsound : s.IsSound top latest fs) {n f : Name}
    (hnode : fs.at? (top ++ [storeName, n] ++ [f]) = some node) :
    s.IsRightFile latest n f node := by
  rw [List.append_assoc] at hnode
  exact hsound.right _ node hnode rfl

theorem IsSound.markers (hsound : s.IsSound top latest fs) : ClearAlong fs top [markersName] := by
  refine ⟨?_, trivial⟩
  cases hnode : fs.at? (top ++ [markersName]) with
  | none => exact .inl rfl
  | some node =>
    obtain rfl := hsound.right [markersName] node hnode (.inr rfl)
    exact .inr rfl

/-- A sound store is a cache without links of its own. -/
theorem IsSound.isPlainCache (hsound : s.IsSound top latest fs) (mf : Manifest) :
    IsPlainCache top mf fs := by
  refine ⟨⟨?_, ?_, trivial⟩, fun node hnode => ?_, fun node hnode => ?_, fun node hnode => ?_,
    hsound.markers⟩
  · cases hnode : fs.at? (top ++ [storeName]) with
    | none => exact .inl rfl
    | some node =>
      obtain rfl := hsound.right [storeName] node hnode (.inl rfl)
      exact .inr rfl
  · rw [List.append_assoc]
    cases hnode : fs.at? (top ++ ([storeName] ++ [Utf8.encode mf.hash])) with
    | none => exact .inl rfl
    | some node =>
      obtain rfl := hsound.right [storeName, Utf8.encode mf.hash] node hnode rfl
      exact .inr rfl
  · obtain ⟨_, _, _, rfl, _⟩ := (hsound.file hnode).manifest rfl
    exact .inr rfl
  · exact .inr ((hsound.file hnode).placeholder rfl)
  · obtain ⟨_, _, _, _, rfl, _⟩ := (hsound.file hnode).record rfl
    exact .inr rfl

/-! ## Section 4: Stages keep a store sound -/

theorem IsSound.opened (hsound : s.IsSound top latest fs) (hopened : s.Opened cwd top mf fs fs') :
    s.IsSound top latest fs' := by
  obtain ⟨hstore, hentry⟩ := directoriesAlong_entry.1 hopened.made.along
  refine hsound.of_right (fun names node hnode => ?_) (sameResults_opened hopened).record
  -- Directories have been made on the way to the entry; nothing else has changed.
  by_cases hfront : top ++ names <+: entryAt top mf.hash
  · have hfront := (List.prefix_append_right_inj top).1 hfront
    have hlength : names.length ≤ 2 := hfront.length_le
    match names with
    | [] => trivial
    | [n] =>
      obtain ⟨rfl, _⟩ := List.cons_prefix_cons.1 hfront
      obtain rfl := Option.some.inj (hnode.symm.trans hstore)
      exact isRight_of_directory hlength
    | n :: e :: rest =>
      have hnames : n :: e :: rest = [storeName, Utf8.encode mf.hash] :=
        hfront.eq_of_length_le (by simp)
      rw [hnames] at hnode
      obtain rfl := Option.some.inj (hnode.symm.trans hentry)
      exact isRight_of_directory hlength
  · rw [hopened.other hfront] at hnode
    exact hsound.right names node hnode

theorem IsSound.refreshed (hsound : s.IsSound top latest fs) {refreshed : Bool}
    (hrefreshed : s.Refreshed h mf.bytes (entryAt top mf.hash) fs fs' refreshed) :
    s.IsSound top latest fs' := by
  refine hsound.of_right (fun names node hnode => ?_) (sameResults_refreshed hrefreshed).record
  by_cases hmanifest : top ++ names = entryAt top mf.hash ++ [manifestName]
  · obtain ⟨modified, mode, hfile, _⟩ := hrefreshed.manifest
    rw [hmanifest, hfile] at hnode
    obtain rfl := Option.some.inj hnode
    rw [entryAt_append] at hmanifest
    obtain rfl := List.append_cancel_left hmanifest
    exact isRight_manifest ⟨mf.bytes, modified, mode, rfl, rfl⟩
  by_cases hplaceholder : top ++ names = entryAt top mf.hash ++ [placeholderName]
  · obtain ⟨node', hthere, hkind⟩ := hrefreshed.placeholder
    rw [hplaceholder, hthere] at hnode
    obtain rfl := Option.some.inj hnode
    rw [← hplaceholder] at hkind
    rcases hkind with hold | hfile
    · exact hsound.right names _ hold
    · rw [entryAt_append] at hplaceholder
      obtain rfl := List.append_cancel_left hplaceholder
      exact isRight_placeholder hfile
  · rw [hrefreshed.other _ hmanifest hplaceholder] at hnode
    exact hsound.right names node hnode

theorem IsSound.builtIn (hsound : s.IsSound top latest fs)
    (hbuilt : BuiltIn (entryAt top mf.hash) fs fs') : s.IsSound top latest fs' := by
  refine hsound.of_right (fun names node hnode => ?_) (sameResults_builtIn hbuilt).record
  by_cases hfront : entryAt top mf.hash ++ [buildName] <+: top ++ names
  · rw [entryAt_append] at hfront
    obtain ⟨rest, rfl⟩ := (List.prefix_append_right_inj top).1 hfront
    exact isRight_of_build
  · rw [hbuilt _ hfront] at hnode
    exact hsound.right names node hnode

theorem IsSound.marked (hsound : s.IsSound top latest fs) (hmarked : s.Marked cwd top fs fs') :
    s.IsSound top latest fs' := by
  refine hsound.of_right (fun names node hnode => ?_) fun n => hmarked.at?_store [n, recordName]
  by_cases hfront : [markersName] <+: names
  · obtain ⟨rest, rfl⟩ := hfront
    cases rest with
    | nil =>
      obtain rfl := Option.some.inj (hnode.symm.trans hmarked.directory)
      exact isRight_of_directory (by decide)
    | cons n rest => exact isRight_of_marker
  · rw [hmarked.other names hfront] at hnode
    exact hsound.right names node hnode

/-! ## Section 5: A new answer -/

/-- The answers after a new one in the entry called `n`. -/
def Answers.note (latest : Answers) (n : Name) (answer : Answer) : Answers :=
  fun other => if other = n then some answer else latest other

/-- Records of other entries are not touched by a new answer. -/
theorem IsRight.note (hright : s.IsRight latest names node) {n : Name} (answer : Answer)
    (hnames : names ≠ [storeName, n, recordName]) :
    s.IsRight (latest.note n answer) names node := by
  match names with
  | [] => trivial
  | [_] => exact hright
  | [_, _] => exact hright
  | [_, e, f] =>
    rintro rfl
    obtain ⟨hmanifest, hplaceholder, hrecord⟩ := hright rfl
    refine ⟨hmanifest, hplaceholder, ?_⟩
    rintro rfl
    have hne : e ≠ n := fun heq => hnames (by rw [heq])
    obtain ⟨t, modified, mode, r, hnode, hread, hhash, hdirectory, hlatest⟩ := hrecord rfl
    refine ⟨t, modified, mode, r, hnode, hread, hhash, hdirectory, ?_⟩
    rw [Answers.note, if_neg hne]
    exact hlatest
  | _ :: _ :: _ :: _ :: _ => trivial

/-- What the toolchain has answered is in the record that is saved. -/
theorem IsSound.saved (hsound : s.IsSound top latest fs) (hsettled : s.Settled h.cwd top mf fs)
    (hroomy : s.IsRoomy) (hroot : s.root.IsText) (hdated : h.Dated) (o : Prepare.Options)
    (args : List Text) :
    s.IsSound top (latest.note (Utf8.encode mf.hash) (args, o.release))
      (Prepare.savedFiles h (Prepare.newRecord h o (s.entry mf.hash) mf args) fs) := by
  generalize hr : Prepare.newRecord h o (s.entry mf.hash) mf args = r
  have hfields : r.hash = mf.hash ∧ r.directory = s.entry mf.hash ∧ r.args = args ∧
      r.releaseMode = o.release ∧ r.resolvedAt.IsDated := by
    subst hr
    exact ⟨rfl, rfl, rfl, rfl, hdated⟩
  obtain ⟨hhash, hdirectory, hargs, hmode, hresolved⟩ := hfields
  have hentry := hsettled.leadsToEntry hroomy
  rw [← hdirectory] at hentry
  obtain ⟨t, hrender⟩ := exists_render (r := r)
    (hdirectory ▸ isText_entry hroot (isEntryName_hash mf).1)
  have hdir : fs.at? (entryAt top mf.hash ++ [recordName]) ≠ some .directory := by
    intro hnode
    obtain ⟨_, _, _, _, heq, _⟩ := (hsound.file hnode).record rfl
    cases heq
  obtain ⟨mode, hsaved⟩ := savedFiles_record hentry hsettled.record hrender hdir
  have hother : ∀ names, names ≠ [storeName, Utf8.encode mf.hash, recordName] →
      (Prepare.savedFiles h r fs).at? (top ++ names) = fs.at? (top ++ names) := by
    intro names hnames
    refine savedFiles_other hentry hsettled.record _ fun heq => hnames ?_
    rw [entryAt_append] at heq
    exact List.append_cancel_left heq
  rw [entryAt_append] at hsaved
  -- The record that is saved holds the new answer, and the others hold the old ones.
  refine ⟨fun names node hnode => ?_, fun n answer hlatest => ?_⟩
  · by_cases hnames : names = [storeName, Utf8.encode mf.hash, recordName]
    · subst hnames
      obtain rfl := Option.some.inj (hnode.symm.trans hsaved)
      refine isRight_record ⟨t, h.now, mode, r, rfl, Record.ofText?_render hresolved hrender,
        by rw [hhash], by rw [hhash, hdirectory], ?_⟩
      rw [Answers.note, if_pos rfl, hargs, hmode]
    · rw [hother names hnames] at hnode
      exact (hsound.right names node hnode).note _ hnames
  · by_cases hn : n = Utf8.encode mf.hash
    · rw [hn, hsaved]
      rfl
    · rw [Answers.note, if_neg hn] at hlatest
      rw [hother _ fun heq => hn (by simpa using heq)]
      exact hsound.kept n answer hlatest

end Store
end ScriptDeps
