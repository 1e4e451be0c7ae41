import ScriptDeps.Proofs.Clean.Plan
import ScriptDeps.Proofs.Clean.Outcome
import ScriptDeps.Proofs.Clean.Small
import ScriptDeps.Proofs.Prepare.Links

/-! # Markers of scripts without a file

    The name of a marker tells whether its script had a file, unless the stem
    of the file is a reserved name (`isEphemeralName_iff`).  So a clean-up of
    the markers of scripts without a file spares the markers of script files,
    and the entries of these markers (`clean_spares_script_files`). -/

namespace ScriptDeps

open FileSystem Store

/-! ## Section 1: Names -/

namespace Identity

/-- A name of scripts whose markers are taken for those of scripts without a
    file: with the separator after it, it starts like one of theirs. -/
def IsReserved (name : Text) : Prop :=
  ∃ n ∈ [stdinName, inlineName], name = n ∨ name = n ++ ['-'] ∨ (n ++ separator) <+: name

instance (name : Text) : Decidable (IsReserved name) :=
  inferInstanceAs (Decidable (∃ n ∈ [stdinName, inlineName], _))

theorem concat_concat (name : Text) : name ++ separator = name ++ ['-'] ++ ['-'] := by
  rw [List.append_assoc]
  rfl

/-- Where the name and the separator of one marker start another one. -/
theorem prefix_markerName_iff {n name discriminator : Text} (hlast : n.getLast? ≠ some '-')
    (hcount : n.count '-' < 2) :
    (n ++ separator) <+: name ++ separator ++ discriminator ↔
      name = n ∨ name = n ++ ['-'] ∨ (n ++ separator) <+: name := by
  constructor
  · intro h
    -- Of two fronts of one text, the shorter one is a front of the other.
    rcases List.prefix_or_prefix_of_prefix h (List.prefix_append (name ++ separator) _) with h | h
    · rw [concat_concat name, List.prefix_concat_iff, List.prefix_concat_iff] at h
      rcases h with h | h | h
      · rw [← concat_concat] at h
        exact .inl (List.append_cancel_right h).symm
      · rw [concat_concat] at h
        exact .inr (.inl (List.append_cancel_right h).symm)
      · exact .inr (.inr h)
    · rw [concat_concat n, List.prefix_concat_iff, List.prefix_concat_iff] at h
      rcases h with h | h | h
      · rw [← concat_concat] at h
        exact .inl (List.append_cancel_right h)
      · rw [concat_concat] at h
        exact absurd (by rw [← List.append_cancel_right h, List.getLast?_concat]) hlast
      · -- There is no room for the separator in `n`.
        have hle := h.sublist.count_le '-'
        rw [List.count_append, (by decide : separator.count '-' = 2)] at hle
        omega
  · rintro (rfl | rfl | h)
    · exact List.prefix_append ..
    · refine ⟨'-' :: discriminator, ?_⟩
      simp [separator]
    · rw [List.append_assoc]
      exact h.trans (List.prefix_append ..)

theorem isEphemeralName_iff (name discriminator : Text) :
    isEphemeralName (name ++ separator ++ discriminator) = true ↔ IsReserved name := by
  unfold isEphemeralName IsReserved
  rw [List.any_eq_true]
  refine exists_congr fun n => and_congr_right fun hn => ?_
  rw [List.isPrefixOf_iff_prefix]
  rcases List.mem_pair.1 hn with rfl | rfl
  · exact prefix_markerName_iff (by decide) (by decide)
  · exact prefix_markerName_iff (by decide) (by decide)

end Identity

namespace Tool

open CommandLine (Preparation)

variable {e : Environment} {s : Settings} {p : Preparation} {script : Text} {h : Host}
  {m m' : Machine} {source : Script.Source} {full : Path} {top : Location} {hash : Text}
  {args : List Text} {keepUnused : Bool} {n : Name}

/-! ## Section 2: Scripts -/

/-- The script is text on the command line, or read from standard input or
    from a pipe. -/
def HasNoFile (p : Preparation) (script : Text) (h : Host) (m : Machine) : Prop :=
  p.content = true ∨ (Path.ofText script).same (Path.ofText Script.stdinArgument) = true ∨
    ∃ loc node, m.files.findNode h.cwd true (Path.ofText script) = .ok (loc, node) ∧
      node.kind ≠ .file

theorem kind_ofContent {cwd : Path} {content : Text}
    (hrun : (Script.Source.ofContent cwd content).run h m = (.ok source, m')) :
    source.kind = .inlined := by
  unfold Script.Source.ofContent at hrun
  obtain ⟨file, m₁, _, hrest⟩ := Action.exists_of_run_bind hrun
  obtain ⟨_, m₂, _, hdone⟩ := Action.exists_of_run_bind hrest
  cases hdone
  rfl

/-- What is opened at a path that is not that of standard input. -/
theorem run_ofPath {cwd q : Path} (hstdin : ¬ q.same (Path.ofText Script.stdinArgument) = true)
    (hrun : (Script.Source.ofPath cwd q).run h m = (.ok source, m')) :
    ∃ loc node full, m.files.findNode h.cwd true q = .ok (loc, node) ∧ q.absolute cwd = .ok full ∧
      (node.kind = .file → source.kind = .file ∧ source.origin = some full) ∧
      (node.kind ≠ .file → source.kind = .pipe) := by
  have hstatus := Action.run_status q true h m
  unfold Script.Source.ofPath at hrun
  rw [if_neg hstdin, Action.run_bind_ok hstatus] at hrun
  cases hfind : m.files.findNode h.cwd true q with
  | error err =>
    rw [hfind] at hrun
    cases err <;> cases hrun
  | ok found =>
    obtain ⟨loc, node⟩ := found
    have hkind : (Machine.statusOf node).kind = node.kind := by cases node <;> rfl
    rw [hfind] at hrun
    dsimp only [Except.map] at hrun
    rw [hkind] at hrun
    -- A directory is not opened; what is a file is run, and all else is read as a pipe.
    by_cases hdirectory : node.kind = .directory
    · rw [if_pos hdirectory] at hrun
      cases hrun
    · rw [if_neg hdirectory] at hrun
      obtain ⟨full, m₁, hresolve, hrest⟩ := Action.exists_of_run_bind hrun
      have habsolute := (Script.Source.gives_resolve cwd q).of_run hresolve
      refine ⟨loc, node, full, rfl, habsolute, fun hfile => ?_, fun hfile => ?_⟩
      · rw [if_pos hfile] at hrest
        cases hrest
        exact ⟨rfl, rfl⟩
      · rw [if_neg hfile] at hrest
        cases hrest
        rfl

/-- What is opened has no file, or is the file at the path that is named. -/
theorem run_openScript (hopen : (openScript e p script).run h m = (.ok source, m')) :
    (HasNoFile p script h m ∧ source.kind ≠ .file) ∨
      ¬ HasNoFile p script h m ∧ source.kind = .file ∧
        ∃ full, (Path.ofText script).absolute e.cwd = .ok full ∧ source.origin = some full := by
  unfold openScript at hopen
  split at hopen
  · next hcontent =>
    refine .inl ⟨.inl hcontent, ?_⟩
    rw [kind_ofContent hopen]
    decide
  · next hcontent =>
    by_cases hstdin : (Path.ofText script).same (Path.ofText Script.stdinArgument) = true
    · refine .inl ⟨.inr (.inl hstdin), ?_⟩
      unfold Script.Source.ofPath at hopen
      rw [if_pos hstdin] at hopen
      cases hopen
      exact Script.SourceKind.noConfusion
    · obtain ⟨loc, node, full, hfind, habsolute, hfile, hpipe⟩ := run_ofPath hstdin hopen
      by_cases hkind : node.kind = .file
      · refine .inr ⟨?_, (hfile hkind).1, full, habsolute, (hfile hkind).2⟩
        -- A path leads to one node only.
        rintro (hcontent' | hstdin' | ⟨loc', node', hfind', hkind'⟩)
        · exact hcontent hcontent'
        · exact hstdin hstdin'
        · obtain ⟨rfl, rfl⟩ := Prod.mk.inj (Except.ok.inj (hfind'.symm.trans hfind))
          exact hkind' hkind
      · refine .inl ⟨.inr (.inr ⟨loc, node, hfind, hkind⟩), ?_⟩
        rw [hpipe hkind]
        decide

theorem isEphemeralMarker_markerPath (store : Store) (source : Script.Source) (content : Bytes) :
    Identity.isEphemeralMarker (store.markerPath (source.identity (sha256Hex content))) = true ↔
      Identity.IsReserved (source.identity (sha256Hex content)).name := by
  rw [Clean.markerPath_eq, isEphemeralMarker_path store (isPlainName_markerName source content),
    Utf8.decodeLossy_encode]
  exact Identity.isEphemeralName_iff ..

theorem identity_of_file (hkind : source.kind = .file) (horigin : source.origin = some full)
    (contentHash : Text) : source.identity contentHash = Identity.ofPath full := by
  unfold Script.Source.identity
  rw [hkind, horigin]

theorem isReserved_of_not_file (hkind : source.kind ≠ .file) (contentHash : Text) :
    Identity.IsReserved (source.identity contentHash).name := by
  unfold Script.Source.identity
  split
  · next hfile _ => exact absurd hfile hkind
  · exact ⟨Identity.inlineName, by decide, .inl rfl⟩
  · exact ⟨Identity.stdinName, by decide, .inl rfl⟩

/-! ## Section 3: Cleaning -/

theorem plan_ephemeral (hargs : args = [] ∨ args = ["ephemeral".toList]) (keepUnused : Bool) :
    Target.plan args (!keepUnused) = .ephemeral :: if keepUnused then [] else [.unused] := by
  rcases hargs with rfl | rfl <;> cases keepUnused <;> decide

theorem cleanable_plan_ephemeral (hargs : args = [] ∨ args = ["ephemeral".toList])
    (keepUnused : Bool) :
    ∀ x ∈ Target.plan args (!keepUnused), x ≠ .all ∧ x.resolves = true := by
  refine Target.cleanable_plan ?_ ?_ _
  · rcases hargs with rfl | rfl <;> decide
  · rcases hargs with rfl | rfl <;> decide

/-- The name of a marker that is not taken for one of a script without a
    file. -/
theorem not_hits_ephemeral {i : Identity} (hname : ¬ Identity.IsReserved i.name) (cwd : Path) :
    ¬ Target.ephemeral.hits cwd (Utf8.encode i.markerName) = true := by
  show ¬ Identity.isEphemeralName (Utf8.decodeLossy (Utf8.encode i.markerName)) = true
  rw [Utf8.decodeLossy_encode]
  exact fun hephemeral => hname ((Identity.isEphemeralName_iff ..).1 hephemeral)

/-- What such a clean-up makes of a marker that it does not strike, and of the
    entry of that marker. -/
theorem left_ephemeral {c : Clean} (hc : c.store.IsCache h.cwd top m.files)
    (hreal : c.dryRun = false) {cwd : Path} (hlink : LinksTo m.files top n hash)
    (hhit : ¬ Target.ephemeral.hits cwd n = true) (keepUnused : Bool) :
    (LinksTo (c.left cwd top m.files (.ephemeral :: if keepUnused then [] else [.unused])) top n
        hash ↔ keepUnused = true ∨ hasEntry m.files top hash = true) ∧
    (hasEntry m.files top hash = true → ∀ names,
      (c.left cwd top m.files (.ephemeral :: if keepUnused then [] else [.unused])).at?
          ((Item.entry (Utf8.encode hash)).loc top ++ names) =
        m.files.at? ((Item.entry (Utf8.encode hash)).loc top ++ names)) := by
  have hnone : ¬ ∃ y ∈ [Target.ephemeral], y.hits cwd n = true := by simpa using hhit
  cases keepUnused with
  | true =>
    rw [if_pos rfl, left_of_markers hreal (by simp)]
    refine ⟨?_, fun _ names => at?_without_of_not ?_⟩
    · rw [linksTo_without, marker_mem_markersHit hlink]
      exact iff_of_true ⟨hnone, hlink⟩ (.inl rfl)
    · rw [← Bool.not_eq_true, Item.isStruck_below, mem_markersHit]
      rintro ⟨_, heq, _⟩
      cases heq
  | false =>
    have hys : Target.unused ∉ [.ephemeral] := by simp
    have hsettled := settled_left hc hreal cwd hys
    rw [if_neg Bool.false_ne_true]
    refine ⟨?_, fun hentry names => hsettled.others _ ?_⟩
    · rw [← List.singleton_append, hsettled.markers]
      exact ⟨fun hleft => .inr hleft.2.1,
        fun hentry => ⟨hlink, hentry.resolve_left Bool.false_ne_true, hnone⟩⟩
    · -- The entry stays, because its marker does.
      have hstays := (hsettled.entries hash).2
        ⟨n, (hsettled.markers n hash).2 ⟨hlink, hentry, hnone⟩⟩
      rintro i _ hgone hfront
      obtain rfl := Item.loc_prefix_iff.1 hfront
      rw [hasEntry, hgone] at hstays
      cases hstays

/-! ## Section 4: The whole -/

/-- The marker that a run makes tells whether its script has a file, if the
    stem of that file is not reserved.  A clean-up of the markers of scripts
    without a file leaves the marker of a script file, unless its entry is
    gone and the unused items are cleaned as well; and it leaves that entry. -/
theorem clean_spares_script_files (s : Settings)
    (hopen : (openScript e p script).run h m = (.ok source, m'))
    (hname : HasNoFile p script h m ∨
      ∀ full, source.origin = some full → ¬ Identity.IsReserved (Identity.ofPath full).name) :
    (∀ args, ∀ path ∈ (run e s p script args).links h m, ∃ content,
      path = (store e s).markerPath (source.identity (sha256Hex content))) ∧
    (∀ content, Identity.isEphemeralMarker
        ((store e s).markerPath (source.identity (sha256Hex content))) = true ↔
      HasNoFile p script h m) ∧
    (¬ HasNoFile p script h m → ∀ content h₁ m₁ top hash args keepUnused,
      (store e s).IsCache h₁.cwd top m₁.files →
      LinksTo m₁.files top (Utf8.encode (source.identity (sha256Hex content)).markerName) hash →
      args = [] ∨ args = ["ephemeral".toList] →
      ∃ m₂, (clean e s args false keepUnused).run h₁ m₁ = (.ok (), m₂) ∧
        (LinksTo m₂.files top (Utf8.encode (source.identity (sha256Hex content)).markerName)
            hash ↔ keepUnused = true ∨ hasEntry m₁.files top hash = true) ∧
        (hasEntry m₁.files top hash = true → ∀ names,
          m₂.files.at? ((Item.entry (Utf8.encode hash)).loc top ++ names) =
            m₁.files.at? ((Item.entry (Utf8.encode hash)).loc top ++ names))) := by
  -- A script without a file has a reserved name, and by assumption no other script has.
  have hreserved : ∀ content,
      Identity.IsReserved (source.identity (sha256Hex content)).name ↔ HasNoFile p script h m := by
    intro content
    rcases run_openScript hopen with ⟨hnone, hkind⟩ | ⟨hfile, hkind, full, _, horigin⟩
    · exact iff_of_true (isReserved_of_not_file hkind _) hnone
    · rw [identity_of_file hkind horigin]
      exact iff_of_false (hname.resolve_left hfile full horigin) hfile
  refine ⟨fun args path hlink => marker_of_mem_links hopen hlink, fun content => ?_,
    fun hfile content h₁ m₁ top hash args keepUnused hc hlink hargs => ?_⟩
  · rw [isEphemeralMarker_markerPath, hreserved]
  · have hplan := plan_ephemeral hargs keepUnused
    have hrun := run_clean hc false (cleanable_plan_ephemeral hargs keepUnused)
    have hhit := not_hits_ephemeral (mt (hreserved content).1 hfile) e.cwd
    obtain ⟨hmarker, hentry⟩ := left_ephemeral (c := cleaner e s false) hc rfl hlink hhit keepUnused
    rw [hplan] at hrun
    exact ⟨_, hrun, hmarker, hentry⟩

/-- A file in the root directory. -/
def rootFile (name : Text) : Machine := ⟨⟨[([Utf8.encode name], .file [] 0 plainMode)]⟩, []⟩

/-- The source of the script file at an absolute path. -/
def fileSource (full : Path) : Script.Source :=
  ⟨.file, some full, some full, full.parent?.getD ⟨[Path.slash]⟩, none⟩

/-- A name that is one step, as it is written on the command line. -/
def IsOneStep (name : Text) : Prop :=
  (Path.ofText name).steps = [.name (Utf8.encode name)] ∧ (Path.ofText name).Fits ∧
    (Utf8.encode name).length ≤ nameLimit ∧
    ¬ (Path.ofText name).same (Path.ofText Script.stdinArgument) = true

instance (name : Text) : Decidable (IsOneStep name) := inferInstanceAs (Decidable (_ ∧ _))

theorem findNode_rootFile {name : Text} (hstep : IsOneStep name) :
    (rootFile name).files.findNode cacheHost.cwd true (Path.ofText name) =
      .ok ([Utf8.encode name], .file [] 0 plainMode) := by
  obtain ⟨hsteps, hfits, hn, _⟩ := hstep
  have hnode : (rootFile name).files.at? ([] ++ [Utf8.encode name]) =
      some (.file [] 0 plainMode) := by
    simp [rootFile, at?]
  have hcwd : cacheHost.cwd = [] := rfl
  rw [hcwd, findNode, find_eq_walk hfits, hsteps, walk_last hn _ fun _ t => by rw [hnode]; simp,
    hnode]
  rfl

theorem openScript_rootFile {name : Text} {full : Path} (hstep : IsOneStep name)
    (hfull : (Path.ofText name).absolute cacheEnvironment.cwd = .ok full) :
    (openScript cacheEnvironment {} name).run cacheHost (rootFile name) =
      (.ok (fileSource full), rootFile name) := by
  have hstatus := Action.run_status (Path.ofText name) true cacheHost (rootFile name)
  rw [findNode_rootFile hstep] at hstatus
  show Action.run (Script.Source.ofPath cacheEnvironment.cwd (Path.ofText name)) _ _ = _
  unfold Script.Source.ofPath
  rw [if_neg hstep.2.2.2, Action.run_bind_ok hstatus]
  exact Action.run_bind_ok (Script.Source.run_resolve_ok hfull _ _)

theorem hasFile_rootFile {name : Text} (hstep : IsOneStep name) :
    ¬ HasNoFile {} name cacheHost (rootFile name) := by
  rintro (hcontent | hstdin | ⟨loc, node, hfind, hkind⟩)
  · cases hcontent
  · exact hstep.2.2.2 hstdin
  · obtain ⟨_, rfl⟩ := Prod.mk.inj (Except.ok.inj (hfind.symm.trans (findNode_rootFile hstep)))
    exact hkind rfl

/-- The identity of the script `/a.swift`. -/
def fileIdentity : Identity := Identity.ofPath "/a.swift"

/-- The marker of `/a.swift`, and the entry that it links to. -/
def liveNodes : List (Location × Node) :=
  entryNodes "k".toList [1, 2] ++ [markerNode fileIdentity.markerName "k".toList]

theorem clean_spares_script_files_live :
    (openScript cacheEnvironment {} "a.swift".toList).run cacheHost (rootFile "a.swift".toList) =
        (.ok (fileSource "/a.swift"), rootFile "a.swift".toList) ∧
      ¬ HasNoFile {} "a.swift".toList cacheHost (rootFile "a.swift".toList) ∧
      ¬ Identity.IsReserved fileIdentity.name ∧
      (store cacheEnvironment cacheSettings).IsCache cacheHost.cwd cacheTop (cacheOf liveNodes) ∧
      LinksTo (cacheOf liveNodes) cacheTop (Utf8.encode fileIdentity.markerName) "k".toList ∧
      ∃ m, (clean cacheEnvironment cacheSettings [] false false).run cacheHost
          ⟨cacheOf liveNodes, []⟩ = (.ok (), m) ∧
        LinksTo m.files cacheTop (Utf8.encode fileIdentity.markerName) "k".toList ∧
        ∀ names, m.files.at? ((Item.entry (Utf8.encode "k".toList)).loc cacheTop ++ names) =
          (cacheOf liveNodes).at? ((Item.entry (Utf8.encode "k".toList)).loc cacheTop ++ names) := by
  have hstep : IsOneStep "a.swift".toList := by decide
  have hopen := @openScript_rootFile _ "/a.swift" hstep rfl
  have hfile := hasFile_rootFile hstep
  have hname : ¬ Identity.IsReserved fileIdentity.name := by decide +kernel
  have hnodes : IsCacheOf liveNodes := by decide +kernel
  have hlink := linksTo_of_mem hnodes (List.mem_append_right _ (List.mem_singleton_self _))
  have hentry : hasEntry (cacheOf liveNodes) cacheTop "k".toList = true := by decide +kernel
  obtain ⟨_, _, hclean⟩ := clean_spares_script_files cacheSettings hopen (.inr fun full hfull => by
    cases hfull
    exact hname)
  obtain ⟨m, hrun, hmarker, hkept⟩ := hclean hfile [] cacheHost ⟨cacheOf liveNodes, []⟩ cacheTop
    "k".toList [] false (isCache_cacheOf _ hnodes) hlink (.inl rfl)
  exact ⟨hopen, hfile, hname, isCache_cacheOf _ hnodes, hlink, m, hrun, hmarker.2 (.inr hentry),
    hkept hentry⟩

/-- The marker of `/a.swift`, whose entry is gone. -/
def danglingNodes : List (Location × Node) := [markerNode fileIdentity.markerName "k".toList]

/-- A clean-up without arguments removes the marker of a script file whose
    entry is gone; and the marker of the script file `/stdin` is taken for one
    of a script without a file. -/
theorem clean_removes_marker_of_file :
    ((store cacheEnvironment cacheSettings).IsCache cacheHost.cwd cacheTop
        (cacheOf danglingNodes) ∧
      LinksTo (cacheOf danglingNodes) cacheTop (Utf8.encode fileIdentity.markerName) "k".toList ∧
      ¬ LinksTo ((clean cacheEnvironment cacheSettings [] false false).run cacheHost
        ⟨cacheOf danglingNodes, []⟩).2.files cacheTop (Utf8.encode fileIdentity.markerName)
        "k".toList) ∧
    (openScript cacheEnvironment {} "stdin".toList).run cacheHost (rootFile "stdin".toList) =
        (.ok (fileSource "/stdin"), rootFile "stdin".toList) ∧
      ¬ HasNoFile {} "stdin".toList cacheHost (rootFile "stdin".toList) ∧
      ∀ content, Identity.isEphemeralMarker ((store cacheEnvironment cacheSettings).markerPath
        ((fileSource "/stdin").identity (sha256Hex content))) = true := by
  have hnodes : IsCacheOf danglingNodes := by decide +kernel
  have hc := isCache_cacheOf _ hnodes
  have hlink := linksTo_of_mem hnodes (List.mem_singleton_self _)
  have hentry : ¬ hasEntry (cacheOf danglingNodes) cacheTop "k".toList = true := by
    decide +kernel
  have hstep : IsOneStep "stdin".toList := by decide
  refine ⟨⟨hc, hlink, ?_⟩, openScript_rootFile hstep rfl, hasFile_rootFile hstep,
    fun content => ?_⟩
  · have hargs : ([] : List Text) = [] ∨ [] = ["ephemeral".toList] := .inl rfl
    have hrun := run_clean (m := ⟨cacheOf danglingNodes, []⟩) hc false
      (cleanable_plan_ephemeral hargs false)
    have hplan := plan_ephemeral hargs false
    have hhit := not_hits_ephemeral (i := fileIdentity) (by decide +kernel)
      cacheEnvironment.cwd
    have hleft := (left_ephemeral (c := cleaner cacheEnvironment cacheSettings false)
      (m := ⟨cacheOf danglingNodes, []⟩) hc rfl hlink hhit false).1
    rw [hplan] at hrun
    rw [hrun]
    exact fun hstays => (hleft.1 hstays).elim Bool.false_ne_true hentry
  · rw [isEphemeralMarker_markerPath, identity_of_file rfl rfl]
    decide +kernel

end Tool
end ScriptDeps
