import Mathlib.Data.List.Nodup
import ScriptDeps.Proofs.Clean.Foreseen
import ScriptDeps.Proofs.Clean.Small

/-! # Dry runs

    A dry run changes no files, whatever they are (`looks_clean`).  It
    reports what a clean-up that removes reports, with the same sizes and in
    the same order, exactly if it reports nothing twice and no entry loses its
    last marker before the unused items are cleaned
    (`dry_run_foresees_iff`). -/

namespace ScriptDeps

open FileSystem Store

variable {s : Store} {h : Host} {m : Machine} {fs fs' : FileSystem} {top cwd' : Location}
  {cwd : Path} {args : List Text} {dryRun keepUnused : Bool}

/-! ## Section 1: A dry run only looks -/

namespace Store

theorem looks_listDirectory (dir : Path) : Action.Looks (listDirectory dir) := by
  refine (Action.looks_ask rfl).bind fun answer => ?_
  split
  · exact Action.only_pure _
  · exact Action.only_pure _
  · exact Action.only_throw _

theorem looks_readMarker (s : Store) (path : Path) : Action.Looks (s.readMarker path) := by
  refine (Action.looks_ask rfl).bind fun answer => ?_
  split
  · exact (Action.looks_ask rfl).bind fun _ => Action.only_pure _
  · exact Action.only_pure _

theorem looks_listMarkers (s : Store) : Action.Looks s.listMarkers := by
  refine (looks_listDirectory _).bind fun paths => ?_
  induction paths with
  | nil => exact Action.only_pure _
  | cons p ps ih =>
    rw [List.mapM_cons]
    exact (looks_readMarker s p).bind fun _ => ih.bind fun _ => Action.only_pure _

theorem looks_ephemeralMarkers (s : Store) : Action.Looks s.ephemeralMarkers :=
  (looks_listMarkers s).bind fun _ => Action.only_pure _

theorem looks_unused (s : Store) : Action.Looks s.unused :=
  (looks_listMarkers s).bind fun _ => (looks_listDirectory _).bind fun _ => Action.only_pure _

end Store

namespace Tool

namespace Clean

variable {c : Clean} {t : Tally}

theorem looks_remove (hdry : c.dryRun = true) (t : Tally) (p : Path) :
    Action.Looks (c.remove t p) := by
  rw [remove_eq, hdry]
  refine (Action.looks_ask rfl).bind fun answer => ?_
  cases answer with
  | error e => exact Action.only_pure _
  | ok status =>
    have hsize : Action.Looks
        (if status.kind = .directory then Store.diskUsage p else pure 0) := by
      split
      · exact (Action.looks_ask rfl).bind fun _ => Action.only_pure _
      · exact Action.only_pure _
    refine hsize.bind fun size => (Action.only_pure true).bind fun gone => ?_
    unfold announce
    split
    · exact (Action.looks_ask rfl).bind fun _ => Action.only_pure _
    · exact Action.only_pure _

theorem looks_removeAll (hdry : c.dryRun = true) (t : Tally) (ps : List Path) :
    Action.Looks (c.removeAll t ps) := by
  induction ps generalizing t with
  | nil => exact Action.only_pure _
  | cons p ps ih => exact (looks_remove hdry t p).bind fun _ => ih _

theorem looks_target (hdry : c.dryRun = true) (cwd : Path) (t : Tally) (x : Target) :
    Action.Looks (c.target cwd t x) := by
  cases x with
  | all => exact (looks_remove hdry t _).bind fun _ => Action.only_pure _
  | ephemeral => exact (looks_ephemeralMarkers c.store).bind fun _ => looks_removeAll hdry t _
  | unused => exact (looks_unused c.store).bind fun _ => looks_removeAll hdry t _
  | script p =>
    refine (Action.only_orFail _ _).bind fun full => (looks_remove hdry t _).bind fun found => ?_
    dsimp only
    split
    · exact (Action.looks_ask rfl).bind fun _ => Action.only_pure _
    · exact Action.only_pure _

theorem looks_targets (hdry : c.dryRun = true) (cwd : Path) (t : Tally) (xs : List Target) :
    Action.Looks (c.targets cwd t xs) := by
  induction xs generalizing t with
  | nil => exact Action.only_pure _
  | cons x xs ih => exact (looks_target hdry cwd t x).bind fun t => ih t

theorem looks_sayAll (ls : List Text) : Action.Looks (sayAll ls) := by
  induction ls with
  | nil => exact Action.only_pure _
  | cons l ls ih => exact (Action.looks_ask rfl).bind fun _ => ih

end Clean

variable {e : Environment} {s : Settings}

theorem looks_clean (e : Environment) (s : Settings) (args : List Text) (keepUnused : Bool) :
    Action.Looks (clean e s args true keepUnused) :=
  (Clean.looks_targets rfl _ _ _).bind fun _ => Clean.looks_sayAll _

/-! ## Section 2: How far a clean-up gets -/

/-- The targets of a plan up to the first path without an absolute form. -/
def reached (args : List Text) (keepUnused : Bool) : List Target :=
  (Target.plan args !keepUnused).takeWhile Target.resolves

/-- How a clean-up ends: it fails at a path without an absolute form. -/
def ending (args : List Text) (keepUnused : Bool) : Except Failure PUnit :=
  match (Target.plan args !keepUnused).dropWhile Target.resolves with
  | .script p :: _ => .error (.io ("resolving " ++ p.display) .emptyPath)
  | _ => .ok ()

/-- The lines of a clean-up that gives notices: the sum at the end is only
    given if the clean-up does not fail. -/
def Clean.report (c : Clean) (ending : Except Failure PUnit) (ns : List Notice) : List Text :=
  ns.map c.line ++
    match ending with
    | .ok _ => c.summary ⟨(reported ns).length, ((reported ns).map (·.2)).sum⟩
    | .error _ => []

/-- A clean-up with these arguments gives the notices `ns` and leaves `fs'`. -/
def Gives (e : Environment) (s : Settings) (args : List Text) (dryRun keepUnused : Bool) (h : Host)
    (m : Machine) (ns : List Notice) (fs' : FileSystem) : Prop :=
  (clean e s args dryRun keepUnused).run h m =
    (ending args keepUnused,
      ⟨fs', m.seen ++ ((cleaner e s dryRun).report (ending args keepUnused) ns).map .said⟩)

theorem eq_script_of_not_resolves {x : Target} (hx : x.resolves = false) : ∃ p, x = .script p := by
  cases x with
  | script p => exact ⟨p, rfl⟩
  | _ => cases hx

theorem gives_reached (hc : (store e s).IsCache h.cwd top m.files) (hall : "all".toList ∉ args)
    (dryRun keepUnused : Bool) :
    Gives e s args dryRun keepUnused h m
      ((cleaner e s dryRun).notices e.cwd top m.files (reached args keepUnused))
      ((cleaner e s dryRun).left e.cwd top m.files (reached args keepUnused)) := by
  -- The targets that are reached, and then nothing or one whose path cannot be resolved.
  have hsplit : Target.plan args (!keepUnused) =
      reached args keepUnused ++ (Target.plan args (!keepUnused)).dropWhile Target.resolves :=
    List.takeWhile_append_dropWhile.symm
  have hxs : ∀ x ∈ reached args keepUnused, x ≠ .all ∧ x.resolves = true := fun x hx =>
    ⟨Target.ne_all_of_mem_plan hall ((List.takeWhile_sublist _).subset hx),
      List.all_eq_true.1 List.all_takeWhile x hx⟩
  have hhead := List.head?_dropWhile_not Target.resolves (Target.plan args (!keepUnused))
  unfold Gives ending Clean.report
  cases hrest : (Target.plan args (!keepUnused)).dropWhile Target.resolves with
  | nil =>
    rw [hrest, List.append_nil] at hsplit
    have hrun := run_clean hc dryRun (hsplit ▸ hxs)
    rw [hsplit, foldl_count] at hrun
    simp only [Nat.zero_add] at hrun
    rw [hrun, List.map_append, List.map_map, List.append_assoc]
    rfl
  | cons x xs =>
    rw [hrest] at hsplit hhead
    obtain ⟨p, rfl⟩ := eq_script_of_not_resolves hhead
    rw [run_clean_error hc dryRun hsplit hxs hhead, List.append_nil, List.map_map]
    rfl

/-! ## Section 3: The whole cache -/

theorem reached_of_mem_all (hall : "all".toList ∈ args) (keepUnused : Bool) :
    reached args keepUnused = [.all] := by
  rw [reached, Target.plan_of_mem_all hall]
  rfl

theorem ending_of_mem_all (hall : "all".toList ∈ args) (keepUnused : Bool) :
    ending args keepUnused = .ok () := by
  rw [ending, Target.plan_of_mem_all hall]
  rfl

theorem run_clean_all (hall : "all".toList ∈ args) (keepUnused : Bool) {found : Bool} {t : Tally}
    {m' : Machine}
    (hremove : ((cleaner e s dryRun).remove {} (store e s).root).run h m = (.ok (found, t), m')) :
    (clean e s args dryRun keepUnused).run h m =
      (.ok (), ⟨m'.files, m'.seen ++ ((cleaner e s dryRun).summary t).map .said⟩) := by
  have htarget : ((cleaner e s dryRun).target e.cwd {} .all).run h m = (.ok t, m') := by
    unfold Clean.target
    exact Action.run_bind_ok hremove
  have htargets : ((cleaner e s dryRun).targets e.cwd {} [.all]).run h m = (.ok t, m') := by
    unfold Clean.targets
    exact Action.run_bind_ok htarget
  unfold clean
  rw [Target.plan_of_mem_all hall]
  show Action.run ((cleaner e s dryRun).targets e.cwd {} [.all] >>= fun t =>
    Clean.sayAll ((cleaner e s dryRun).summary t)) h m = _
  rw [Action.run_bind_ok htargets, Clean.run_sayAll]

/-- The whole cache is its root, where it is there. -/
theorem gives_all (hwf : m.files.WellFormed) (hall : "all".toList ∈ args) {loc : Location}
    {node : Node} (hfind : m.files.findNode h.cwd false (store e s).root = .ok (loc, node)) :
    Gives e s args dryRun keepUnused h m
      [.removed (store e s).root (m.files.sizeAt h.cwd (store e s).root node)]
      (if dryRun then m.files else m.files.without [loc]) := by
  have hrun := run_clean_all hall keepUnused
    (Clean.run_remove_found (c := cleaner e s dryRun) (t := {}) hwf hfind)
  unfold Gives Clean.report
  rw [hrun, ending_of_mem_all hall, List.map_append, ← List.append_assoc]
  simp only [Clean.count, Nat.zero_add]
  rfl

theorem gives_nothing (hall : "all".toList ∈ args) {f : IoError}
    (hfind : m.files.findNode h.cwd false (store e s).root = .error f) :
    Gives e s args dryRun keepUnused h m [] m.files := by
  have hrun := run_clean_all hall keepUnused
    (Clean.run_remove_nothing (c := cleaner e s dryRun) (t := {}) hfind)
  unfold Gives Clean.report
  rw [hrun, ending_of_mem_all hall]
  rfl

/-! ## Section 4: What is reported and what is gone -/

/-- A path and what it leads to; a link at its end is not followed. -/
structure Finding where
  path : Path
  loc  : Location
  node : Node

/-- The reports `rs` name paths that are there, with their sizes, and `locs`
    are the places that these paths lead to. -/
def Accounts (fs : FileSystem) (cwd : Location) (rs : List (Path × Nat)) (locs : List Location) :
    Prop :=
  ∃ fds : List Finding, (∀ fd ∈ fds, fs.findNode cwd false fd.path = .ok (fd.loc, fd.node)) ∧
    rs = fds.map (fun fd => (fd.path, fs.sizeAt cwd fd.path fd.node)) ∧ locs = fds.map (·.loc)

theorem accounts_nil (fs : FileSystem) (cwd : Location) : Accounts fs cwd [] [] :=
  ⟨[], by simp, rfl, rfl⟩

theorem accounts_singleton {p : Path} {loc : Location} {node : Node}
    (hfind : fs.findNode cwd' false p = .ok (loc, node)) :
    Accounts fs cwd' [(p, fs.sizeAt cwd' p node)] [loc] :=
  ⟨[⟨p, loc, node⟩], by simpa using hfind, rfl, rfl⟩

/-- Items that are there are reported with their sizes. -/
theorem accounts_items {s : Store} (hc : s.IsCache cwd' top fs) {is : List Item}
    (hthere : ∀ i ∈ is, (fs.at? (i.loc top)).isSome) :
    Accounts fs cwd' (is.map (reportOf s top fs)) (is.map (Item.loc top)) := by
  refine ⟨is.map fun i => ⟨i.path s, i.loc top, (fs.at? (i.loc top)).getD .directory⟩, ?_, ?_, ?_⟩
  · intro fd hfd
    obtain ⟨i, hi, rfl⟩ := List.mem_map.1 hfd
    obtain ⟨node, hnode⟩ := Option.isSome_iff_exists.1 (hthere i hi)
    rw [hnode]
    exact hc.findNode_item hnode
  · rw [List.map_map]
    refine List.map_congr_left fun i hi => ?_
    obtain ⟨node, hnode⟩ := Option.isSome_iff_exists.1 (hthere i hi)
    rw [Function.comp_apply, hnode]
    exact congrArg (Prod.mk _) (hc.sizeAt_item hnode).symm
  · rw [List.map_map]
    rfl

theorem there_of_mem_struckAtOnce {xs : List Target} {i : Item}
    (hi : i ∈ struckAtOnce cwd top fs xs) : (fs.at? (i.loc top)).isSome := by
  obtain ⟨x, _, hstruck⟩ := List.mem_flatMap.1 hi
  exact Target.there_of_mem_struck hstruck

/-- Items that are there are told apart by their reports. -/
theorem reportOf_inj {s : Store} (hc : s.IsCache cwd' top fs) {i j : Item}
    (hi : (fs.at? (i.loc top)).isSome) (hj : (fs.at? (j.loc top)).isSome)
    (heq : reportOf s top fs i = reportOf s top fs j) : i = j := by
  obtain ⟨_, hi⟩ := Option.isSome_iff_exists.1 hi
  obtain ⟨_, hj⟩ := Option.isSome_iff_exists.1 hj
  exact path_inj (hc.isEntryName hi).1 (hc.isEntryName hj).1 (Prod.mk.inj heq).1

theorem map_reportOf_inj {s : Store} (hc : s.IsCache cwd' top fs) {is js : List Item}
    (his : ∀ i ∈ is, (fs.at? (i.loc top)).isSome) (hjs : ∀ j ∈ js, (fs.at? (j.loc top)).isSome) :
    is.map (reportOf s top fs) = js.map (reportOf s top fs) ↔ is = js := by
  refine ⟨fun heq => ?_, congrArg _⟩
  induction is generalizing js with
  | nil => exact (List.map_eq_nil_iff.1 heq.symm).symm
  | cons i is ih =>
    obtain ⟨j, js', rfl, hfirst, hrest⟩ := List.map_eq_cons_iff.1 heq.symm
    rw [reportOf_inj hc (his i (List.mem_cons_self ..)) (hjs j (List.mem_cons_self ..)) hfirst.symm,
      ih (fun i hi => his i (List.mem_cons_of_mem _ hi))
        (fun j hj => hjs j (List.mem_cons_of_mem _ hj)) hrest.symm]

theorem nodup_map_reportOf {s : Store} (hc : s.IsCache cwd' top fs) {is : List Item}
    (his : ∀ i ∈ is, (fs.at? (i.loc top)).isSome) :
    (is.map (reportOf s top fs)).Nodup ↔ is.Nodup := by
  refine ⟨List.Nodup.of_map _, List.Nodup.map_on fun i hi j hj => ?_⟩
  exact reportOf_inj hc (his i hi) (his j hj)

/-! ## Section 5: Items -/

/-- A dry run reports what the targets strike in the cache as it is. -/
theorem gives_dry (hc : (store e s).IsCache h.cwd top m.files) (hall : "all".toList ∉ args)
    (keepUnused : Bool) :
    ∃ ns, Gives e s args true keepUnused h m ns m.files ∧
      reported ns = (struckAtOnce e.cwd top m.files (reached args keepUnused)).map
        (reportOf (store e s) top m.files) := by
  have hgives := gives_reached hc hall true keepUnused
  have hsame : (cleaner e s true).left e.cwd top m.files (reached args keepUnused) = m.files := by
    have hfiles := (looks_clean e s args keepUnused).files h m
    rwa [hgives] at hfiles
  rw [hsame] at hgives
  exact ⟨_, hgives, reported_dry rfl _⟩

/-- A clean-up that removes reports what the targets strike one after the
    other, and takes it away. -/
theorem gives_real (hc : (store e s).IsCache h.cwd top m.files) (hall : "all".toList ∉ args)
    (keepUnused : Bool) :
    ∃ ms, Gives e s args false keepUnused h m ms (m.files.without
        ((struckInTurn e.cwd top m.files (reached args keepUnused)).map (Item.loc top))) ∧
      reported ms = (struckInTurn e.cwd top m.files (reached args keepUnused)).map
        (reportOf (store e s) top m.files) := by
  have hgives := gives_reached hc hall false keepUnused
  obtain ⟨hreported, hleft⟩ := reported_real (c := cleaner e s false) rfl hc.tree
    (reached args keepUnused)
  rw [hleft] at hgives
  exact ⟨_, hgives, hreported⟩

theorem unusedOnce_of_nodup {xs : List Target} (h : xs.Nodup) : UnusedOnce xs := by
  by_cases hmem : .unused ∈ xs
  · obtain ⟨ys, zs, rfl⟩ := List.append_of_mem hmem
    obtain ⟨_, hzs, happart⟩ := List.nodup_append.1 h
    exact .inr ⟨ys, zs, rfl, fun hys => happart _ hys _ (List.mem_cons_self ..) rfl,
      (List.nodup_cons.1 hzs).1⟩
  · exact .inl hmem

theorem unusedOnce_reached (args : List Text) (keepUnused : Bool) :
    UnusedOnce (reached args keepUnused) :=
  unusedOnce_of_nodup ((List.takeWhile_sublist _).nodup (Target.nodup_plan ..))

theorem freesNoEntry_of_mem_all (hall : "all".toList ∈ args) (cwd : Path) (top : Location)
    (fs : FileSystem) : FreesNoEntry cwd top fs (reached args keepUnused) := by
  rw [reached_of_mem_all hall]
  intro ys zs heq
  rcases ys with _ | ⟨y, ys⟩ <;> simp at heq

/-! ## Section 6: The whole -/

/-- A dry run changes no files; and it reports what the same clean-up removes
    exactly if it reports nothing twice and no entry loses its last marker
    before the unused items are cleaned. -/
theorem dry_run_foresees_iff (hc : (store e s).IsCache h.cwd top m.files) (args : List Text)
    (keepUnused : Bool) :
    (∀ h' m', ((clean e s args true keepUnused).run h' m').2.files = m'.files) ∧
    ∃ ns ms there gone,
      Gives e s args true keepUnused h m ns m.files ∧
      Gives e s args false keepUnused h m ms (m.files.without gone) ∧
      Accounts m.files h.cwd (reported ns) there ∧
      Accounts m.files h.cwd (reported ms) gone ∧
      (reported ns = reported ms ↔
        (reported ns).Nodup ∧ FreesNoEntry e.cwd top m.files (reached args keepUnused)) := by
  refine ⟨(looks_clean e s args keepUnused).files, ?_⟩
  by_cases hall : "all".toList ∈ args
  · -- The whole cache is one path, which is looked at once.
    have hfrees : FreesNoEntry e.cwd top m.files (reached args keepUnused) :=
      freesNoEntry_of_mem_all hall _ _ _
    cases hfind : m.files.findNode h.cwd false (store e s).root with
    | error f =>
      refine ⟨[], [], [], [], gives_nothing hall hfind, ?_, accounts_nil .., accounts_nil ..,
        by simpa [reported] using hfrees⟩
      rw [without_nil]
      exact gives_nothing hall hfind
    | ok found =>
      obtain ⟨loc, node⟩ := found
      exact ⟨_, _, [loc], [loc], gives_all hc.tree.wellFormed hall hfind,
        gives_all hc.tree.wellFormed hall hfind, accounts_singleton hfind,
        accounts_singleton hfind, by simpa [reported, Notice.removed?] using hfrees⟩
  · -- Both report items; the question is which items each of them strikes.
    obtain ⟨ns, hdry, hreported⟩ := gives_dry hc hall keepUnused
    obtain ⟨ms, hreal, hremoved⟩ := gives_real hc hall keepUnused
    have hthere : ∀ i ∈ struckAtOnce e.cwd top m.files (reached args keepUnused),
        (m.files.at? (i.loc top)).isSome := fun i hi => there_of_mem_struckAtOnce hi
    have hturn := (struckInTurn_spec hc.tree e.cwd top (reached args keepUnused)).2
    refine ⟨ns, ms, _, _, hdry, hreal, hreported ▸ accounts_items hc hthere,
      hremoved ▸ accounts_items hc hturn, ?_⟩
    rw [hreported, hremoved, nodup_map_reportOf hc hthere,
      ← struckInTurn_eq_iff hc (unusedOnce_reached args keepUnused),
      map_reportOf_inj hc hthere hturn]
    exact eq_comm

/-- An entry that only the marker of a script without a file links to. -/
def pipedNodes : List (Location × Node) :=
  entryNodes "piped".toList [1, 2] ++ [markerNode "stdin--1".toList "piped".toList]

theorem dry_run_foresees_iff_small :
    (store cacheEnvironment cacheSettings).IsCache cacheHost.cwd cacheTop (cacheOf pipedNodes) ∧
    (∀ h m, ((clean cacheEnvironment cacheSettings [] true true).run h m).2.files = m.files) ∧
    ∃ ns ms there gone,
      Gives cacheEnvironment cacheSettings [] true true cacheHost ⟨cacheOf pipedNodes, []⟩ ns
        (cacheOf pipedNodes) ∧
      Gives cacheEnvironment cacheSettings [] false true cacheHost ⟨cacheOf pipedNodes, []⟩ ms
        ((cacheOf pipedNodes).without gone) ∧
      Accounts (cacheOf pipedNodes) cacheHost.cwd (reported ns) there ∧
      Accounts (cacheOf pipedNodes) cacheHost.cwd (reported ms) gone ∧
      (reported ns = reported ms ↔ (reported ns).Nodup ∧
        FreesNoEntry cacheEnvironment.cwd cacheTop (cacheOf pipedNodes) (reached [] true)) :=
  have hc := isCache_cacheOf pipedNodes (by decide +kernel)
  ⟨hc, dry_run_foresees_iff (m := ⟨cacheOf pipedNodes, []⟩) hc [] true⟩

/-- An entry whose last marker is that of a script without a file is removed
    by a clean-up without arguments, and its dry run does not say so. -/
theorem dry_run_misses_freed_entry :
    (store cacheEnvironment cacheSettings).IsCache cacheHost.cwd cacheTop (cacheOf pipedNodes) ∧
    Gives cacheEnvironment cacheSettings [] true false cacheHost ⟨cacheOf pipedNodes, []⟩
      [.removed "/c/markers/stdin--1" 0] (cacheOf pipedNodes) ∧
    Gives cacheEnvironment cacheSettings [] false false cacheHost ⟨cacheOf pipedNodes, []⟩
      [.removed "/c/markers/stdin--1" 0, .removed "/c/store/piped" 2] (cacheOf []) := by
  have hc := isCache_cacheOf pipedNodes (by decide +kernel)
  have hall : "all".toList ∉ ([] : List Text) := List.not_mem_nil
  have hreached : reached [] false = [.ephemeral, .unused] := by decide
  have hdry := gives_reached (m := ⟨cacheOf pipedNodes, []⟩) hc hall true false
  have hreal := gives_reached (m := ⟨cacheOf pipedNodes, []⟩) hc hall false false
  have hdryNotices : (cleaner cacheEnvironment cacheSettings true).notices cacheEnvironment.cwd
      cacheTop (cacheOf pipedNodes) [.ephemeral, .unused] =
      [.removed "/c/markers/stdin--1" 0] := by decide +kernel
  have hrealNotices : (cleaner cacheEnvironment cacheSettings false).notices cacheEnvironment.cwd
      cacheTop (cacheOf pipedNodes) [.ephemeral, .unused] =
      [.removed "/c/markers/stdin--1" 0, .removed "/c/store/piped" 2] := by decide +kernel
  have hleft : (cleaner cacheEnvironment cacheSettings false).left cacheEnvironment.cwd cacheTop
      (cacheOf pipedNodes) [.ephemeral, .unused] = cacheOf [] := by decide +kernel
  rw [hreached, hdryNotices] at hdry
  rw [hreached, hrealNotices, hleft] at hreal
  exact ⟨hc, hdry, hreal⟩

end Tool
end ScriptDeps
