import ScriptDeps.Proofs.Clean.Small

/-! # Cleaning keeps what is used

    A clean-up that ends with the unused items leaves the markers that the
    arguments do not name and whose entry is there, and the entries of these
    markers; it says how much room it has made; and neither the order nor the
    repetition of its arguments counts (`clean_keeps_used_items`).  It does
    stop at an argument without a text, and of two spellings of one path only
    the first counts (`clean_depends_on_spelling`). -/

namespace ScriptDeps

open FileSystem Store

namespace Tool

variable {e : Environment} {s : Settings} {args args' : List Text} {h : Host} {m : Machine}
  {top : Location} {fs fs' : FileSystem} {cwd : Path} {n : Name} {hash : Text}

/-! ## Section 1: What arguments ask for -/

/-- `p` is the path of the marker of a script that the arguments list. -/
def ListsMarker (s : Store) (cwd : Path) (args : List Text) (p : Path) : Prop :=
  ∃ a ∈ args, ∃ script full, Target.ofText a = .script script ∧
    script.absolute cwd = .ok full ∧ s.markerPath (Identity.ofPath full) = p

/-- The arguments ask for the markers of scripts without a file. -/
def AsksEphemeral (args : List Text) : Prop := "ephemeral".toList ∈ args ∨ args = []

/-- Listed scripts whose paths have the same components have the same absolute
    path. -/
def SpelledOnce (cwd : Path) (args : List Text) : Prop :=
  ∀ a ∈ args, ∀ b ∈ args, ∀ p q, Target.ofText a = .script p → Target.ofText b = .script q →
    p.same q = true → p.absolute cwd = q.absolute cwd

theorem hits_script_iff {p : Path} :
    (Target.script p).hits cwd n = true ↔
      ∃ full, p.absolute cwd = .ok full ∧ Utf8.encode (Identity.ofPath full).markerName = n := by
  unfold Target.hits
  dsimp only
  cases p.absolute cwd with
  | error e =>
    constructor
    · intro hfalse
      cases hfalse
    · rintro ⟨full, hfull, _⟩
      cases hfull
  | ok full =>
    rw [decide_eq_true_iff]
    constructor
    · rintro rfl
      exact ⟨full, rfl, rfl⟩
    · rintro ⟨full', hfull, rfl⟩
      cases hfull
      rfl

/-- The targets of a plan that are cleaned before the unused items. -/
def firstTargets (args : List Text) : List Target :=
  (Target.requested args true).foldl Target.add []

theorem requested_of_mem_firstTargets {y : Target} (hy : y ∈ firstTargets args) :
    ((∃ a ∈ args, Target.ofText a = y) ∨ args = [] ∧ y = .ephemeral) ∧ y ≠ .unused := by
  have hmem := (Target.mem_of_mem_adds hy).resolve_left List.not_mem_nil
  obtain ⟨hasked, hne⟩ := Target.mem_requested.1 hmem
  exact ⟨hasked, hne rfl⟩

theorem unused_notMem_firstTargets (args : List Text) : .unused ∉ firstTargets args :=
  fun hmem => (requested_of_mem_firstTargets hmem).2 rfl

/-- A listed script is a target, in one of its spellings. -/
theorem exists_hits_of_listsMarker (s : Store) (hspelled : SpelledOnce cwd args)
    (hn : Path.IsPlainName n) (hlists : ListsMarker s cwd args ((Item.marker n).path s)) :
    ∃ y ∈ firstTargets args, y.hits cwd n = true := by
  obtain ⟨a, ha, p, full, htarget, hfull, hpath⟩ := hlists
  have hmem : .script p ∈ Target.requested args true :=
    Target.mem_requested.2 ⟨.inl ⟨a, ha, htarget⟩, fun _ => by simp⟩
  obtain ⟨y, hy, hsame⟩ := Target.exists_same_of_mem hmem []
  cases y with
  | script q =>
    -- The target has the same components, and so the same absolute path.
    have habsolute : p.absolute cwd = q.absolute cwd := by
      rcases (requested_of_mem_firstTargets hy).1 with ⟨b, hb, hbq⟩ | ⟨_, hq⟩
      · exact hspelled a ha b hb p q htarget hbq hsame
      · cases hq
    refine ⟨_, hy, hits_script_iff.2 ⟨full, habsolute ▸ hfull, ?_⟩⟩
    exact Item.marker.inj (path_inj (i := .marker _) (Clean.isPlainName_ofPath full) hn hpath)
  | _ => simp [Target.same] at hsame

theorem ephemeral_mem_firstTargets (hasks : AsksEphemeral args) :
    .ephemeral ∈ firstTargets args := by
  have hmem : .ephemeral ∈ Target.requested args true := by
    refine Target.mem_requested.2 ⟨?_, fun _ => by simp⟩
    rcases hasks with hmem | hnil
    · exact .inl ⟨_, hmem, Target.ofText_eq_ephemeral.2 rfl⟩
    · exact .inr ⟨hnil, rfl⟩
  obtain ⟨y, hy, hsame⟩ := Target.exists_same_of_mem hmem []
  obtain rfl : Target.ephemeral = y := of_decide_eq_true hsame
  exact hy

/-- Which markers the targets of a plan strike, in terms of the arguments. -/
theorem exists_hits_iff (s : Store) (hspelled : SpelledOnce cwd args)
    (hn : Path.IsPlainName n) :
    (∃ y ∈ firstTargets args, y.hits cwd n = true) ↔
      ListsMarker s cwd args ((Item.marker n).path s) ∨
        AsksEphemeral args ∧ Identity.isEphemeralMarker ((Item.marker n).path s) = true := by
  rw [isEphemeralMarker_path s hn]
  constructor
  · rintro ⟨y, hy, hhit⟩
    rcases (requested_of_mem_firstTargets hy).1 with ⟨a, ha, rfl⟩ | ⟨hnil, rfl⟩
    · cases htarget : Target.ofText a with
      | script p =>
        rw [htarget] at hhit
        obtain ⟨full, hfull, rfl⟩ := hits_script_iff.1 hhit
        exact .inl ⟨a, ha, p, full, htarget, hfull, rfl⟩
      | ephemeral =>
        rw [htarget] at hhit
        exact .inr ⟨.inl (Target.ofText_eq_ephemeral.1 htarget ▸ ha), hhit⟩
      -- The other targets strike no marker by its name.
      | unused => rw [htarget] at hhit; cases hhit
      | all => rw [htarget] at hhit; cases hhit
    · exact .inr ⟨.inr hnil, hhit⟩
  · rintro (hlists | ⟨hasks, hephemeral⟩)
    · exact exists_hits_of_listsMarker s hspelled hn hlists
    · exact ⟨_, ephemeral_mem_firstTargets hasks, hephemeral⟩

theorem spelledOnce_congr (hsame : ∀ a, a ∈ args' ↔ a ∈ args) (hspelled : SpelledOnce cwd args) :
    SpelledOnce cwd args' :=
  fun a ha b hb => hspelled a ((hsame a).1 ha) b ((hsame b).1 hb)

theorem listsMarker_congr (hsame : ∀ a, a ∈ args' ↔ a ∈ args) (s : Store) (cwd p : Path) :
    ListsMarker s cwd args' p ↔ ListsMarker s cwd args p := by
  unfold ListsMarker
  simp only [hsame]

theorem asksEphemeral_congr (hsame : ∀ a, a ∈ args' ↔ a ∈ args) :
    AsksEphemeral args' ↔ AsksEphemeral args := by
  unfold AsksEphemeral
  rw [hsame, List.eq_nil_iff_forall_not_mem, List.eq_nil_iff_forall_not_mem]
  simp only [hsame]

/-! ## Section 2: The whole -/

theorem plan_true (hall : "all".toList ∉ args) :
    Target.plan args true = firstTargets args ++ [.unused] :=
  Target.plan_eq hall true

/-- The unused items are what is cleaned last. -/
theorem settled_clean (hc : (store e s).IsCache h.cwd top m.files) (hall : "all".toList ∉ args)
    (hnamed : [] ∉ args) :
    Settled e.cwd top (firstTargets args) m.files
      ((clean e s args false false).run h m).2.files := by
  have hrun := run_clean hc false (Target.cleanable_plan hall hnamed (!false))
  rw [hrun]
  show Settled e.cwd top (firstTargets args) m.files
    ((cleaner e s false).left e.cwd top m.files (Target.plan args true))
  rw [plan_true hall]
  exact settled_left hc rfl _ (unused_notMem_firstTargets args)

/-- What a clean-up with the arguments `args` makes of a machine `m` whose
    cache is at `top`: it leaves the files `fs'` and gives the notices
    `ns`. -/
structure CleansTo (e : Environment) (s : Settings) (args : List Text) (h : Host) (top : Location)
    (m : Machine) (fs' : FileSystem) (ns : List Notice) : Prop where
  run : (clean e s args false false).run h m =
    (.ok (), ⟨fs', m.seen ++ ns.map (fun n => .said ((cleaner e s false).line n)) ++
      ((cleaner e s false).summary (ns.foldl Clean.count {})).map .said⟩)
  cache : (store e s).IsCache h.cwd top fs'
  /-- The markers left have an entry, and the arguments do not ask for them. -/
  markers : ∀ n hash, LinksTo fs' top n hash ↔
    LinksTo m.files top n hash ∧ hasEntry m.files top hash = true ∧
      ¬ ListsMarker (store e s) e.cwd args ((Item.marker n).path (store e s)) ∧
      ¬ (AsksEphemeral args ∧
        Identity.isEphemeralMarker ((Item.marker n).path (store e s)) = true)
  /-- The entries left are those that a marker which is left links to. -/
  entries : ∀ hash, hasEntry fs' top hash = true ↔ ∃ n, LinksTo fs' top n hash
  /-- What is not part of an item that has gone is as it was. -/
  others : ∀ loc, (∀ i : Item, (m.files.at? (i.loc top)).isSome → fs'.at? (i.loc top) = none →
    ¬ i.loc top <+: loc) → fs'.at? loc = m.files.at? loc
  /-- The size in the summary is what the disk usage of the cache falls by. -/
  freed : (ns.foldl Clean.count {}).bytes + fs'.diskUsage h.cwd (store e s).root =
    m.files.diskUsage h.cwd (store e s).root
  /-- Neither the order nor the repetition of the arguments counts. -/
  reordered : ∀ args', (∀ a, a ∈ args' ↔ a ∈ args) → ∀ m', m'.files = m.files →
    ((clean e s args' false false).run h m').1 = .ok () ∧
      ((clean e s args' false false).run h m').2.files = fs'
  /-- A second clean-up removes nothing and says so. -/
  repeated : ∀ m', m'.files = fs' → ∃ ms, reported ms = [] ∧
    (clean e s args false false).run h m' =
      (.ok (), ⟨fs', m'.seen ++ ms.map (fun n => .said ((cleaner e s false).line n)) ++
        [.said "Nothing to clean.".toList]⟩)

/-- A clean-up that ends with the unused items keeps exactly what is used and
    not asked for. -/
theorem clean_keeps_used_items (hc : (store e s).IsCache h.cwd top m.files)
    (hall : "all".toList ∉ args) (hnamed : [] ∉ args) (hspelled : SpelledOnce e.cwd args) :
    ∃ fs' ns, CleansTo e s args h top m fs' ns := by
  have hreal : (cleaner e s false).dryRun = false := rfl
  have hys := unused_notMem_firstTargets args
  have hxs := Target.cleanable_plan hall hnamed (!false)
  have hplan : Target.plan args (!false) = firstTargets args ++ [.unused] := plan_true hall
  have hrun := run_clean hc false hxs
  have hsettled := settled_left hc hreal e.cwd hys
  have hsum := sum_reported hreal hc.tree e.cwd top (firstTargets args ++ [.unused])
  have hcache : (store e s).IsCache h.cwd top
      ((cleaner e s false).left e.cwd top m.files (firstTargets args ++ [.unused])) :=
    Clean.left_isCache (c := cleaner e s false) hc _
  rw [hplan] at hrun
  refine ⟨_, _, ⟨hrun, hcache, fun n hash => ?_, hsettled.entries, hsettled.others, ?_,
    fun args' hsame m' hm' => ?_, fun m' hm' => ?_⟩⟩
  · -- The markers that the arguments ask for are those that their targets strike.
    rw [hsettled.markers]
    refine and_congr_right fun hlink => and_congr_right fun _ => ?_
    have hn : Path.IsPlainName n := (hc.isEntryName (i := .marker n) hlink).1
    rw [exists_hits_iff (store e s) hspelled hn, not_or]
  · -- The sizes that are reported add up to what the root loses.
    rw [hc.diskUsage_root, hcache.diskUsage_root, foldl_count]
    exact (congrArg (· + _) (Nat.zero_add _)).trans hsum
  · -- The same arguments in another order strike the same markers.
    have hall' : "all".toList ∉ args' := fun hmem => hall ((hsame _).1 hmem)
    have hnamed' : [] ∉ args' := fun hmem => hnamed ((hsame _).1 hmem)
    have hrun' := run_clean (m := m') (by rwa [hm']) false
      (Target.cleanable_plan hall' hnamed' (!false))
    have hplan' : Target.plan args' (!false) = firstTargets args' ++ [.unused] := plan_true hall'
    rw [hrun', hplan', hm']
    refine ⟨rfl, left_congr hreal (unused_notMem_firstTargets args') hys fun n hn => ?_⟩
    obtain ⟨hash, hlink⟩ := exists_linksTo hc hn
    have hplain : Path.IsPlainName n := (hc.isEntryName (i := .marker n) hlink).1
    rw [exists_hits_iff (store e s) (spelledOnce_congr hsame hspelled) hplain,
      exists_hits_iff (store e s) hspelled hplain, listsMarker_congr hsame,
      asksEphemeral_congr hsame]
  · -- A second time nothing is left to strike.
    have hrun' := run_clean (m := m') (by rwa [hm']) false hxs
    have hnothing := settled_again hcache hsettled hys
    obtain ⟨hleft, hreported⟩ := left_of_nothing (c := cleaner e s false) hnothing
    refine ⟨_, hreported, ?_⟩
    rw [hrun', hplan, hm', hleft, foldl_count, hreported]
    rfl

/-- Two entries with a marker each, of which one is that of a script without a
    file, and a marker whose entry is gone. -/
def usedNodes : List (Location × Node) :=
  entryNodes "k".toList [1, 2] ++ entryNodes "g".toList [1, 2, 3] ++
    [markerNode "t--1".toList "k".toList, markerNode "stdin--2".toList "g".toList,
     markerNode "x--3".toList "lost".toList]

theorem clean_keeps_used_items_small :
    (store cacheEnvironment cacheSettings).IsCache cacheHost.cwd cacheTop (cacheOf usedNodes) ∧
      "all".toList ∉ ["a.swift".toList, "ephemeral".toList] ∧
      [] ∉ ["a.swift".toList, "ephemeral".toList] ∧
      SpelledOnce cacheEnvironment.cwd ["a.swift".toList, "ephemeral".toList] ∧
      ∃ fs' ns, CleansTo cacheEnvironment cacheSettings ["a.swift".toList, "ephemeral".toList]
        cacheHost cacheTop ⟨cacheOf usedNodes, []⟩ fs' ns := by
  have hc := isCache_cacheOf usedNodes (by decide +kernel)
  have hspelled : SpelledOnce cacheEnvironment.cwd ["a.swift".toList, "ephemeral".toList] := by
    have hephemeral : ∀ p, Target.ofText "ephemeral".toList ≠ .script p := by
      intro p hp
      rw [Target.ofText_eq_ephemeral.2 rfl] at hp
      cases hp
    intro a ha b hb p q hp hq _
    rcases List.mem_pair.1 ha with rfl | rfl
    · rcases List.mem_pair.1 hb with rfl | rfl
      · rw [hp] at hq
        rw [Target.script.inj hq]
      · exact absurd hq (hephemeral q)
    · exact absurd hp (hephemeral p)
  exact ⟨hc, by decide, by decide, hspelled,
    clean_keeps_used_items (m := ⟨cacheOf usedNodes, []⟩) hc (by decide) (by decide) hspelled⟩

/-- The name of the marker of the script `/a`. -/
def spelledName : Name := Utf8.encode (Identity.ofPath "/a").markerName

/-- An entry with the marker of the script `/a`. -/
def spelledNodes : List (Location × Node) :=
  entryNodes "k".toList [1, 2] ++ [markerNode (Identity.ofPath "/a").markerName "k".toList]

theorem isCacheOf_spelledNodes : IsCacheOf spelledNodes := by decide +kernel

theorem linksTo_spelledNodes :
    LinksTo (cacheOf spelledNodes) cacheTop spelledName "k".toList :=
  linksTo_of_mem isCacheOf_spelledNodes (List.mem_append_right _ (List.mem_singleton_self _))

theorem eq_spelledName (hlink : LinksTo (cacheOf spelledNodes) cacheTop n hash) :
    n = spelledName := by
  have hnames : ∀ e ∈ (cacheOf spelledNodes).nodes, e.1.dropLast = cacheTop ++ [markersName] →
      e.1.getLast? = some spelledName := by decide +kernel
  have hloc : (Item.marker n).loc cacheTop = (cacheTop ++ [markersName]) ++ [n] := rfl
  have hname := hnames _ (mem_nodes_of_at? hlink (Item.loc_ne_nil cacheTop _))
  rw [hloc, List.dropLast_concat, List.getLast?_concat] at hname
  exact Option.some.inj (hname rfl)

/-- Which of the two spellings strikes the marker. -/
theorem hits_spelledName :
    (Target.script "a").hits cacheEnvironment.cwd spelledName = true ∧
      ¬ (Target.script "a/").hits cacheEnvironment.cwd spelledName = true := by
  have hother : Utf8.encode (Identity.ofPath "/a/").markerName ≠ spelledName := by decide +kernel
  refine ⟨hits_script_iff.2 ⟨"/a", rfl, rfl⟩, fun hhit => ?_⟩
  obtain ⟨full, hfull, hname⟩ := hits_script_iff.1 hhit
  obtain rfl : "/a/" = full := Except.ok.inj hfull
  exact hother hname

/-- An argument without a text stops a clean-up before anything is removed, and
    of the spellings `a` and `a/` of one script only the first counts. -/
theorem clean_depends_on_spelling :
    ((store cacheEnvironment cacheSettings).IsCache cacheHost.cwd cacheTop
        (cacheOf (entryNodes "k".toList [1, 2])) ∧
      "all".toList ∉ [[]] ∧
      (clean cacheEnvironment cacheSettings [[]] false false).run cacheHost
        ⟨cacheOf (entryNodes "k".toList [1, 2]), []⟩ =
          (.error (.io "resolving ".toList .emptyPath),
            ⟨cacheOf (entryNodes "k".toList [1, 2]), []⟩)) ∧
    (store cacheEnvironment cacheSettings).IsCache cacheHost.cwd cacheTop (cacheOf spelledNodes) ∧
      hasEntry ((clean cacheEnvironment cacheSettings ["a".toList, "a/".toList] false false).run
        cacheHost ⟨cacheOf spelledNodes, []⟩).2.files cacheTop "k".toList = false ∧
      hasEntry ((clean cacheEnvironment cacheSettings ["a/".toList, "a".toList] false false).run
        cacheHost ⟨cacheOf spelledNodes, []⟩).2.files cacheTop "k".toList = true := by
  have hold := isCache_cacheOf (entryNodes "k".toList [1, 2]) (by decide +kernel)
  have hspelled := isCache_cacheOf _ isCacheOf_spelledNodes
  refine ⟨⟨hold, by decide, ?_⟩, hspelled, ?_, ?_⟩
  · have hplan : Target.plan [[]] (!false) = [] ++ .script ⟨[]⟩ :: [.unused] := by decide
    have hrun := run_clean_error (m := ⟨cacheOf (entryNodes "k".toList [1, 2]), []⟩) hold false
      hplan (by simp) rfl
    have hdisplay : (⟨[]⟩ : Path).display = [] := Utf8.decodeLossy_encode []
    rw [hdisplay, List.append_nil] at hrun
    exact hrun
  · have hall : "all".toList ∉ ["a".toList, "a/".toList] := by decide
    have hsettled := settled_clean (m := ⟨cacheOf spelledNodes, []⟩) hspelled hall (by decide)
    have hfirst : firstTargets ["a".toList, "a/".toList] = [.script "a"] := by decide
    rw [← Bool.not_eq_true, hsettled.entries]
    rintro ⟨n, hleft⟩
    obtain ⟨hlink, _, hnot⟩ := (hsettled.markers n _).1 hleft
    rw [eq_spelledName hlink, hfirst] at hnot
    exact hnot ⟨_, List.mem_singleton_self _, hits_spelledName.1⟩
  · have hall : "all".toList ∉ ["a/".toList, "a".toList] := by decide
    have hsettled := settled_clean (m := ⟨cacheOf spelledNodes, []⟩) hspelled hall (by decide)
    have hfirst : firstTargets ["a/".toList, "a".toList] = [.script "a/"] := by decide
    refine (hsettled.entries _).2 ⟨spelledName,
      (hsettled.markers _ _).2 ⟨linksTo_spelledNodes, by decide +kernel, ?_⟩⟩
    rw [hfirst]
    rintro ⟨y, hy, hhit⟩
    rw [List.mem_singleton.1 hy] at hhit
    exact hits_spelledName.2 hhit

end Tool
end ScriptDeps
