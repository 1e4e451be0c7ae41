import ScriptDeps.Proofs.Clean.Outcome

/-! # What a clean-up can foresee

    A clean-up that removes looks at each target in the cache that the targets
    before it have left; a dry run looks at the cache as it is.  Both strike
    the same items exactly if the dry run strikes nothing twice and no entry
    loses its last marker before the unused items are cleaned
    (`struckInTurn_eq_iff`). -/

namespace ScriptDeps

open FileSystem Store

namespace Tool

variable {s : Store} {cwd' top : Location} {fs : FileSystem} {cwd : Path} {xs ys : List Target}
  {n : Name} {hash : Text} {is : List Item} {i : Item} {x : Target} {c : Clean}

/-! ## Section 1: Model -/

/-- What targets strike one after the other, each in what the others before it
    have left. -/
def struckInTurn (cwd : Path) (top : Location) (fs : FileSystem) : List Target → List Item
  | [] => []
  | x :: xs =>
      x.struck cwd top fs ++
        struckInTurn cwd top (fs.without ((x.struck cwd top fs).map (Item.loc top))) xs

/-- What targets strike in the cache as it is. -/
def struckAtOnce (cwd : Path) (top : Location) (fs : FileSystem) (xs : List Target) : List Item :=
  xs.flatMap fun x => x.struck cwd top fs

/-- No entry loses its last marker to targets that are cleaned before the
    unused items. -/
def FreesNoEntry (cwd : Path) (top : Location) (fs : FileSystem) (xs : List Target) : Prop :=
  ∀ ys zs, xs = ys ++ .unused :: zs → .unused ∉ ys → ∀ n hash, LinksTo fs top n hash →
    hasEntry fs top hash = true → ∃ n', LinksTo fs top n' hash ∧ ¬ ∃ y ∈ ys, y.hits cwd n' = true

/-! ## Section 2: Targets in turn -/

theorem struckInTurn_append (cwd : Path) (top : Location) (fs : FileSystem) (xs ys : List Target) :
    struckInTurn cwd top fs (xs ++ ys) =
      struckInTurn cwd top fs xs ++ struckInTurn cwd top
        (fs.without ((struckInTurn cwd top fs xs).map (Item.loc top))) ys := by
  induction xs generalizing fs with
  | nil => rw [struckInTurn, List.map_nil, without_nil]; rfl
  | cons x xs ih =>
    rw [List.cons_append, struckInTurn, ih, without_without, ← List.map_append, struckInTurn,
      List.append_assoc]

/-- What is struck is there, and is not struck again. -/
theorem struckInTurn_spec (htree : fs.IsTree) (cwd : Path) (top : Location) (xs : List Target) :
    (struckInTurn cwd top fs xs).Nodup ∧
      ∀ i ∈ struckInTurn cwd top fs xs, (fs.at? (i.loc top)).isSome := by
  induction xs generalizing fs with
  | nil => exact ⟨List.nodup_nil, fun i hi => absurd hi List.not_mem_nil⟩
  | cons x xs ih =>
    obtain ⟨hnodup, hthere⟩ := ih
      (htree.without ((x.struck cwd top fs).map (Item.loc top)))
    have hleft : ∀ i ∈ struckInTurn cwd top
        (fs.without ((x.struck cwd top fs).map (Item.loc top))) xs,
        i ∉ x.struck cwd top fs ∧ (fs.at? (i.loc top)).isSome := by
      intro i hi
      obtain ⟨node, hnode⟩ := Option.isSome_iff_exists.1 (hthere i hi)
      obtain ⟨hfirst, hnode⟩ := Item.at?_without_items.1 hnode
      exact ⟨hfirst, by rw [hnode]; rfl⟩
    refine ⟨List.nodup_append.2 ⟨Target.nodup_struck htree cwd top x, hnodup, ?_⟩, ?_⟩
    · rintro i hi _ hj rfl
      exact (hleft i hj).1 hi
    · intro i hi
      rcases List.mem_append.1 hi with hi | hi
      · exact Target.there_of_mem_struck hi
      · exact (hleft i hi).2

/-- A dry run reports what it strikes at once. -/
theorem reported_dry (hdry : c.dryRun = true) (xs : List Target) :
    reported (c.notices cwd top fs xs) =
      (struckAtOnce cwd top fs xs).map (reportOf c.store top fs) := by
  induction xs with
  | nil => rfl
  | cons x xs ih =>
    rw [Clean.notices, reported_append, reported_notices, Clean.keep_of_dry hdry, ih,
      ← List.map_append]
    rfl

/-- A clean-up that removes reports what it strikes in turn, with the sizes
    that it had at first, and takes it away. -/
theorem reported_real (hreal : c.dryRun = false) (htree : fs.IsTree) (xs : List Target) :
    reported (c.notices cwd top fs xs) =
        (struckInTurn cwd top fs xs).map (reportOf c.store top fs) ∧
      c.left cwd top fs xs = fs.without ((struckInTurn cwd top fs xs).map (Item.loc top)) := by
  induction xs generalizing fs with
  | nil => exact ⟨rfl, by rw [struckInTurn, List.map_nil, without_nil]; rfl⟩
  | cons x xs ih =>
    obtain ⟨hreported, hleft⟩ := ih (htree.without ((x.struck cwd top fs).map (Item.loc top)))
    have hthere := (struckInTurn_spec (htree.without ((x.struck cwd top fs).map (Item.loc top)))
      cwd top xs).2
    rw [Clean.notices, Clean.left, Clean.keep_of_real hreal, reported_append, reported_notices,
      hreported, hleft, without_without, ← List.map_append, struckInTurn, List.map_append]
    refine ⟨congrArg (_ ++ ·) (List.map_congr_left fun i hi => ?_), rfl⟩
    obtain ⟨node, hnode⟩ := Option.isSome_iff_exists.1 (hthere i hi)
    refine congrArg (Prod.mk _) (bytesAt_without_of_apart fun l hl => ?_)
    exact Item.isStruck_below_of_not (Item.at?_without_items.1 hnode).1 hl

/-! ## Section 3: Targets in what is left -/

/-- A marker target strikes what it would strike at first, without what is
    gone. -/
theorem struck_without (hx : x ≠ .unused) (fs : FileSystem) (is : List Item) :
    x.struck cwd top (fs.without (is.map (Item.loc top))) =
      (x.struck cwd top fs).filter fun i => i ∉ is := by
  rw [struck_of_ne_unused hx, struck_of_ne_unused hx]
  unfold markersHit
  rw [markerNames_without, List.filter_map, List.filter_filter, List.filter_filter]
  refine congrArg _ (List.filter_congr fun n _ => ?_)
  exact Bool.and_comm ..

theorem filter_notMem_of_nodup {js : List Item} (h : (is ++ js).Nodup) :
    (js.filter fun i => i ∉ is) = js :=
  List.filter_eq_self.2 fun j hj =>
    decide_eq_true fun hi => (List.nodup_append.1 h).2.2 j hi j hj rfl

/-- Marker targets strike in turn what they strike at once, if that is nothing
    twice and nothing that is gone. -/
theorem struckInTurn_markers (hys : .unused ∉ ys)
    (hnodup : (is ++ struckAtOnce cwd top fs ys).Nodup) :
    struckInTurn cwd top (fs.without (is.map (Item.loc top))) ys = struckAtOnce cwd top fs ys := by
  -- What is gone grows by what the first target strikes.
  induction ys generalizing is with
  | nil => rfl
  | cons y ys ih =>
    have hy : y ≠ .unused := fun heq => hys (heq ▸ List.mem_cons_self ..)
    have hsplit : struckAtOnce cwd top fs (y :: ys) =
        y.struck cwd top fs ++ struckAtOnce cwd top fs ys := rfl
    rw [hsplit, ← List.append_assoc] at hnodup
    have hfirst : y.struck cwd top (fs.without (is.map (Item.loc top))) = y.struck cwd top fs := by
      rw [struck_without hy, filter_notMem_of_nodup (List.nodup_append.1 hnodup).1]
    rw [struckInTurn, hfirst, without_without, ← List.map_append,
      ih (fun hmem => hys (List.mem_cons_of_mem _ hmem)) hnodup, hsplit]

theorem mem_struckAtOnce (hys : .unused ∉ ys) (hlink : LinksTo fs top n hash) :
    .marker n ∈ struckAtOnce cwd top fs ys ↔ ∃ y ∈ ys, y.hits cwd n = true := by
  unfold struckAtOnce
  rw [List.mem_flatMap]
  refine exists_congr fun y => and_congr_right fun hy => ?_
  rw [struck_of_ne_unused fun heq => hys (heq ▸ hy), marker_mem_markersHit hlink]
  simp

/-- Only the unused items can be entries. -/
theorem eq_unused_of_entry_mem (h : .entry n ∈ x.struck cwd top fs) : x = .unused := by
  refine Classical.byContradiction fun hx => ?_
  rw [struck_of_ne_unused hx] at h
  obtain ⟨_, heq, _⟩ := mem_markersHit.1 h
  cases heq

theorem entry_notMem_struckAtOnce (hys : .unused ∉ ys) :
    .entry n ∉ struckAtOnce cwd top fs ys := by
  intro hmem
  obtain ⟨y, hy, hstruck⟩ := List.mem_flatMap.1 hmem
  exact hys (eq_unused_of_entry_mem hstruck ▸ hy)

/-- Without some live markers, the dangling ones are what they were. -/
theorem dangling_without (hc : s.IsCache cwd' top fs) {gone : List Item}
    (hentries : ∀ n, .entry n ∉ gone)
    (hlive : ∀ n hash, .marker n ∈ gone → LinksTo fs top n hash → hasEntry fs top hash = true) :
    (markerNames (fs.without (gone.map (Item.loc top))) top).filter
        (fun n => !isLive (fs.without (gone.map (Item.loc top))) top n) =
      (markerNames fs top).filter fun n => !isLive fs top n := by
  have hleft : s.IsCache cwd' top (fs.without (gone.map (Item.loc top))) := hc.without gone
  rw [markerNames_without, List.filter_filter]
  refine List.filter_congr fun n hn => ?_
  obtain ⟨hash, hlink⟩ := exists_linksTo hc hn
  by_cases hmem : Item.marker n ∈ gone
  · have hlive : isLive fs top n = true := (isLive_iff hc hlink).trans (hlive n hash hmem hlink)
    simp [hmem, hlive]
  · have hlink' : LinksTo (fs.without (gone.map (Item.loc top))) top n hash :=
      linksTo_without.2 ⟨hmem, hlink⟩
    have hentry : hasEntry (fs.without (gone.map (Item.loc top))) top hash =
        hasEntry fs top hash := by
      rw [Bool.eq_iff_iff, hasEntry_without]
      exact and_iff_right (hentries _)
    rw [isLive_iff hc hlink, isLive_iff hleft hlink', hentry]
    simp [hmem]

/-- As long as every entry keeps a marker, the same entries are used. -/
theorem isUsed_without (hc : s.IsCache cwd' top fs) {gone : List Item}
    (hkept : ∀ n hash, LinksTo fs top n hash → hasEntry fs top hash = true →
      ∃ n', .marker n' ∉ gone ∧ LinksTo fs top n' hash) (hn : n ∈ entryNames fs top) :
    isUsed (fs.without (gone.map (Item.loc top))) top n = isUsed fs top n := by
  obtain ⟨node, hnode⟩ := Option.isSome_iff_exists.1 (mem_entryNames.1 hn)
  obtain ⟨_, hash, rfl, _⟩ := hc.entries n node hnode
  rw [Bool.eq_iff_iff, isUsed_iff (hc.without gone), isUsed_iff hc]
  constructor
  · rintro ⟨n, hlink⟩
    exact ⟨n, (linksTo_without.1 hlink).2⟩
  · rintro ⟨n, hlink⟩
    obtain ⟨n', hstays, hlink'⟩ := hkept n hash hlink (mem_entryNames.1 hn)
    exact ⟨n', linksTo_without.2 ⟨hstays, hlink'⟩⟩

/-- The unused items are what they were, if no entry has lost its last marker
    and no dangling marker is gone. -/
theorem struck_unused_without (hc : s.IsCache cwd' top fs) (hys : .unused ∉ ys)
    (hkept : ∀ n hash, LinksTo fs top n hash → hasEntry fs top hash = true →
      ∃ n', LinksTo fs top n' hash ∧ ¬ ∃ y ∈ ys, y.hits cwd n' = true)
    (hnodup : (struckAtOnce cwd top fs ys ++ Target.unused.struck cwd top fs).Nodup) :
    Target.unused.struck cwd top
        (fs.without ((struckAtOnce cwd top fs ys).map (Item.loc top))) =
      Target.unused.struck cwd top fs := by
  have hentries : ∀ n, .entry n ∉ struckAtOnce cwd top fs ys :=
    fun n => entry_notMem_struckAtOnce hys
  have hnames : entryNames (fs.without ((struckAtOnce cwd top fs ys).map (Item.loc top))) top =
      entryNames fs top := by
    rw [entryNames_without, List.filter_eq_self]
    intro n _
    exact decide_eq_true (hentries n)
  have hdangling := dangling_without hc hentries fun n hash hmem hlink => by
    -- A dangling marker is struck with the unused items, and so not before.
    rw [← Bool.not_eq_false]
    intro hnone
    have hunused : .marker n ∈ Target.unused.struck cwd top fs :=
      (marker_mem_unused hc hlink).2 hnone
    exact (List.nodup_append.1 hnodup).2.2 _ hmem _ hunused rfl
  have hused : ∀ n ∈ entryNames fs top,
      isUsed (fs.without ((struckAtOnce cwd top fs ys).map (Item.loc top))) top n =
        isUsed fs top n := fun n hn => by
    refine isUsed_without hc (fun n hash hlink hentry => ?_) hn
    obtain ⟨n', hlink', hnot⟩ := hkept n hash hlink hentry
    exact ⟨n', mt (mem_struckAtOnce hys hlink').1 hnot, hlink'⟩
  unfold Target.struck
  rw [if_pos rfl, if_pos rfl, hnames, hdangling,
    List.filter_congr fun n hn => congrArg Bool.not (hused n hn)]

/-! ## Section 4: In turn and at once -/

/-- The unused items are cleaned once at most. -/
def UnusedOnce (xs : List Target) : Prop :=
  .unused ∉ xs ∨ ∃ ys zs, xs = ys ++ .unused :: zs ∧ .unused ∉ ys ∧ .unused ∉ zs

theorem struckAtOnce_append (cwd : Path) (top : Location) (fs : FileSystem) (xs ys : List Target) :
    struckAtOnce cwd top fs (xs ++ ys) =
      struckAtOnce cwd top fs xs ++ struckAtOnce cwd top fs ys :=
  List.flatMap_append

/-- What marker targets strike in turn is what they strike together. -/
theorem without_struckInTurn (s : Store) (htree : fs.IsTree) (cwd : Path) (top : Location)
    (hys : .unused ∉ ys) :
    fs.without ((struckInTurn cwd top fs ys).map (Item.loc top)) =
      fs.without ((markersHit cwd top fs ys).map (Item.loc top)) :=
  (reported_real (c := ⟨s, false⟩) rfl htree ys).2.symm.trans (left_of_markers rfl hys)

/-- An entry that has lost its last marker before the unused items are cleaned
    is struck only in turn. -/
theorem freesNoEntry_of_eq (hc : s.IsCache cwd' top fs)
    (heq : struckInTurn cwd top fs xs = struckAtOnce cwd top fs xs) :
    FreesNoEntry cwd top fs xs := by
  rintro ys zs rfl hys n hash hlink hentry
  refine Classical.byContradiction fun hnone => ?_
  have hleft := without_struckInTurn s hc.tree cwd top hys
  have hfreed : .entry (Utf8.encode hash) ∈ Target.unused.struck cwd top
      (fs.without ((struckInTurn cwd top fs ys).map (Item.loc top))) := by
    rw [hleft]
    have hstays : hasEntry (fs.without ((markersHit cwd top fs ys).map (Item.loc top))) top hash =
        true := by
      refine hasEntry_without.2 ⟨fun hmem => ?_, hentry⟩
      obtain ⟨_, hmarker, _⟩ := mem_markersHit.1 hmem
      cases hmarker
    rw [entry_mem_unused (hc.without _) hstays]
    rintro ⟨n', hlink'⟩
    obtain ⟨hstays, hlink'⟩ := linksTo_without.1 hlink'
    exact hnone ⟨n', hlink', fun hhit => hstays ((marker_mem_markersHit hlink').2 hhit)⟩
  have hmem : .entry (Utf8.encode hash) ∈ struckAtOnce cwd top fs (ys ++ .unused :: zs) := by
    rw [← heq, struckInTurn_append, struckInTurn]
    exact List.mem_append_right _ (List.mem_append_left _ hfreed)
  obtain ⟨x, _, hstruck⟩ := List.mem_flatMap.1 hmem
  obtain rfl := eq_unused_of_entry_mem hstruck
  exact (entry_mem_unused hc hentry).1 hstruck ⟨n, hlink⟩

theorem struckInTurn_eq_iff (hc : s.IsCache cwd' top fs) (honce : UnusedOnce xs) :
    struckInTurn cwd top fs xs = struckAtOnce cwd top fs xs ↔
      (struckAtOnce cwd top fs xs).Nodup ∧ FreesNoEntry cwd top fs xs := by
  constructor
  · intro heq
    exact ⟨heq ▸ (struckInTurn_spec hc.tree cwd top xs).1, freesNoEntry_of_eq hc heq⟩
  · rintro ⟨hnodup, hfrees⟩
    -- At first nothing is gone.
    have hfirst : ∀ ys, .unused ∉ ys → (struckAtOnce cwd top fs ys).Nodup →
        struckInTurn cwd top fs ys = struckAtOnce cwd top fs ys := by
      intro ys hys hnodup
      have hnone : ([] ++ struckAtOnce cwd top fs ys).Nodup := hnodup
      have hmarkers := struckInTurn_markers hys hnone
      rwa [List.map_nil, without_nil] at hmarkers
    rcases honce with hxs | ⟨ys, zs, rfl, hys, hzs⟩
    · exact hfirst xs hxs hnodup
    · have hsplit : struckAtOnce cwd top fs (ys ++ .unused :: zs) =
          (struckAtOnce cwd top fs ys ++ Target.unused.struck cwd top fs) ++
            struckAtOnce cwd top fs zs := by
        rw [struckAtOnce_append, List.append_assoc]
        rfl
      rw [hsplit] at hnodup
      have hunused : (struckAtOnce cwd top fs ys ++ Target.unused.struck cwd top fs).Nodup :=
        (List.nodup_append.1 hnodup).1
      rw [struckInTurn_append, hfirst ys hys (List.nodup_append.1 hunused).1, struckInTurn,
        struck_unused_without hc hys (hfrees ys zs rfl hys) hunused, without_without,
        ← List.map_append, struckInTurn_markers hzs hnodup, hsplit, List.append_assoc]

end Tool
end ScriptDeps
