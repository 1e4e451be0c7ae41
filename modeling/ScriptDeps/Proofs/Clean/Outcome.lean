import ScriptDeps.Proofs.Clean.Plan

/-! # What a clean-up leaves

    Cleaning targets and then what is unused leaves the markers that no
    target strikes and whose entry is there, and the entries that these
    markers link to (`Settled`).  Which items go depends only on which markers
    are struck by their names, so neither the order nor the repetition of the
    targets counts, and a second clean-up finds nothing (`settled_again`). -/

namespace ScriptDeps

open FileSystem Store

namespace Tool

variable {s : Store} {cwd' : Location} {top : Location} {fs fs' : FileSystem} {h : Host}
  {m : Machine} {args : List Text} {c : Clean} {cwd : Path} {xs ys : List Target} {n : Name}
  {hash : Text} {is : List Item}

/-! ## Section 1: Items that are taken away -/

theorem linksTo_without :
    LinksTo (fs.without (is.map (Item.loc top))) top n hash ↔
      .marker n ∉ is ∧ LinksTo fs top n hash :=
  Item.at?_without_items

theorem hasEntry_without :
    hasEntry (fs.without (is.map (Item.loc top))) top hash = true ↔
      .entry (Utf8.encode hash) ∉ is ∧ hasEntry fs top hash = true := by
  unfold hasEntry
  rw [Option.isSome_iff_exists, Option.isSome_iff_exists]
  simp only [Item.at?_without_items]
  exact ⟨fun ⟨node, hi, hnode⟩ => ⟨hi, node, hnode⟩, fun ⟨hi, node, hnode⟩ => ⟨node, hi, hnode⟩⟩

theorem markerNames_without (fs : FileSystem) (top : Location) (is : List Item) :
    markerNames (fs.without (is.map (Item.loc top))) top =
      (markerNames fs top).filter fun n => .marker n ∉ is := by
  unfold markerNames
  rw [sortedNames_without]
  refine List.filter_congr fun n _ => ?_
  rw [List.append_assoc, Bool.eq_iff_iff, Bool.not_eq_true', decide_eq_true_iff]
  exact Item.isStruck_loc_eq_false (j := .marker n)

theorem entryNames_without (fs : FileSystem) (top : Location) (is : List Item) :
    entryNames (fs.without (is.map (Item.loc top))) top =
      (entryNames fs top).filter fun n => .entry n ∉ is := by
  unfold entryNames
  rw [sortedNames_without]
  refine List.filter_congr fun n _ => ?_
  rw [List.append_assoc, Bool.eq_iff_iff, Bool.not_eq_true', decide_eq_true_iff]
  exact Item.isStruck_loc_eq_false (j := .entry n)

/-! ## Section 2: Markers that are struck by their names -/

/-- The markers that some target strikes by their names. -/
def markersHit (cwd : Path) (top : Location) (fs : FileSystem) (ys : List Target) : List Item :=
  ((markerNames fs top).filter fun n => ys.any fun y => y.hits cwd n).map .marker

theorem mem_markersHit {i : Item} :
    i ∈ markersHit cwd top fs ys ↔
      ∃ n, i = .marker n ∧ n ∈ markerNames fs top ∧ ∃ y ∈ ys, y.hits cwd n = true := by
  unfold markersHit
  simp only [List.mem_map, List.mem_filter, List.any_eq_true]
  exact ⟨fun ⟨n, ⟨hn, hhit⟩, heq⟩ => ⟨n, heq.symm, hn, hhit⟩,
    fun ⟨n, heq, hn, hhit⟩ => ⟨n, ⟨hn, hhit⟩, heq.symm⟩⟩

theorem marker_mem_markersHit (hlink : LinksTo fs top n hash) :
    .marker n ∈ markersHit cwd top fs ys ↔ ∃ y ∈ ys, y.hits cwd n = true := by
  rw [mem_markersHit]
  constructor
  · rintro ⟨n', heq, _, hhit⟩
    rwa [Item.marker.inj heq]
  · exact fun hhit => ⟨n, rfl, mem_markerNames_of_linksTo hlink, hhit⟩

theorem struck_of_ne_unused {x : Target} (hx : x ≠ .unused) :
    x.struck cwd top fs = markersHit cwd top fs [x] := by
  unfold Target.struck markersHit
  rw [if_neg hx]
  simp

theorem left_append (c : Clean) (cwd : Path) (top : Location) (fs : FileSystem)
    (xs ys : List Target) :
    c.left cwd top fs (xs ++ ys) = c.left cwd top (c.left cwd top fs xs) ys := by
  induction xs generalizing fs with
  | nil => rfl
  | cons x xs ih => exact ih _

/-- Targets other than the unused items take away what they strike together. -/
theorem left_of_markers (hreal : c.dryRun = false) (hys : .unused ∉ ys) :
    c.left cwd top fs ys = fs.without ((markersHit cwd top fs ys).map (Item.loc top)) := by
  induction ys generalizing fs with
  | nil =>
    have hnone : markersHit cwd top fs [] = [] := by
      unfold markersHit
      simp
    rw [hnone, List.map_nil, without_nil, Clean.left]
  | cons y ys ih =>
    have hy : y ≠ .unused := fun heq => hys (heq ▸ List.mem_cons_self ..)
    rw [Clean.left, Clean.keep_of_real hreal, ih fun hmem => hys (List.mem_cons_of_mem _ hmem),
      without_without, ← List.map_append, struck_of_ne_unused hy]
    -- A marker that the first target has struck is not there for the others.
    refine without_congr fun l => ?_
    have hmem : ∀ i, i ∈ markersHit cwd top fs [y] ++ markersHit cwd top
        (fs.without ((markersHit cwd top fs [y]).map (Item.loc top))) ys ↔
        i ∈ markersHit cwd top fs (y :: ys) := by
      intro i
      rw [List.mem_append, mem_markersHit, mem_markersHit, mem_markersHit]
      simp only [markerNames_without, List.mem_filter, decide_eq_true_iff, List.mem_cons,
        List.not_mem_nil, or_false, exists_eq_or_imp, exists_eq_left]
      constructor
      · rintro (⟨n, rfl, hn, hhit⟩ | ⟨n, rfl, ⟨hn, _⟩, hhit⟩)
        · exact ⟨n, rfl, hn, .inl hhit⟩
        · exact ⟨n, rfl, hn, .inr hhit⟩
      · rintro ⟨n, rfl, hn, hhit⟩
        by_cases hfirst : y.hits cwd n = true
        · exact .inl ⟨n, rfl, hn, hfirst⟩
        · refine .inr ⟨n, rfl, ⟨hn, ?_⟩, hhit.resolve_left hfirst⟩
          rw [mem_markersHit]
          rintro ⟨n', heq, _, y', hy', hhit'⟩
          rw [List.mem_singleton.1 hy', ← Item.marker.inj heq] at hhit'
          exact hfirst hhit'
    simp only [List.mem_map, hmem]

/-! ## Section 3: Unused items -/

section Unused

variable (hc : s.IsCache cwd' top fs)
include hc

theorem marker_mem_unused (hlink : LinksTo fs top n hash) :
    .marker n ∈ Target.unused.struck cwd top fs ↔ hasEntry fs top hash = false := by
  have hn := mem_markerNames_of_linksTo hlink
  unfold Target.struck
  rw [if_pos rfl, List.mem_append]
  simp only [List.mem_map, List.mem_filter, reduceCtorEq, and_false, exists_false, or_false,
    Item.marker.injEq, exists_eq_right, hn, true_and, isLive_iff hc hlink, Bool.not_eq_true']

theorem entry_mem_unused (hentry : hasEntry fs top hash = true) :
    .entry (Utf8.encode hash) ∈ Target.unused.struck cwd top fs ↔
      ¬ ∃ n, LinksTo fs top n hash := by
  have hn : Utf8.encode hash ∈ entryNames fs top := mem_entryNames.2 hentry
  rw [← isUsed_iff hc]
  unfold Target.struck
  rw [if_pos rfl, List.mem_append]
  simp [hn]

/-- Without the unused items, every marker has its entry and every entry a
    marker. -/
theorem linksTo_without_unused :
    LinksTo (fs.without ((Target.unused.struck cwd top fs).map (Item.loc top))) top n hash ↔
      LinksTo fs top n hash ∧ hasEntry fs top hash = true := by
  rw [linksTo_without, and_comm]
  refine and_congr_right fun hlink => ?_
  rw [marker_mem_unused hc hlink, Bool.not_eq_false]

theorem hasEntry_without_unused :
    hasEntry (fs.without ((Target.unused.struck cwd top fs).map (Item.loc top))) top hash = true ↔
      hasEntry fs top hash = true ∧ ∃ n, LinksTo fs top n hash := by
  rw [hasEntry_without, and_comm]
  refine and_congr_right fun hentry => ?_
  rw [entry_mem_unused hc hentry, Classical.not_not]

end Unused

/-! ## Section 4: What is left -/

/-- `fs'` is the cache `fs` without the markers that a target of `ys` strikes,
    and then without what is unused. -/
structure Settled (cwd : Path) (top : Location) (ys : List Target) (fs fs' : FileSystem) :
    Prop where
  markers : ∀ n hash, LinksTo fs' top n hash ↔
    LinksTo fs top n hash ∧ hasEntry fs top hash = true ∧ ¬ ∃ y ∈ ys, y.hits cwd n = true
  entries : ∀ hash, hasEntry fs' top hash = true ↔ ∃ n, LinksTo fs' top n hash
  /-- What is not part of an item that has gone is as it was. -/
  others  : ∀ loc, (∀ i : Item, (fs.at? (i.loc top)).isSome → fs'.at? (i.loc top) = none →
    ¬ i.loc top <+: loc) → fs'.at? loc = fs.at? loc

/-- What is left where the unused items are cleaned last. -/
theorem left_concat_unused (hreal : c.dryRun = false) (hys : .unused ∉ ys) :
    c.left cwd top fs (ys ++ [.unused]) =
      (fs.without ((markersHit cwd top fs ys).map (Item.loc top))).without
        ((Target.unused.struck cwd top
          (fs.without ((markersHit cwd top fs ys).map (Item.loc top)))).map (Item.loc top)) := by
  rw [left_append, left_of_markers hreal hys, Clean.left, Clean.left, Clean.keep_of_real hreal]

theorem settled_left (hc : s.IsCache cwd' top fs) (hreal : c.dryRun = false) (cwd : Path)
    (hys : .unused ∉ ys) : Settled cwd top ys fs (c.left cwd top fs (ys ++ [.unused])) := by
  rw [left_concat_unused hreal hys]
  generalize hfs₁ : fs.without ((markersHit cwd top fs ys).map (Item.loc top)) = fs₁
  have hc₁ : s.IsCache cwd' top fs₁ := hfs₁ ▸ hc.without _
  -- The targets strike markers by their names, and no entries.
  have hlinks : ∀ n hash, LinksTo fs₁ top n hash ↔
      LinksTo fs top n hash ∧ ¬ ∃ y ∈ ys, y.hits cwd n = true := by
    intro n hash
    rw [← hfs₁, linksTo_without, and_comm]
    exact and_congr_right fun hlink => not_congr (marker_mem_markersHit hlink)
  have hentries : ∀ hash, hasEntry fs₁ top hash = true ↔ hasEntry fs top hash = true := by
    intro hash
    rw [← hfs₁, hasEntry_without, and_iff_right]
    rw [mem_markersHit]
    rintro ⟨n, heq, _⟩
    cases heq
  refine ⟨fun n hash => ?_, fun hash => ?_, fun loc hloc => ?_⟩
  · rw [linksTo_without_unused hc₁, hlinks, hentries, and_assoc, and_comm (a := ¬ _)]
  · rw [hasEntry_without_unused hc₁]
    simp only [linksTo_without_unused hc₁]
    constructor
    · rintro ⟨hentry, n, hlink⟩
      exact ⟨n, hlink, hentry⟩
    · rintro ⟨n, hlink, hentry⟩
      exact ⟨hentry, n, hlink⟩
  · -- What is struck, by a target or as unused, was there and has gone.
    rw [← hfs₁, without_without, ← List.map_append, hfs₁] at hloc ⊢
    refine at?_without_of_not ?_
    rw [← Bool.not_eq_true, isStruck_iff]
    rintro ⟨l, hl, hfront⟩
    obtain ⟨i, hi, rfl⟩ := List.mem_map.1 hl
    refine hloc i ?_ ?_ hfront
    · rcases List.mem_append.1 hi with hi | hi
      · obtain ⟨n, rfl, hn, _⟩ := mem_markersHit.1 hi
        exact mem_markerNames.1 hn
      · obtain ⟨node, hnode⟩ := Option.isSome_iff_exists.1 (Target.there_of_mem_struck hi)
        rw [← hfs₁, Item.at?_without_items] at hnode
        rw [hnode.2]
        rfl
    · rw [at?_without (Item.loc_ne_nil top i), Item.isStruck_loc.2 hi]
      rfl

/-- Only which markers are struck counts. -/
theorem left_congr (hreal : c.dryRun = false) (hxs : .unused ∉ xs) (hys : .unused ∉ ys)
    (hsame : ∀ n ∈ markerNames fs top,
      (∃ x ∈ xs, x.hits cwd n = true) ↔ ∃ y ∈ ys, y.hits cwd n = true) :
    c.left cwd top fs (xs ++ [.unused]) = c.left cwd top fs (ys ++ [.unused]) := by
  have hhit : ∀ i, i ∈ markersHit cwd top fs xs ↔ i ∈ markersHit cwd top fs ys := by
    intro i
    rw [mem_markersHit, mem_markersHit]
    exact exists_congr fun n => and_congr_right fun _ => and_congr_right (hsame n)
  have hfirst : fs.without ((markersHit cwd top fs xs).map (Item.loc top)) =
      fs.without ((markersHit cwd top fs ys).map (Item.loc top)) :=
    without_congr fun l => by simp only [List.mem_map, hhit]
  rw [left_concat_unused hreal hxs, left_concat_unused hreal hys, hfirst]

/-- Where no target strikes anything, nothing is reported and all is left. -/
theorem left_of_nothing (hxs : ∀ x ∈ xs, x.struck cwd top fs = []) :
    c.left cwd top fs xs = fs ∧ reported (c.notices cwd top fs xs) = [] := by
  induction xs with
  | nil => exact ⟨rfl, rfl⟩
  | cons x xs ih =>
    have hx := hxs x (List.mem_cons_self ..)
    obtain ⟨hleft, hreported⟩ := ih fun y hy => hxs y (List.mem_cons_of_mem _ hy)
    rw [Clean.left, Clean.notices, reported_append, reported_notices, hx, Clean.keep_nil]
    exact ⟨hleft, hreported⟩

/-- A second clean-up strikes nothing. -/
theorem settled_again (hc : s.IsCache cwd' top fs') (hsettled : Settled cwd top ys fs fs')
    (hys : .unused ∉ ys) : ∀ x ∈ ys ++ [.unused], x.struck cwd top fs' = [] := by
  intro x hx
  rw [List.eq_nil_iff_forall_not_mem]
  intro i hi
  -- A marker that is left has its entry, and no target strikes it.
  have hmarker : ∀ n, .marker n = i → ∃ hash, LinksTo fs' top n hash ∧
      hasEntry fs' top hash = true ∧ ¬ ∃ y ∈ ys, y.hits cwd n = true := by
    rintro n rfl
    obtain ⟨hash, hlink⟩ := exists_linksTo hc (mem_markerNames.2 (Target.there_of_mem_struck hi))
    obtain ⟨_, _, hnot⟩ := (hsettled.markers n hash).1 hlink
    exact ⟨hash, hlink, (hsettled.entries hash).2 ⟨n, hlink⟩, hnot⟩
  rcases List.mem_append.1 hx with hx | hx
  · rw [struck_of_ne_unused fun heq => hys (heq ▸ hx)] at hi
    obtain ⟨n, rfl, _, y, hy, hhit⟩ := mem_markersHit.1 hi
    obtain ⟨_, _, _, hnot⟩ := hmarker n rfl
    exact hnot ⟨x, hx, List.mem_singleton.1 hy ▸ hhit⟩
  · rw [List.mem_singleton.1 hx] at hi
    cases i with
    | marker n =>
      obtain ⟨hash, hlink, hentry, _⟩ := hmarker n rfl
      rw [marker_mem_unused hc hlink, hentry] at hi
      cases hi
    | entry n =>
      obtain ⟨node, hnode⟩ := Option.isSome_iff_exists.1 (Target.there_of_mem_struck hi)
      obtain ⟨_, hash, rfl, _⟩ := hc.entries n node hnode
      have hentry : hasEntry fs' top hash = true := by
        rw [hasEntry, hnode]
        rfl
      exact (entry_mem_unused hc hentry).1 hi ((hsettled.entries hash).1 hentry)

end Tool
end ScriptDeps
