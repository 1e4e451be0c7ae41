import ScriptDeps.Proofs.Clean.Cache
import ScriptDeps.Store.Marker

/-! # What a clean-up reads

    A clean-up lists the markers and the entries of a cache in order.  A
    marker is live if its entry is there, and an entry is used if some marker
    names it. -/

namespace ScriptDeps

open FileSystem

variable {s : Store} {cwd top : Location} {fs : FileSystem} {i : Item} {n : Name} {hash : Text}
  {is : List Item} {h : Host} {m : Machine}

namespace Store

/-! ## Section 1: Markers and entries -/

/-- The names of all markers, in order. -/
def markerNames (fs : FileSystem) (top : Location) : List Name :=
  fs.sortedNames (top ++ [markersName])

/-- The names of all entries, in order. -/
def entryNames (fs : FileSystem) (top : Location) : List Name :=
  fs.sortedNames (top ++ [storeName])

/-- The digest that a marker names. -/
def linked? (fs : FileSystem) (top : Location) (n : Name) : Option Text :=
  match fs.at? ((Item.marker n).loc top) with
  | some (.link target) => target.fileName?.map Utf8.decodeLossy
  | _ => none

/-- Whether a marker names an entry that is there. -/
def isLive (fs : FileSystem) (top : Location) (n : Name) : Bool :=
  (linked? fs top n).any (hasEntry fs top)

/-- Whether some marker names the entry. -/
def isUsed (fs : FileSystem) (top : Location) (n : Name) : Bool :=
  (markerNames fs top).any fun m => linked? fs top m = some (Utf8.decodeLossy n)

theorem mem_markerNames :
    n ∈ markerNames fs top ↔ (fs.at? ((Item.marker n).loc top)).isSome := by
  rw [markerNames, mem_sortedNames, List.append_assoc]
  rfl

theorem mem_entryNames : n ∈ entryNames fs top ↔ (fs.at? ((Item.entry n).loc top)).isSome := by
  rw [entryNames, mem_sortedNames, List.append_assoc]
  rfl

theorem linked?_of_linksTo (hc : s.IsCache cwd top fs) (hlink : LinksTo fs top n hash) :
    linked? fs top n = some hash := by
  have hname := hc.isEntryName_hash hlink
  unfold linked?
  rw [hlink]
  dsimp only
  rw [fileName?_markerTarget hname.1, Option.map_some, Utf8.decodeLossy_encode]

theorem exists_linksTo (hc : s.IsCache cwd top fs) (hn : n ∈ markerNames fs top) :
    ∃ hash, LinksTo fs top n hash := by
  obtain ⟨node, hnode⟩ := Option.isSome_iff_exists.1 (mem_markerNames.1 hn)
  obtain ⟨_, hash, rfl, _⟩ := hc.markers n node hnode
  exact ⟨hash, hnode⟩

theorem mem_markerNames_of_linksTo (hlink : LinksTo fs top n hash) : n ∈ markerNames fs top :=
  mem_markerNames.2 (by rw [hlink]; rfl)

theorem linked?_eq_some (hc : s.IsCache cwd top fs) :
    linked? fs top n = some hash ↔ LinksTo fs top n hash := by
  refine ⟨fun hlinked => ?_, linked?_of_linksTo hc⟩
  have hn : n ∈ markerNames fs top := by
    rw [mem_markerNames]
    unfold linked? at hlinked
    split at hlinked
    · next hnode => rw [hnode]; rfl
    · cases hlinked
  obtain ⟨hash', hlink⟩ := exists_linksTo hc hn
  rw [linked?_of_linksTo hc hlink] at hlinked
  rwa [← Option.some.inj hlinked]

theorem isLive_iff (hc : s.IsCache cwd top fs) (hlink : LinksTo fs top n hash) :
    isLive fs top n = hasEntry fs top hash := by
  unfold isLive
  rw [linked?_of_linksTo hc hlink, Option.any_some]

theorem isUsed_iff (hc : s.IsCache cwd top fs) :
    isUsed fs top (Utf8.encode hash) = true ↔ ∃ m, LinksTo fs top m hash := by
  unfold isUsed
  rw [List.any_eq_true, Utf8.decodeLossy_encode]
  constructor
  · rintro ⟨m, _, hlinked⟩
    exact ⟨m, (linked?_eq_some hc).1 (of_decide_eq_true hlinked)⟩
  · rintro ⟨m, hlink⟩
    exact ⟨m, mem_markerNames_of_linksTo hlink,
      decide_eq_true ((linked?_eq_some hc).2 hlink)⟩

/-! ## Section 2: Reading a cache -/

/-- Looks that change nothing can be made for a whole list. -/
theorem run_mapM {α β : Type} {f : α → Action β} {g : α → β} {xs : List α}
    (hf : ∀ x ∈ xs, (f x).run h m = (.ok (g x), m)) :
    (xs.mapM f).run h m = (.ok (xs.map g), m) := by
  induction xs with
  | nil => rfl
  | cons x xs ih =>
    rw [List.mapM_cons, Action.run_bind_ok (hf x (List.mem_cons_self ..)),
      Action.run_bind_ok (ih fun y hy => hf y (List.mem_cons_of_mem _ hy))]
    rfl

theorem run_listDirectory (hc : s.IsCache h.cwd top m.files) (i : Item) :
    (listDirectory (s.root.child i.folder)).run h m =
      (.ok ((m.files.sortedNames (top ++ [i.folder])).map (s.root.child i.folder).child), m) := by
  unfold listDirectory
  by_cases hnone : m.files.at? (top ++ [i.folder]) = none
  · have hask : (Action.ask (.list (s.root.child i.folder))).run h m =
        (.ok (.error .noEntry), m) := by
      show (Except.ok (m.files.list h.cwd (s.root.child i.folder)), m) = _
      rw [hc.list i, if_pos hnone]
    rw [Action.run_bind_ok hask, sortedNames_eq_nil hc.tree.wellFormed (by rw [hnone]; simp)]
    rfl
  · have hask : (Action.ask (.list (s.root.child i.folder))).run h m =
        (.ok (.ok (m.files.sortedNames (top ++ [i.folder]))), m) := by
      show (Except.ok (m.files.list h.cwd (s.root.child i.folder)), m) = _
      rw [hc.list i, if_neg hnone]
    rw [Action.run_bind_ok hask]
    rfl

/-- The marker that a look at a name shows. -/
def markerAt (s : Store) (fs : FileSystem) (top : Location) (n : Name) : Marker :=
  ⟨s.markers.child n, linked? fs top n, isLive fs top n⟩

theorem run_readMarker (hc : s.IsCache h.cwd top m.files) (hn : n ∈ markerNames m.files top) :
    (s.readMarker (s.markers.child n)).run h m = (.ok (s.markerAt m.files top n), m) := by
  obtain ⟨hash, hlink⟩ := exists_linksTo hc hn
  have hname := hc.isEntryName_hash hlink
  have hread : (Action.ask (.readLink (s.markers.child n))).run h m =
      (.ok (.ok (markerTarget hash)), m) := by
    have hfind : m.files.findNode h.cwd false (s.markers.child n) = _ := hc.findNode_item hlink
    show (Except.ok (m.files.readLink h.cwd (s.markers.child n)), m) = _
    rw [readLink, hfind]
  have hpresent : (Action.ask (.isPresent (s.markers.join (markerTarget hash)))).run h m =
      (.ok (hasEntry m.files top hash), m) := by
    show (Except.ok (m.files.isPresent h.cwd (s.markers.join (markerTarget hash))), m) = _
    rw [hc.isPresent_target hlink]
  unfold readMarker
  rw [Action.run_bind_ok hread]
  dsimp only
  rw [Action.run_bind_ok hpresent, markerAt, isLive_iff hc hlink, linked?_of_linksTo hc hlink,
    fileName?_markerTarget hname.1, Option.map_some, Utf8.decodeLossy_encode]
  rfl

theorem run_listMarkers (hc : s.IsCache h.cwd top m.files) :
    s.listMarkers.run h m =
      (.ok ((markerNames m.files top).map (s.markerAt m.files top)), m) := by
  have hlist : (listDirectory s.markers).run h m = _ := run_listDirectory hc (.marker [])
  have hreads := run_mapM (f := fun n => s.readMarker (s.markers.child n)) fun n hn =>
    run_readMarker hc hn
  unfold listMarkers
  rw [Action.run_bind_ok hlist, List.mapM_map]
  exact hreads

/-- Of a marker that has a plain name, the name alone is looked at. -/
theorem isEphemeralMarker_path (s : Store) (hn : Path.IsPlainName n) :
    Identity.isEphemeralMarker ((Item.marker n).path s) =
      Identity.isEphemeralName (Utf8.decodeLossy n) := by
  have hname : ((Item.marker n).path s).fileName? = some n := fileName?_child _ hn
  rw [Identity.isEphemeralMarker, hname]

theorem run_ephemeralMarkers (hc : s.IsCache h.cwd top m.files) :
    s.ephemeralMarkers.run h m =
      (.ok (((markerNames m.files top).filter fun n =>
        Identity.isEphemeralMarker (s.markers.child n)).map (s.markerAt m.files top)), m) := by
  unfold ephemeralMarkers
  rw [Action.run_bind_ok (run_listMarkers hc), Action.run_pure, List.filter_map]
  rfl

/-- What no script needs, as paths. -/
theorem run_unused (hc : s.IsCache h.cwd top m.files) :
    s.unused.run h m =
      (.ok { entries := ((entryNames m.files top).filter fun n => !isUsed m.files top n).map
                s.entries.child
             dangling := ((markerNames m.files top).filter fun n => !isLive m.files top n).map
                s.markers.child }, m) := by
  have hlist : (listDirectory s.entries).run h m = _ := run_listDirectory hc (.entry [])
  unfold unused
  rw [Action.run_bind_ok (run_listMarkers hc), Action.run_bind_ok hlist, Action.run_pure, unusedOf]
  refine congrArg (fun u => (Except.ok u, m)) (congrArg₂ Unused.mk ?_ ?_)
  · rw [List.filter_map]
    refine congrArg _ (List.filter_congr fun n hn => ?_)
    obtain ⟨node, hnode⟩ := Option.isSome_iff_exists.1 (mem_entryNames.1 hn)
    obtain ⟨_, hash, rfl, hname⟩ := hc.entries n node hnode
    have hentry : hasEntry m.files top hash = true := by
      rw [hasEntry, hnode]
      rfl
    rw [Function.comp_apply, fileName?_child _ hname.1]
    refine congrArg Bool.not ?_
    -- A marker that names an entry which is there is live.
    rw [Bool.eq_iff_iff, List.contains_iff_mem, isUsed_iff hc, Utf8.decodeLossy_encode, referenced,
      List.mem_filterMap]
    constructor
    · rintro ⟨mk, hmk, hhash⟩
      obtain ⟨n, _, rfl⟩ := List.mem_map.1 (List.mem_filter.1 hmk).1
      exact ⟨n, (linked?_eq_some hc).1 hhash⟩
    · rintro ⟨n, hlink⟩
      refine ⟨_, List.mem_filter.2 ⟨List.mem_map_of_mem (mem_markerNames_of_linksTo hlink), ?_⟩,
        linked?_of_linksTo hc hlink⟩
      exact (isLive_iff hc hlink).trans hentry
  · rw [List.filter_map, List.map_map]
    rfl

end Store
end ScriptDeps
