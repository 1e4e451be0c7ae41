import ScriptDeps.Proofs.FileSystem.Size
import ScriptDeps.Proofs.Run
import ScriptDeps.Proofs.Store.Names
import ScriptDeps.Proofs.Store.Place

/-! # Caches

    A cache is made of entries, the directories `store/<hash>`, and of
    markers, the links in `markers` to `../store/<hash>`; a marker whose entry
    is gone is dangling.  What a look at a cache shows is decided by the nodes
    at the places of its items alone, and a cache from which items are taken
    away is a cache (`IsCache.without`). -/

namespace ScriptDeps

open FileSystem

/-! ## Section 1: Paths two names down -/

namespace FileSystem

variable {fs : FileSystem} {cwd loc : Location} {p : Path} {f n : Name}

theorem Leads.up (h : Leads fs cwd p loc) (hne : p.bytes ≠ []) :
    Leads fs cwd ⟨p.bytes ++ Path.slash :: Path.upName⟩ loc.dropLast := by
  obtain ⟨links, hroute⟩ := h
  refine ⟨links, ?_⟩
  rw [Path.components_append_slash _ _ hne]
  exact hroute.append (.up (.nil _ _))

/-- An entry of a directory that may be missing. -/
theorem findNode_grandchild (h : Leads fs cwd p loc) (hwf : fs.WellFormed)
    (hf : Path.IsEntryName f)
    (hfolder : fs.at? (loc ++ [f]) = none ∨ fs.at? (loc ++ [f]) = some .directory)
    (hn : Path.IsEntryName n) (hfits : ((p.child f).child n).Fits) (last : Bool)
    (hlink : last = true → NoLink fs (loc ++ [f, n])) :
    fs.findNode cwd last ((p.child f).child n) =
      match fs.at? (loc ++ [f, n]) with
      | none => .error .noEntry
      | some node => .ok (loc ++ [f, n], node) := by
  have hloc : loc ++ [f] ++ [n] = loc ++ [f, n] := List.append_assoc ..
  rcases hfolder with hnone | hdir
  · obtain ⟨links, hroute⟩ := h
    have hnothing : fs.at? (loc ++ [f, n]) = none := by
      rw [← hloc]
      exact Store.at?_eq_none_of_wellFormed hwf hnone [n]
    have hcomponents : ((p.child f).child n).components =
        p.components ++ ([f] ++ [n]).map .name := by
      rw [Path.components_child _ hn.1, Path.components_child _ hf.1]
      exact List.append_assoc ..
    rw [hnothing, findNode, find_along_missing hroute hfits hcomponents (by simp [hf.2.2, hn.2.2])
      ⟨.inl hnone, trivial⟩ (by simp [DirectoriesAlong, hnone])]
  · have hfind := findNode_child (h.child hf hdir) hn hfits last (by rwa [hloc])
    rw [hloc] at hfind
    exact hfind

/-- What leads to a directory is a directory, or a link to one. -/
theorem Route.walk_first {pre : List Path.Component} {here : Location} {links links' : Nat}
    (h : Route fs links cwd pre links' here) {tail : List Path.Component}
    (htail : ∀ c ∈ tail, c = Path.Component.here) (hdir : fs.at? here = some .directory) :
    ∃ loc node, fs.walk false links cwd (pre ++ tail) = .ok (.node loc node) ∧ node.size = 0 := by
  induction h with
  | nil => exact ⟨_, _, walk_here htail hdir false _, rfl⟩
  | root here h ih => rw [List.cons_append, walk]; exact ih hdir
  | here h ih => rw [List.cons_append, walk]; exact ih hdir
  | up h ih => rw [List.cons_append, walk]; exact ih hdir
  | enter hn hnode h ih => rw [List.cons_append, walk_name _ _ _ _ hn, hnode]; exact ih hdir
  | @follow links links' here loc rest n target hn hnode h ih =>
    rw [List.cons_append, walk_name _ _ _ _ hn, hnode]
    dsimp only
    split
    · exact ⟨_, _, rfl, rfl⟩
    · rw [← List.append_assoc]
      exact ih hdir

theorem Leads.findNode_first (h : Leads fs cwd p loc) (hfits : p.Fits)
    (hdir : fs.at? loc = some .directory) :
    ∃ loc' node, fs.findNode cwd false p = .ok (loc', node) ∧ node.size = 0 := by
  obtain ⟨links, hroute⟩ := h
  obtain ⟨tail, hsteps, htail⟩ := exists_steps_eq p
  obtain ⟨loc', node, hwalk, hsize⟩ := hroute.walk_first htail hdir
  refine ⟨loc', node, ?_, hsize⟩
  unfold FileSystem.findNode
  rw [find_eq_walk hfits, hsteps, hwalk]

end FileSystem

/-! ## Section 2: Items -/

/-- What a clean-up can take away. -/
inductive Item where
  | marker (n : Name)
  | entry (n : Name)
deriving DecidableEq, Repr

namespace Item

/-- The directory of the cache that holds the item. -/
def folder : Item → Name
  | marker _ => Store.markersName
  | entry _ => Store.storeName

def name : Item → Name
  | marker n => n
  | entry n => n

/-- Where the item is, if the root of the cache is at `top`. -/
def loc (top : Location) (i : Item) : Location := top ++ [i.folder, i.name]

def path (s : Store) (i : Item) : Path := (s.root.child i.folder).child i.name

variable {top : Location} {i j : Item} {is : List Item}

theorem markersName_ne_storeName : Store.markersName ≠ Store.storeName := by decide

theorem ext_iff : i = j ↔ i.folder = j.folder ∧ i.name = j.name := by
  cases i <;> cases j <;>
    simp [folder, name, markersName_ne_storeName, markersName_ne_storeName.symm]

theorem loc_ne_nil (top : Location) (i : Item) : i.loc top ≠ [] := by
  simp [loc]

/-- No item is inside another one. -/
theorem loc_prefix_iff {names : List Name} : i.loc top <+: j.loc top ++ names ↔ i = j := by
  unfold loc
  rw [List.append_assoc, List.prefix_append_right_inj]
  simp only [List.cons_append, List.nil_append, List.cons_prefix_cons, List.nil_prefix, and_true]
  exact ext_iff.symm

theorem isStruck_below (names : List Name) :
    isStruck (is.map (loc top)) (j.loc top ++ names) = true ↔ j ∈ is := by
  rw [isStruck_iff]
  constructor
  · rintro ⟨l, hl, hfront⟩
    obtain ⟨i, hi, rfl⟩ := List.mem_map.1 hl
    rwa [← loc_prefix_iff.1 hfront]
  · intro hj
    exact ⟨_, List.mem_map_of_mem hj, List.prefix_append ..⟩

theorem isStruck_loc : isStruck (is.map (loc top)) (j.loc top) = true ↔ j ∈ is := by
  rw [← List.append_nil (j.loc top), isStruck_below]

theorem isStruck_loc_eq_false : isStruck (is.map (loc top)) (j.loc top) = false ↔ j ∉ is := by
  rw [← Bool.not_eq_true, isStruck_loc]

/-- Other items are apart from one that is not struck. -/
theorem isStruck_below_of_not (hj : j ∉ is) {l : Location} (hl : j.loc top <+: l) :
    isStruck (is.map (loc top)) l = false := by
  obtain ⟨names, rfl⟩ := hl
  rwa [← Bool.not_eq_true, isStruck_below]

/-- Nothing of the cache above its items is inside an item. -/
theorem isStruck_of_not_below {l : Location} (h : ∀ f n, ¬ top ++ [f, n] <+: l) :
    isStruck (is.map (loc top)) l = false := by
  rw [← Bool.not_eq_true, isStruck_iff]
  rintro ⟨l', hl', hfront⟩
  obtain ⟨i, _, rfl⟩ := List.mem_map.1 hl'
  exact h i.folder i.name hfront

theorem isStruck_folder (n : Name) : isStruck (is.map (loc top)) (top ++ [n]) = false := by
  refine isStruck_of_not_below fun f m hfront => ?_
  have hle := hfront.length_le
  simp at hle

theorem at?_without_items {fs : FileSystem} {node : Node} :
    (fs.without (is.map (loc top))).at? (i.loc top) = some node ↔
      i ∉ is ∧ fs.at? (i.loc top) = some node := by
  rw [at?_without_eq_some (loc_ne_nil top i), isStruck_loc_eq_false]

end Item

/-! ## Section 3: Caches -/

namespace Store

/-- Whether the marker `n` links to the entry of `hash`. -/
def LinksTo (fs : FileSystem) (top : Location) (n : Name) (hash : Text) : Prop :=
  fs.at? ((Item.marker n).loc top) = some (.link (markerTarget hash))

instance (fs : FileSystem) (top : Location) (n : Name) (hash : Text) :
    Decidable (LinksTo fs top n hash) := inferInstanceAs (Decidable (_ = _))

/-- Whether the entry of `hash` is there. -/
def hasEntry (fs : FileSystem) (top : Location) (hash : Text) : Bool :=
  (fs.at? ((Item.entry (Utf8.encode hash)).loc top)).isSome

/-- A cache whose root is, or would be made, at `top`. -/
structure IsCache (s : Store) (cwd top : Location) (fs : FileSystem) : Prop where
  tree    : fs.IsTree
  located : s.Located cwd top fs
  named   : s.root.bytes ≠ []
  room    : s.root.HasRoom 280
  folders : ∀ f ∈ [storeName, markersName],
    fs.at? (top ++ [f]) = none ∨ fs.at? (top ++ [f]) = some .directory
  entries : ∀ n node, fs.at? ((Item.entry n).loc top) = some node →
    node = .directory ∧ ∃ hash, n = Utf8.encode hash ∧ Path.IsEntryName n
  markers : ∀ n node, fs.at? ((Item.marker n).loc top) = some node →
    Path.IsEntryName n ∧ ∃ hash, node = .link (markerTarget hash) ∧
      Path.IsEntryName (Utf8.encode hash)

variable {s : Store} {cwd top : Location} {fs : FileSystem} {i : Item} {node : Node} {n : Name}
  {hash : Text}

/-! ## Section 4: Paths of a cache -/

theorem isEntryName_folder (i : Item) : Path.IsEntryName i.folder := by
  cases i with
  | marker n => exact isEntryName_markersName
  | entry n => exact isEntryName_storeName

theorem length_folder_le (i : Item) : i.folder.length ≤ 7 := by
  cases i with
  | marker n => exact (by decide : markersName.length ≤ 7)
  | entry n => exact (by decide : storeName.length ≤ 7)

theorem bytes_markers_ne_nil (s : Store) : s.markers.bytes ≠ [] := by
  obtain ⟨front, hfront, _⟩ := Path.exists_front_child s.root isEntryName_markersName.1
  intro hnil
  rw [markers, hfront] at hnil
  exact absurd (List.append_eq_nil_iff.1 hnil).2 (by decide)

theorem IsCache.isEntryName (h : s.IsCache cwd top fs) (hnode : fs.at? (i.loc top) = some node) :
    Path.IsEntryName i.name := by
  cases i with
  | marker n => exact (h.markers n node hnode).1
  | entry n =>
    obtain ⟨_, _, _, hn⟩ := h.entries n node hnode
    exact hn

theorem isAbsolute_of_isPlainName (h : Path.IsPlainName n) : (⟨n⟩ : Path).isAbsolute = false := by
  rw [← Bool.not_eq_true]
  intro habsolute
  obtain ⟨rest, hrest⟩ := Path.eq_slash_of_isAbsolute habsolute
  dsimp only at hrest
  exact h.2.1 (hrest ▸ List.mem_cons_self ..)

/-- An entry of a directory is written after a slash. -/
theorem child_eq_append {p : Path} (hne : p.bytes ≠ []) (hlast : p.bytes.getLast? ≠ some Path.slash)
    (hn : Path.IsPlainName n) : p.child n = ⟨p.bytes ++ Path.slash :: n⟩ := by
  rcases Path.child_cases p hn with ⟨rfl, _⟩ | ⟨b, rfl, _⟩ | ⟨b, _, rfl, hchild⟩
  · exact absurd rfl hne
  · exact absurd List.getLast?_concat hlast
  · exact hchild

theorem bytes_markerTarget (h : (Path.ofText hash).isAbsolute = false) :
    (markerTarget hash).bytes = Utf8.encode "../store/".toList ++ Utf8.encode hash := by
  unfold markerTarget Path.join
  rw [if_neg (by simp [h]), if_neg (by decide)]
  rfl

theorem markerTarget_inj {hash' : Text} (h : markerTarget hash = markerTarget hash')
    (hname : Path.IsPlainName (Utf8.encode hash')) : hash = hash' := by
  have hbytes := congrArg Path.bytes h
  rw [bytes_markerTarget (isAbsolute_of_isPlainName hname)] at hbytes
  cases habsolute : (Path.ofText hash).isAbsolute with
  | true =>
    -- An absolute text would be the target itself.
    obtain ⟨rest, hrest⟩ := Path.eq_slash_of_isAbsolute habsolute
    rw [markerTarget, Path.join_of_isAbsolute _ habsolute, hrest] at hbytes
    exact absurd (List.cons.inj hbytes).1 (by decide)
  | false =>
    rw [bytes_markerTarget habsolute] at hbytes
    exact Utf8.encode_injective (List.append_cancel_left hbytes)

theorem IsCache.isEntryName_hash (h : s.IsCache cwd top fs) (hlink : LinksTo fs top n hash) :
    Path.IsEntryName (Utf8.encode hash) := by
  obtain ⟨_, hash', hnode, hname⟩ := h.markers n _ hlink
  rwa [markerTarget_inj (Node.link.inj hnode) hname.1]

theorem fileName?_child (p : Path) (h : Path.IsPlainName n) : (p.child n).fileName? = some n := by
  unfold Path.fileName?
  rw [Path.components_child p h, List.getLast?_concat]

theorem fileName?_markerTarget (h : Path.IsPlainName (Utf8.encode hash)) :
    (markerTarget hash).fileName? = some (Utf8.encode hash) :=
  fileName?_child _ h

/-- The path of an item tells which item it is. -/
theorem path_inj {j : Item} (hi : Path.IsPlainName i.name) (hj : Path.IsPlainName j.name)
    (h : i.path s = j.path s) : i = j := by
  have hcomponents := congrArg Path.components h
  unfold Item.path at hcomponents
  rw [Path.components_child _ hi, Path.components_child _ hj,
    Path.components_child _ (isEntryName_folder i).1,
    Path.components_child _ (isEntryName_folder j).1] at hcomponents
  have hlast := List.append_inj' hcomponents rfl
  have hfolder := List.append_inj' hlast.1 rfl
  simp only [List.cons.injEq, Path.Component.name.injEq, and_true] at hlast hfolder
  exact Item.ext_iff.2 ⟨hfolder.2, hlast.2⟩

/-- Where the target of a marker is looked for. -/
theorem markers_join_markerTarget (h : Path.IsPlainName (Utf8.encode hash)) :
    s.markers.join (markerTarget hash) =
      ((⟨s.markers.bytes ++ Path.slash :: Path.upName⟩ : Path).child storeName).child
        (Utf8.encode hash) := by
  have hlast : s.markers.bytes.getLast? ≠ some Path.slash :=
    Path.getLast?_bytes_child s.root isEntryName_markersName.1
  have hup : (⟨s.markers.bytes ++ Path.slash :: Path.upName⟩ : Path).bytes.getLast? ≠
      some Path.slash := by
    rw [List.getLast?_append]
    exact (by decide : some Path.dot ≠ some Path.slash)
  have hstore : ((⟨s.markers.bytes ++ Path.slash :: Path.upName ++ Path.slash :: storeName⟩ :
      Path).bytes.getLast? ≠ some Path.slash) := by
    rw [List.getLast?_append]
    exact (by decide : some 0x65 ≠ some Path.slash)
  have hbytes := bytes_markerTarget (isAbsolute_of_isPlainName h)
  have hrelative : (markerTarget hash).isAbsolute = false := by
    unfold Path.isAbsolute
    rw [hbytes]
    rfl
  rw [child_eq_append (by simp) hup isEntryName_storeName.1, child_eq_append (by simp) hstore h]
  unfold Path.join
  rw [if_neg (by simp [hrelative]), if_neg (by simpa [bytes_markers_ne_nil] using hlast), hbytes]
  refine congrArg Path.mk ?_
  simp only [List.append_assoc, List.cons_append, List.append_cancel_left_eq]
  rfl

/-- An absent store is not found. -/
theorem Absent.findNode_root (h : s.Absent cwd top fs) (hfits : s.root.Fits) (last : Bool) :
    ∃ e, fs.findNode cwd last s.root = .error e := by
  obtain ⟨pre, links, here, n, ns, hroute, hnone, hshort, hroot, -⟩ := h.way
  obtain ⟨ms, m, hms⟩ : ∃ ms m, n :: ns = ms ++ [m] :=
    ⟨_, _, (List.dropLast_concat_getLast (List.cons_ne_nil n ns)).symm⟩
  rw [hms] at hroot hshort
  refine ⟨.noEntry, ?_⟩
  cases ms with
  | nil =>
    obtain ⟨rfl, _⟩ := List.cons.inj hms
    have hnothing : fs.at? (here ++ [] ++ [n]) = none := by rwa [List.append_nil]
    rw [findNode, find_along hroute hfits hroot hshort trivial (.inl hnothing), hnothing]
  | cons k ks =>
    obtain ⟨rfl, _⟩ := List.cons.inj hms
    rw [findNode, find_along_missing hroute hfits hroot hshort
      (clearAlong_of_none h.wellFormed hnone ks) (by simp [DirectoriesAlong, hnone])]

/-- Where there is no store there is none of its directories. -/
theorem Absent.findNode_folder (h : s.Absent cwd top fs) (hn : Path.IsEntryName n)
    (hfits : (s.root.child n).Fits) (last : Bool) :
    fs.findNode cwd last (s.root.child n) = .error .noEntry := by
  obtain ⟨pre, links, here, k, ns, hroute, hnone, hshort, hroot, rfl⟩ := h.way
  have hcomponents : (s.root.child n).components = pre ++ ((k :: ns) ++ [n]).map .name := by
    rw [Path.components_child _ hn.1, hroot]
    simp
  rw [findNode, find_along_missing hroute hfits hcomponents ?_
    (clearAlong_of_none h.wellFormed hnone ns) (by simp [DirectoriesAlong, hnone])]
  intro m hm
  rcases List.mem_append.1 hm with hm | hm
  · exact hshort m hm
  · rw [List.mem_singleton.1 hm]
    exact hn.2.2

/-- The system takes the path on which the target of a marker is looked for. -/
theorem fits_target (hroom : s.root.HasRoom 280) (hhash : Path.IsEntryName (Utf8.encode hash)) :
    (((⟨s.markers.bytes ++ Path.slash :: Path.upName⟩ : Path).child storeName).child
      (Utf8.encode hash)).Fits := by
  have hmarkers : (s.root.child markersName).HasRoom 272 :=
    Path.HasRoom.child (hroom.mono (by decide)) isEntryName_markersName
  have hlength : (Utf8.encode hash).length ≤ 255 := hhash.2.2
  refine Path.HasRoom.fits_child (Path.HasRoom.mono (k := 256) ?_ (by omega)) hhash
  refine Path.HasRoom.child (Path.HasRoom.mono (k := 269) ?_ (by decide)) isEntryName_storeName
  refine ⟨?_, ?_⟩
  · rw [List.mem_append]
    rintro (hzero | hzero)
    · exact hmarkers.1 hzero
    · exact absurd hzero (by decide)
  · rw [List.length_append]
    have := hmarkers.2
    simp only [List.length_cons, Path.upName, List.length_nil]
    exact this

/-! ## Section 5: Looking at a cache -/

variable (h : s.IsCache cwd top fs)
include h

theorem IsCache.folder_of_item (i : Item) :
    fs.at? (top ++ [i.folder]) = none ∨ fs.at? (top ++ [i.folder]) = some .directory := by
  refine h.folders _ ?_
  cases i <;> simp [Item.folder]

/-- Where something is, the store stands. -/
theorem IsCache.stands {names : List Name} (hthere : (fs.at? (top ++ names)).isSome) :
    s.Stands cwd top fs := by
  rcases h.located with habsent | hstands
  · rw [habsent.at?_eq_none names] at hthere
    cases hthere
  · exact hstands

theorem IsCache.stands_of_item (hnode : fs.at? (i.loc top) = some node) : s.Stands cwd top fs := by
  have hthere : (fs.at? (top ++ [i.folder, i.name])).isSome := by
    rw [← Item.loc, hnode]
    rfl
  exact h.stands hthere

theorem IsCache.fits_path (hn : Path.IsEntryName i.name) : (i.path s).Fits := by
  have hfolder := length_folder_le i
  have hname : i.name.length ≤ 255 := hn.2.2
  have hroom : (s.root.child i.folder).HasRoom 256 :=
    Path.HasRoom.child (h.room.mono (by omega)) (isEntryName_folder i)
  exact (hroom.mono (by omega)).fits_child hn

theorem IsCache.findNode_item (hnode : fs.at? (i.loc top) = some node) :
    fs.findNode cwd false (i.path s) = .ok (i.loc top, node) := by
  have hn := h.isEntryName hnode
  have hstands := h.stands_of_item hnode
  have hfind := findNode_grandchild hstands.leads_root h.tree.wellFormed (isEntryName_folder i)
    (h.folder_of_item i) hn (h.fits_path hn) false (by simp)
  rw [← Item.loc, hnode] at hfind
  exact hfind

/-- Where an item would be, nothing is found if it is not there. -/
theorem IsCache.findNode_missing (hn : Path.IsPlainName i.name)
    (hnone : fs.at? (i.loc top) = none) : ∃ e, fs.findNode cwd false (i.path s) = .error e := by
  by_cases hentry : Path.IsEntryName i.name
  · have hfits := h.fits_path hentry
    rcases h.located with habsent | hstands
    · -- There is no cache: the way to the item ends at the first name that is missing.
      obtain ⟨pre, links, here, n, ns, hroute, hnothing, hshort, hroot, rfl⟩ := habsent.way
      have hcomponents : (i.path s).components =
          pre ++ ((n :: ns ++ [i.folder]) ++ [i.name]).map .name := by
        rw [Item.path, Path.components_child _ hentry.1,
          Path.components_child _ (isEntryName_folder i).1, hroot]
        simp
      have hclear := clearAlong_of_none h.tree.wellFormed hnothing (ns ++ [i.folder])
      refine ⟨.noEntry, ?_⟩
      rw [findNode, find_along_missing hroute hfits hcomponents ?_ hclear
        (by simp [DirectoriesAlong, hnothing])]
      simp only [List.mem_append, List.mem_singleton]
      rintro m ((hm | rfl) | rfl)
      · exact hshort m hm
      · exact (isEntryName_folder i).2.2
      · exact hentry.2.2
    · have hfind := findNode_grandchild hstands.leads_root h.tree.wellFormed
        (isEntryName_folder i) (h.folder_of_item i) hentry hfits false (by simp)
      rw [← Item.loc, hnone] at hfind
      exact ⟨_, hfind⟩
  · -- A name that no directory entry can have is refused.
    cases hfind : fs.find cwd false (i.path s) with
    | ok found => exact absurd (isEntryName_of_find hn hfind) hentry
    | error e => exact ⟨e, by rw [findNode, hfind]⟩

/-- A listing of one of the two directories of a cache. -/
theorem IsCache.list (i : Item) :
    fs.list cwd (s.root.child i.folder) =
      if fs.at? (top ++ [i.folder]) = none then .error .noEntry
      else .ok (fs.sortedNames (top ++ [i.folder])) := by
  have hfolder := isEntryName_folder i
  have hlength := length_folder_le i
  have hfits : (s.root.child i.folder).Fits := (h.room.mono (by omega)).fits_child hfolder
  rcases h.located with habsent | hstands
  · rw [if_pos (habsent.at?_eq_none [i.folder]), FileSystem.list,
      habsent.findNode_folder hfolder hfits]
  · have hlink : NoLink fs (top ++ [i.folder]) := by
      intro t hnode
      rcases h.folder_of_item i with hnone | hdir
      · rw [hnode] at hnone
        cases hnone
      · rw [hnode] at hdir
        cases hdir
    rw [FileSystem.list, findNode_child hstands.leads_root hfolder hfits true fun _ => hlink]
    rcases h.folder_of_item i with hnone | hdir
    · rw [hnone]
      rfl
    · rw [hdir]
      rfl

/-- Whether the target of a marker is there. -/
theorem IsCache.isPresent_target (hlink : LinksTo fs top n hash) :
    fs.isPresent cwd (s.markers.join (markerTarget hash)) = hasEntry fs top hash := by
  have hhash := h.isEntryName_hash hlink
  have hstands := h.stands_of_item hlink
  have hdir : fs.at? (top ++ [markersName]) = some .directory := by
    refine directory_above h.tree.wellFormed (List.cons_ne_nil n []) ?_
    rw [List.append_assoc]
    exact Option.isSome_iff_exists.2 ⟨_, hlink⟩
  -- From the directory of markers the target goes up to the root of the cache.
  have hmarkers : fs.Leads cwd s.markers (top ++ [markersName]) :=
    hstands.leads_root.child isEntryName_markersName hdir
  have hup := hmarkers.up (bytes_markers_ne_nil s)
  rw [List.dropLast_concat] at hup
  have hfind := findNode_grandchild hup h.tree.wellFormed isEntryName_storeName
    (h.folders storeName (by simp)) hhash (fits_target h.room hhash) true fun _ t hnode => by
      obtain ⟨hnode, _⟩ := h.entries _ _ hnode
      cases hnode
  rw [markers_join_markerTarget hhash.1, isPresent, hfind]
  show _ = (fs.at? (top ++ [storeName, Utf8.encode hash])).isSome
  cases fs.at? (top ++ [storeName, Utf8.encode hash]) <;> rfl

/-- The disk usage of an entry. -/
theorem IsCache.diskUsage_entry (hnode : fs.at? ((Item.entry n).loc top) = some node) :
    fs.diskUsage cwd ((Item.entry n).path s) = fs.bytesAt ((Item.entry n).loc top) := by
  obtain ⟨rfl, _⟩ := h.entries _ _ hnode
  have hn := h.isEntryName hnode
  have hstands := h.stands_of_item hnode
  have hfind := findNode_grandchild hstands.leads_root h.tree.wellFormed isEntryName_storeName
    (h.folders storeName (by simp)) hn (h.fits_path hn) true fun _ t hlink => by
      obtain ⟨hlink, _⟩ := h.entries _ _ hlink
      cases hlink
  have hloc : top ++ [storeName, (Item.entry n).name] = (Item.entry n).loc top := rfl
  rw [hloc, hnode] at hfind
  exact h.tree.diskUsage_eq (h.findNode_item hnode) rfl hfind hnode

theorem IsCache.fits_root : s.root.Fits := ⟨h.room.1, h.named, by have := h.room.2; omega⟩

/-- The disk usage of the whole cache. -/
theorem IsCache.diskUsage_root : fs.diskUsage cwd s.root = fs.bytesAt top := by
  rcases h.located with habsent | hstands
  · have hnothing : fs.bytesAt top = 0 := by
      refine bytesAt_eq_zero fun e he hfront => ?_
      obtain ⟨names, hnames⟩ := hfront
      have hthere : (fs.at? e.1).isSome := isSome_at?_of_mem he
      rw [← hnames, habsent.at?_eq_none names] at hthere
      cases hthere
    obtain ⟨e, hfind⟩ := habsent.findNode_root h.fits_root false
    rw [FileSystem.diskUsage, visits, hfind, hnothing]
    rfl
  · obtain ⟨loc', node, hfirst, hsize⟩ :=
      hstands.leads_root.findNode_first h.fits_root hstands.there
    exact h.tree.diskUsage_eq hfirst hsize (hstands.leads_root.findNode h.fits_root hstands.there)
      hstands.there

/-! ## Section 6: Taking items away -/

/-- A cache from which items are taken away is a cache. -/
theorem IsCache.without (is : List Item) :
    s.IsCache cwd top (fs.without (is.map (Item.loc top))) := by
  refine ⟨h.tree.without _, ?_, h.named, h.room, ?_, ?_, ?_⟩
  · rcases h.located with habsent | hstands
    · rw [without_eq_self h.tree.wellFormed]
      · exact .inl habsent
      · intro l hl
        obtain ⟨i, _, rfl⟩ := List.mem_map.1 hl
        exact habsent.at?_eq_none _
    · refine .inr (hstands.of_below fun loc hloc => at?_without_of_not ?_)
      refine Item.isStruck_of_not_below fun f n hfront => hloc ⟨?_, ?_⟩
      · exact (List.prefix_append ..).trans hfront
      · rintro rfl
        have hle := hfront.length_le
        rw [List.length_append, List.length_cons] at hle
        omega
  · intro f hf
    rw [at?_without_of_not (Item.isStruck_folder f)]
    exact h.folders f hf
  · intro n node hnode
    exact h.entries n node (Item.at?_without_items.1 hnode).2
  · intro n node hnode
    exact h.markers n node (Item.at?_without_items.1 hnode).2

omit h

/-! ## Section 7: Checking a cache -/

/-- Whether a node can be that of a marker. -/
def isMarkerNode : Node → Bool
  | .link target =>
      match target.fileName? with
      | some n =>
          Path.IsEntryName n && Utf8.encode (Utf8.decodeLossy n) = n &&
            target = markerTarget (Utf8.decodeLossy n)
      | none => false
  | _ => false

/-- Whether a node can be part of a cache at `top`. -/
def isCacheNode (top : Location) (e : Location × Node) : Bool :=
  match Cut.after? top e.1 with
  | some [f] => !(f = storeName || f = markersName) || e.2 = .directory
  | some [f, n] =>
      (f != storeName ||
        (e.2 = .directory && Path.IsEntryName n && Utf8.encode (Utf8.decodeLossy n) = n)) &&
      (f != markersName || (Path.IsEntryName n && isMarkerNode e.2))
  | _ => true

/-- A list of nodes can be checked to be a cache. -/
theorem isCache_of_nodes (htree : fs.IsTree) (hlocated : s.Located cwd top fs)
    (hnamed : s.root.bytes ≠ []) (hroom : s.root.HasRoom 280)
    (hnodes : ∀ e ∈ fs.nodes, isCacheNode top e = true) : s.IsCache cwd top fs := by
  -- Whatever is at the place of an item is among the nodes that are checked.
  have hitem : ∀ (i : Item) node, fs.at? (i.loc top) = some node →
      isCacheNode top (i.loc top, node) = true := fun i node hnode =>
    hnodes _ (mem_nodes_of_at? hnode (Item.loc_ne_nil top i))
  refine ⟨htree, hlocated, hnamed, hroom, fun f hf => ?_, fun n node hnode => ?_,
    fun n node hnode => ?_⟩
  · cases hnode : fs.at? (top ++ [f]) with
    | none => exact .inl rfl
    | some node =>
      have hcheck := hnodes _ (mem_nodes_of_at? hnode (by simp))
      rw [isCacheNode, Cut.after?_append] at hcheck
      right
      rcases List.mem_pair.1 hf with rfl | rfl <;> simpa using hcheck
  · have hcheck := hitem (.entry n) node hnode
    rw [isCacheNode, Item.loc, Cut.after?_append] at hcheck
    simp only [Item.folder, Item.name, Bool.and_eq_true, Bool.or_eq_true, bne_self_eq_false,
      Bool.false_eq_true, false_or, decide_eq_true_eq] at hcheck
    exact ⟨hcheck.1.1.1, _, (of_decide_eq_true hcheck.1.2).symm, of_decide_eq_true hcheck.1.1.2⟩
  · have hcheck := hitem (.marker n) node hnode
    rw [isCacheNode, Item.loc, Cut.after?_append] at hcheck
    simp only [Item.folder, Item.name, Bool.and_eq_true, Bool.or_eq_true, bne_self_eq_false,
      Bool.false_eq_true, false_or, decide_eq_true_eq] at hcheck
    obtain ⟨-, hn, hmarker⟩ := hcheck
    refine ⟨of_decide_eq_true hn, ?_⟩
    unfold isMarkerNode at hmarker
    split at hmarker
    · split at hmarker
      · simp only [Bool.and_eq_true, decide_eq_true_eq] at hmarker
        obtain ⟨⟨hname, hencode⟩, htarget⟩ := hmarker
        exact ⟨_, congrArg Node.link htarget, hencode.symm ▸ hname⟩
      · cases hmarker
    · cases hmarker

/-- A store that is a directory of the file system's root stands there. -/
theorem stands_below_root (hroot : s.root.components = [.root, .name n])
    (hn : n.length ≤ nameLimit) (hdir : fs.at? [n] = some .directory) : s.Stands cwd [n] fs := by
  have habove : (fs.above [n]).at? [n] = some .directory := by
    rw [at?_above, if_neg fun hbelow => hbelow.2 rfl, hdir]
  refine ⟨hdir, linkLimit, ?_⟩
  rw [hroot]
  exact .root cwd (.enter hn habove (.nil _ _))

end Store
end ScriptDeps
