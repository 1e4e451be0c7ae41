import ScriptDeps.Proofs.FileSystem.Landing

/-! # Files that are written

    A file can be written where a path ends in a name, if what stands before
    the name is a directory or can be made one (`HasPlace`).  Once its
    directory is there (`Ready`), the file is written and read back as it was
    written.  To make directories leaves every node where it is
    (`at?_of_makeDirectories`). -/

namespace ScriptDeps
namespace FileSystem

variable {fs fs' : FileSystem} {cwd here loc place : Location} {p q : Path}
  {pre steps : List Path.Component} {links links' : Nat} {last : Bool} {n : Name}
  {old : Option Bytes}

/-! ## Section 1: Model -/

/-- A walk along `steps`, through links at its end, comes to a name that is not
    there: the one of `place`. -/
inductive Vacant (fs : FileSystem) :
    Nat → Location → List Path.Component → Location → Prop
  | name {links links' : Nat} {here dir : Location} {cs : List Path.Component} {n : Name}
      (hroute : Route fs links here cs links' dir) (hn : n.length ≤ nameLimit)
      (hnone : fs.at? (dir ++ [n]) = none) : Vacant fs links here (cs ++ [.name n]) (dir ++ [n])
  | link {links links' : Nat} {here dir place : Location} {cs : List Path.Component} {n : Name}
      {target : Path} (hroute : Route fs links here cs (links' + 1) dir)
      (hn : n.length ≤ nameLimit) (hnode : fs.at? (dir ++ [n]) = some (.link target))
      (h : Vacant fs links' dir target.steps place) :
      Vacant fs links here (cs ++ [.name n]) place

/-- What is found at `p`: nothing, or a regular file. -/
def FoundAt (fs : FileSystem) (cwd : Location) (p : Path) : Option Bytes → Prop
  | none => ∃ place, Vacant fs linkLimit cwd p.steps place
  | some content => ∃ place modified mode,
      fs.findNode cwd true p = .ok (place, .file content modified mode)

/-- The path `p` ends in a name after that of a directory, and a file can be
    written there.  If there is one, `old` is its content. -/
structure Ready (fs : FileSystem) (cwd : Location) (p : Path) (old : Option Bytes) : Prop where
  fits  : p.Fits
  steps : ∃ cs n links dir, p.steps = cs ++ [.name n] ∧
    Route fs linkLimit cwd cs links dir ∧ fs.at? dir = some .directory
  found : FoundAt fs cwd p old

/-- The path `p` leads to the directory `here` and from there along names, where
    nothing but directories stand, to a name that is not there. -/
structure Clear (fs : FileSystem) (cwd : Location) (p : Path) (pre : List Path.Component)
    (links : Nat) (here : Location) (ns : List Name) (n : Name) : Prop where
  fits      : p.Fits
  steps     : p.steps = (pre ++ ns.map .name) ++ [.name n]
  short     : ∀ m ∈ ns ++ [n], m.length ≤ nameLimit
  route     : Route fs linkLimit cwd pre links here
  directory : fs.at? here = some .directory
  clear     : ClearAlong fs here ns
  vacant    : fs.at? (here ++ ns ++ [n]) = none

/-- A file can be written at `p`, once its directory is made.  If there is one,
    `old` is its content. -/
def HasPlace (fs : FileSystem) (cwd : Location) (p : Path) (old : Option Bytes) : Prop :=
  Ready fs cwd p old ∨ old = none ∧ ∃ pre links here ns n, Clear fs cwd p pre links here ns n

/-! ## Section 2: Other content -/

/-- A node that is added leaves every node where it is. -/
theorem at?_put_of_none (hnone : fs.at? loc = none) (node : Node) :
    ∀ l there, fs.at? l = some there → (fs.put loc node).at? l = some there := by
  intro l there hthere
  rw [at?_put_ne]
  · exact hthere
  · rintro rfl
    rw [hnone] at hthere
    cases hthere

/-- A walk that ends at a file ends there whatever the file holds. -/
theorem walk_put_file {steps : List Path.Component} {content content' : Bytes}
    {modified modified' : Instant} {mode mode' : Nat}
    (h : fs.walk last links here steps = .ok (.node loc (.file content modified mode))) :
    (fs.put loc (.file content' modified' mode')).walk last links here steps =
      .ok (.node loc (.file content' modified' mode')) := by
  have hat := at?_of_walk h nofun
  have hroot : loc ≠ [] := by
    rintro rfl
    rw [at?_root] at hat
    cases hat
  have hkeeps := keeps_put_file hroot (by rw [hat]; nofun) (fun t => by rw [hat]; nofun)
    (.file content' modified' mode')
  -- By induction on the walk: no directory and no link that it meets is the file.
  fun_induction FileSystem.walk fs last links here steps with
  | case1 links here =>
    obtain ⟨rfl, _⟩ := Found.node.inj (Except.ok.inj h)
    rw [walk, at?_put_self fs _ hroot]
    rfl
  | case2 links here rest ih => rw [walk]; exact ih h
  | case3 links here rest ih => rw [walk]; exact ih h
  | case4 links here rest ih => rw [walk]; exact ih h
  | case8 links here n rest hn hnode ih =>
    rw [walk_name _ _ _ _ (by omega), hkeeps _ _ hnode (.inl rfl)]
    exact ih h
  | case11 here n rest hn target hnode hlast links ih =>
    rw [walk_name _ _ _ _ (by omega), hkeeps _ _ hnode (.inr rfl)]
    exact (if_neg hlast).trans (ih h)
  | case12 links here n rest hn node hdir hlink hnode hrest =>
    obtain ⟨rfl, _⟩ := Found.node.inj (Except.ok.inj h)
    rw [walk_name _ _ _ _ (by omega), at?_put_self fs _ hroot]
    exact if_pos hrest
  | _ => cases h

theorem findNode_put_file {content content' : Bytes} {modified modified' : Instant}
    {mode mode' : Nat}
    (h : fs.findNode cwd last p = .ok (loc, .file content modified mode)) :
    (fs.put loc (.file content' modified' mode')).findNode cwd last p =
      .ok (loc, .file content' modified' mode') := by
  have hfind := findNode_eq_ok.1 h
  have hfits := fits_of_find hfind
  rw [find_eq_walk hfits] at hfind
  rw [findNode_eq_ok, find_eq_walk hfits]
  exact walk_put_file hfind

/-! ## Section 3: Paths that end in a name -/

theorem components_of_steps (h : p.steps = pre ++ [.name n]) : p.components = pre ++ [.name n] := by
  unfold Path.steps at h
  dsimp only at h
  split at h
  · cases (List.append_inj' h rfl).2
  · rwa [List.append_nil] at h

theorem getLast?_ne_slash_of_steps (h : p.steps = pre ++ [.name n]) :
    p.bytes.getLast? ≠ some Path.slash := by
  intro hslash
  unfold Path.steps at h
  rw [hslash] at h
  cases (List.append_inj' h rfl).2

/-- Where a route ends at a directory something is found, be it a link to it. -/
theorem Route.exists_node {links' : Nat} (h : Route fs links cwd pre links' here)
    {tail : List Path.Component} (htail : ∀ c ∈ tail, c = Path.Component.here)
    (hdir : fs.at? here = some .directory) :
    ∃ loc node, fs.walk false links cwd (pre ++ tail) = .ok (.node loc node) := by
  induction h with
  | nil => exact ⟨_, _, walk_here htail hdir false _⟩
  | root here h ih => rw [List.cons_append, walk]; exact ih hdir
  | here h ih => rw [List.cons_append, walk]; exact ih hdir
  | up h ih => rw [List.cons_append, walk]; exact ih hdir
  | enter hn hnode h ih => rw [List.cons_append, walk_name _ _ _ _ hn, hnode]; exact ih hdir
  | follow hn hnode h ih =>
    have hrest := ih hdir
    rw [List.append_assoc] at hrest
    rw [List.cons_append, walk_name _ _ _ _ hn, hnode]
    dsimp only
    split
    · exact ⟨_, _, rfl⟩
    · exact hrest

/-- A directory that is there is not made again. -/
theorem makeDirectories_of_leads (h : Leads fs cwd q here) (hfits : q.Fits)
    (hdir : fs.at? here = some .directory) : fs.makeDirectories cwd q = .ok fs := by
  have hfound := h.findNode hfits hdir
  have hisDir : fs.isDirectory cwd q = true := by rw [isDirectory, hfound]; rfl
  -- Something is there even if a link at the end is not followed.
  have hmake : fs.makeDirectory cwd q = .error .alreadyExists := by
    obtain ⟨links, hroute⟩ := h
    obtain ⟨tail, hsteps, htail⟩ := exists_steps_eq q
    obtain ⟨loc, node, hnode⟩ := hroute.exists_node htail hdir
    rw [makeDirectory, find_eq_walk hfits, hsteps, hnode]
  rw [makeDirectories, makeDirectoriesWithin, if_neg (by simpa using hfits.2.1), hmake]
  dsimp only
  rw [if_pos hisDir]

/-- Directories that are made leave every node where it is. -/
theorem at?_of_makeDirectories (h : fs.makeDirectories cwd q = .ok fs') :
    ∀ loc node, fs.at? loc = some node → fs'.at? loc = some node := by
  refine keeps_makeDirectoriesWithin (A := fun _ => True)
    (P := fun fs' => ∀ loc node, fs.at? loc = some node → fs'.at? loc = some node)
    (fun _ _ _ _ => trivial) ?_ trivial (fun _ _ hnode => hnode) h
  intro fs₁ q fs₂ _ hkept hmake loc node hnode
  unfold makeDirectory at hmake
  split at hmake
  · cases hmake
  · next parent name hfind =>
    cases hmake
    have hfree : fs₁.at? (parent ++ [name]) = none := by
      rw [find_eq_walk (fits_of_find hfind)] at hfind
      exact at?_of_walk_missing hfind
    exact at?_put_of_none hfree .directory loc node (hkept loc node hnode)
  · cases hmake

/-! ## Section 4: Names that are not there -/

theorem Vacant.at?_eq_none (h : Vacant fs links here steps place) : fs.at? place = none := by
  induction h with
  | name _ _ hnone => exact hnone
  | link _ _ _ _ ih => exact ih

theorem Vacant.walk (h : Vacant fs links here steps place) :
    ∃ parent n, place = parent ++ [n] ∧
      fs.walk true links here steps = .ok (.missing parent n) := by
  induction h with
  | name hroute hn hnone =>
    refine ⟨_, _, rfl, ?_⟩
    rw [hroute.walk_append true (List.cons_ne_nil _ _), walk_name _ _ _ _ hn, hnone]
    rfl
  | link hroute hn hnode _ ih =>
    obtain ⟨parent, n, hplace, hwalk⟩ := ih
    refine ⟨parent, n, hplace, ?_⟩
    rw [hroute.walk_append true (List.cons_ne_nil _ _), walk_name _ _ _ _ hn, hnode]
    dsimp only
    rw [if_neg (by decide), List.append_nil, hwalk]

/-- A file that is put there is found. -/
theorem Vacant.walk_put (h : Vacant fs links here steps place) (content : Bytes)
    (modified : Instant) (mode : Nat) :
    (fs.put place (.file content modified mode)).walk true links here steps =
      .ok (.node place (.file content modified mode)) := by
  have hnone := h.at?_eq_none
  have hroot : place ≠ [] := by
    rintro rfl
    rw [at?_root] at hnone
    cases hnone
  have hkeeps : Keeps fs (fs.put place (.file content modified mode)) :=
    fun l node hnode _ => at?_put_of_none hnone _ l node hnode
  induction h with
  | name hroute hn =>
    rw [(hroute.mono hkeeps).walk_append true (List.cons_ne_nil _ _), walk_name _ _ _ _ hn,
      at?_put_self fs _ hroot]
    rfl
  | link hroute hn hnode _ ih =>
    rw [(hroute.mono hkeeps).walk_append true (List.cons_ne_nil _ _), walk_name _ _ _ _ hn,
      hkeeps _ _ hnode (.inr rfl)]
    dsimp only
    rw [if_neg (by decide), List.append_nil, ih hnone hroot hkeeps]

/-! ## Section 5: Places for files -/

theorem Clear.components {ns : List Name} (h : Clear fs cwd p pre links here ns n) :
    p.components = pre ++ (ns ++ [n]).map .name := by
  rw [components_of_steps h.steps]
  simp

/-- A file that is no link is one that can be written. -/
theorem ready_of_route {content : Bytes} {modified : Instant} {mode : Nat} (hfits : p.Fits)
    (hsteps : p.steps = pre ++ [.name n]) (hroute : Route fs linkLimit cwd pre links here)
    (hdir : fs.at? here = some .directory) (hn : n.length ≤ nameLimit)
    (hnode : fs.at? (here ++ [n]) = some (.file content modified mode)) :
    Ready fs cwd p (some content) := by
  refine ⟨hfits, ⟨pre, n, links, here, hsteps, hroute, hdir⟩, here ++ [n], modified, mode, ?_⟩
  rw [findNode_eq_ok, find_eq_walk hfits, hsteps, hroute.walk_append true (List.cons_ne_nil _ _),
    walk_name _ _ _ _ hn, hnode]
  rfl

theorem Ready.findNode_none (h : Ready fs cwd p none) :
    fs.findNode cwd true p = .error .noEntry := by
  obtain ⟨place, hvacant⟩ := h.found
  obtain ⟨parent, n, _, hwalk⟩ := hvacant.walk
  rw [findNode, find_eq_walk h.fits, hwalk]

/-- With the directories there, the name is all that is missing. -/
theorem Clear.ready {ns : List Name} (h : Clear fs cwd p pre links here ns n)
    (hkeeps : Keeps fs fs') (hdirs : DirectoriesAlong fs' here ns)
    (hvacant : fs'.at? (here ++ ns ++ [n]) = none) : Ready fs' cwd p none := by
  have hroute := (h.route.mono hkeeps).append
    (route_names links (fun m hm => h.short m (List.mem_append_left _ hm)) hdirs)
  refine ⟨h.fits, ⟨_, n, links, here ++ ns, h.steps, hroute, ?_⟩, here ++ ns ++ [n], ?_⟩
  · by_cases hns : ns = []
    · rw [hns, List.append_nil]
      exact hkeeps _ _ h.directory (.inl rfl)
    · exact hdirs.at?_append hns
  · rw [h.steps]
    exact .name hroute (h.short n (List.mem_append_right _ (List.mem_singleton_self n))) hvacant

theorem HasPlace.findNode_none (h : HasPlace fs cwd p none) :
    fs.findNode cwd true p = .error .noEntry := by
  rcases h with hready | ⟨_, pre, links, here, ns, n, hclear⟩
  · exact hready.findNode_none
  · by_cases hdirs : DirectoriesAlong fs here ns
    · exact (hclear.ready (.refl fs) hdirs hclear.vacant).findNode_none
    · rw [findNode, find_along_missing hclear.route hclear.fits hclear.components hclear.short
        hclear.clear hdirs]

theorem HasPlace.findNode_some {content : Bytes} (h : HasPlace fs cwd p (some content)) :
    ∃ place modified mode, fs.findNode cwd true p = .ok (place, .file content modified mode) := by
  rcases h with hready | ⟨hnone, _⟩
  · exact hready.found
  · cases hnone

/-- What is read is what is found there. -/
theorem HasPlace.read (h : HasPlace fs cwd p old) :
    fs.read cwd p = old.elim (.error .noEntry) .ok := by
  cases old with
  | none =>
    rw [FileSystem.read, h.findNode_none]
    rfl
  | some content =>
    obtain ⟨place, modified, mode, hnode⟩ := h.findNode_some
    rw [FileSystem.read, hnode]
    rfl

theorem HasPlace.isPresent (h : HasPlace fs cwd p old) : fs.isPresent cwd p = old.isSome := by
  cases old with
  | none =>
    rw [FileSystem.isPresent, h.findNode_none]
    rfl
  | some content =>
    obtain ⟨place, modified, mode, hnode⟩ := h.findNode_some
    rw [FileSystem.isPresent, hnode]
    rfl

/-- Whatever stands before the name of a place is a path that the system takes. -/
theorem exists_parent? (hfits : p.Fits) (hsteps : p.steps = pre ++ [.name n]) :
    ∃ q, p.parent? = some q ∧ q.components = pre ∧ (q.bytes ≠ [] → q.Fits) := by
  obtain ⟨q, hq, hcomponents, hfront⟩ := Path.parent?_eq (components_of_steps hsteps)
  exact ⟨q, hq, hcomponents, fits_of_prefix hfits hfront⟩

/-- The directory before the name is made, and then a file can be written. -/
theorem HasPlace.makeDirectories (h : HasPlace fs cwd p old) :
    ∃ q, p.parent? = some q ∧ (q.bytes = [] → Ready fs cwd p old) ∧
      (q.bytes ≠ [] → ∃ fs', fs.makeDirectories cwd q = .ok fs' ∧ Ready fs' cwd p old) := by
  rcases h with hready | ⟨rfl, pre, links, here, ns, n, hclear⟩
  · obtain ⟨cs, n, links, dir, hsteps, hroute, hdir⟩ := hready.steps
    obtain ⟨q, hq, rfl, hfits⟩ := exists_parent? hready.fits hsteps
    exact ⟨q, hq, fun _ => hready, fun hne =>
      ⟨fs, makeDirectories_of_leads ⟨links, hroute⟩ (hfits hne) hdir, hready⟩⟩
  · obtain ⟨q, hq, hcomponents, hfits⟩ := exists_parent? hclear.fits hclear.steps
    refine ⟨q, hq, fun hempty => ?_, fun hne => ?_⟩
    · -- Only names of the current directory have nothing before them.
      obtain rfl : q = ⟨[]⟩ := by rw [← hempty]
      obtain ⟨_, hnames⟩ := List.append_eq_nil_iff.1 hcomponents.symm
      obtain rfl := List.map_eq_nil_iff.1 hnames
      exact hclear.ready (.refl fs) trivial hclear.vacant
    · by_cases hns : ns = []
      · subst hns
        rw [List.map_nil, List.append_nil] at hcomponents
        exact ⟨fs, makeDirectories_of_leads ⟨links, hcomponents ▸ hclear.route⟩ (hfits hne)
          hclear.directory, hclear.ready (.refl fs) trivial hclear.vacant⟩
      · obtain ⟨fs', hmake, hmade⟩ := makeDirectories_along hclear.route (hfits hne) hcomponents
          (fun m hm => hclear.short m (List.mem_append_left _ hm)) hclear.clear hns
        -- The place is below the directories that are made.
        have hvacant : fs'.at? (here ++ ns ++ [n]) = none := by
          refine (hmade.other _ fun hfront => ?_).trans hclear.vacant
          have hle := hfront.length_le
          rw [List.length_append, List.length_singleton] at hle
          omega
        exact ⟨fs', hmake, hclear.ready hmade.keeps hmade.along hvacant⟩

/-- A file is written where its directory is, and is found there afterwards; a
    new file leaves every node where it is. -/
theorem Ready.write (h : Ready fs cwd p old) (now : Instant) (content : Bytes) :
    ∃ fs', fs.write cwd now p content = .ok fs' ∧ Ready fs' cwd p (some content) ∧
      (old = none → ∀ loc node, fs.at? loc = some node → fs'.at? loc = some node) := by
  obtain ⟨cs, n, links, dir, hsteps, hroute, hdir⟩ := h.steps
  have hready : ∀ {fs'}, Keeps fs fs' → FoundAt fs' cwd p (some content) →
      Ready fs' cwd p (some content) := fun hkeeps hfound =>
    ⟨h.fits, ⟨cs, n, links, dir, hsteps, hroute.mono hkeeps, hkeeps _ _ hdir (.inl rfl)⟩, hfound⟩
  cases old with
  | some before =>
    -- The file keeps its place and its mode.
    obtain ⟨place, modified, mode, hnode⟩ := h.found
    have hat := at?_of_findNode hnode nofun
    have hroot : place ≠ [] := by
      rintro rfl
      rw [at?_root] at hat
      cases hat
    have hkeeps := keeps_put_file hroot (by rw [hat]; nofun)
      (fun t => by rw [hat]; nofun) (.file content now mode)
    refine ⟨_, ?_, hready hkeeps ⟨place, now, mode, findNode_put_file hnode⟩, nofun⟩
    rw [FileSystem.write, findNode_eq_ok.1 hnode]
  | none =>
    -- Nothing was at its place, so nothing is lost there.
    obtain ⟨place, hvacant⟩ := h.found
    obtain ⟨parent, name, hplace, hwalk⟩ := hvacant.walk
    have hkept := at?_put_of_none hvacant.at?_eq_none (.file content now plainMode)
    have hkeeps : Keeps fs (fs.put place (.file content now plainMode)) :=
      fun loc node hnode _ => hkept loc node hnode
    refine ⟨fs.put place (.file content now plainMode), ?_,
      hready hkeeps ⟨place, now, plainMode, ?_⟩, fun _ => hkept⟩
    · rw [FileSystem.write, find_eq_walk h.fits, hwalk, hplace]
      exact if_neg (getLast?_ne_slash_of_steps hsteps)
    · rw [findNode_eq_ok, find_eq_walk h.fits]
      exact hvacant.walk_put content now plainMode

end FileSystem
end ScriptDeps
