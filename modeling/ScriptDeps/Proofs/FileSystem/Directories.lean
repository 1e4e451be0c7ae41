import ScriptDeps.Proofs.FileSystem.Entry

/-! # Making directories

    A path that leads to a location and from there along names has all its
    missing directories made, from the first missing one on.  Nothing else
    changes (`makeDirectories_along`). -/

namespace ScriptDeps
namespace FileSystem

variable {fs fs' : FileSystem} {cwd here : Location} {pre : List Path.Component}
  {links links' : Nat} {p : Path} {n : Name} {ms ns : List Name}

/-! ## Section 1: Names that lead down -/

/-- Every name of `ns` leads from `here` down into a directory. -/
def DirectoriesAlong (fs : FileSystem) : Location → List Name → Prop
  | _, [] => True
  | here, n :: ns =>
      fs.at? (here ++ [n]) = some .directory ∧ DirectoriesAlong fs (here ++ [n]) ns

/-- Nothing but directories stands along the names `ns` from `here`. -/
def ClearAlong (fs : FileSystem) : Location → List Name → Prop
  | _, [] => True
  | here, n :: ns =>
      (fs.at? (here ++ [n]) = none ∨ fs.at? (here ++ [n]) = some .directory) ∧
        ClearAlong fs (here ++ [n]) ns

theorem directoriesAlong_append :
    DirectoriesAlong fs here (ms ++ ns) ↔
      DirectoriesAlong fs here ms ∧ DirectoriesAlong fs (here ++ ms) ns := by
  induction ms generalizing here with
  | nil => simp [DirectoriesAlong]
  | cons m ms ih =>
    rw [List.cons_append, DirectoriesAlong, DirectoriesAlong, ih, and_assoc, List.append_assoc]
    rfl

/-- Where names lead down to, a directory is. -/
theorem DirectoriesAlong.at?_append (h : DirectoriesAlong fs here ns) (hne : ns ≠ []) :
    fs.at? (here ++ ns) = some .directory := by
  rw [← List.dropLast_concat_getLast hne] at h ⊢
  rw [← List.append_assoc]
  exact (directoriesAlong_append.1 h).2.1

theorem DirectoriesAlong.mono (h : DirectoriesAlong fs here ns) (hkeeps : Keeps fs fs') :
    DirectoriesAlong fs' here ns := by
  induction ns generalizing here with
  | nil => trivial
  | cons n ns ih => exact ⟨hkeeps _ _ h.1 (.inl rfl), ih h.2⟩

theorem ClearAlong.append (h : ClearAlong fs here (ms ++ ns)) :
    ClearAlong fs here ms ∧ ClearAlong fs (here ++ ms) ns := by
  induction ms generalizing here with
  | nil => exact ⟨trivial, by simpa using h⟩
  | cons m ms ih =>
    obtain ⟨hleft, hright⟩ := ih h.2
    rw [List.append_assoc] at hright
    exact ⟨⟨h.1, hleft⟩, hright⟩

/-- One name is clear if it was clear and its node is the same. -/
theorem ClearAlong.of_same (h : ClearAlong fs here [n])
    (hsame : fs'.at? (here ++ [n]) = fs.at? (here ++ [n])) : ClearAlong fs' here [n] :=
  ⟨hsame ▸ h.1, trivial⟩

theorem route_names (links : Nat) (hshort : ∀ n ∈ ns, n.length ≤ nameLimit)
    (h : DirectoriesAlong fs here ns) :
    Route fs links here (ns.map .name) links (here ++ ns) := by
  induction ns generalizing here with
  | nil =>
    rw [List.append_nil]
    exact .nil links here
  | cons n ns ih =>
    have hrest := ih (fun m hm => hshort m (List.mem_cons_of_mem _ hm)) h.2
    rw [List.append_assoc] at hrest
    exact .enter (hshort n (List.mem_cons_self ..)) h.1 hrest

/-! ## Section 2: Finding a path along names -/

theorem exists_steps_eq (p : Path) :
    ∃ tail, p.steps = p.components ++ tail ∧ ∀ c ∈ tail, c = Path.Component.here := by
  unfold Path.steps
  refine ⟨_, rfl, ?_⟩
  split <;> simp

theorem walk_here {tail : List Path.Component} (h : ∀ c ∈ tail, c = Path.Component.here)
    (hdir : fs.at? here = some .directory) (last : Bool) (links : Nat) :
    fs.walk last links here tail = .ok (.node here .directory) := by
  induction tail with
  | nil => rw [walk, hdir]; rfl
  | cons c tail ih =>
    obtain rfl := h c (List.mem_cons_self ..)
    rw [walk]
    exact ih fun c hc => h c (List.mem_cons_of_mem _ hc)

theorem Route.walk_end (h : Route fs links cwd pre links' here) {tail : List Path.Component}
    (htail : ∀ c ∈ tail, c = Path.Component.here) (hdir : fs.at? here = some .directory) :
    fs.walk true links cwd (pre ++ tail) = .ok (.node here .directory) := by
  induction h with
  | nil => exact walk_here htail hdir true _
  | root here h ih => rw [List.cons_append, walk]; exact ih hdir
  | here h ih => rw [List.cons_append, walk]; exact ih hdir
  | up h ih => rw [List.cons_append, walk]; exact ih hdir
  | enter hn hnode h ih => rw [List.cons_append, walk_name _ _ _ _ hn, hnode]; exact ih hdir
  | follow hn hnode h ih =>
    have hrest := ih hdir
    rw [List.append_assoc] at hrest
    rw [List.cons_append, walk_name _ _ _ _ hn, hnode]
    simpa using hrest

/-- A path that leads to a directory is found there. -/
theorem Leads.findNode (h : Leads fs cwd p here) (hfits : p.Fits)
    (hdir : fs.at? here = some .directory) : fs.findNode cwd true p = .ok (here, .directory) := by
  obtain ⟨links, hroute⟩ := h
  obtain ⟨tail, hsteps, htail⟩ := exists_steps_eq p
  unfold FileSystem.findNode
  rw [find_eq_walk hfits, hsteps, hroute.walk_end htail hdir]

/-- A path of names from the root leads along directories. -/
theorem findNode_from_root {p : Path} (hp : p.components = .root :: ns.map .name) (hfits : p.Fits)
    (hshort : ∀ n ∈ ns, n.length ≤ nameLimit) (h : DirectoriesAlong fs [] ns) (cwd : Location) :
    fs.findNode cwd true p = .ok (ns, .directory) := by
  have hleads : Leads fs cwd p ns := by
    refine ⟨linkLimit, ?_⟩
    rw [hp]
    exact .root cwd (route_names linkLimit hshort h)
  refine hleads.findNode hfits ?_
  by_cases hne : ns = []
  · rw [hne, at?_root]
  · exact h.at?_append hne

/-- All directories but the last are there. -/
theorem find_along (hroute : Route fs linkLimit cwd pre links here) (hfits : p.Fits)
    (hp : p.components = pre ++ (ms ++ [n]).map .name)
    (hshort : ∀ m ∈ ms ++ [n], m.length ≤ nameLimit) (hdirs : DirectoriesAlong fs here ms)
    (hclear : fs.at? (here ++ ms ++ [n]) = none ∨ fs.at? (here ++ ms ++ [n]) = some .directory)
    (last : Bool) :
    fs.find cwd last p =
      .ok (match fs.at? (here ++ ms ++ [n]) with
        | none => .missing (here ++ ms) n
        | some _ => .node (here ++ ms ++ [n]) .directory) := by
  obtain ⟨tail, hsteps, htail⟩ := exists_steps_eq p
  have hnames := route_names links (fun m hm => hshort m (List.mem_append_left _ hm)) hdirs
  have hn := hshort n (List.mem_append_right _ (List.mem_singleton_self n))
  have hlist : pre ++ (ms ++ [n]).map .name ++ tail =
      (pre ++ ms.map .name) ++ .name n :: tail := by simp
  rw [find_eq_walk hfits, hsteps, hp, hlist,
    (hroute.append hnames).walk_append last (List.cons_ne_nil _ _), walk_name _ _ _ _ hn]
  rcases hclear with hnone | hdir
  · rw [hnone]
    dsimp only
    rw [if_pos (by simpa using htail)]
  · rw [hdir]
    exact walk_here htail hdir last links

/-- A directory before the last name is missing. -/
theorem walk_names_missing (hclear : ClearAlong fs here ms)
    (hshort : ∀ m ∈ ms, m.length ≤ nameLimit) (hmissing : ¬ DirectoriesAlong fs here ms)
    (last : Bool) (links : Nat) (tail : List Path.Component) :
    fs.walk last links here (ms.map .name ++ .name n :: tail) = .error .noEntry := by
  induction ms generalizing here with
  | nil => exact absurd trivial hmissing
  | cons m ms ih =>
    rw [List.map_cons, List.cons_append,
      walk_name _ _ _ _ (hshort m (List.mem_cons_self ..))]
    rcases hclear.1 with hnone | hdir
    · rw [hnone]
      dsimp only
      rw [if_neg (by simp)]
    · rw [hdir]
      exact ih hclear.2 (fun k hk => hshort k (List.mem_cons_of_mem _ hk))
        (fun hall => hmissing ⟨hdir, hall⟩)

theorem find_along_missing (hroute : Route fs linkLimit cwd pre links here) (hfits : p.Fits)
    (hp : p.components = pre ++ (ms ++ [n]).map .name)
    (hshort : ∀ m ∈ ms ++ [n], m.length ≤ nameLimit) (hclear : ClearAlong fs here ms)
    (hmissing : ¬ DirectoriesAlong fs here ms) (last : Bool) :
    fs.find cwd last p = .error .noEntry := by
  obtain ⟨tail, hsteps, _⟩ := exists_steps_eq p
  have hlist : pre ++ (ms ++ [n]).map .name ++ tail =
      pre ++ (ms.map .name ++ .name n :: tail) := by simp
  rw [find_eq_walk hfits, hsteps, hp, hlist, hroute.walk_append last (by simp)]
  exact walk_names_missing hclear (fun m hm => hshort m (List.mem_append_left _ hm)) hmissing
    last links tail

/-- Below a name that is missing in the root there is no directory. -/
theorem isDirectory_of_missing {p : Path} {n' : Name} (hnone : fs.at? [n] = none)
    (hp : p.components = [.root, .name n, .name n']) (hfits : p.Fits)
    (hshort : ∀ m ∈ [n, n'], m.length ≤ nameLimit) (cwd : Location) :
    fs.isDirectory cwd p = false := by
  have hmissing : ¬ DirectoriesAlong fs [] [n] := by
    rintro ⟨hthere, _⟩
    rw [List.nil_append, hnone] at hthere
    cases hthere
  have hclear : ClearAlong fs [] [n] := ⟨.inl hnone, trivial⟩
  have hroot : Route fs linkLimit cwd [.root] linkLimit [] := .root cwd (.nil linkLimit [])
  have hp : p.components = [.root] ++ ([n] ++ [n']).map .name := hp
  have hfind : fs.find cwd true p = .error .noEntry :=
    find_along_missing hroot hfits hp hshort hclear hmissing true
  unfold isDirectory findNode
  rw [hfind]

/-! ## Section 3: Making them -/

/-- `fs'` is `fs` with all directories along `ns` there. -/
structure MadeAlong (fs fs' : FileSystem) (here : Location) (ns : List Name) : Prop where
  along : DirectoriesAlong fs' here ns
  other : ∀ loc, ¬ loc <+: here ++ ns → fs'.at? loc = fs.at? loc
  kept  : ∀ loc node, fs.at? loc = some node → fs'.at? loc = some node

theorem MadeAlong.keeps (h : MadeAlong fs fs' here ns) : Keeps fs fs' :=
  fun loc node hnode _ => h.kept loc node hnode

theorem MadeAlong.trans {fs₁ : FileSystem} (h : MadeAlong fs fs₁ here ms)
    (h' : MadeAlong fs₁ fs' here (ms ++ ns)) : MadeAlong fs fs' here (ms ++ ns) := by
  refine ⟨h'.along, ?_, fun loc node hnode => h'.kept loc node (h.kept loc node hnode)⟩
  intro loc hloc
  rw [h'.other loc hloc, h.other loc]
  intro hfront
  exact hloc (by rw [← List.append_assoc]; exact hfront.trans (List.prefix_append ..))

theorem fits_of_prefix {q : Path} (h : p.Fits) (hfront : q.bytes <+: p.bytes)
    (hne : q.bytes ≠ []) : q.Fits := by
  obtain ⟨hzero, _, hlength⟩ := h
  exact ⟨fun hmem => hzero (hfront.mem hmem), hne, Nat.lt_of_le_of_lt hfront.length_le hlength⟩

theorem bytes_ne_nil {q : Path} (h : q.components ≠ []) : q.bytes ≠ [] := by
  intro hnil
  have hle := q.length_components_le
  rw [hnil, List.length_nil] at hle
  exact h (List.length_eq_zero_iff.1 (by omega))

/-- With its parents there, the last directory is made or found. -/
theorem madeAlong_last (hdirs : DirectoriesAlong fs here ms)
    (hnone : fs.at? (here ++ ms ++ [n]) = none) :
    MadeAlong fs (fs.put (here ++ ms ++ [n]) .directory) here (ms ++ [n]) := by
  have hkept : ∀ loc node, fs.at? loc = some node →
      (fs.put (here ++ ms ++ [n]) .directory).at? loc = some node := by
    intro loc node hnode
    rw [at?_put_ne]
    · exact hnode
    · rintro rfl
      rw [hnone] at hnode
      cases hnode
  refine ⟨?_, ?_, hkept⟩
  · have hms := hdirs.mono fun loc node hnode _ => hkept loc node hnode
    refine directoriesAlong_append.2 ⟨hms, ?_, trivial⟩
    exact at?_put_self fs _ (by simp)
  · intro loc hloc
    rw [at?_put_ne]
    rintro rfl
    exact hloc ⟨[], by rw [List.append_nil, List.append_assoc]⟩

theorem makeDirectory_along (hroute : Route fs linkLimit cwd pre links here) (hfits : p.Fits)
    (hp : p.components = pre ++ (ms ++ [n]).map .name)
    (hshort : ∀ m ∈ ms ++ [n], m.length ≤ nameLimit) (hdirs : DirectoriesAlong fs here ms)
    (hclear : fs.at? (here ++ ms ++ [n]) = none ∨ fs.at? (here ++ ms ++ [n]) = some .directory) :
    (∃ fs', fs.makeDirectory cwd p = .ok fs' ∧ MadeAlong fs fs' here (ms ++ [n])) ∨
      fs.makeDirectory cwd p = .error .alreadyExists ∧ fs.isDirectory cwd p = true ∧
        MadeAlong fs fs here (ms ++ [n]) := by
  have hfind := find_along hroute hfits hp hshort hdirs hclear
  rcases hclear with hnone | hdir
  · left
    refine ⟨_, ?_, madeAlong_last hdirs hnone⟩
    rw [makeDirectory, hfind, hnone]
  · right
    refine ⟨?_, ?_, directoriesAlong_append.2 ⟨hdirs, hdir, trivial⟩, fun _ _ => rfl,
      fun _ _ h => h⟩
    · rw [makeDirectory, hfind, hdir]
    · rw [isDirectory, findNode, hfind, hdir]
      rfl

/-- All missing directories along the names are made. -/
theorem makeDirectoriesWithin_along (fuel : Nat) (hroute : Route fs linkLimit cwd pre links here)
    (hfits : p.Fits) (hp : p.components = pre ++ ns.map .name)
    (hshort : ∀ m ∈ ns, m.length ≤ nameLimit) (hclear : ClearAlong fs here ns) (hne : ns ≠ [])
    (hfuel : ns.length ≤ fuel) :
    ∃ fs', fs.makeDirectoriesWithin cwd fuel p = .ok fs' ∧ MadeAlong fs fs' here ns := by
  -- By induction on the fuel: the parents have a name less, and so need less of it.
  induction fuel generalizing p ns with
  | zero => exact absurd (List.length_eq_zero_iff.1 (by omega)) hne
  | succ fuel ih =>
    obtain ⟨ms, n, rfl⟩ : ∃ ms n, ns = ms ++ [n] :=
      ⟨ns.dropLast, ns.getLast hne, (List.dropLast_concat_getLast hne).symm⟩
    obtain ⟨hms, hn⟩ := hclear.append
    rw [makeDirectoriesWithin, if_neg (by simpa using hfits.2.1)]
    by_cases hdirs : DirectoriesAlong fs here ms
    · rcases makeDirectory_along hroute hfits hp hshort hdirs hn.1 with
        ⟨fs', hmake, hmade⟩ | ⟨hmake, hdir, hmade⟩
      · rw [hmake]
        exact ⟨fs', rfl, hmade⟩
      · rw [hmake]
        dsimp only
        rw [if_pos hdir]
        exact ⟨fs, rfl, hmade⟩
    · -- A parent is missing, so the directory cannot be made before its parents are.
      have hfind := find_along_missing hroute hfits hp hshort hms hdirs false
      have hmake : fs.makeDirectory cwd p = .error .noEntry := by rw [makeDirectory, hfind]
      have hparent : p.components = (pre ++ ms.map .name) ++ [.name n] := by simpa using hp
      obtain ⟨q, hq, hqcomponents, hqbytes⟩ := Path.parent?_eq hparent
      have hms_ne : ms ≠ [] := by
        rintro rfl
        exact hdirs trivial
      have hqfits := fits_of_prefix hfits hqbytes (bytes_ne_nil (by simp [hqcomponents, hms_ne]))
      obtain ⟨fs₁, hwithin, hmade₁⟩ := ih hqfits hqcomponents
        (fun m hm => hshort m (List.mem_append_left _ hm)) hms hms_ne
        (by rw [List.length_append, List.length_singleton] at hfuel; omega)
      rw [hmake, hq]
      dsimp only
      rw [hwithin]
      dsimp only
      -- The parents have been made without touching the place of the last directory.
      have hlast : fs₁.at? (here ++ ms ++ [n]) = fs.at? (here ++ ms ++ [n]) :=
        hmade₁.other _ fun hfront => by
          have hle := hfront.length_le
          rw [List.length_append, List.length_append, List.length_singleton] at hle
          omega
      rcases makeDirectory_along (hroute.mono hmade₁.keeps) hfits hp hshort hmade₁.along
        (hlast ▸ hn.1) with ⟨fs₂, hmake₂, hmade₂⟩ | ⟨hmake₂, hdir₂, hmade₂⟩
      · refine ⟨fs₂, ?_, hmade₁.trans hmade₂⟩
        rw [ensureDirectory, hmake₂]
      · refine ⟨fs₁, ?_, hmade₁.trans hmade₂⟩
        rw [ensureDirectory, hmake₂]
        dsimp only
        rw [if_pos hdir₂]

theorem makeDirectories_along (hroute : Route fs linkLimit cwd pre links here)
    (hfits : p.Fits) (hp : p.components = pre ++ ns.map .name)
    (hshort : ∀ m ∈ ns, m.length ≤ nameLimit) (hclear : ClearAlong fs here ns) (hne : ns ≠ []) :
    ∃ fs', fs.makeDirectories cwd p = .ok fs' ∧ MadeAlong fs fs' here ns := by
  refine makeDirectoriesWithin_along _ hroute hfits hp hshort hclear hne ?_
  have hle := p.length_components_le
  rw [hp, List.length_append, List.length_map] at hle
  omega

end FileSystem
end ScriptDeps
