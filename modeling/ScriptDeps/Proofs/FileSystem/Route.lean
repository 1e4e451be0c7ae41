import ScriptDeps.FileSystem.Change
import ScriptDeps.Proofs.Path

/-! # Routes

    A route is a walk that does not end: from a location along components to
    a location, through directories and links that are there.  A walk that
    starts with a route goes on from its end (`Route.walk_append`), and a
    route stays one as long as no directory and no link is lost
    (`Route.mono`). -/

namespace ScriptDeps
namespace FileSystem

/-! ## Section 1: Model -/

/-- `Route fs links here xs links' loc`: the components `xs` lead from `here`
    to `loc`, and of `links` links `links'` may still be followed. -/
inductive Route (fs : FileSystem) :
    Nat → Location → List Path.Component → Nat → Location → Prop
  | nil (links : Nat) (here : Location) : Route fs links here [] links here
  | root {links links' : Nat} {loc : Location} {rest : List Path.Component}
      (here : Location) (h : Route fs links [] rest links' loc) :
      Route fs links here (.root :: rest) links' loc
  | here {links links' : Nat} {here loc : Location} {rest : List Path.Component}
      (h : Route fs links here rest links' loc) :
      Route fs links here (.here :: rest) links' loc
  | up {links links' : Nat} {here loc : Location} {rest : List Path.Component}
      (h : Route fs links here.dropLast rest links' loc) :
      Route fs links here (.up :: rest) links' loc
  | enter {links links' : Nat} {here loc : Location} {rest : List Path.Component} {n : Name}
      (hn : n.length ≤ nameLimit) (hnode : fs.at? (here ++ [n]) = some .directory)
      (h : Route fs links (here ++ [n]) rest links' loc) :
      Route fs links here (.name n :: rest) links' loc
  | follow {links links' : Nat} {here loc : Location} {rest : List Path.Component} {n : Name}
      {target : Path} (hn : n.length ≤ nameLimit)
      (hnode : fs.at? (here ++ [n]) = some (.link target))
      (h : Route fs links here (target.steps ++ rest) links' loc) :
      Route fs (links + 1) here (.name n :: rest) links' loc

/-- No directory and no link of `fs` is lost in `fs'`. -/
def Keeps (fs fs' : FileSystem) : Prop :=
  ∀ loc node, fs.at? loc = some node → node = .directory ∨ node.isLink = true →
    fs'.at? loc = some node

/-! ## Section 2: Walks along routes -/

variable {fs fs' fs'' : FileSystem} {links links' links'' : Nat} {here loc loc' : Location}
  {xs ys : List Path.Component} {n : Name}

theorem walk_name (fs : FileSystem) (last : Bool) (links : Nat) (here : Location)
    (hn : n.length ≤ nameLimit) (rest : List Path.Component) :
    fs.walk last links here (.name n :: rest) =
      match fs.at? (here ++ [n]) with
      | none => if rest.all (· = .here) then .ok (.missing here n) else .error .noEntry
      | some .directory => fs.walk last links (here ++ [n]) rest
      | some (.link target) =>
          if rest.isEmpty && !last then .ok (.node (here ++ [n]) (.link target))
          else match links with
            | 0 => .error .tooManyLinks
            | links + 1 => fs.walk last links here (target.steps ++ rest)
      | some node =>
          if rest.isEmpty then .ok (.node (here ++ [n]) node) else .error .notDirectory := by
  rw [walk]
  exact if_neg (by omega)

/-- What a walk does after a route does not depend on the route. -/
theorem Route.walk_append (h : Route fs links here xs links' loc) (last : Bool) (hys : ys ≠ []) :
    fs.walk last links here (xs ++ ys) = fs.walk last links' loc ys := by
  induction h with
  | nil => rfl
  | root here h ih => rw [List.cons_append, walk, ih]
  | here h ih => rw [List.cons_append, walk, ih]
  | up h ih => rw [List.cons_append, walk, ih]
  | enter hn hnode h ih => rw [List.cons_append, walk_name _ _ _ _ hn, hnode]; exact ih
  | follow hn hnode h ih =>
    rw [List.append_assoc] at ih
    rw [List.cons_append, walk_name _ _ _ _ hn, hnode]
    simpa [hys] using ih

/-! ## Section 3: Routes -/

theorem Route.append (h : Route fs links here xs links' loc)
    (h' : Route fs links' loc ys links'' loc') :
    Route fs links here (xs ++ ys) links'' loc' := by
  induction h with
  | nil => exact h'
  | root here h ih => exact .root here (ih h')
  | here h ih => exact .here (ih h')
  | up h ih => exact .up (ih h')
  | enter hn hnode h ih => exact .enter hn hnode (ih h')
  | follow hn hnode h ih =>
    have hroute := ih h'
    rw [List.append_assoc] at hroute
    exact .follow hn hnode hroute

theorem Route.mono (h : Route fs links here xs links' loc) (hkeeps : Keeps fs fs') :
    Route fs' links here xs links' loc := by
  induction h with
  | nil => exact .nil _ _
  | root here h ih => exact .root here ih
  | here h ih => exact .here ih
  | up h ih => exact .up ih
  | enter hn hnode h ih => exact .enter hn (hkeeps _ _ hnode (.inl rfl)) ih
  | follow hn hnode h ih => exact .follow hn (hkeeps _ _ hnode (.inr rfl)) ih

/-- A route that starts at the root starts there from everywhere. -/
theorem Route.of_root (h : Route fs links here (.root :: xs) links' loc) (other : Location) :
    Route fs links other (.root :: xs) links' loc := by
  cases h with
  | root _ h => exact .root other h

/-- A route along more components is one along the first of them, and one along
    the rest. -/
theorem Route.split (h : Route fs links here (xs ++ ys) links' loc) :
    ∃ links'' loc', Route fs links here xs links'' loc' ∧ Route fs links'' loc' ys links' loc := by
  -- By induction on the route: until the first components are used up its steps are theirs.
  generalize hzs : xs ++ ys = zs at h
  induction h generalizing xs with
  | nil links here =>
    obtain ⟨rfl, rfl⟩ := List.append_eq_nil_iff.1 hzs
    exact ⟨links, here, .nil _ _, .nil _ _⟩
  | root here h ih =>
    rcases List.append_eq_cons_iff.1 hzs with ⟨rfl, rfl⟩ | ⟨xs, rfl, rfl⟩
    · exact ⟨_, _, .nil _ _, .root here h⟩
    · obtain ⟨links'', loc', hfirst, hrest⟩ := ih rfl
      exact ⟨links'', loc', .root here hfirst, hrest⟩
  | here h ih =>
    rcases List.append_eq_cons_iff.1 hzs with ⟨rfl, rfl⟩ | ⟨xs, rfl, rfl⟩
    · exact ⟨_, _, .nil _ _, .here h⟩
    · obtain ⟨links'', loc', hfirst, hrest⟩ := ih rfl
      exact ⟨links'', loc', .here hfirst, hrest⟩
  | up h ih =>
    rcases List.append_eq_cons_iff.1 hzs with ⟨rfl, rfl⟩ | ⟨xs, rfl, rfl⟩
    · exact ⟨_, _, .nil _ _, .up h⟩
    · obtain ⟨links'', loc', hfirst, hrest⟩ := ih rfl
      exact ⟨links'', loc', .up hfirst, hrest⟩
  | enter hn hnode h ih =>
    rcases List.append_eq_cons_iff.1 hzs with ⟨rfl, rfl⟩ | ⟨xs, rfl, rfl⟩
    · exact ⟨_, _, .nil _ _, .enter hn hnode h⟩
    · obtain ⟨links'', loc', hfirst, hrest⟩ := ih rfl
      exact ⟨links'', loc', .enter hn hnode hfirst, hrest⟩
  | follow hn hnode h ih =>
    rcases List.append_eq_cons_iff.1 hzs with ⟨rfl, rfl⟩ | ⟨xs, rfl, rfl⟩
    · exact ⟨_, _, .nil _ _, .follow hn hnode h⟩
    · obtain ⟨links'', loc', hfirst, hrest⟩ := ih (List.append_assoc ..)
      exact ⟨links'', loc', .follow hn hnode hfirst, hrest⟩

/-- Components lead to one place. -/
theorem Route.unique (h : Route fs links here xs links' loc)
    (h' : Route fs links here xs links'' loc') : links' = links'' ∧ loc = loc' := by
  -- The next component and the node at it leave only one step.
  induction h with
  | nil =>
    cases h'
    exact ⟨rfl, rfl⟩
  | root here h ih =>
    cases h' with
    | root _ h' => exact ih h'
  | here h ih =>
    cases h' with
    | here h' => exact ih h'
  | up h ih =>
    cases h' with
    | up h' => exact ih h'
  | enter hn hnode h ih =>
    cases h' with
    | enter _ _ h' => exact ih h'
    | follow _ hlink => rw [hnode] at hlink; cases hlink
  | follow hn hnode h ih =>
    cases h' with
    | enter _ hdir => rw [hnode] at hdir; cases hdir
    | follow _ hlink h' =>
      obtain rfl := Node.link.inj (Option.some.inj (hnode.symm.trans hlink))
      exact ih h'

theorem Keeps.refl (fs : FileSystem) : Keeps fs fs := fun _ _ h _ => h

theorem Keeps.trans (h : Keeps fs fs') (h' : Keeps fs' fs'') : Keeps fs fs'' :=
  fun loc node hnode hkind => h' loc node (h loc node hnode hkind) hkind

/-! ## Section 4: Walks that are routes -/

/-- A walk that finds a name, or finds it missing, has followed a route up to
    the name. -/
theorem exists_route_of_walk {last : Bool} {found : Found}
    (h : fs.walk last links here (xs ++ [.name n]) = .ok found) :
    ∃ links' loc, Route fs links here xs links' loc := by
  -- By induction on the walk: as long as it goes on, its steps are those of a route.
  generalize hsteps : xs ++ [Path.Component.name n] = steps at h
  fun_induction FileSystem.walk fs last links here steps generalizing xs with
  | case1 => simp at hsteps
  | case2 links here rest ih =>
    cases xs with
    | nil => simp at hsteps
    | cons x xs =>
      obtain ⟨rfl, hrest⟩ := List.cons.inj hsteps
      obtain ⟨links', loc, hroute⟩ := ih hrest h
      exact ⟨links', loc, .root here hroute⟩
  | case3 links here rest ih =>
    cases xs with
    | nil => simp at hsteps
    | cons x xs =>
      obtain ⟨rfl, hrest⟩ := List.cons.inj hsteps
      obtain ⟨links', loc, hroute⟩ := ih hrest h
      exact ⟨links', loc, .here hroute⟩
  | case4 links here rest ih =>
    cases xs with
    | nil => simp at hsteps
    | cons x xs =>
      obtain ⟨rfl, hrest⟩ := List.cons.inj hsteps
      obtain ⟨links', loc, hroute⟩ := ih hrest h
      exact ⟨links', loc, .up hroute⟩
  | case8 links here n' rest hn hnode ih =>
    cases xs with
    | nil => exact ⟨links, here, .nil _ _⟩
    | cons x xs =>
      obtain ⟨rfl, hrest⟩ := List.cons.inj hsteps
      obtain ⟨links', loc, hroute⟩ := ih hrest h
      exact ⟨links', loc, .enter (by omega) hnode hroute⟩
  | case11 here n' rest hn target hnode hlast links ih =>
    cases xs with
    | nil => exact ⟨_, here, .nil _ _⟩
    | cons x xs =>
      obtain ⟨rfl, hrest⟩ := List.cons.inj hsteps
      -- The walk goes on along the target, and the name at the end is still to come.
      have hrest' : (target.steps ++ xs) ++ [.name n] = target.steps ++ rest := by
        rw [List.append_assoc]
        exact congrArg (target.steps ++ ·) hrest
      obtain ⟨links', loc, hroute⟩ := ih hrest' h
      exact ⟨links', loc, .follow (by omega) hnode hroute⟩
  | _ =>
    -- The walk ends at this name, so it was the last one, or it fails.
    cases xs with
    | nil => exact ⟨_, _, .nil _ _⟩
    | cons x xs =>
      obtain ⟨_, rfl⟩ := List.cons.inj hsteps
      simp_all

/-- A walk that finds a directory has followed a route to it. -/
theorem exists_route_of_walk_directory {last : Bool}
    (h : fs.walk last links here xs = .ok (.node loc .directory)) :
    ∃ links', Route fs links here xs links' loc := by
  -- Each case that goes on is a step of a route; the others find no directory.
  fun_induction FileSystem.walk fs last links here xs with
  | case1 links here =>
    obtain ⟨rfl, _⟩ := Found.node.inj (Except.ok.inj h)
    exact ⟨links, .nil _ _⟩
  | case2 links here rest ih =>
    obtain ⟨links', hroute⟩ := ih h
    exact ⟨links', .root here hroute⟩
  | case3 links here rest ih =>
    obtain ⟨links', hroute⟩ := ih h
    exact ⟨links', .here hroute⟩
  | case4 links here rest ih =>
    obtain ⟨links', hroute⟩ := ih h
    exact ⟨links', .up hroute⟩
  | case8 links here n rest hn hnode ih =>
    obtain ⟨links', hroute⟩ := ih h
    exact ⟨links', .enter (by omega) hnode hroute⟩
  | case11 here n rest hn target hnode hlast links ih =>
    obtain ⟨links', hroute⟩ := ih h
    exact ⟨links', .follow (by omega) hnode hroute⟩
  | case12 links here n rest hn node hdir =>
    cases h
    exact absurd rfl hdir
  | _ => cases h

/-- What a walk ends at is there; only directories are taken for granted. -/
theorem at?_of_walk {fs : FileSystem} {last : Bool} {links : Nat} {here loc : Location}
    {steps : List Path.Component} {node : Node}
    (h : fs.walk last links here steps = .ok (.node loc node)) (hnode : node ≠ .directory) : fs.at? loc = some node := by
  fun_induction walk fs last links here steps
  case case1 =>
    cases h
    cases hat : fs.at? loc with
    | none => exact absurd (by rw [hat]; rfl) hnode
    | some n => rfl
  case case5 | case6 | case7 | case10 | case13 => cases h
  case case2 ih | case3 ih | case4 ih | case8 ih | case11 ih => exact ih h
  case case9 | case12 =>
    cases h
    assumption

theorem at?_of_findNode {fs : FileSystem} {cwd loc : Location} {last : Bool} {p : Path}
    {node : Node} (h : fs.findNode cwd last p = .ok (loc, node)) (hnode : node ≠ .directory) :
    fs.at? loc = some node := by
  unfold findNode at h
  split at h
  · next hfind =>
    cases h
    unfold find at hfind
    split at hfind
    · cases hfind
    · split at hfind
      · cases hfind
      · split at hfind
        · cases hfind
        · exact at?_of_walk hfind hnode
  · cases h
  · cases h

/-! ## Section 5: Files to which nodes are added -/

/-- A walk that ends at something else than a directory goes the same way in
    files to which nodes have been added. -/
theorem walk_of_kept (hkept : ∀ loc node, fs.at? loc = some node → fs'.at? loc = some node)
    {last : Bool} {steps : List Path.Component} {node : Node}
    (h : fs.walk last links here steps = .ok (.node loc node)) (hnode : node ≠ .directory) :
    fs'.walk last links here steps = .ok (.node loc node) := by
  -- The walk meets nodes all the way, so it never comes to where one has been added.
  fun_induction FileSystem.walk fs last links here steps with
  | case1 links here =>
    cases h
    cases hat : fs.at? loc with
    | none => exact absurd (by rw [hat]; rfl) hnode
    | some n => rw [walk, hkept _ _ hat]
  | case2 links here rest ih => rw [walk]; exact ih h
  | case3 links here rest ih => rw [walk]; exact ih h
  | case4 links here rest ih => rw [walk]; exact ih h
  | case8 links here n rest hn hat ih =>
    rw [walk_name _ _ _ _ (by omega), hkept _ _ hat]
    exact ih h
  | case9 links here n rest hn target hat hlast =>
    cases h
    rw [walk_name _ _ _ _ (by omega), hkept _ _ hat]
    exact if_pos hlast
  | case11 here n rest hn target hat hlast links ih =>
    rw [walk_name _ _ _ _ (by omega), hkept _ _ hat]
    exact (if_neg hlast).trans (ih h)
  | case12 links here n rest hn node' hdir hlink hat hrest =>
    cases h
    rw [walk_name _ _ _ _ (by omega), hkept _ _ hat]
    cases node with
    | directory => exact absurd rfl hnode
    | link t => exact absurd rfl (hlink t)
    | file content modified mode => exact if_pos hrest
    | pipe content => exact if_pos hrest
  | _ => cases h

theorem findNode_of_kept (hkept : ∀ loc node, fs.at? loc = some node → fs'.at? loc = some node)
    {cwd loc : Location} {last : Bool} {p : Path} {node : Node}
    (h : fs.findNode cwd last p = .ok (loc, node)) (hnode : node ≠ .directory) :
    fs'.findNode cwd last p = .ok (loc, node) := by
  unfold findNode at h ⊢
  unfold find at h ⊢
  split at h
  · next loc' n hfind =>
    cases h
    split at hfind
    · cases hfind
    · split at hfind
      · cases hfind
      · split at hfind
        · cases hfind
        · rw [if_neg (by assumption), if_neg (by assumption), if_neg (by assumption),
            walk_of_kept hkept hfind hnode]
  · cases h
  · cases h

/-- What can be read is read as it is in files to which nodes have been added. -/
theorem read_of_kept (hkept : ∀ loc node, fs.at? loc = some node → fs'.at? loc = some node)
    {cwd : Location} {p : Path} {content : Bytes} (h : fs.read cwd p = .ok content) :
    fs'.read cwd p = .ok content := by
  unfold read at h ⊢
  split at h
  · next hfound => rw [findNode_of_kept hkept hfound nofun]; exact h
  · next hfound => rw [findNode_of_kept hkept hfound nofun]; exact h
  · cases h
  · cases h

end FileSystem
end ScriptDeps
