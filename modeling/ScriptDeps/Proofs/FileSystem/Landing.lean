import ScriptDeps.Proofs.FileSystem.Losing

/-! # Where changes land

    To write, to link and to remove a file changes one location at most: the
    one where the path is found, or found missing (`Found.place`).  So what
    lies at and below a directory stays as it is (`SameBelow`) as long as paths
    lead elsewhere.  A path along names that meets no link leads where the
    names say (`place_of_find`). -/

namespace ScriptDeps
namespace FileSystem

variable {fs fs' fs'' : FileSystem} {cwd dir here loc : Location} {p : Path} {last : Bool}
  {links : Nat} {tail : List Path.Component} {n : Name} {ns : List Name} {node : Node}
  {found : Found}

/-! ## Section 1: Model -/

/-- The location that a path leads to, be it there or missing. -/
def Found.place : Found → Location
  | .node loc _ => loc
  | .missing parent name => parent ++ [name]

/-- What is at `dir` or below is the same in both. -/
def SameBelow (dir : Location) (fs fs' : FileSystem) : Prop :=
  ∀ loc, dir <+: loc → fs'.at? loc = fs.at? loc

/-- The path `p` is not found at `dir` or below. -/
def FoundOutside (fs : FileSystem) (cwd dir : Location) (last : Bool) (p : Path) : Prop :=
  ∀ found, fs.find cwd last p = .ok found → ¬ dir <+: found.place

theorem SameBelow.refl (dir : Location) (fs : FileSystem) : SameBelow dir fs fs :=
  fun _ _ => rfl

theorem SameBelow.trans (h : SameBelow dir fs fs') (h' : SameBelow dir fs' fs'') :
    SameBelow dir fs fs'' :=
  fun loc hloc => (h' loc hloc).trans (h loc hloc)

theorem sameBelow_put (fs : FileSystem) (hloc : ¬ dir <+: loc) (node : Node) :
    SameBelow dir fs (fs.put loc node) :=
  fun _ hl => at?_put_ne fs node fun heq => hloc (heq ▸ hl)

theorem sameBelow_erase (fs : FileSystem) (hloc : ¬ dir <+: loc) :
    SameBelow dir fs (fs.erase loc) :=
  fun _ hl => at?_erase_ne fs fun heq => hloc (heq ▸ hl)

/-! ## Section 2: What is found -/

/-- What a walk finds missing is missing. -/
theorem at?_of_walk_missing {steps : List Path.Component} {parent : Location}
    (h : fs.walk last links here steps = .ok (.missing parent n)) :
    fs.at? (parent ++ [n]) = none := by
  fun_induction FileSystem.walk fs last links here steps with
  | case2 links here rest ih => exact ih h
  | case3 links here rest ih => exact ih h
  | case4 links here rest ih => exact ih h
  | case6 links here n' rest hn hnone =>
    cases h
    exact hnone
  | case8 links here n' rest hn hnode ih => exact ih h
  | case11 here n' rest hn target hnode hlast links ih => exact ih h
  | _ => cases h

/-- Where something else than a directory is found, there is none. -/
theorem at?_place_ne (h : fs.find cwd last p = .ok found)
    (hfound : ∀ loc, found ≠ .node loc .directory) : fs.at? found.place ≠ some .directory := by
  rw [find_eq_walk (fits_of_find h)] at h
  cases found with
  | missing parent n =>
    show fs.at? (parent ++ [n]) ≠ _
    rw [at?_of_walk_missing h]
    simp
  | node loc node =>
    have hnode : node ≠ .directory := fun heq => hfound loc (heq ▸ rfl)
    show fs.at? loc ≠ _
    rw [at?_of_walk h hnode]
    simpa using hnode

/-- The last name of a walk leads down to an entry, if it is no link. -/
theorem place_of_walk_last (htail : ∀ c ∈ tail, c = Path.Component.here)
    (hlink : NoLink fs (here ++ [n]) ∨ last = false ∧ tail = [])
    (h : fs.walk last links here (.name n :: tail) = .ok found) : found.place = here ++ [n] := by
  -- By what is at the name: nothing, a directory, a link, or what has nothing below it.
  by_cases hn : n.length ≤ nameLimit
  · rw [walk_name _ _ _ _ hn] at h
    cases hnode : fs.at? (here ++ [n]) with
    | none =>
      rw [hnode] at h
      dsimp only at h
      rw [if_pos (by simpa using htail)] at h
      cases h
      rfl
    | some node =>
      rw [hnode] at h
      cases node with
      | directory =>
        dsimp only at h
        rw [walk_here htail hnode] at h
        cases h
        rfl
      | link target =>
        rcases hlink with hlink | ⟨rfl, rfl⟩
        · exact absurd hnode (hlink target)
        · cases h
          rfl
      | file | pipe =>
        dsimp only at h
        split at h
        · cases h
          rfl
        · cases h
  · rw [walk, if_pos (by omega)] at h
    cases h

/-- Names at the end of a walk that meets no link lead down to the place that is
    found. -/
theorem place_of_walk (htail : ∀ c ∈ tail, c = Path.Component.here)
    (hlinks : ∀ ms, ms <+: ns → ms ≠ [] → NoLink fs (here ++ ms))
    (hlast : NoLink fs (here ++ ns ++ [n]) ∨ last = false ∧ tail = [])
    (h : fs.walk last links here (ns.map .name ++ .name n :: tail) = .ok found) :
    found.place = here ++ ns ++ [n] := by
  induction ns generalizing here with
  | nil =>
    rw [List.append_nil] at hlast ⊢
    exact place_of_walk_last htail hlast h
  | cons m ns ih =>
    have hassoc : here ++ m :: ns = here ++ [m] ++ ns := by simp
    by_cases hm : m.length ≤ nameLimit
    · rw [List.map_cons, List.cons_append, walk_name _ _ _ _ hm] at h
      cases hnode : fs.at? (here ++ [m]) with
      | none =>
        -- More names follow, so this one had to be there.
        rw [hnode] at h
        dsimp only at h
        rw [if_neg (by simp)] at h
        cases h
      | some node =>
        rw [hnode] at h
        cases node with
        | directory =>
          rw [hassoc] at hlast ⊢
          refine ih (fun ms hms hne => ?_) hlast h
          have hlink := hlinks (m :: ms) (List.cons_prefix_cons.2 ⟨rfl, hms⟩) (List.cons_ne_nil _ _)
          rwa [List.append_cons] at hlink
        | link target =>
          -- A link on the way would lead elsewhere.
          exact absurd hnode (hlinks [m] (List.prefix_append [m] ns) (List.cons_ne_nil _ _) target)
        | file | pipe =>
          dsimp only at h
          rw [if_neg (by simp)] at h
          cases h
    · rw [List.map_cons, List.cons_append, walk, if_pos (by omega)] at h
      cases h

/-- A path along names from the root is found at the last of them, if no link is met. -/
theorem place_of_find (hp : p.components = .root :: ns.map .name)
    (hlinks : ∀ ms, ms <+: ns → ms ≠ ns → NoLink fs ms)
    (hlast : NoLink fs ns ∨ last = false ∧ p.steps = p.components)
    (h : fs.find cwd last p = .ok found) : found.place = ns := by
  rw [find_eq_walk (fits_of_find h)] at h
  obtain ⟨tail, hsteps, htail⟩ := exists_steps_eq p
  rw [hsteps, hp, List.cons_append, walk] at h
  rcases List.eq_nil_or_concat ns with rfl | ⟨ms, n, rfl⟩
  · rw [List.map_nil, List.nil_append, walk_here htail (at?_root fs)] at h
    cases h
    rfl
  · rw [List.concat_eq_append] at *
    rw [List.map_append, List.append_assoc] at h
    show found.place = [] ++ ms ++ [n]
    refine place_of_walk htail (fun ms' hms' _ => ?_) ?_ h
    · refine hlinks ms' (hms'.trans (List.prefix_append ..)) fun heq => ?_
      have hle := hms'.length_le
      rw [heq, List.length_append, List.length_singleton] at hle
      omega
    · rcases hlast with hlast | ⟨hfalse, hends⟩
      · exact .inl hlast
      · rw [hends] at hsteps
        exact .inr ⟨hfalse, List.self_eq_append_right.1 hsteps⟩

/-! ## Section 3: Changes of files -/

theorem NoLink.put (h : NoLink fs loc) (hnode : node.isLink = false) (l : Location) :
    NoLink (fs.put l node) loc := by
  intro target htarget
  by_cases hl : loc = l
  · subst hl
    by_cases hroot : loc = []
    · rw [hroot, at?_root] at htarget
      cases htarget
    · rw [at?_put_self fs node hroot] at htarget
      cases htarget
      cases hnode
  · rw [at?_put_ne fs node hl] at htarget
    exact h target htarget

theorem NoLink.erase (h : NoLink fs loc) (l : Location) : NoLink (fs.erase l) loc :=
  fun target htarget => h target ((strips_erase fs l .directory).loses loc _ htarget)

/-- A write lands where the path leads, through a link at its end. -/
theorem exists_place_of_write {now : Instant} {content : Bytes}
    (h : fs.write cwd now p content = .ok fs') :
    ∃ found, fs.find cwd true p = .ok found ∧ fs.at? found.place ≠ some .directory ∧
      (fs' = fs ∨ ∃ mode, fs' = fs.put found.place (.file content now mode)) := by
  unfold write at h
  split at h
  · next hfind =>
    cases h
    exact ⟨_, hfind, at?_place_ne hfind (by simp), .inr ⟨_, rfl⟩⟩
  · next hfind =>
    cases h
    exact ⟨_, hfind, at?_place_ne hfind (by simp), .inl rfl⟩
  · cases h
  · next hfind =>
    split at h
    · cases h
    · cases h
      exact ⟨_, hfind, at?_place_ne hfind (by simp), .inr ⟨_, rfl⟩⟩
  · cases h

/-- A mode is set where the path leads, if that is a file. -/
theorem exists_place_of_setMode {mode : Nat} (h : fs.setMode cwd p mode = .ok fs') :
    fs' = fs ∨ ∃ found content modified, fs.find cwd true p = .ok found ∧
      fs.at? found.place ≠ some .directory ∧
        fs' = fs.put found.place (.file content modified mode) := by
  unfold setMode at h
  split at h
  · next hfound =>
    cases h
    have hfind := findNode_eq_ok.1 hfound
    exact .inr ⟨_, _, _, hfind, at?_place_ne hfind (by simp), rfl⟩
  · cases h
    exact .inl rfl
  · cases h

theorem exists_place_of_link {target : Path} (h : fs.link cwd target p = .ok fs') :
    ∃ found, fs.find cwd false p = .ok found ∧ fs.at? found.place ≠ some .directory ∧
      fs' = fs.put found.place (.link target) := by
  unfold link at h
  split at h
  · cases h
  · split at h
    · cases h
    · next hfind =>
      cases h
      exact ⟨_, hfind, at?_place_ne hfind (by simp), rfl⟩
    · cases h

theorem exists_place_of_removeFile (h : fs.removeFile cwd p = .ok fs') :
    ∃ found, fs.find cwd false p = .ok found ∧ fs.at? found.place ≠ some .directory ∧
      fs' = fs.erase found.place := by
  unfold removeFile at h
  split at h
  · cases h
  · next hdir hfound =>
    cases h
    have hfind := findNode_eq_ok.1 hfound
    exact ⟨_, hfind, at?_place_ne hfind fun l heq => hdir (Found.node.inj heq).2, rfl⟩
  · cases h

theorem exists_place_of_makeDirectory (h : fs.makeDirectory cwd p = .ok fs') :
    ∃ found, fs.find cwd false p = .ok found ∧ fs.at? found.place ≠ some .directory ∧
      fs' = fs.put found.place .directory := by
  unfold makeDirectory at h
  split at h
  · cases h
  · next hfind =>
    cases h
    exact ⟨_, hfind, at?_place_ne hfind (by simp), rfl⟩
  · cases h

theorem FoundOutside.write (hp : fs.FoundOutside cwd dir true p) {now : Instant} {content : Bytes}
    (h : fs.write cwd now p content = .ok fs') : SameBelow dir fs fs' := by
  obtain ⟨found, hfind, _, rfl | ⟨mode, rfl⟩⟩ := exists_place_of_write h
  · exact .refl dir fs'
  · exact sameBelow_put fs (hp found hfind) _

theorem FoundOutside.link (hp : fs.FoundOutside cwd dir false p) {target : Path}
    (h : fs.link cwd target p = .ok fs') : SameBelow dir fs fs' := by
  obtain ⟨found, hfind, _, rfl⟩ := exists_place_of_link h
  exact sameBelow_put fs (hp found hfind) _

theorem FoundOutside.removeFile (hp : fs.FoundOutside cwd dir false p)
    (h : fs.removeFile cwd p = .ok fs') : SameBelow dir fs fs' := by
  obtain ⟨found, hfind, _, rfl⟩ := exists_place_of_removeFile h
  exact sameBelow_erase fs (hp found hfind)

/-- Directories that are made one after the other keep what each of them keeps. -/
theorem keeps_makeDirectoriesWithin {P : FileSystem → Prop} {A : Path → Prop}
    (hparent : ∀ p q, A p → p.parent? = some q → A q)
    (hmake : ∀ fs p fs', A p → P fs → fs.makeDirectory cwd p = .ok fs' → P fs') {fuel : Nat}
    (hp : A p) (hfs : P fs) (h : fs.makeDirectoriesWithin cwd fuel p = .ok fs') : P fs' := by
  -- By induction on the number of parents: they are made before the directory itself.
  induction fuel generalizing p fs' with
  | zero => cases h
  | succ fuel ih =>
    rw [makeDirectoriesWithin] at h
    split at h
    · cases h
      exact hfs
    split at h
    · next hok =>
      cases h
      exact hmake fs p _ hp hfs hok
    · split at h
      · cases h
      · next parent hq =>
        split at h
        · next fs₁ hparents =>
          have hfs₁ := ih (hparent p parent hp hq) hparents
          unfold ensureDirectory at h
          split at h
          · next hok =>
            cases h
            exact hmake fs₁ p _ hp hfs₁ hok
          · split at h
            · cases h
              exact hfs₁
            · cases h
        · cases h
    · split at h
      · cases h
        exact hfs
      · cases h

/-- Directories made along names from the root, where no link is met, are not made at
    `dir` or below if the names do not lead there. -/
theorem sameBelow_makeDirectories (hp : p.components = .root :: ns.map .name)
    (hlinks : ∀ ms, ms <+: ns → NoLink fs ms) (hdir : ¬ dir <+: ns)
    (h : fs.makeDirectories cwd p = .ok fs') : SameBelow dir fs fs' := by
  -- What is made are the fronts of the names, and none of them becomes a link.
  refine (keeps_makeDirectoriesWithin
    (P := fun fs' => SameBelow dir fs fs' ∧ ∀ ms, ms <+: ns → NoLink fs' ms)
    (A := fun q => ∃ ms, ms <+: ns ∧ q.components = .root :: ms.map .name) ?_ ?_
    ⟨ns, List.prefix_refl _, hp⟩ ⟨.refl dir fs, hlinks⟩ h).1
  · rintro q q' ⟨ms, hms, hq⟩ hparent
    rcases List.eq_nil_or_concat ms with rfl | ⟨ms, n, rfl⟩
    · rw [Path.parent?_root hq] at hparent
      cases hparent
    · rw [List.concat_eq_append] at *
      have hlast : q.components = (.root :: ms.map .name) ++ [.name n] := by
        rw [hq]
        simp
      obtain ⟨q'', hq'', hcomponents, _⟩ := Path.parent?_eq hlast
      rw [hparent] at hq''
      cases hq''
      exact ⟨ms, (List.prefix_append ..).trans hms, hcomponents⟩
  · rintro fs₁ q fs₂ ⟨ms, hms, hq⟩ ⟨hsame, hlinks⟩ hmake
    obtain ⟨found, hfind, _, rfl⟩ := exists_place_of_makeDirectory hmake
    have hplace := place_of_find hq (fun ms' hms' _ => hlinks ms' (hms'.trans hms))
      (.inl (hlinks ms hms)) hfind
    rw [hplace]
    exact ⟨hsame.trans (sameBelow_put fs₁ (fun hfront => hdir (hfront.trans hms)) _),
      fun ms' hms' => (hlinks ms' hms').put rfl ms⟩

end FileSystem
end ScriptDeps
