import ScriptDeps.Proofs.FileSystem.Directories
import ScriptDeps.Store.Marker

/-! # Where a store is

    A store stands at `top` if its root leads there, and would do so if there
    were nothing below `top`: so whatever happens below `top`, the store stays
    where it is (`Stands.of_below`).  Before its first use the store is absent:
    some directory on the way to its root is missing, and the names from there
    on say where `top` will be.  Either way, making a directory below the root
    leaves a store that stands (`Located.makeDirectories`). -/

namespace ScriptDeps

namespace FileSystem

/-! ## Section 1: Below a location -/

/-- `loc` lies below `top`. -/
def IsBelow (top loc : Location) : Prop := top <+: loc ∧ loc ≠ top

instance (top loc : Location) : Decidable (IsBelow top loc) :=
  inferInstanceAs (Decidable (_ ∧ _))

/-- The file system without what lies below `top`. -/
def above (fs : FileSystem) (top : Location) : FileSystem :=
  ⟨fs.nodes.filter fun e => !decide (IsBelow top e.1)⟩

theorem at?_above (fs : FileSystem) (top loc : Location) :
    (fs.above top).at? loc = if IsBelow top loc then none else fs.at? loc := by
  by_cases hroot : loc = []
  · subst hroot
    have hnot : ¬ IsBelow top [] := fun h => h.2 (List.prefix_nil.1 h.1).symm
    rw [if_neg hnot, at?_root, at?_root]
  · have hf := lookup_filter fs.nodes (fun l => !decide (IsBelow top l)) loc
    simp only [at?, above, hroot, if_false, hf]
    by_cases hbelow : IsBelow top loc <;> simp [hbelow]

theorem above_eq_some {fs : FileSystem} {top loc : Location} {node : Node}
    (h : (fs.above top).at? loc = some node) : ¬ IsBelow top loc ∧ fs.at? loc = some node := by
  rw [at?_above] at h
  split at h
  · cases h
  · exact ⟨by assumption, h⟩

theorem keeps_above (fs : FileSystem) (top : Location) : Keeps (fs.above top) fs :=
  fun _ _ hnode _ => (above_eq_some hnode).2

/-- `fs'` differs from `fs` below `top` only. -/
def SameAbove (top : Location) (fs fs' : FileSystem) : Prop :=
  ∀ loc, ¬ IsBelow top loc → fs'.at? loc = fs.at? loc

theorem SameAbove.refl (top : Location) (fs : FileSystem) : SameAbove top fs fs :=
  fun _ _ => rfl

theorem isBelow_append (top : Location) {names : List Name} (h : names ≠ []) :
    IsBelow top (top ++ names) := by
  refine ⟨List.prefix_append .., ?_⟩
  intro heq
  exact h (List.append_right_eq_self.1 heq)

theorem sameAbove_erase (fs : FileSystem) (top : Location) {names : List Name} (h : names ≠ []) :
    SameAbove top fs (fs.erase (top ++ names)) := by
  intro loc hloc
  refine at?_erase_ne fs ?_
  rintro rfl
  exact hloc (isBelow_append top h)

end FileSystem

open FileSystem

namespace Store

variable {s : Store} {cwd top : Location} {fs fs' : FileSystem}

/-! ## Section 2: Model -/

/-- The root of the store leads to the directory `top`, whatever lies below
    it. -/
structure Stands (s : Store) (cwd top : Location) (fs : FileSystem) : Prop where
  there : fs.at? top = some .directory
  leads : (fs.above top).Leads cwd s.root top

/-- The root of the store is missing: its path leads to the directory `here`,
    which has no entry `n`, and goes on with names. -/
structure Absent (s : Store) (cwd top : Location) (fs : FileSystem) : Prop where
  wellFormed : fs.WellFormed
  way : ∃ pre links here n ns, Route fs linkLimit cwd pre links here ∧
    fs.at? (here ++ [n]) = none ∧ (∀ m ∈ n :: ns, m.length ≤ nameLimit) ∧
    s.root.components = pre ++ (n :: ns).map .name ∧ top = here ++ n :: ns

/-- The store is at `top`, or would be made there. -/
def Located (s : Store) (cwd top : Location) (fs : FileSystem) : Prop :=
  s.Absent cwd top fs ∨ s.Stands cwd top fs

/-! ## Section 3: A store that stands -/

theorem Stands.leads_root (h : s.Stands cwd top fs) : fs.Leads cwd s.root top :=
  h.leads.mono (keeps_above fs top)

/-- Nothing that happens below its root moves a store. -/
theorem Stands.of_below (h : s.Stands cwd top fs) (hsame : SameAbove top fs fs') :
    s.Stands cwd top fs' := by
  refine ⟨?_, h.leads.mono fun loc node hnode _ => ?_⟩
  · rw [hsame top fun hbelow => hbelow.2 rfl]
    exact h.there
  · obtain ⟨hbelow, hnode⟩ := above_eq_some hnode
    rw [at?_above, if_neg hbelow, hsame loc hbelow, hnode]

/-- A store that stands goes on doing so when nodes are added. -/
theorem Stands.of_kept (h : s.Stands cwd top fs)
    (hkept : ∀ loc node, fs.at? loc = some node → fs'.at? loc = some node) :
    s.Stands cwd top fs' := by
  refine ⟨hkept top _ h.there, h.leads.mono fun loc node hnode _ => ?_⟩
  obtain ⟨hbelow, hnode⟩ := above_eq_some hnode
  rw [at?_above, if_neg hbelow]
  exact hkept loc node hnode

/-! ## Section 4: A store that is absent -/

/-- Nothing lies below a location that is not there. -/
theorem at?_eq_none_of_wellFormed (hwf : fs.WellFormed) {loc : Location}
    (hnone : fs.at? loc = none) (names : List Name) : fs.at? (loc ++ names) = none := by
  induction names generalizing loc with
  | nil => rwa [List.append_nil]
  | cons n names ih =>
    rw [List.append_cons]
    refine ih ?_
    cases hnode : fs.at? (loc ++ [n]) with
    | none => rfl
    | some node =>
      have hdir := hwf loc n (by rw [hnode]; rfl)
      rw [hnone] at hdir
      cases hdir

theorem clearAlong_of_none (hwf : fs.WellFormed) {here : Location} {n : Name}
    (hnone : fs.at? (here ++ [n]) = none) (ns : List Name) : ClearAlong fs here (n :: ns) := by
  refine ⟨.inl hnone, ?_⟩
  generalize here ++ [n] = loc at hnone
  induction ns generalizing loc with
  | nil => trivial
  | cons m ns ih =>
    have hm := at?_eq_none_of_wellFormed hwf hnone [m]
    exact ⟨.inl hm, ih _ hm⟩

/-- An absent store has nothing below its root. -/
theorem Absent.at?_eq_none (h : s.Absent cwd top fs) (names : List Name) :
    fs.at? (top ++ names) = none := by
  obtain ⟨pre, links, here, n, ns, _, hnone, _, _, rfl⟩ := h.way
  rw [List.append_cons, List.append_assoc]
  exact at?_eq_none_of_wellFormed h.wellFormed hnone (ns ++ names)

/-! ## Section 5: Making directories -/

/-- The directories that lead to `top` do not lie below it. -/
theorem directoriesAlong_above {here : Location} {ns : List Name}
    (h : DirectoriesAlong fs here ns) : DirectoriesAlong (fs.above (here ++ ns)) here ns := by
  induction ns generalizing here with
  | nil => trivial
  | cons n ns ih =>
    have hrest := ih h.2
    rw [List.append_assoc] at hrest
    refine ⟨?_, hrest⟩
    rw [at?_above, if_neg]
    · exact h.1
    · intro hbelow
      refine hbelow.2 (hbelow.1.eq_of_length_le ?_).symm
      simp

/-- Directories below the root are made along with the root, if they can be
    made at all, and nothing else changes. -/
theorem Located.makeDirectories (h : s.Located cwd top fs) {q : Path} {names : List Name}
    (hq : q.components = s.root.components ++ names.map .name) (hfits : q.Fits)
    (hshort : ∀ m ∈ names, m.length ≤ nameLimit) (hne : names ≠ [])
    (hclear : s.Stands cwd top fs → ClearAlong fs top names) :
    ∃ fs', fs.makeDirectories cwd q = .ok fs' ∧ s.Stands cwd top fs' ∧
      MadeAlong fs fs' top names := by
  rcases h with h | h
  · -- The root is missing, and is made along with the directories below it.
    have hnothing := h.at?_eq_none
    obtain ⟨pre, links, here, n, ns, hroute, hnone, hnames, hroot, rfl⟩ := h.way
    have hclear := clearAlong_of_none h.wellFormed hnone (ns ++ names)
    have hcomponents : q.components = pre ++ ((n :: ns) ++ names).map .name := by
      rw [hq, hroot, List.map_append, List.append_assoc]
    obtain ⟨fs', hmake, hmade⟩ := makeDirectories_along hroute hfits hcomponents
      (fun m hm => (List.mem_append.1 hm).elim (hnames m) (hshort m)) hclear (by simp)
    obtain ⟨halong, hbelow⟩ := directoriesAlong_append.1 hmade.along
    -- Nothing was below the root, so the way to it is kept without what is there now.
    have hkeeps : Keeps fs (fs'.above (here ++ n :: ns)) := by
      intro loc node hnode _
      rw [at?_above, if_neg]
      · exact hmade.kept loc node hnode
      · rintro ⟨⟨rest, rfl⟩, _⟩
        rw [hnothing rest] at hnode
        cases hnode
    refine ⟨fs', hmake, ⟨halong.at?_append (by simp), links, ?_⟩, hbelow, ?_, hmade.kept⟩
    · rw [hroot]
      exact (hroute.mono hkeeps).append (route_names links hnames (directoriesAlong_above halong))
    · intro loc hloc
      refine hmade.other loc ?_
      rwa [← List.append_assoc]
  · obtain ⟨links, hroute⟩ := h.leads_root
    obtain ⟨fs', hmake, hmade⟩ := makeDirectories_along hroute hfits hq hshort (hclear h) hne
    exact ⟨fs', hmake, h.of_kept hmade.kept, hmade⟩

end Store
end ScriptDeps
