import ScriptDeps.Proofs.FileSystem.Directories
import ScriptDeps.Proofs.FileSystem.Removal

/-! # Files that lose nodes

    Files that have only lost nodes lead nowhere else than before: a path that
    still leads somewhere leads to the same place (`Loses.leads`).  To remove
    something is to lose the node that is found there, and what lies below it
    if that is a directory; a link that is found is lost itself (`Strips`). -/

namespace ScriptDeps
namespace FileSystem

variable {fs fs' fs'' : FileSystem} {cwd loc loc' : Location} {p : Path} {n : Name} {node : Node}
  {last : Bool}

/-! ## Section 1: Model -/

/-- `fs'` is `fs` without some of its nodes. -/
def Loses (fs fs' : FileSystem) : Prop :=
  ∀ loc node, fs'.at? loc = some node → fs.at? loc = some node

/-- `fs'` is `fs` without the node at `loc`, or without some of what is there
    and below if the node is a directory. -/
structure Strips (fs : FileSystem) (loc : Location) (node : Node) (fs' : FileSystem) : Prop where
  loses  : Loses fs fs'
  within : ∀ l, fs'.at? l ≠ fs.at? l → l = loc ∨ node = .directory ∧ loc <+: l

theorem Loses.refl (fs : FileSystem) : Loses fs fs := fun _ _ h => h

theorem Loses.trans (h : Loses fs fs') (h' : Loses fs' fs'') : Loses fs fs'' :=
  fun loc node hnode => h loc node (h' loc node hnode)

theorem Loses.keeps (h : Loses fs fs') : Keeps fs' fs := fun loc node hnode _ => h loc node hnode

/-! ## Section 2: Where paths lead -/

theorem findNode_eq_ok :
    fs.findNode cwd last p = .ok (loc, node) ↔ fs.find cwd last p = .ok (.node loc node) := by
  unfold findNode
  constructor
  · intro h
    split at h
    · next hfind =>
      cases h
      exact hfind
    · cases h
    · cases h
  · intro h
    rw [h]

theorem Leads.unique (h : Leads fs cwd p loc) (h' : Leads fs cwd p loc') : loc = loc' := by
  obtain ⟨_, hroute⟩ := h
  obtain ⟨_, hroute'⟩ := h'
  exact (hroute.unique hroute').2

theorem Route.eq_of_here {links links' : Nat} {here : Location} {tail : List Path.Component}
    (h : Route fs links here tail links' loc) (htail : ∀ c ∈ tail, c = Path.Component.here) :
    here = loc := by
  induction h with
  | nil => rfl
  | here h ih => exact ih fun c hc => htail c (List.mem_cons_of_mem _ hc)
  | root _ h => exact absurd (htail _ (List.mem_cons_self ..)) (by simp)
  | up h => exact absurd (htail _ (List.mem_cons_self ..)) (by simp)
  | enter hn hnode h => exact absurd (htail _ (List.mem_cons_self ..)) (by simp)
  | follow hn hnode h => exact absurd (htail _ (List.mem_cons_self ..)) (by simp)

/-- A path at which a directory is found leads there. -/
theorem leads_of_findNode (h : fs.findNode cwd last p = .ok (loc, .directory)) :
    Leads fs cwd p loc := by
  have hfind := findNode_eq_ok.1 h
  obtain ⟨tail, hsteps, htail⟩ := exists_steps_eq p
  rw [find_eq_walk (fits_of_find hfind), hsteps] at hfind
  obtain ⟨links, hroute⟩ := exists_route_of_walk_directory hfind
  -- The dots at the end lead no further.
  obtain ⟨links', loc', hfirst, hrest⟩ := hroute.split
  obtain rfl := hrest.eq_of_here htail
  exact ⟨links', hfirst⟩

/-- An entry that is no link leads below its directory, or nowhere. -/
theorem Leads.of_child (h : Leads fs cwd p loc) (hn : Path.IsPlainName n)
    (hlink : NoLink fs (loc ++ [n])) (hchild : Leads fs cwd (p.child n) loc') :
    loc' = loc ++ [n] := by
  obtain ⟨links, hroute⟩ := h
  obtain ⟨links', hroute'⟩ := hchild
  rw [Path.components_child p hn] at hroute'
  obtain ⟨_, here, hfirst, hlast⟩ := hroute'.split
  obtain ⟨_, rfl⟩ := hroute.unique hfirst
  cases hlast with
  | enter _ _ hnil =>
    cases hnil
    rfl
  | follow _ hnode => exact absurd hnode (hlink _)

/-- A path that still leads somewhere leads where it has led before. -/
theorem Loses.leads (h : Loses fs fs') (hbefore : Leads fs cwd p loc)
    (hafter : Leads fs' cwd p loc') : loc' = loc :=
  (hafter.mono h.keeps).unique hbefore

/-- Where a directory was found, nothing else is found afterwards. -/
theorem Loses.findNode_directory (h : Loses fs fs')
    (hbefore : fs.findNode cwd last p = .ok (loc, .directory))
    (hafter : fs'.findNode cwd last p = .ok (loc', node)) : loc' = loc ∧ node = .directory := by
  by_cases hnode : node = .directory
  · rw [hnode] at hafter
    exact ⟨h.leads (leads_of_findNode hbefore) (leads_of_findNode hafter), hnode⟩
  · have hsame := findNode_of_kept h hafter hnode
    rw [hbefore] at hsame
    exact absurd (congrArg Prod.snd (Except.ok.inj hsame)).symm hnode

/-- What is found at a path that ends with a name is an entry of where the path
    before it leads. -/
theorem exists_of_findNode_child (hn : Path.IsPlainName n)
    (h : fs.findNode cwd false (p.child n) = .ok (loc, node)) :
    ∃ dir, Leads fs cwd p dir ∧ loc = dir ++ [n] ∧ fs.at? loc = some node := by
  have hfind := findNode_eq_ok.1 h
  obtain ⟨dir, hleads⟩ := exists_leads_of_find hn hfind
  rw [findNode_child hleads (isEntryName_of_find hn hfind) (fits_of_find hfind) false (by simp)]
    at h
  cases hnode : fs.at? (dir ++ [n]) with
  | none =>
    rw [hnode] at h
    cases h
  | some there =>
    rw [hnode] at h
    cases h
    exact ⟨dir, hleads, rfl, hnode⟩

/-! ## Section 3: Removing -/

theorem strips_erase (fs : FileSystem) (loc : Location) (node : Node) :
    Strips fs loc node (fs.erase loc) := by
  refine ⟨fun l n hnode => ?_, fun l hdiff => .inl ?_⟩
  · by_cases hl : l = loc
    · by_cases hroot : l = []
      · rw [hroot, at?_root] at hnode ⊢
        exact hnode
      · rw [hl, at?_erase_self fs (hl ▸ hroot)] at hnode
        cases hnode
    · rwa [at?_erase_ne fs hl] at hnode
  · exact Decidable.byContradiction fun hl => hdiff (at?_erase_ne fs hl)

/-- Trees are lost below a directory. -/
theorem strips_without {struck : List Location} (hbelow : ∀ l ∈ struck, loc <+: l) :
    Strips fs loc .directory (fs.without struck) := by
  refine ⟨fun l n hnode => ?_, fun l hdiff => .inr ⟨rfl, ?_⟩⟩
  · by_cases hroot : l = []
    · rw [hroot, at?_root] at hnode ⊢
      exact hnode
    · exact ((at?_without_eq_some hroot).1 hnode).2
  · cases hstruck : isStruck struck l with
    | false => exact absurd (at?_without_of_not hstruck) hdiff
    | true =>
      obtain ⟨l', hl', hfront⟩ := isStruck_iff.1 hstruck
      exact (hbelow l' hl').trans hfront

theorem exists_strips_of_removeFile (h : fs.removeFile cwd p = .ok fs') :
    ∃ loc node, fs.findNode cwd false p = .ok (loc, node) ∧ Strips fs loc node fs' := by
  unfold removeFile at h
  split at h
  · cases h
  · next loc node _ hfound =>
    cases h
    exact ⟨loc, node, hfound, strips_erase fs loc node⟩
  · cases h

theorem exists_strips_of_removeTree (h : fs.removeTree cwd p = .ok fs') :
    ∃ loc node, fs.findNode cwd false p = .ok (loc, node) ∧ Strips fs loc node fs' := by
  unfold removeTree at h
  split at h
  · next loc hfound =>
    cases h
    refine ⟨loc, .directory, hfound, ?_⟩
    rw [eraseTree_eq_without]
    exact strips_without fun l hl => List.mem_singleton.1 hl ▸ List.prefix_refl _
  · next loc target hfound =>
    cases h
    exact ⟨loc, .link target, hfound, strips_erase fs loc _⟩
  · cases h
  · cases h

end FileSystem
end ScriptDeps
