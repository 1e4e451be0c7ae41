import ScriptDeps.Proofs.FileSystem.Landing

/-! # Trees that stay trees

    A change that puts a node into a directory, or takes one away that is no
    directory itself, leaves a tree (`IsTree.put`, `IsTree.erase`).  What a walk
    from a directory finds missing is missing from a directory
    (`directory_of_walk_missing`), and so directories that are made where paths
    lead never stand on their own (`IsTreeFrom.makeDirectories`). -/

namespace ScriptDeps
namespace FileSystem

variable {fs fs' : FileSystem} {cwd here loc : Location} {p : Path} {last : Bool} {links : Nat}
  {n : Name} {node : Node}

/-! ## Section 1: One node more or less -/

theorem IsTree.erase (h : fs.IsTree) (hnode : fs.at? loc ≠ some .directory) :
    (fs.erase loc).IsTree := by
  rw [erase_eq_without h.wellFormed hnode]
  exact h.without [loc]

theorem IsTree.put (h : fs.IsTree) (hdir : fs.at? loc = some .directory)
    (hnode : fs.at? (loc ++ [n]) ≠ some .directory) (node : Node) :
    (fs.put (loc ++ [n]) node).IsTree := by
  have hkept : ∀ l, fs.at? l = some .directory →
      (fs.put (loc ++ [n]) node).at? l = some .directory := by
    intro l hl
    rw [at?_put_ne]
    · exact hl
    · rintro rfl
      exact hnode hl
  refine ⟨?_, ?_, ?_⟩
  · intro l m hthere
    apply hkept
    by_cases hlast : l ++ [m] = loc ++ [n]
    · -- The new node: its directory is there.
      rw [(List.append_inj' hlast rfl).1]
      exact hdir
    · rw [at?_put_ne fs node hlast] at hthere
      exact h.wellFormed l m hthere
  · intro e he
    rcases List.mem_cons.1 he with rfl | he
    · simp
    · exact h.proper e (List.mem_filter.1 he).1
  · refine List.pairwise_cons.2 ⟨fun e he => ?_, h.once.filter _⟩
    have hother := (List.mem_filter.1 he).2
    exact fun heq => absurd heq.symm (by simpa using hother)

/-! ## Section 2: Where something is missing -/

theorem WellFormed.dropLast (h : fs.WellFormed) (hdir : fs.at? here = some .directory) :
    fs.at? here.dropLast = some .directory := by
  by_cases hne : here = []
  · simp [hne]
  · refine h here.dropLast (here.getLast hne) ?_
    rw [List.dropLast_concat_getLast, hdir]
    rfl

theorem directory_of_walk_missing (hwf : fs.WellFormed) (hdir : fs.at? here = some .directory)
    {steps : List Path.Component} {parent : Location}
    (h : fs.walk last links here steps = .ok (.missing parent n)) :
    fs.at? parent = some .directory := by
  -- By induction on the walk: it goes from one directory to another.
  fun_induction FileSystem.walk fs last links here steps with
  | case2 links here rest ih => exact ih (at?_root fs) h
  | case3 links here rest ih => exact ih hdir h
  | case4 links here rest ih => exact ih (hwf.dropLast hdir) h
  | case6 links here n' rest hn hnone =>
    cases h
    exact hdir
  | case8 links here n' rest hn hnode ih => exact ih hnode h
  | case11 here n' rest hn target hnode hlast links ih => exact ih hdir h
  | _ => cases h

/-! ## Section 3: Making directories -/

/-- A tree in which `cwd` is a directory. -/
structure IsTreeFrom (fs : FileSystem) (cwd : Location) : Prop where
  isTree : fs.IsTree
  start  : fs.at? cwd = some .directory

theorem IsTreeFrom.makeDirectory (h : fs.IsTreeFrom cwd)
    (hmake : fs.makeDirectory cwd p = .ok fs') : fs'.IsTreeFrom cwd := by
  unfold FileSystem.makeDirectory at hmake
  split at hmake
  · cases hmake
  · next parent m hfind =>
    cases hmake
    rw [find_eq_walk (fits_of_find hfind)] at hfind
    have hmissing := at?_of_walk_missing hfind
    have hparent := directory_of_walk_missing h.isTree.wellFormed h.start hfind
    refine ⟨h.isTree.put hparent (by simp [hmissing]) _, ?_⟩
    rw [at?_put_ne]
    · exact h.start
    · rintro rfl
      simp [h.start] at hmissing
  · cases hmake

theorem IsTreeFrom.makeDirectories (h : fs.IsTreeFrom cwd)
    (hmake : fs.makeDirectories cwd p = .ok fs') : fs'.IsTreeFrom cwd :=
  keeps_makeDirectoriesWithin (P := (IsTreeFrom · cwd)) (A := fun _ => True)
    (fun _ _ _ _ => trivial) (fun _ _ _ _ hfs hone => hfs.makeDirectory hone) trivial h hmake

end FileSystem
end ScriptDeps
