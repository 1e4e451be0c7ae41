import ScriptDeps.FileSystem.Tree
import ScriptDeps.Proofs.FileSystem.Route
import ScriptDeps.Proofs.Text.Cut

/-! # Taking trees away

    A file system loses the trees at some locations and keeps everything else
    (`at?_without`).  To take trees away one after the other, in any order and
    some of them twice, is to take them away at once (`without_without`,
    `without_congr`).  What is left in a directory is listed in the order in
    which it was listed before (`sortedNames_without`). -/

namespace ScriptDeps
namespace FileSystem

variable {fs : FileSystem} {loc other : Location} {node : Node} {n : Name}
  {struck struck' : List Location}

/-! ## Section 1: Trees -/

/-- Each location but the root has one node, and every directory on the way
    to a node is there. -/
structure IsTree (fs : FileSystem) : Prop where
  wellFormed : fs.WellFormed
  proper     : ∀ e ∈ fs.nodes, e.1 ≠ []
  once       : fs.nodes.Pairwise fun e f => e.1 ≠ f.1

theorem mem_nodes_of_at? (h : fs.at? loc = some node) (hne : loc ≠ []) :
    (loc, node) ∈ fs.nodes := by
  rw [at?, if_neg hne] at h
  obtain ⟨front, back, hnodes, _⟩ := List.lookup_eq_some_iff.1 h
  rw [hnodes]
  exact List.mem_append_right _ (List.mem_cons_self ..)

theorem isSome_at?_of_mem (h : (loc, node) ∈ fs.nodes) : (fs.at? loc).isSome := by
  unfold at?
  split
  · rfl
  · exact List.lookup_isSome_iff.2 ⟨_, h, beq_self_eq_true loc⟩

theorem IsTree.at?_of_mem (h : fs.IsTree) (hmem : (loc, node) ∈ fs.nodes) :
    fs.at? loc = some node := by
  obtain ⟨front, back, hnodes⟩ := List.append_of_mem hmem
  have honce := h.once
  rw [hnodes] at honce
  rw [at?, if_neg (h.proper _ hmem)]
  refine List.lookup_eq_some_iff.2 ⟨front, back, hnodes, fun e he => ?_⟩
  have hdiff := (List.pairwise_append.1 honce).2.2 e he (loc, node) (List.mem_cons_self ..)
  simpa using Ne.symm hdiff

/-- A node is only below directories. -/
theorem directory_above (h : fs.WellFormed) {ns : List Name} (hne : ns ≠ [])
    (hthere : (fs.at? (loc ++ ns)).isSome) : fs.at? loc = some .directory := by
  induction ns generalizing loc with
  | nil => exact absurd rfl hne
  | cons n ns ih =>
    by_cases hns : ns = []
    · rw [hns] at hthere
      exact h loc n hthere
    · -- The entry on the way is a directory itself, so it is there.
      rw [List.append_cons] at hthere
      exact h loc n (by rw [ih hns hthere]; rfl)

/-- A list of nodes can be checked to be a tree. -/
theorem isTree_of_nodes
    (habove : ∀ e ∈ fs.nodes, e.1 ≠ [] ∧ fs.at? e.1.dropLast = some .directory)
    (honce : fs.nodes.Pairwise fun e f => e.1 ≠ f.1) : fs.IsTree := by
  refine ⟨fun loc n hthere => ?_, fun e he => (habove e he).1, honce⟩
  obtain ⟨node, hnode⟩ := Option.isSome_iff_exists.1 hthere
  have hdir := (habove _ (mem_nodes_of_at? hnode (by simp))).2
  rwa [List.dropLast_concat] at hdir

/-! ## Section 2: Names in a directory -/

/-- The name of the entry of `loc` at a location, if that is one. -/
def entryName? (loc l : Location) : Option Name :=
  match Cut.after? loc l with
  | some [n] => some n
  | _ => none

theorem names_eq (fs : FileSystem) (loc : Location) :
    fs.names loc = fs.nodes.filterMap fun e => entryName? loc e.1 := rfl

theorem entryName?_eq_some {l : Location} : entryName? loc l = some n ↔ l = loc ++ [n] := by
  unfold entryName?
  constructor
  · intro h
    split at h
    · next m hafter =>
      cases h
      exact Cut.eq_append_of_after? hafter
    · cases h
  · rintro rfl
    rw [Cut.after?_append]

theorem mem_names : n ∈ fs.names loc ↔ (fs.at? (loc ++ [n])).isSome := by
  rw [names_eq, List.mem_filterMap]
  constructor
  · rintro ⟨⟨l, node⟩, hmem, hname⟩
    obtain rfl := entryName?_eq_some.1 hname
    exact isSome_at?_of_mem hmem
  · intro h
    obtain ⟨node, hnode⟩ := Option.isSome_iff_exists.1 h
    exact ⟨_, mem_nodes_of_at? hnode (by simp), entryName?_eq_some.2 rfl⟩

theorem IsTree.nodup_names (h : fs.IsTree) (loc : Location) : (fs.names loc).Nodup := by
  refine h.once.filterMap _ fun e f hdiff n hn m hm hnm => hdiff ?_
  rw [entryName?_eq_some.1 hn, entryName?_eq_some.1 hm, hnm]

/-- The names in a directory, in the order of a listing. -/
def sortedNames (fs : FileSystem) (loc : Location) : List Name :=
  (fs.names loc).mergeSort nameLe

theorem mem_sortedNames : n ∈ fs.sortedNames loc ↔ (fs.at? (loc ++ [n])).isSome := by
  rw [sortedNames, List.mem_mergeSort, mem_names]

theorem IsTree.nodup_sortedNames (h : fs.IsTree) (loc : Location) :
    (fs.sortedNames loc).Nodup :=
  (List.mergeSort_perm ..).nodup_iff.2 (h.nodup_names loc)

theorem sortedNames_eq_nil (h : fs.WellFormed) (hnone : fs.at? loc ≠ some .directory) :
    fs.sortedNames loc = [] := by
  rw [List.eq_nil_iff_forall_not_mem]
  intro n hn
  exact hnone (h _ _ (mem_sortedNames.1 hn))

theorem nameLe_iff {a b : Name} : nameLe a b = true ↔ a ≤ b := by
  unfold nameLe
  rw [Bool.not_eq_true', ← Bool.not_eq_true, List.lex_eq_true_iff_lt, List.not_lt]

theorem pairwise_sortedNames (fs : FileSystem) (loc : Location) :
    (fs.sortedNames loc).Pairwise (· ≤ ·) := by
  have htrans : ∀ a b c, nameLe a b = true → nameLe b c = true → nameLe a c = true :=
    fun a b c hab hbc => nameLe_iff.2 (List.le_trans (nameLe_iff.1 hab) (nameLe_iff.1 hbc))
  have htotal : ∀ a b, (nameLe a b || nameLe b a) = true := fun a b => by
    simpa [nameLe_iff] using List.le_total a b
  exact (List.pairwise_mergeSort htrans htotal (fs.names loc)).imp nameLe_iff.1

theorem IsTree.pairwise_lt_sortedNames (h : fs.IsTree) (loc : Location) :
    (fs.sortedNames loc).Pairwise (· < ·) := by
  apply ((pairwise_sortedNames fs loc).and (h.nodup_sortedNames loc)).imp
  intro a b ⟨hle, hne⟩
  rcases List.le_iff_lt_or_eq.1 hle with hlt | heq
  · exact hlt
  · exact absurd heq hne

/-! ## Section 3: Taking trees away -/

/-- Whether one of the trees at `struck` holds the location. -/
def isStruck (struck : List Location) (loc : Location) : Bool :=
  struck.any (·.isPrefixOf loc)

/-- The file system without the trees at `struck`. -/
def without (fs : FileSystem) (struck : List Location) : FileSystem :=
  ⟨fs.nodes.filter fun e => !isStruck struck e.1⟩

theorem isStruck_iff : isStruck struck loc = true ↔ ∃ l ∈ struck, l <+: loc := by
  simp [isStruck]

theorem isStruck_append (struck struck' : List Location) (loc : Location) :
    isStruck (struck ++ struck') loc = (isStruck struck loc || isStruck struck' loc) :=
  List.any_append

theorem at?_without (hne : loc ≠ []) :
    (fs.without struck).at? loc = if isStruck struck loc then none else fs.at? loc := by
  have hf := lookup_filter fs.nodes (fun l => !isStruck struck l) loc
  simp only [at?, without, hf, hne, if_false]
  cases isStruck struck loc <;> rfl

/-- What is not struck stays. -/
theorem at?_without_of_not (h : isStruck struck loc = false) :
    (fs.without struck).at? loc = fs.at? loc := by
  by_cases hne : loc = []
  · rw [hne, at?_root, at?_root]
  · rw [at?_without hne, h]
    rfl

/-- What is there afterwards was there before and is not struck. -/
theorem at?_without_eq_some (hne : loc ≠ []) :
    (fs.without struck).at? loc = some node ↔
      isStruck struck loc = false ∧ fs.at? loc = some node := by
  rw [at?_without hne]
  cases isStruck struck loc <;> simp

@[simp] theorem without_nil (fs : FileSystem) : fs.without [] = fs := by
  exact congrArg FileSystem.mk (List.filter_eq_self.2 fun _ _ => rfl)

theorem without_without (fs : FileSystem) (struck struck' : List Location) :
    (fs.without struck).without struck' = fs.without (struck ++ struck') := by
  unfold without
  rw [List.filter_filter]
  refine congrArg FileSystem.mk (List.filter_congr fun e _ => ?_)
  rw [isStruck_append, Bool.not_or, Bool.and_comm]

/-- Only which trees are taken away counts. -/
theorem without_congr (h : ∀ l, l ∈ struck ↔ l ∈ struck') :
    fs.without struck = fs.without struck' := by
  unfold without
  refine congrArg FileSystem.mk (List.filter_congr fun e _ => ?_)
  rw [Bool.not_inj_iff, Bool.eq_iff_iff, isStruck_iff, isStruck_iff]
  simp only [h]

/-- Where nothing is, nothing is taken away. -/
theorem without_eq_self (h : fs.WellFormed) (hnone : ∀ l ∈ struck, fs.at? l = none) :
    fs.without struck = fs := by
  unfold without
  rw [List.filter_eq_self.2]
  rintro ⟨l, node⟩ hmem
  rw [Bool.not_eq_true', ← Bool.not_eq_true, isStruck_iff]
  rintro ⟨top, htop, names, rfl⟩
  have hnode := isSome_at?_of_mem hmem
  have hnothing := hnone top htop
  by_cases hnames : names = []
  · rw [hnames, List.append_nil, hnothing] at hnode
    cases hnode
  · rw [directory_above h hnames hnode] at hnothing
    cases hnothing

theorem IsTree.without (h : fs.IsTree) (struck : List Location) : (fs.without struck).IsTree := by
  refine ⟨fun loc n hthere => ?_, fun e he => h.proper e (List.mem_filter.1 he).1,
    h.once.filter _⟩
  have hne : loc ++ [n] ≠ [] := by simp
  obtain ⟨node, hnode⟩ := Option.isSome_iff_exists.1 hthere
  obtain ⟨hstruck, hnode⟩ := (at?_without_eq_some hne).1 hnode
  rw [at?_without_of_not, h.wellFormed loc n (by rw [hnode]; rfl)]
  -- A tree that holds the directory would hold the entry.
  rw [← Bool.not_eq_true, isStruck_iff] at hstruck ⊢
  rintro ⟨l, hl, hfront⟩
  exact hstruck ⟨l, hl, hfront.trans (List.prefix_append ..)⟩

theorem names_without (fs : FileSystem) (struck : List Location) (loc : Location) :
    (fs.without struck).names loc =
      (fs.names loc).filter fun n => !isStruck struck (loc ++ [n]) := by
  rw [names_eq, names_eq, without, List.filterMap_filter, List.filter_filterMap]
  congr 1
  funext e
  cases hname : entryName? loc e.1 with
  | none => split <;> rfl
  | some n =>
    rw [entryName?_eq_some.1 hname, Option.filter_some]

theorem sortedNames_without (fs : FileSystem) (struck : List Location) (loc : Location) :
    (fs.without struck).sortedNames loc =
      (fs.sortedNames loc).filter fun n => !isStruck struck (loc ++ [n]) := by
  -- Both are sorted, and have the same names.
  refine List.Perm.eq_of_pairwise (fun a b _ _ hab hba => List.le_antisymm hab hba)
    (pairwise_sortedNames _ _) ((pairwise_sortedNames fs loc).filter _) ?_
  refine (List.mergeSort_perm ..).trans ?_
  rw [names_without]
  exact ((List.mergeSort_perm ..).filter _).symm

/-! ## Section 4: Removing as taking away -/

theorem eraseTree_eq_without (fs : FileSystem) (loc : Location) :
    fs.eraseTree loc = fs.without [loc] := by
  unfold eraseTree without isStruck
  simp

/-- Nothing is below a node that is no directory. -/
theorem erase_eq_without (h : fs.WellFormed) (hnode : fs.at? loc ≠ some .directory) :
    fs.erase loc = fs.without [loc] := by
  unfold erase without
  refine congrArg FileSystem.mk (List.filter_congr fun e hmem => ?_)
  rw [Bool.eq_iff_iff]
  simp only [isStruck, List.any_cons, List.any_nil, Bool.or_false, Bool.not_eq_true',
    bne_iff_ne, ne_eq, ← Bool.not_eq_true, List.isPrefixOf_iff_prefix]
  constructor
  · rintro hne ⟨names, hnames⟩
    have hbelow : names ≠ [] := by
      rintro rfl
      exact hne (by rw [← hnames, List.append_nil])
    refine hnode (directory_above h hbelow ?_)
    rw [hnames]
    exact isSome_at?_of_mem hmem
  · rintro hfront rfl
    exact hfront (List.prefix_refl _)

theorem removeTree_eq_without {cwd : Location} {p : Path}
    (h : fs.findNode cwd false p = .ok (loc, .directory)) :
    fs.removeTree cwd p = .ok (fs.without [loc]) := by
  rw [removeTree, h, ← eraseTree_eq_without]

theorem removeFile_eq_without (hwf : fs.WellFormed) {cwd : Location} {p : Path} {node : Node}
    (h : fs.findNode cwd false p = .ok (loc, node)) (hnode : node ≠ .directory) :
    fs.removeFile cwd p = .ok (fs.without [loc]) := by
  have hat := at?_of_findNode h hnode
  have hne : fs.at? loc ≠ some .directory := fun hdir => hnode (Option.some.inj (hat ▸ hdir))
  rw [removeFile, h, ← erase_eq_without hwf hne]
  cases node with
  | directory => exact absurd rfl hnode
  | _ => rfl

end FileSystem
end ScriptDeps
