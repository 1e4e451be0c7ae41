import Mathlib.Algebra.BigOperators.Group.List.Basic
import Mathlib.Algebra.GroupWithZero.Nat
import ScriptDeps.Proofs.FileSystem.Removal

/-! # Sizes of trees

    The size of the tree at a location is the sum over the nodes that it
    holds.  What a visit of the tree adds up is that sum (`diskUsage_eq`), and
    to take a tree away makes every tree around it smaller by its size
    (`bytesAt_without`). -/

namespace ScriptDeps
namespace FileSystem

variable {fs : FileSystem} {loc top : Location} {node : Node} {struck : List Location}

/-! ## Section 1: Model -/

/-- The total size of the regular files in the tree at a location. -/
def bytesAt (fs : FileSystem) (loc : Location) : Nat :=
  (fs.nodes.map fun e => if loc.isPrefixOf e.1 then e.2.size else 0).sum

/-- Where one of different things counts, a sum over them is its value. -/
theorem sum_map_single {α : Type} [DecidableEq α] {xs : List α} (hnodup : xs.Nodup) {x : α}
    (hx : x ∈ xs) {f : α → Nat} (hf : ∀ y ∈ xs, y ≠ x → f y = 0) : (xs.map f).sum = f x := by
  rw [List.sum_map_eq_nsmul_single x f fun y hne hy => hf y hy hne, hnodup.count, if_pos hx,
    one_nsmul]

theorem bytesAt_eq_zero (h : ∀ e ∈ fs.nodes, loc <+: e.1 → e.2.size = 0) : fs.bytesAt loc = 0 := by
  refine List.sum_eq_zero fun k hk => ?_
  obtain ⟨e, hmem, rfl⟩ := List.mem_map.1 hk
  split
  · next hfront => exact h e hmem (List.isPrefixOf_iff_prefix.1 hfront)
  · rfl

/-- The tree at a node that is no directory is that node. -/
theorem IsTree.bytesAt_leaf (h : fs.IsTree) (hne : loc ≠ []) (hnode : fs.at? loc = some node)
    (hleaf : node ≠ .directory) : fs.bytesAt loc = node.size := by
  have hmem := mem_nodes_of_at? hnode hne
  have hnodup : fs.nodes.Nodup := h.once.imp fun hdiff heq => hdiff (congrArg Prod.fst heq)
  unfold bytesAt
  rw [sum_map_single hnodup hmem, if_pos (List.isPrefixOf_iff_prefix.2 (List.prefix_refl _))]
  rintro ⟨l, other⟩ hl hother
  rw [if_neg]
  rw [List.isPrefixOf_iff_prefix]
  rintro ⟨names, rfl⟩
  have hthere := h.at?_of_mem hl
  by_cases hnames : names = []
  · subst hnames
    rw [List.append_nil] at hthere hother
    rw [hnode] at hthere
    exact hother (by rw [Option.some.inj hthere])
  · have hdir := directory_above h.wellFormed hnames (by rw [hthere]; rfl)
    rw [hnode] at hdir
    exact hleaf (Option.some.inj hdir)

/-! ## Section 2: A directory and its entries -/

/-- A node below a directory is in the tree of exactly one entry. -/
theorem IsTree.sum_entries (h : fs.IsTree) (hdir : fs.at? loc = some .directory)
    {e : Location × Node} (he : e ∈ fs.nodes) {ns : List Name}
    (hns : ns.Perm (fs.names loc)) :
    (ns.map fun n => if (loc ++ [n]).isPrefixOf e.1 then e.2.size else 0).sum =
      if loc.isPrefixOf e.1 then e.2.size else 0 := by
  obtain ⟨l, node⟩ := e
  by_cases hfront : loc <+: l
  · rw [if_pos (List.isPrefixOf_iff_prefix.2 hfront)]
    obtain ⟨names, rfl⟩ := hfront
    cases names with
    | nil =>
      -- The directory itself has no size, and is in the tree of no entry.
      have hsize : node.size = 0 := by
        rw [List.append_nil] at he
        have hthere := h.at?_of_mem he
        rw [hdir] at hthere
        rw [← Option.some.inj hthere]
        rfl
      dsimp only
      rw [hsize]
      simp
    | cons n names =>
      have hentry : n ∈ ns := by
        rw [hns.mem_iff, mem_names]
        have hthere := isSome_at?_of_mem he
        rw [List.append_cons] at hthere
        by_cases hnames : names = []
        · rwa [hnames, List.append_nil] at hthere
        · rw [directory_above h.wellFormed hnames hthere]
          rfl
      rw [sum_map_single (hns.nodup_iff.2 (h.nodup_names loc)) hentry]
      · rw [if_pos]
        rw [List.isPrefixOf_iff_prefix]
        exact ⟨names, List.append_assoc ..⟩
      · intro m _ hm
        rw [if_neg]
        rw [List.isPrefixOf_iff_prefix, List.prefix_append_right_inj, List.cons_prefix_cons]
        exact fun hmn => hm hmn.1
  · have hapart : ∀ n, ¬ (loc ++ [n]).isPrefixOf l = true := fun n hn =>
      hfront ((List.prefix_append ..).trans (List.isPrefixOf_iff_prefix.1 hn))
    rw [if_neg (mt List.isPrefixOf_iff_prefix.1 hfront)]
    simp [hapart]

/-- A directory has the size of its entries. -/
theorem IsTree.bytesAt_directory (h : fs.IsTree) (hdir : fs.at? loc = some .directory) :
    ((fs.sortedNames loc).map fun n => fs.bytesAt (loc ++ [n])).sum = fs.bytesAt loc := by
  -- The two sums are exchanged: node by node, over the entries whose tree holds the node.
  have hswap : ∀ (es : List (Location × Node)) (ns : List Name),
      (ns.map fun n => (es.map fun e =>
        if (loc ++ [n]).isPrefixOf e.1 then e.2.size else 0).sum).sum =
      (es.map fun e => (ns.map fun n =>
        if (loc ++ [n]).isPrefixOf e.1 then e.2.size else 0).sum).sum := by
    intro es ns
    induction es with
    | nil => simp
    | cons e es ih => simp only [List.map_cons, List.sum_cons, List.sum_map_add, ih]
  unfold bytesAt
  rw [hswap]
  exact congrArg List.sum (List.map_congr_left fun e he =>
    h.sum_entries hdir he (List.mergeSort_perm ..))

/-! ## Section 3: How deep the nodes are -/

theorem length_le_height {e : Location × Node} (he : e ∈ fs.nodes) :
    e.1.length ≤ fs.height := by
  have hmax : ∀ (ks : List Nat) (acc : Nat), acc ≤ ks.foldl max acc ∧
      ∀ k ∈ ks, k ≤ ks.foldl max acc := by
    intro ks
    induction ks with
    | nil => simp
    | cons k ks ih =>
      intro acc
      obtain ⟨hacc, hall⟩ := ih (max acc k)
      refine ⟨by rw [List.foldl_cons]; omega, fun j hj => ?_⟩
      rw [List.foldl_cons]
      rcases List.mem_cons.1 hj with rfl | hj
      · omega
      · exact hall j hj
  have hle := (hmax (fs.nodes.map fun e => e.1.length) 0).2 _ (List.mem_map_of_mem he)
  unfold height
  omega

/-- Below an entry there is one name less to come. -/
theorem length_le_below_entry {fuel : Nat}
    (hfuel : ∀ e ∈ fs.nodes, e.1.length ≤ loc.length + (fuel + 1)) (n : Name) :
    ∀ e ∈ fs.nodes, e.1.length ≤ (loc ++ [n]).length + fuel := by
  intro e he
  have hle := hfuel e he
  rw [List.length_append, List.length_singleton]
  omega

/-- Nothing is below a location that is as deep as any node. -/
theorem eq_nil_of_deepest (hdeepest : ∀ e ∈ fs.nodes, e.1.length ≤ loc.length) {more : List Name}
    (hthere : (fs.at? (loc ++ more)).isSome) : more = [] := by
  by_contra hmore
  obtain ⟨node, hnode⟩ := Option.isSome_iff_exists.1 hthere
  have hlong := hdeepest _ (mem_nodes_of_at? hnode (by simp [hmore]))
  have hpos := List.length_pos_iff.2 hmore
  rw [List.length_append] at hlong
  omega

/-! ## Section 4: Visits -/

theorem fileBytes_cons (p : Path) (node : Node) (depth : Nat) (vs : List Visit) :
    Visit.fileBytes (⟨p, node.kind, node.size, depth⟩ :: vs) = node.size + Visit.fileBytes vs := by
  unfold Visit.fileBytes
  rw [List.filter_cons]
  cases node with
  | file content modified mode => rfl
  | directory => simp [Node.kind, Node.size]
  | link target => simp [Node.kind, Node.size]
  | pipe content => simp [Node.kind, Node.size]

theorem fileBytes_flatMap {α : Type} (xs : List α) (f : α → List Visit) :
    Visit.fileBytes (xs.flatMap f) = (xs.map fun x => Visit.fileBytes (f x)).sum := by
  induction xs with
  | nil => rfl
  | cons x xs ih =>
    rw [List.flatMap_cons, List.map_cons, List.sum_cons, ← ih]
    unfold Visit.fileBytes
    rw [List.filter_append, List.map_append]
    exact List.sum_append

theorem IsTree.fileBytes_visitsBelow (h : fs.IsTree) (fuel depth : Nat) (path : Path)
    (hdir : fs.at? loc = some .directory)
    (hfuel : ∀ e ∈ fs.nodes, e.1.length ≤ loc.length + fuel) :
    Visit.fileBytes (fs.visitsBelow fuel depth path loc) = fs.bytesAt loc := by
  -- By induction on the fuel: the entries are one name deeper and need less of it.
  induction fuel generalizing depth path loc with
  | zero =>
    refine (bytesAt_eq_zero fun e he hfront => ?_).symm
    have heq := hfront.eq_of_length_le (hfuel e he)
    have hthere : fs.at? e.1 = some e.2 := h.at?_of_mem he
    rw [← heq, hdir] at hthere
    rw [← Option.some.inj hthere]
    rfl
  | succ fuel ih =>
    rw [visitsBelow, fileBytes_flatMap, ← h.bytesAt_directory hdir]
    refine congrArg List.sum (List.map_congr_left fun n hn => ?_)
    obtain ⟨node, hnode⟩ := Option.isSome_iff_exists.1 (mem_sortedNames.1 hn)
    have hne : loc ++ [n] ≠ [] := by simp
    rw [hnode]
    dsimp only
    rw [fileBytes_cons]
    by_cases hchild : node = .directory
    · subst hchild
      rw [← ih (depth + 1) (path.child n) hnode (length_le_below_entry hfuel n)]
      exact Nat.zero_add _
    · rw [h.bytesAt_leaf hne hnode hchild]
      cases node with
      | directory => exact absurd rfl hchild
      | _ => rfl

/-- The disk usage of a directory, or of a link to one, is the size of its
    tree. -/
theorem IsTree.diskUsage_eq (h : fs.IsTree) {cwd : Location} {p : Path} {loc' : Location}
    (hpath : fs.findNode cwd false p = .ok (loc', node)) (hsize : node.size = 0)
    (hfind : fs.findNode cwd true p = .ok (loc, .directory))
    (hdir : fs.at? loc = some .directory) : fs.diskUsage cwd p = fs.bytesAt loc := by
  unfold diskUsage visits
  rw [hpath, hfind]
  dsimp only
  rw [fileBytes_cons, hsize, Nat.zero_add]
  refine h.fileBytes_visitsBelow _ _ _ hdir fun e he => ?_
  have hle := length_le_height he
  omega

/-! ## Section 5: Taking trees away -/

/-- A tree that is taken away makes the tree around it smaller. -/
theorem bytesAt_without (fs : FileSystem) {l : Location} (hbelow : top <+: l) :
    fs.bytesAt top = (fs.without [l]).bytesAt top + fs.bytesAt l := by
  obtain ⟨nodes⟩ := fs
  unfold bytesAt without
  dsimp only
  induction nodes with
  | nil => rfl
  | cons e es ih =>
    rw [List.map_cons, List.map_cons, List.sum_cons, List.sum_cons, ih]
    by_cases hl : l.isPrefixOf e.1 = true
    · have htop := List.isPrefixOf_iff_prefix.2
        (hbelow.trans (List.isPrefixOf_iff_prefix.1 hl))
      rw [List.filter_cons_of_neg (by simp [isStruck, hl]), if_pos htop, if_pos hl]
      omega
    · rw [List.filter_cons_of_pos (by simp [isStruck, hl]), List.map_cons, List.sum_cons,
        if_neg hl]
      omega

/-- A tree keeps its size where nothing of it is taken away. -/
theorem bytesAt_without_of_apart (h : ∀ l, loc <+: l → isStruck struck l = false) :
    (fs.without struck).bytesAt loc = fs.bytesAt loc := by
  obtain ⟨nodes⟩ := fs
  unfold bytesAt without
  dsimp only
  induction nodes with
  | nil => rfl
  | cons e es ih =>
    rw [List.map_cons, List.sum_cons, ← ih]
    by_cases hstruck : isStruck struck e.1 = true
    · have hapart : ¬ loc.isPrefixOf e.1 = true := fun hfront => by
        rw [h e.1 (List.isPrefixOf_iff_prefix.1 hfront)] at hstruck
        cases hstruck
      rw [List.filter_cons_of_neg (by simp [hstruck]), if_neg hapart, Nat.zero_add]
    · rw [List.filter_cons_of_pos (by simpa using hstruck), List.map_cons, List.sum_cons]

end FileSystem
end ScriptDeps
