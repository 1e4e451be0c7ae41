import Mathlib.Data.List.Nodup
import ScriptDeps.Proofs.FileSystem.Losing
import ScriptDeps.Proofs.FileSystem.Size
import ScriptDeps.Proofs.Invocation.Slices
import ScriptDeps.Proofs.Prepare.Resolve
import ScriptDeps.Proofs.Text.Trim
import ScriptDeps.Toolchain.Scripted

/-! # The headers that are found

    A listing of the artifacts is gone through once, and parts of it are
    skipped on the way.  `found` is the same search over the tree itself: a node
    that stands for headers is not entered, and if it is no directory, the later
    entries of its directory are passed over.  Directory by directory this gives
    which nodes are found (`mem_found`) and their order, which is that of their
    names (`pairwise_found`). -/

namespace ScriptDeps

open FileSystem

namespace Invocation

/-! ## Section 1: Model -/

section Search

variable (fs : FileSystem) (top : Location) (place : List Name → Prop) [DecidablePred place]

/-- The nodes found among the entries `ns` of the directory at `names`, where `inner`
    searches the directories that are entered. -/
def foundAmong (inner : List Name → List (List Name)) (names : List Name) :
    List Name → List (List Name)
  | [] => []
  | n :: ns =>
      let isDirectory := fs.at? (top ++ (names ++ [n])) = some .directory
      if place (names ++ [n]) then
        (names ++ [n]) :: if isDirectory then foundAmong inner names ns else []
      else (if isDirectory then inner (names ++ [n]) else []) ++ foundAmong inner names ns

/-- The nodes found in the directory at `names` below `top`; `fuel` bounds the depth. -/
def found : Nat → List Name → List (List Name)
  | 0, _ => []
  | fuel + 1, names =>
      foundAmong fs top place (found fuel) names (fs.sortedNames (top ++ names))

/-- A node in a place for headers that is no directory. -/
def Blocks (names : List Name) : Prop :=
  place names ∧ ∃ node, fs.at? (top ++ names) = some node ∧ node ≠ .directory

/-- Below `names`, the node at `more` is found: it is the first on its way in a place for
    headers, and no entry before one of its way blocks that. -/
structure FoundBelow (names more : List Name) : Prop where
  there     : (fs.at? (top ++ (names ++ more))).isSome
  isPlace   : place (names ++ more)
  first     : ∀ front rest, more = front ++ rest → front ≠ [] → rest ≠ [] → ¬ place (names ++ front)
  unblocked : ∀ front n m rest, more = front ++ m :: rest → n < m →
    ¬ Blocks fs top place (names ++ front ++ [n])

end Search

variable {fs : FileSystem} {top : Location} {place : List Name → Prop} [DecidablePred place]
  {fuel depth : Nat} {names ns : List Name} {tail : List Visit}

/-! ## Section 2: A listing and the tree -/

/-- What a listing shows of one entry. -/
def entryVisits (fs : FileSystem) (fuel depth : Nat) (path : Path) (loc : Location) (n : Name) :
    List Visit :=
  match fs.at? (loc ++ [n]) with
  | none => []
  | some node =>
      ⟨path.child n, node.kind, node.size, depth⟩ ::
        if node.isDirectory then fs.visitsBelow fuel (depth + 1) (path.child n) (loc ++ [n]) else []

theorem visitsBelow_succ (fs : FileSystem) (fuel depth : Nat) (path : Path) (loc : Location) :
    fs.visitsBelow (fuel + 1) depth path loc =
      (fs.sortedNames loc).flatMap (entryVisits fs fuel depth path loc) := rfl

/-- All entries of a directory are at least as deep as the directory says. -/
theorem depth_le_of_mem_entries {path : Path} {loc : Location} {v : Visit}
    (hinner : ∀ path loc, ∀ w ∈ fs.visitsBelow fuel (depth + 1) path loc, depth + 1 ≤ w.depth)
    (hv : v ∈ ns.flatMap (entryVisits fs fuel depth path loc)) : depth ≤ v.depth := by
  obtain ⟨n, -, hv⟩ := List.mem_flatMap.1 hv
  unfold entryVisits at hv
  cases hnode : fs.at? (loc ++ [n]) with
  | none =>
    rw [hnode] at hv
    cases hv
  | some node =>
    rw [hnode] at hv
    rcases List.mem_cons.1 hv with rfl | hv
    · exact Nat.le_refl _
    · split at hv
      · exact Nat.le_of_succ_le (hinner _ _ v hv)
      · cases hv

theorem depth_le_of_mem {path : Path} {loc : Location} {v : Visit}
    (hv : v ∈ fs.visitsBelow fuel depth path loc) : depth ≤ v.depth := by
  induction fuel generalizing depth path loc v with
  | zero => cases hv
  | succ fuel ih =>
    rw [visitsBelow_succ] at hv
    exact depth_le_of_mem_entries (fun _ _ _ hw => ih hw) hv

/-- The entries of a directory begin at its depth. -/
theorem head_depth_lt {path : Path} {loc : Location}
    (hns : ∀ n ∈ ns, (fs.at? (loc ++ [n])).isSome) (htail : ∀ w ∈ tail.head?, w.depth < depth) :
    ∀ w ∈ (ns.flatMap (entryVisits fs fuel depth path loc) ++ tail).head?,
      w.depth < depth + 1 := by
  intro w hw
  cases ns with
  | nil => exact Nat.lt_succ_of_lt (htail w hw)
  | cons n ns =>
    obtain ⟨node, hnode⟩ := Option.isSome_iff_exists.1 (hns n List.mem_cons_self)
    rw [List.flatMap_cons, entryVisits, hnode] at hw
    cases hw
    exact Nat.lt_succ_self _

/-- A run of deeper nodes is what is skipped. -/
theorem skipFrom_append {v : Visit} {run rest : List Visit} {floor : Nat}
    (hfloor : floor = if v.kind = .directory then v.depth + 1 else v.depth)
    (hrun : ∀ w ∈ run, floor ≤ w.depth) (hrest : ∀ w ∈ rest.head?, w.depth < floor) :
    v.skipFrom (run ++ rest) = rest := by
  unfold Visit.skipFrom
  rw [← hfloor]
  apply Cut.dropWhile_run
  · intro w hw
    simpa using hrun w hw
  · intro w hw
    simpa using hrest w hw

theorem kind_eq_directory_iff {node : Node} :
    (node.kind = .directory ↔ node = .directory) ∧
      (node.isDirectory = true ↔ node = .directory) := by
  cases node <;> simp [Node.kind, Node.isDirectory]

@[simp] theorem headerPaths_nil : headerPaths [] = [] := by
  rw [headerPaths]

/-- Among the entries of one directory, the listing and the tree are searched alike, if
    they are in the directories that are entered. -/
theorem headerPaths_entries {p : Path} {f : List Name → Path}
    (hplace : ∀ ns, (fs.at? (top ++ ns)).isSome →
      (place ns → headersOf? (p.below ns) = some (f ns)) ∧
        (¬ place ns → headersOf? (p.below ns) = none))
    (hinner : ∀ names tail, (∀ w ∈ tail.head?, w.depth < depth + 1) →
      headerPaths (fs.visitsBelow fuel (depth + 1) (p.below names) (top ++ names) ++ tail) =
        (found fs top place fuel names).map f ++ headerPaths tail)
    (hns : ∀ n ∈ ns, (fs.at? (top ++ (names ++ [n]))).isSome)
    (htail : ∀ w ∈ tail.head?, w.depth < depth) :
    headerPaths (ns.flatMap (entryVisits fs fuel depth (p.below names) (top ++ names)) ++ tail) =
      (foundAmong fs top place (found fs top place fuel) names ns).map f ++ headerPaths tail := by
  induction ns with
  | nil => rfl
  | cons n ns ih =>
    have hlater : ∀ m ∈ ns, (fs.at? (top ++ (names ++ [m]))).isSome :=
      fun m hm => hns m (List.mem_cons_of_mem _ hm)
    have hthere := hns n List.mem_cons_self
    obtain ⟨hhit, hother⟩ := hplace (names ++ [n]) hthere
    obtain ⟨node, hnode⟩ := Option.isSome_iff_exists.1 hthere
    -- What comes after the entry and after all below it.
    have hstops : ∀ w ∈ (ns.flatMap (entryVisits fs fuel depth (p.below names) (top ++ names)) ++
        tail).head?, w.depth < depth + 1 := by
      apply head_depth_lt _ htail
      simpa using hlater
    have hentry : entryVisits fs fuel depth (p.below names) (top ++ names) n =
        ⟨p.below (names ++ [n]), node.kind, node.size, depth⟩ ::
          if node = .directory then
            fs.visitsBelow fuel (depth + 1) (p.below (names ++ [n])) (top ++ (names ++ [n]))
          else [] := by
      rw [← List.append_assoc] at hnode
      rw [entryVisits, hnode, Path.below_concat, List.append_assoc]
      simp [kind_eq_directory_iff]
    rw [List.flatMap_cons, hentry, List.append_assoc, List.cons_append, headerPaths, foundAmong,
      hnode]
    dsimp only
    by_cases hname : place (names ++ [n])
    · rw [hhit hname, if_pos hname]
      dsimp only
      by_cases hdir : node = .directory
      · -- What is below the directory is skipped.
        rw [if_pos hdir, if_pos (congrArg some hdir), skipFrom_append _
          (fun w hw => depth_le_of_mem hw) hstops, ih hlater]
        · rfl
        · rw [if_pos (kind_eq_directory_iff.1.2 hdir)]
      · -- The other entries of the directory are skipped.
        rw [if_neg hdir, if_neg (mt Option.some.inj hdir), List.nil_append, skipFrom_append _
          (fun w hw => depth_le_of_mem_entries (fun _ _ _ hv => depth_le_of_mem hv) hw) htail]
        · rfl
        · rw [if_neg (mt kind_eq_directory_iff.1.1 hdir)]
    · rw [hother hname, if_neg hname]
      dsimp only
      rw [List.map_append, List.append_assoc, ← ih hlater]
      by_cases hdir : node = .directory
      · rw [if_pos hdir, if_pos (congrArg some hdir), hinner _ _ hstops]
      · rw [if_neg hdir, if_neg (mt Option.some.inj hdir), List.map_nil, List.nil_append,
          List.nil_append]

/-- A listing below `names` and the tree are searched alike. -/
theorem headerPaths_visitsBelow {p : Path} {f : List Name → Path}
    (hplace : ∀ ns, (fs.at? (top ++ ns)).isSome →
      (place ns → headersOf? (p.below ns) = some (f ns)) ∧
        (¬ place ns → headersOf? (p.below ns) = none))
    (htail : ∀ w ∈ tail.head?, w.depth < depth) :
    headerPaths (fs.visitsBelow fuel depth (p.below names) (top ++ names) ++ tail) =
      (found fs top place fuel names).map f ++ headerPaths tail := by
  induction fuel generalizing depth names tail with
  | zero => rfl
  | succ fuel ih =>
    rw [visitsBelow_succ]
    apply headerPaths_entries hplace (fun _ _ hstops => ih hstops) _ htail
    intro n hn
    simpa using mem_sortedNames.1 hn

/-! ## Section 3: Which nodes are found -/

omit [DecidablePred place] in
theorem not_blocks_iff (hthere : (fs.at? (top ++ names)).isSome) :
    ¬ Blocks fs top place names ↔ (place names → fs.at? (top ++ names) = some .directory) := by
  obtain ⟨node, hnode⟩ := Option.isSome_iff_exists.1 hthere
  unfold Blocks
  rw [hnode]
  simp

omit [DecidablePred place] in
/-- Of entries in order, the first is blocked by none, and blocks all the others or none. -/
theorem exists_unblocked_cons_iff {n : Name} {P : Name → Prop} (hfirst : ∀ m ∈ ns, n < m) :
    (∃ k ∈ n :: ns, (∀ m ∈ n :: ns, m < k → ¬ Blocks fs top place (names ++ [m])) ∧ P k) ↔
      P n ∨ ¬ Blocks fs top place (names ++ [n]) ∧
        ∃ k ∈ ns, (∀ m ∈ ns, m < k → ¬ Blocks fs top place (names ++ [m])) ∧ P k := by
  constructor
  · rintro ⟨k, hk, hfree, hP⟩
    rcases List.mem_cons.1 hk with rfl | hk
    · exact .inl hP
    · exact .inr ⟨hfree n List.mem_cons_self (hfirst k hk), k, hk,
        fun m hm => hfree m (List.mem_cons_of_mem _ hm), hP⟩
  · rintro (hP | ⟨hn, k, hk, hfree, hP⟩)
    · refine ⟨n, List.mem_cons_self, fun m hm hlt => ?_, hP⟩
      rcases List.mem_cons.1 hm with rfl | hm
      · exact absurd hlt (List.lt_irrefl _)
      · exact absurd hlt (List.lt_asymm (hfirst m hm))
    · refine ⟨k, List.mem_cons_of_mem _ hk, fun m hm hlt => ?_, hP⟩
      rcases List.mem_cons.1 hm with rfl | hm
      · exact hn
      · exact hfree m hm hlt

omit [DecidablePred place] in
/-- What blocks an entry of a directory is an entry as well. -/
theorem unblocked_among_iff {n : Name} :
    (∀ m ∈ fs.sortedNames (top ++ names), m < n → ¬ Blocks fs top place (names ++ [m])) ↔
      ∀ m, m < n → ¬ Blocks fs top place (names ++ [m]) := by
  refine ⟨fun hall m hlt hblocks => ?_, fun hall m _ hlt => hall m hlt⟩
  have hm : m ∈ fs.sortedNames (top ++ names) := by
    obtain ⟨-, node, hnode, -⟩ := hblocks
    rw [← List.append_assoc] at hnode
    rw [mem_sortedNames, hnode]
    rfl
  exact hall m hm hlt hblocks

/-- Among entries in order, what is found at one of them or below it counts if none
    before it blocks it. -/
theorem mem_foundAmong {inner : List Name → List (List Name)} {x : List Name}
    (hsorted : ns.Pairwise (· < ·)) (hns : ∀ n ∈ ns, (fs.at? (top ++ (names ++ [n]))).isSome) :
    x ∈ foundAmong fs top place inner names ns ↔
      ∃ n ∈ ns, (∀ m ∈ ns, m < n → ¬ Blocks fs top place (names ++ [m])) ∧
        (place (names ++ [n]) ∧ x = names ++ [n] ∨
          ¬ place (names ++ [n]) ∧ fs.at? (top ++ (names ++ [n])) = some .directory ∧
            x ∈ inner (names ++ [n])) := by
  induction ns with
  | nil => simp [foundAmong]
  | cons n ns ih =>
    obtain ⟨hfirst, hlater⟩ := List.pairwise_cons.1 hsorted
    have ih := ih hlater fun m hm => hns m (List.mem_cons_of_mem _ hm)
    have hblocks : ¬ Blocks fs top place (names ++ [n]) ↔
        (place (names ++ [n]) → fs.at? (top ++ (names ++ [n])) = some .directory) :=
      not_blocks_iff (hns n List.mem_cons_self)
    rw [exists_unblocked_cons_iff hfirst, hblocks, ← ih, foundAmong]
    by_cases hname : place (names ++ [n])
    · by_cases hdir : fs.at? (top ++ (names ++ [n])) = some .directory
      · simp [hname, hdir]
      · simp [hname, hdir]
    · by_cases hdir : fs.at? (top ++ (names ++ [n])) = some .directory
      · simp [hname, hdir]
      · simp [hname, hdir]

omit [DecidablePred place] in
theorem foundBelow_singleton_iff {n : Name} :
    FoundBelow fs top place names [n] ↔
      (fs.at? (top ++ (names ++ [n]))).isSome ∧ place (names ++ [n]) ∧
        ∀ m, m < n → ¬ Blocks fs top place (names ++ [m]) := by
  constructor
  · rintro ⟨hthere, hplace, -, hfree⟩
    refine ⟨hthere, hplace, fun m hlt => ?_⟩
    have hnot := hfree [] m n [] rfl hlt
    simpa using hnot
  · rintro ⟨hthere, hplace, hbefore⟩
    refine ⟨hthere, hplace, ?_, ?_⟩
    · intro front rest hsplit hfront hrest
      rcases List.cons_eq_append_iff.1 hsplit with ⟨rfl, -⟩ | ⟨later, -, hnil⟩
      · exact absurd rfl hfront
      · exact absurd (List.append_eq_nil_iff.1 hnil.symm).2 hrest
    · intro front a b rest hsplit hlt
      rcases List.cons_eq_append_iff.1 hsplit with ⟨rfl, hsame⟩ | ⟨later, -, hnil⟩
      · obtain ⟨rfl, -⟩ := List.cons.inj hsame
        simpa using hbefore a hlt
      · exact absurd (List.append_eq_nil_iff.1 hnil.symm).2 (List.cons_ne_nil _ _)

omit [DecidablePred place] in
/-- A node one name deeper is found below the entry with that name. -/
theorem foundBelow_cons_iff {n : Name} {more : List Name} (hmore : more ≠ []) :
    FoundBelow fs top place names (n :: more) ↔
      FoundBelow fs top place (names ++ [n]) more ∧ ¬ place (names ++ [n]) ∧
        ∀ m, m < n → ¬ Blocks fs top place (names ++ [m]) := by
  constructor
  · rintro ⟨hthere, hplace, hfirst, hfree⟩
    refine ⟨⟨by simpa using hthere, by simpa using hplace, ?_, ?_⟩, ?_, ?_⟩
    · intro front rest hsplit hfront hrest
      have hnot := hfirst (n :: front) rest (by rw [hsplit]; rfl) (by simp) hrest
      simpa using hnot
    · intro front a b rest hsplit hlt
      have hnot := hfree (n :: front) a b rest (by rw [hsplit]; rfl) hlt
      simpa using hnot
    · exact hfirst [n] more rfl (by simp) hmore
    · intro m hlt
      have hnot := hfree [] m n more rfl hlt
      simpa using hnot
  · rintro ⟨⟨hthere, hplace, hfirst, hfree⟩, hn, hbefore⟩
    refine ⟨by simpa using hthere, by simpa using hplace, ?_, ?_⟩
    · intro front rest hsplit hfront hrest
      rcases List.cons_eq_append_iff.1 hsplit with ⟨rfl, -⟩ | ⟨later, rfl, hmore'⟩
      · exact absurd rfl hfront
      · by_cases hlater : later = []
        · rw [hlater]
          exact hn
        · have hnot := hfirst later rest hmore' hlater hrest
          simpa using hnot
    · intro front a b rest hsplit hlt
      rcases List.cons_eq_append_iff.1 hsplit with ⟨rfl, hmore'⟩ | ⟨later, rfl, hmore'⟩
      · obtain ⟨rfl, -⟩ := List.cons.inj hmore'
        simpa using hbefore a hlt
      · have hnot := hfree later a b rest hmore' hlt
        simpa using hnot

/-- The search finds just what is to be found in each directory. -/
theorem mem_found (h : fs.IsTree)
    (hfuel : ∀ e ∈ fs.nodes, e.1.length ≤ (top ++ names).length + fuel) {x : List Name} :
    x ∈ found fs top place fuel names ↔
      ∃ more, more ≠ [] ∧ x = names ++ more ∧ FoundBelow fs top place names more := by
  induction fuel generalizing names with
  | zero =>
    constructor
    · nofun
    · rintro ⟨more, hmore, -, hfound⟩
      have hthere := hfound.there
      rw [← List.append_assoc] at hthere
      exact absurd (eq_nil_of_deepest hfuel hthere) hmore
  | succ fuel ih =>
    have hentries : ∀ n ∈ fs.sortedNames (top ++ names),
        (fs.at? (top ++ (names ++ [n]))).isSome := by
      intro n hn
      simpa using mem_sortedNames.1 hn
    have hdeeper : ∀ n, ∀ e ∈ fs.nodes, e.1.length ≤ (top ++ (names ++ [n])).length + fuel := by
      intro n
      rw [← List.append_assoc]
      exact length_le_below_entry hfuel n
    rw [found, mem_foundAmong (h.pairwise_lt_sortedNames _) hentries]
    simp only [unblocked_among_iff, ih (hdeeper _)]
    constructor
    · rintro ⟨n, hn, hbefore, ⟨hname, rfl⟩ | ⟨hname, -, more, hmore, rfl, hfound⟩⟩
      · exact ⟨[n], by simp, rfl, foundBelow_singleton_iff.2 ⟨hentries n hn, hname, hbefore⟩⟩
      · exact ⟨n :: more, by simp, by simp,
          (foundBelow_cons_iff hmore).2 ⟨hfound, hname, hbefore⟩⟩
    · rintro ⟨more, hmore, rfl, hfound⟩
      obtain ⟨n, rest, rfl⟩ := List.exists_cons_of_ne_nil hmore
      by_cases hrest : rest = []
      · subst hrest
        obtain ⟨hthere, hname, hbefore⟩ := foundBelow_singleton_iff.1 hfound
        refine ⟨n, mem_sortedNames.2 (by simpa using hthere), hbefore, .inl ⟨hname, rfl⟩⟩
      · obtain ⟨hlater, hname, hbefore⟩ := (foundBelow_cons_iff hrest).1 hfound
        have hdir : fs.at? (top ++ (names ++ [n])) = some .directory := by
          apply directory_above h.wellFormed hrest
          simpa using hlater.there
        refine ⟨n, mem_sortedNames.2 (by simpa using hdir ▸ rfl), hbefore, .inr ⟨hname, hdir, rest,
          hrest, by simp, hlater⟩⟩

/-! ## Section 4: In which order -/

/-- What is found among some entries is at one of them or below it. -/
theorem exists_of_mem_foundAmong {inner : List Name → List (List Name)} {x : List Name}
    (hinner : ∀ names, ∀ x ∈ inner names, names <+: x)
    (hx : x ∈ foundAmong fs top place inner names ns) :
    ∃ n ∈ ns, ∃ more, x = names ++ n :: more := by
  induction ns with
  | nil => cases hx
  | cons n ns ih =>
    have hlater : x ∈ foundAmong fs top place inner names ns →
        ∃ m ∈ n :: ns, ∃ more, x = names ++ m :: more := by
      intro hx
      obtain ⟨m, hm, hmore⟩ := ih hx
      exact ⟨m, List.mem_cons_of_mem _ hm, hmore⟩
    rw [foundAmong] at hx
    split at hx
    · rcases List.mem_cons.1 hx with rfl | hx
      · exact ⟨n, List.mem_cons_self, [], rfl⟩
      · split at hx
        · exact hlater hx
        · cases hx
    · rcases List.mem_append.1 hx with hx | hx
      · split at hx
        · obtain ⟨more, rfl⟩ := hinner _ x hx
          exact ⟨n, List.mem_cons_self, more, by simp⟩
        · cases hx
      · exact hlater hx

theorem prefix_of_mem_found {x : List Name} (hx : x ∈ found fs top place fuel names) :
    names <+: x := by
  induction fuel generalizing names x with
  | zero => cases hx
  | succ fuel ih =>
    obtain ⟨n, -, more, rfl⟩ := exists_of_mem_foundAmong (fun _ _ hx => ih hx) hx
    exact List.prefix_append _ _

/-- The order of the entries is that of what is found at them and below. -/
theorem pairwise_foundAmong {inner : List Name → List (List Name)}
    (hbelow : ∀ names, ∀ x ∈ inner names, names <+: x)
    (hinner : ∀ names, (inner names).Pairwise (· < ·)) (hsorted : ns.Pairwise (· < ·)) :
    (foundAmong fs top place inner names ns).Pairwise (· < ·) := by
  induction ns with
  | nil => exact .nil
  | cons n ns ih =>
    obtain ⟨hfirst, hlater⟩ := List.pairwise_cons.1 hsorted
    have hbefore : ∀ more, ∀ y ∈ foundAmong fs top place inner names ns,
        names ++ n :: more < y := by
      intro more y hy
      obtain ⟨m, hm, more', rfl⟩ := exists_of_mem_foundAmong hbelow hy
      exact List.append_left_lt (List.cons_lt_cons_iff.2 (.inl (hfirst m hm)))
    rw [foundAmong]
    split
    · split
      · exact List.pairwise_cons.2 ⟨hbefore [], ih hlater⟩
      · exact List.pairwise_singleton _ _
    · split
      · refine List.pairwise_append.2 ⟨hinner _, ih hlater, fun x hx y hy => ?_⟩
        obtain ⟨more, rfl⟩ := hbelow _ x hx
        simpa using hbefore more y hy
      · exact ih hlater

theorem pairwise_found (h : fs.IsTree) : (found fs top place fuel names).Pairwise (· < ·) := by
  induction fuel generalizing names with
  | zero => exact .nil
  | succ fuel ih =>
    exact pairwise_foundAmong (fun _ _ hx => prefix_of_mem_found hx) (fun _ => ih)
      (h.pairwise_lt_sortedNames _)

/-! ## Section 5: Results -/

/-- The node at `ns` below `top` stands for headers and does not lie in another one that
    does. -/
structure IsOutermost (fs : FileSystem) (top : Location) (ns : List Name) : Prop where
  there   : (fs.at? (top ++ ns)).isSome
  isPlace : IsHeaderPlace ns
  first   : ∀ front, front <+: ns → front ≠ ns → ¬ IsHeaderPlace front

/-- On the way to `ns` there is a node that comes, in its directory, after one for headers
    that is no directory. -/
def IsPassedOver (fs : FileSystem) (top : Location) (ns : List Name) : Prop :=
  ∃ front n m rest, ns = front ++ m :: rest ∧ n < m ∧
    Blocks fs top IsHeaderPlace (front ++ [n])

/-- The argument for the headers at `ns` below the artifacts of `dir`. -/
def headersArg (dir : Path) (ns : List Name) : Text :=
  "-I".toList ++ ((artifacts dir).below ns).display ++
    if ∃ n ∈ ns.getLast?, IsFrameworkName n then "/Headers".toList else []

/-- The names below `top` are ones that entries of a directory can have. -/
def HasPlainNames (fs : FileSystem) (top : Location) : Prop :=
  ∀ ns, (fs.at? (top ++ ns)).isSome → ∀ n ∈ ns, Path.IsPlainName n

theorem three_le_length_of_isHeaderPlace {ns : List Name} (h : IsHeaderPlace ns) :
    3 ≤ ns.length := by
  obtain ⟨above, bundle, slice, n, rfl, -⟩ := h
  simp

theorem foundBelow_root_iff {ns : List Name} :
    (∃ more, more ≠ [] ∧ ns = [] ++ more ∧ FoundBelow fs top IsHeaderPlace [] more) ↔
      IsOutermost fs top ns ∧ ¬ IsPassedOver fs top ns := by
  -- Headers are at least three names down, so the top is none of the places to leave out.
  constructor
  · rintro ⟨more, hmore, rfl, hthere, hplace, hfirst, hfree⟩
    refine ⟨⟨hthere, hplace, ?_⟩, ?_⟩
    · rintro front ⟨rest, hsplit⟩ hne hfront
      have hnil : front ≠ [] := by
        rintro rfl
        exact absurd (three_le_length_of_isHeaderPlace hfront) (by simp)
      have hrest : rest ≠ [] := by
        rintro rfl
        exact hne (by simpa using hsplit)
      exact hfirst front rest hsplit.symm hnil hrest hfront
    · rintro ⟨front, n, m, rest, hsplit, hlt, hblocks⟩
      exact hfree front n m rest hsplit hlt hblocks
  · rintro ⟨⟨hthere, hplace, hfirst⟩, hfree⟩
    have hne : ns ≠ [] := by
      rintro rfl
      exact absurd (three_le_length_of_isHeaderPlace hplace) (by simp)
    refine ⟨ns, hne, rfl, hthere, hplace, ?_, ?_⟩
    · rintro front rest rfl - hrest
      apply hfirst front (List.prefix_append _ _)
      simpa using hrest
    · intro front n m rest hsplit hlt hblocks
      exact hfree ⟨front, n, m, rest, hsplit, hlt, hblocks⟩

/-- How the headers are written as an argument. -/
theorem includeArg_headersAt (dir : Path) {ns : List Name} (hns : ∀ n ∈ ns, Path.IsPlainName n) :
    includeArg (headersAt (artifacts dir) ns) = headersArg dir ns := by
  have hbytes : ((artifacts dir).below ns).bytes ≠ [] ∧
      ((artifacts dir).below ns).bytes.getLast? ≠ some Path.slash := by
    obtain ⟨q, k, hk, hentry⟩ := Path.exists_child_below _ isPlainName_artifactsName hns
    rw [artifacts, hentry]
    exact Path.written_child q hk
  unfold includeArg headersAt headersArg
  split
  · have hheaders : Path.slash :: Utf8.encode "Headers".toList =
        Utf8.encode "/Headers".toList := rfl
    have hdisplay : (((artifacts dir).below ns).child (Utf8.encode "Headers".toList)).display =
        ((artifacts dir).below ns).display ++ "/Headers".toList := by
      rw [Path.display, Path.bytes_child hbytes (by decide), Utf8.decodeLossy_append (by decide),
        hheaders, Utf8.decodeLossy_encode, Path.display]
    rw [hdisplay]
    simp
  · simp

/-- The artifacts themselves stand for no headers. -/
theorem headerPaths_artifacts (dir : Path) (v : Visit) (rest : List Visit)
    (hv : v.path = artifacts dir) : headerPaths (v :: rest) = headerPaths rest := by
  have hroot : headersOf? ((artifacts dir).below []) = none := by
    refine (headersOf?_below dir (by simp)).2 fun hplace => ?_
    exact absurd (three_le_length_of_isHeaderPlace hplace) (by simp)
  have hnone : headersOf? v.path = none := by
    rw [hv]
    exact hroot
  rw [headerPaths, hnone]

/-- A directory can be looked at without following a link at its end, too. -/
theorem exists_findNode_of_directory {cwd : Location} {p : Path} {n : Name}
    (hn : Path.IsPlainName n) (h : fs.findNode cwd true (p.child n) = .ok (top, .directory)) :
    ∃ loc node, fs.findNode cwd false (p.child n) = .ok (loc, node) := by
  have hfind := findNode_eq_ok.1 h
  have hentry := isEntryName_of_find hn hfind
  have hfits := fits_of_find hfind
  obtain ⟨loc, hleads⟩ := exists_leads_of_find hn hfind
  rw [findNode_child hleads hentry hfits false (by simp)]
  cases hnode : fs.at? (loc ++ [n]) with
  | none =>
    -- Nothing would be found by following links either.
    rw [findNode_child hleads hentry hfits true (by simp [hnode]), hnode] at h
    cases h
  | some node => exact ⟨_, _, rfl⟩

/-- A listing of a directory has the directory first. -/
theorem exists_visits_of_directory {cwd : Location} {p : Path} {n : Name} (hn : Path.IsPlainName n)
    (h : fs.findNode cwd true (p.child n) = .ok (top, .directory)) :
    ∃ v : Visit, v.path = p.child n ∧
      fs.visits cwd (p.child n) = v :: fs.visitsBelow fs.height 1 (p.child n) top := by
  obtain ⟨loc, node, hroot⟩ := exists_findNode_of_directory hn h
  refine ⟨⟨p.child n, node.kind, node.size, 0⟩, rfl, ?_⟩
  rw [visits, hroot, h]

/-- A listing from where no directory is has that node at most. -/
theorem visits_of_no_directory {cwd : Location} {p : Path}
    (h : ∀ top, fs.findNode cwd true p ≠ .ok (top, .directory)) :
    fs.visits cwd p = [] ∨ ∃ v : Visit, v.path = p ∧ fs.visits cwd p = [v] := by
  unfold visits
  cases hroot : fs.findNode cwd false p with
  | error e => exact .inl rfl
  | ok x =>
    refine .inr ⟨⟨p, x.2.kind, x.2.size, 0⟩, rfl, ?_⟩
    dsimp only
    split
    · next top htop => exact absurd htop (h top)
    · rfl

/-- A listing from where nothing is has nothing. -/
theorem visits_of_missing_child {cwd loc : Location} {p : Path} {n : Name}
    (hleads : fs.Leads cwd p loc) (hn : Path.IsEntryName n) (hnone : fs.at? (loc ++ [n]) = none) :
    fs.visits cwd (p.child n) = [] := by
  unfold visits
  by_cases hfits : (p.child n).Fits
  · rw [findNode_child hleads hn hfits false nofun, hnone]
  · obtain ⟨e, he⟩ := find_of_not_fits hfits
    unfold findNode
    rw [he]

/-- What is found in a listing of the artifacts is what is found in their tree. -/
theorem headerPaths_visits (hplain : HasPlainNames fs top) {cwd : Location}
    {dir : Path} [DecidablePred IsHeaderPlace]
    (hdir : fs.findNode cwd true (artifacts dir) = .ok (top, .directory)) :
    headerPaths (fs.visits cwd (artifacts dir)) =
      (found fs top IsHeaderPlace fs.height []).map (headersAt (artifacts dir)) := by
  have hplace : ∀ ns, (fs.at? (top ++ ns)).isSome →
      (IsHeaderPlace ns →
        headersOf? ((artifacts dir).below ns) = some (headersAt (artifacts dir) ns)) ∧
      (¬ IsHeaderPlace ns → headersOf? ((artifacts dir).below ns) = none) :=
    fun ns hns => headersOf?_below dir (hplain ns hns)
  have htree : headerPaths
      (fs.visitsBelow fs.height 1 ((artifacts dir).below []) (top ++ []) ++ []) =
      (found fs top IsHeaderPlace fs.height []).map (headersAt (artifacts dir)) ++ headerPaths [] :=
    headerPaths_visitsBelow hplace (by simp)
  have hbelow : (artifacts dir).below [] = artifacts dir := rfl
  rw [hbelow] at htree
  obtain ⟨v, hv, hvisits⟩ : ∃ v : Visit, v.path = artifacts dir ∧
      fs.visits cwd (artifacts dir) = v :: fs.visitsBelow fs.height 1 (artifacts dir) top :=
    exists_visits_of_directory isPlainName_artifactsName hdir
  rw [hvisits, headerPaths_artifacts dir v _ hv]
  simpa using htree

/-- Without a directory of artifacts there are no headers. -/
theorem headerPaths_visits_of_no_directory {cwd : Location} {dir : Path}
    (h : ∀ top, fs.findNode cwd true (artifacts dir) ≠ .ok (top, .directory)) :
    headerPaths (fs.visits cwd (artifacts dir)) = [] := by
  rcases visits_of_no_directory h with hnone | ⟨v, hv, hone⟩
  · rw [hnone, headerPaths_nil]
  · rw [hone, headerPaths_artifacts dir v [] hv, headerPaths_nil]

/-- The arguments that are added stand after those of the toolchain. -/
theorem exists_run_complete (args : List Text) (dir : Path) (h : Host) (m : Machine) :
    ∃ system, ((complete args dir).run h m).1 =
      ((preferModulesAll args).run h m).1 ++
        (headerPaths (m.files.visits h.cwd (artifacts dir))).map includeArg ++ system := by
  have hfiles := (Resolve.only_preferModulesAll args).files_run h m
  unfold complete
  simp only [Program.bind_eq, Program.run_bind, Program.request, Program.run_ask, Program.run_done,
    Machine.respond, hfiles]
  exact ⟨_, rfl⟩

/-- The height is enough to list all that is below any directory. -/
theorem length_le_below_root :
    ∀ e ∈ fs.nodes, e.1.length ≤ (top ++ ([] : List Name)).length + fs.height := by
  intro e he
  have hle := length_le_height he
  omega

theorem exists_found {cwd : Location} {dir : Path} (h : fs.IsTree) (hplain : HasPlainNames fs top)
    (hdir : fs.findNode cwd true (artifacts dir) = .ok (top, .directory)) :
    ∃ nss : List (List Name),
      (headerPaths (fs.visits cwd (artifacts dir))).map includeArg = nss.map (headersArg dir) ∧
      nss.Pairwise (· < ·) ∧
      ∀ ns, ns ∈ nss ↔ IsOutermost fs top ns ∧ ¬ IsPassedOver fs top ns := by
  classical
  have hmem : ∀ ns, ns ∈ found fs top IsHeaderPlace fs.height [] ↔
      IsOutermost fs top ns ∧ ¬ IsPassedOver fs top ns := by
    intro ns
    rw [mem_found h length_le_below_root, foundBelow_root_iff]
  refine ⟨found fs top IsHeaderPlace fs.height [], ?_, pairwise_found h, hmem⟩
  rw [headerPaths_visits hplain hdir, List.map_map]
  apply List.map_congr_left
  intro ns hns
  exact includeArg_headersAt dir (hplain ns ((hmem ns).1 hns).1.there)

/-- Of the nodes for headers below the artifacts, in the order of their names and each once,
    just those are found that lie in no other one and come, with all directories on their
    way, before any that is no directory: such a node hides what follows it.  So all are
    found that lie in no other one if and only if none of them is hidden. -/
theorem headers_found_iff (args : List Text) (dir : Path) (h : Host) (m : Machine) :
    (∃ system, ((complete args dir).run h m).1 =
      ((preferModulesAll args).run h m).1 ++
        (headerPaths (m.files.visits h.cwd (artifacts dir))).map includeArg ++ system) ∧
    ((∀ top, m.files.findNode h.cwd true (artifacts dir) ≠ .ok (top, .directory)) →
      headerPaths (m.files.visits h.cwd (artifacts dir)) = []) ∧
    ∀ top, m.files.IsTree → HasPlainNames m.files top →
      m.files.findNode h.cwd true (artifacts dir) = .ok (top, .directory) →
      ∃ nss : List (List Name),
        (headerPaths (m.files.visits h.cwd (artifacts dir))).map includeArg =
            nss.map (headersArg dir) ∧
          nss.Pairwise (· < ·) ∧
          (∀ ns, ns ∈ nss ↔ IsOutermost m.files top ns ∧ ¬ IsPassedOver m.files top ns) ∧
          ((∀ ns, ns ∈ nss ↔ IsOutermost m.files top ns) ↔
            ∀ ns, IsOutermost m.files top ns → ¬ IsPassedOver m.files top ns) := by
  refine ⟨exists_run_complete args dir h m, headerPaths_visits_of_no_directory, ?_⟩
  intro top htree hplain hdir
  obtain ⟨nss, hargs, hsorted, hmem⟩ := exists_found htree hplain hdir
  refine ⟨nss, hargs, hsorted, hmem, ?_⟩
  constructor
  · intro hall ns hns
    exact ((hmem ns).1 ((hall ns).2 hns)).2
  · intro hfree ns
    rw [hmem]
    exact ⟨fun h => h.1, fun h => ⟨h, hfree ns h⟩⟩

/-- The slice of a binary framework in the package `/pkg`. -/
def smallSlice : Location :=
  ["pkg", ".build", "artifacts", "X.xcframework", "macos-a"].map fun n => Utf8.encode n.toList

/-- A slice with two frameworks, the first of which is a link. -/
def smallArtifacts : FileSystem :=
  ⟨(List.range 5).map (fun k => (smallSlice.take (k + 1), .directory)) ++
    [(smallSlice ++ [Utf8.encode "A.framework".toList], .link "/A.framework"),
      (smallSlice ++ [Utf8.encode "B.framework".toList], .directory)]⟩

theorem isTree_smallArtifacts : smallArtifacts.IsTree := by
  apply isTree_of_nodes
  · decide
  · decide

theorem hasPlainNames_smallArtifacts : HasPlainNames smallArtifacts (smallSlice.take 3) := by
  intro ns hthere n hn
  have hall : ∀ e ∈ smallArtifacts.nodes, ∀ n ∈ e.1, Path.IsPlainName n := by decide
  obtain ⟨node, hnode⟩ := Option.isSome_iff_exists.1 hthere
  exact hall _ (mem_nodes_of_at? hnode (by simp [smallSlice])) n (List.mem_append_right _ hn)

theorem findNode_smallArtifacts :
    smallArtifacts.findNode [] true (artifacts "/pkg") = .ok (smallSlice.take 3, .directory) := by
  have hcomponents : (artifacts "/pkg").components =
      .root :: (smallSlice.take 3).map .name := by
    decide
  refine findNode_from_root hcomponents (by decide) (by decide) ?_ []
  refine ⟨?_, ?_, ?_, trivial⟩
  all_goals decide

theorem headers_found_iff_small : ∃ nss : List (List Name),
    (headerPaths (smallArtifacts.visits [] (artifacts "/pkg"))).map includeArg =
        nss.map (headersArg "/pkg") ∧
      ∀ ns, ns ∈ nss ↔ IsOutermost smallArtifacts (smallSlice.take 3) ns ∧
        ¬ IsPassedOver smallArtifacts (smallSlice.take 3) ns := by
  obtain ⟨nss, hargs, -, hmem, -⟩ :=
    (headers_found_iff [] "/pkg" (Scripted.bare 0 [] [] "/t" []) ⟨smallArtifacts, []⟩).2.2 _
      isTree_smallArtifacts hasPlainNames_smallArtifacts findNode_smallArtifacts
  exact ⟨nss, hargs, hmem⟩

/-- A framework that is a link hides the one after it, which lies in no other one. -/
theorem framework_hidden_by_link :
    ¬ (∀ (fs : FileSystem) cwd dir top, fs.IsTree → HasPlainNames fs top →
      fs.findNode cwd true (artifacts dir) = .ok (top, .directory) →
      ∃ nss : List (List Name),
        (headerPaths (fs.visits cwd (artifacts dir))).map includeArg = nss.map (headersArg dir) ∧
        nss.Pairwise (· < ·) ∧ ∀ ns, ns ∈ nss ↔ IsOutermost fs top ns) := by
  intro hfound
  obtain ⟨nss, hargs, -, hmem⟩ := hfound _ _ _ _ isTree_smallArtifacts
    hasPlainNames_smallArtifacts findNode_smallArtifacts
  obtain ⟨nss', hargs', hsorted, hmem'⟩ := exists_found isTree_smallArtifacts
    hasPlainNames_smallArtifacts findNode_smallArtifacts
  -- As many are found as are to be found, and none else, so the second framework is found.
  have hlength : nss.length = nss'.length := by
    have hlength := congrArg List.length (hargs.symm.trans hargs')
    rwa [List.length_map, List.length_map] at hlength
  have hsub : nss' ⊆ nss := fun ns hns => (hmem ns).2 ((hmem' ns).1 hns).1
  have hperm : nss'.Perm nss :=
    (List.subperm_of_subset hsorted.nodup hsub).perm_of_length_le (Nat.le_of_eq hlength)
  have hnode : (smallArtifacts.at? (smallSlice.take 3 ++
      (smallSlice.drop 3 ++ [Utf8.encode "B.framework".toList]))).isSome := by
    decide
  have hplace : ∀ n, IsFrameworkName n → IsHeaderPlace (smallSlice.drop 3 ++ [n]) :=
    fun n hn => ⟨[], _, _, n, rfl, by decide +kernel, by decide +kernel, .inl hn⟩
  have hsecond : IsOutermost smallArtifacts (smallSlice.take 3)
      (smallSlice.drop 3 ++ [Utf8.encode "B.framework".toList]) := by
    refine ⟨hnode, hplace _ (by decide), ?_⟩
    intro front hle hne hfront
    exact hne (hle.eq_of_length_le (three_le_length_of_isHeaderPlace hfront))
  have hfree := ((hmem' _).1 (hperm.mem_iff.2 ((hmem _).2 hsecond))).2
  exact hfree ⟨smallSlice.drop 3, Utf8.encode "A.framework".toList, _, [], rfl, by decide,
    hplace _ (by decide), .link "/A.framework", by decide, nofun⟩

end Invocation
end ScriptDeps
