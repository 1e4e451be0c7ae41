import ScriptDeps.Proofs.FileSystem.Trees
import ScriptDeps.Proofs.Invocation.Headers
import ScriptDeps.Proofs.Invocation.IncludePaths

/-! # Completed invocations

    An invocation is completed by three groups of words: the given ones, the
    paths of headers, and the directories of the module maps of system
    libraries.  A listing of the checkouts has all names below them, depth
    first (`visitsBelow_eq`), and so the module maps are met in the order of
    their names.  Those count that can be read, and that is all of them whose
    path is not too long for the system (`complete_in_order`). -/

namespace ScriptDeps

open FileSystem

namespace Invocation

/-! ## Section 1: Model -/

def checkoutsName : Name := Utf8.encode "checkouts".toList

/-- The checkouts of the package in `dir`. -/
def checkouts (dir : Path) : Path := (dir.child buildName).child checkoutsName

def moduleMapText : Text := "module.modulemap".toList

/-- At `ns` below `top` is a regular file called `module.modulemap`, in whatever case, that
    is text with `[system]` in it. -/
def IsSystemMap (fs : FileSystem) (top : Location) (ns : List Name) : Prop :=
  ∃ front n content modified mode text, ns = front ++ [n] ∧ lowerName n = moduleMapText ∧
    fs.at? (top ++ ns) = some (.file content modified mode) ∧
    Utf8.decode content = some text ∧ "[system]".toList <:+: text

/-- The argument for the module map at `ns` below the checkouts of `dir`. -/
def systemArg (dir : Path) (ns : List Name) : Text :=
  "-I".toList ++ ((checkouts dir).below ns.dropLast).display

/-- The path of the node at `ns` below the checkouts is one that the system takes. -/
def IsShort (dir : Path) (ns : List Name) : Prop :=
  ((checkouts dir).below ns).bytes.length < pathLimit

/-- The names below `top` are ones that the system takes. -/
def HasEntryNames (fs : FileSystem) (top : Location) : Prop :=
  ∀ ns, (fs.at? (top ++ ns)).isSome → ∀ n ∈ ns, Path.IsEntryName n

/-- The directory that a visited node gives, if it is the module map of a system library. -/
def systemDir? (fs : FileSystem) (cwd : Location) (v : Visit) : Option Path :=
  if isModuleMap v && (fs.read cwd v.path).toOption.any declaresSystem then v.path.parent? else none

section Listing

variable (fs : FileSystem) (top : Location)

/-- All that is below `names`, depth first; `fuel` bounds the depth. -/
def namesBelow : Nat → List Name → List (List Name)
  | 0, _ => []
  | fuel + 1, names => (fs.sortedNames (top ++ names)).flatMap fun n =>
      (names ++ [n]) ::
        if fs.at? (top ++ (names ++ [n])) = some .directory then namesBelow fuel (names ++ [n])
        else []

/-- What a listing from `p` shows of the node at `ns`. -/
def visitAt (p : Path) (ns : List Name) : Visit :=
  let node := (fs.at? (top ++ ns)).getD .directory
  ⟨p.below ns, node.kind, node.size, ns.length⟩

end Listing

variable {fs : FileSystem} {top cwd : Location} {fuel : Nat} {names ns front : List Name} {n : Name}
  {dir p : Path}

/-! ## Section 2: Names in a listing -/

/-- A listing shows the names below its start, each with its node. -/
theorem visitsBelow_eq (fs : FileSystem) (top : Location) (fuel : Nat) (names : List Name)
    (p : Path) :
    fs.visitsBelow fuel (names.length + 1) (p.below names) (top ++ names) =
      (namesBelow fs top fuel names).map (visitAt fs top p) := by
  induction fuel generalizing names with
  | zero => rfl
  | succ fuel ih =>
    rw [visitsBelow_succ, namesBelow, List.map_flatMap]
    apply List.flatMap_congr
    intro n hn
    obtain ⟨node, hnode⟩ := Option.isSome_iff_exists.1 (mem_sortedNames.1 hn)
    have hdeeper := ih (names ++ [n])
    rw [List.length_append, List.length_singleton, Path.below_concat, ← List.append_assoc]
      at hdeeper
    rw [entryVisits, hnode, List.map_cons, visitAt, ← List.append_assoc, hnode, Path.below_concat,
      List.length_append]
    dsimp only [Option.getD_some]
    congr 1
    by_cases hdir : node = .directory
    · rw [if_pos (kind_eq_directory_iff.2.2 hdir), if_pos (congrArg some hdir), hdeeper]
    · rw [if_neg (mt kind_eq_directory_iff.2.1 hdir), if_neg (mt Option.some.inj hdir)]
      rfl

/-- In a tree these are the names of all nodes below. -/
theorem mem_namesBelow (h : fs.IsTree)
    (hfuel : ∀ e ∈ fs.nodes, e.1.length ≤ (top ++ names).length + fuel) {x : List Name} :
    x ∈ namesBelow fs top fuel names ↔
      ∃ more, more ≠ [] ∧ x = names ++ more ∧ (fs.at? (top ++ x)).isSome := by
  induction fuel generalizing names with
  | zero =>
    constructor
    · nofun
    · rintro ⟨more, hmore, rfl, hthere⟩
      rw [← List.append_assoc] at hthere
      exact absurd (eq_nil_of_deepest hfuel hthere) hmore
  | succ fuel ih =>
    have hdeeper : ∀ n, ∀ e ∈ fs.nodes, e.1.length ≤ (top ++ (names ++ [n])).length + fuel := by
      intro n
      rw [← List.append_assoc]
      exact length_le_below_entry hfuel n
    rw [namesBelow, List.mem_flatMap]
    constructor
    · rintro ⟨n, hn, hx⟩
      have hthere := mem_sortedNames.1 hn
      rcases List.mem_cons.1 hx with rfl | hx
      · exact ⟨[n], List.cons_ne_nil _ _, rfl, by simpa using hthere⟩
      · split at hx
        · obtain ⟨more, -, rfl, hnode⟩ := (ih (hdeeper n)).1 hx
          exact ⟨n :: more, List.cons_ne_nil _ _, by simp, hnode⟩
        · cases hx
    · rintro ⟨more, hmore, rfl, hthere⟩
      obtain ⟨n, rest, rfl⟩ := List.exists_cons_of_ne_nil hmore
      by_cases hrest : rest = []
      · subst hrest
        exact ⟨n, mem_sortedNames.2 (by simpa using hthere), List.mem_cons_self⟩
      · have hdir : fs.at? (top ++ (names ++ [n])) = some .directory := by
          apply directory_above h.wellFormed hrest
          simpa using hthere
        refine ⟨n, mem_sortedNames.2 (by simpa using hdir ▸ rfl), List.mem_cons_of_mem _ ?_⟩
        rw [if_pos hdir]
        exact (ih (hdeeper n)).2 ⟨rest, hrest, by simp, hthere⟩

theorem exists_of_mem_namesBelow {x : List Name} (hx : x ∈ namesBelow fs top fuel names) :
    ∃ n more, x = names ++ n :: more := by
  induction fuel generalizing names with
  | zero => cases hx
  | succ fuel ih =>
    rw [namesBelow, List.mem_flatMap] at hx
    obtain ⟨n, -, hx⟩ := hx
    rcases List.mem_cons.1 hx with rfl | hx
    · exact ⟨n, [], rfl⟩
    · split at hx
      · obtain ⟨m, more, rfl⟩ := ih hx
        exact ⟨n, m :: more, by simp⟩
      · cases hx

/-- What is shown of one entry is at its name or below it. -/
theorem exists_of_mem_entry {x : List Name} (hx : x ∈ (names ++ [n]) ::
    if fs.at? (top ++ (names ++ [n])) = some .directory then namesBelow fs top fuel (names ++ [n])
    else []) : ∃ more, x = names ++ n :: more := by
  rcases List.mem_cons.1 hx with rfl | hx
  · exact ⟨[], rfl⟩
  · split at hx
    · obtain ⟨m, more, rfl⟩ := exists_of_mem_namesBelow hx
      exact ⟨m :: more, by simp⟩
    · cases hx

/-- Depth first is the order of the names. -/
theorem pairwise_namesBelow (h : fs.IsTree) : (namesBelow fs top fuel names).Pairwise (· < ·) := by
  induction fuel generalizing names with
  | zero => exact .nil
  | succ fuel ih =>
    rw [namesBelow, List.pairwise_flatMap]
    constructor
    · -- A directory comes before all that is below it.
      intro n _
      split
      · refine List.pairwise_cons.2 ⟨fun y hy => ?_, ih⟩
        obtain ⟨m, more, rfl⟩ := exists_of_mem_namesBelow hy
        have hlt : names ++ [n] ++ [] < names ++ [n] ++ m :: more :=
          List.append_left_lt (List.nil_lt_cons m more)
        rwa [List.append_nil] at hlt
      · exact List.pairwise_singleton _ _
    · -- All that is at an entry or below it comes before the later entries.
      apply (h.pairwise_lt_sortedNames _).imp
      intro n m hlt x hx y hy
      obtain ⟨more, rfl⟩ := exists_of_mem_entry hx
      obtain ⟨more', rfl⟩ := exists_of_mem_entry hy
      exact List.append_left_lt (List.cons_lt_cons_iff.2 (.inl hlt))

/-! ## Section 3: One module map -/

theorem isPlainName_checkoutsName : Path.IsPlainName checkoutsName := by decide

theorem declaresSystem_iff {content : Bytes} :
    declaresSystem content = true ↔
      ∃ text, Utf8.decode content = some text ∧ "[system]".toList <:+: text := by
  unfold declaresSystem
  cases Utf8.decode content with
  | none => simp
  | some text =>
    dsimp only
    rw [Option.isSome_iff_ne_none, ne_eq, Cut.splitAt?_eq_none_iff]
    constructor
    · intro hsome
      refine ⟨text, rfl, Decidable.byContradiction fun hno => hsome fun a b heq => ?_⟩
      exact hno ⟨a, b, heq.symm⟩
    · rintro ⟨_, heq, a, b, hsplit⟩ hnone
      cases heq
      exact hnone a b hsplit.symm

/-- A module map is told by its kind and its last name. -/
theorem isModuleMap_iff {v : Visit} {cs : List Path.Component}
    (h : v.path.components = cs ++ [.name n]) :
    isModuleMap v = true ↔ v.kind = .file ∧ lowerName n = moduleMapText := by
  rw [isModuleMap, lowerName?_of_components h, Bool.and_eq_true, decide_eq_true_iff,
    decide_eq_true_iff, Option.some.injEq]
  rfl

/-- A directory below one that a path leads to is reached by its names. -/
theorem leads_below (h : Leads fs cwd p top) (htree : fs.IsTree) (hnames : HasEntryNames fs top)
    (hdir : fs.at? (top ++ ns) = some .directory) : Leads fs cwd (p.below ns) (top ++ ns) := by
  induction ns using List.reverseRecOn with
  | nil =>
    rw [List.append_nil]
    exact h
  | append_singleton front n ih =>
    have hname : Path.IsEntryName n := hnames _ (by rw [hdir]; rfl) n (by simp)
    have habove : fs.at? (top ++ front) = some .directory := by
      apply htree.wellFormed (top ++ front) n
      rw [List.append_assoc, hdir]
      rfl
    rw [← List.append_assoc] at hdir ⊢
    rw [Path.below_concat]
    exact (ih habove).child hname hdir

theorem zero_notMem_below (hp : 0 ∉ p.bytes) (hns : ∀ m ∈ ns, Path.IsEntryName m) :
    0 ∉ (p.below ns).bytes := by
  induction ns using List.reverseRecOn with
  | nil => exact hp
  | append_singleton front n ih =>
    have hname : Path.IsEntryName n := hns n (by simp)
    have hfront := ih fun m hm => hns m (List.mem_append_left _ hm)
    obtain ⟨written, hwritten, -, hmem⟩ := Path.exists_front_child (p.below front) hname.1
    rw [Path.below_concat, hwritten]
    intro hzero
    rcases List.mem_append.1 hzero with hzero | hzero
    · rcases hmem 0 hzero with hzero | hzero
      · exact hfront hzero
      · exact absurd hzero (by decide)
    · exact hname.2.1 hzero

/-- Of the paths below the checkouts the system takes just the short ones. -/
theorem fits_below_iff (hp : (checkouts dir).Fits) (hns : ∀ m ∈ ns, Path.IsEntryName m) :
    ((checkouts dir).below ns).Fits ↔ IsShort dir ns := by
  obtain ⟨q, k, hk, hentry⟩ :=
    Path.exists_child_below (dir.child buildName) isPlainName_checkoutsName fun m hm => (hns m hm).1
  have hne : ((checkouts dir).below ns).bytes ≠ [] := by
    rw [checkouts, hentry]
    exact (Path.written_child q hk).1
  exact ⟨fun h => h.2.2, fun h => ⟨zero_notMem_below hp.1 hns, hne, h⟩⟩

/-- A file below the checkouts is read if its path is short, and not otherwise. -/
theorem read_below (htree : fs.IsTree) (hnames : HasEntryNames fs top)
    (hdir : fs.findNode cwd true (checkouts dir) = .ok (top, .directory)) {content : Bytes}
    {modified : Instant} {mode : Nat}
    (hnode : fs.at? (top ++ (front ++ [n])) = some (.file content modified mode)) :
    (IsShort dir (front ++ [n]) →
      fs.read cwd ((checkouts dir).below (front ++ [n])) = .ok content) ∧
    (¬ IsShort dir (front ++ [n]) →
      ∃ e, fs.read cwd ((checkouts dir).below (front ++ [n])) = .error e) := by
  have hentries := hnames (front ++ [n]) (by rw [hnode]; rfl)
  have hfits := fits_below_iff (fits_of_find (findNode_eq_ok.1 hdir)) hentries
  refine ⟨fun hshort => ?_, fun hlong => ?_⟩
  · have habove : fs.at? (top ++ front) = some .directory := by
      apply htree.wellFormed (top ++ front) n
      rw [List.append_assoc, hnode]
      rfl
    have hleads := leads_below (leads_of_findNode hdir) htree hnames habove
    rw [← hfits, Path.below_concat] at hshort
    rw [← List.append_assoc] at hnode
    have hlink : NoLink fs (top ++ front ++ [n]) := by
      intro target hlink
      rw [hnode] at hlink
      cases hlink
    rw [Path.below_concat, read_child hleads (hentries n (by simp)) hshort hlink, hnode]
  · obtain ⟨e, herror⟩ := find_of_not_fits (mt hfits.1 hlong)
    refine ⟨e, ?_⟩
    rw [FileSystem.read, FileSystem.findNode, herror]

/-- A node below the checkouts is told to be the module map of a system library if it is one
    and its path is short. -/
theorem told_iff (htree : fs.IsTree) (hnames : HasEntryNames fs top)
    (hdir : fs.findNode cwd true (checkouts dir) = .ok (top, .directory)) {node : Node}
    (hnode : fs.at? (top ++ (front ++ [n])) = some node) {v : Visit}
    (hpath : v.path = (checkouts dir).below (front ++ [n])) (hkind : v.kind = node.kind) :
    (isModuleMap v && (fs.read cwd v.path).toOption.any declaresSystem) = true ↔
      IsSystemMap fs top (front ++ [n]) ∧ IsShort dir (front ++ [n]) := by
  have hplain : ∀ m ∈ front ++ [n], Path.IsPlainName m :=
    fun m hm => (hnames _ (by rw [hnode]; rfl) m hm).1
  have hcomponents := Path.components_below (checkouts dir) hplain
  rw [List.map_append, ← List.append_assoc, ← hpath] at hcomponents
  rw [Bool.and_eq_true, isModuleMap_iff hcomponents, hkind, hpath]
  constructor
  · rintro ⟨⟨hfile, hname⟩, hread⟩
    cases node with
    | file content modified mode =>
      -- What could be read is the content, and only by a short path.
      obtain ⟨hok, herror⟩ := read_below htree hnames hdir hnode
      by_cases hshort : IsShort dir (front ++ [n])
      · rw [hok hshort] at hread
        obtain ⟨text, htext, hin⟩ := declaresSystem_iff.1 hread
        exact ⟨⟨front, n, content, modified, mode, text, rfl, hname, hnode, htext, hin⟩, hshort⟩
      · obtain ⟨e, he⟩ := herror hshort
        rw [he] at hread
        cases hread
    | directory => cases hfile
    | link target => cases hfile
    | pipe content => cases hfile
  · rintro ⟨⟨front', n', content, modified, mode, text, heq, hname, hfile, htext, hin⟩, hshort⟩
    obtain ⟨rfl, hlast⟩ := List.append_inj' heq rfl
    obtain rfl := List.singleton_inj.1 hlast
    obtain rfl : node = .file content modified mode := Option.some.inj (hnode.symm.trans hfile)
    refine ⟨⟨rfl, hname⟩, ?_⟩
    rw [(read_below htree hnames hdir hnode).1 hshort]
    exact declaresSystem_iff.2 ⟨text, htext, hin⟩

theorem parent?_below (hns : ∀ m ∈ front ++ [n], Path.IsPlainName m) :
    ((checkouts dir).below (front ++ [n])).parent? = some ((checkouts dir).below front) := by
  obtain ⟨q, k, hk, hentry⟩ := Path.exists_child_below (dir.child buildName)
    isPlainName_checkoutsName fun m hm => hns m (List.mem_append_left _ hm)
  rw [Path.below_concat, checkouts, hentry]
  exact Path.parent?_child q hk (hns n (by simp))

/-- Of the nodes below the checkouts, module maps of system libraries with short paths give
    their directory, and no others give any. -/
theorem systemDir?_visitAt (htree : fs.IsTree) (hnames : HasEntryNames fs top)
    (hdir : fs.findNode cwd true (checkouts dir) = .ok (top, .directory)) (hne : ns ≠ [])
    (hthere : (fs.at? (top ++ ns)).isSome) :
    (IsSystemMap fs top ns ∧ IsShort dir ns →
      systemDir? fs cwd (visitAt fs top (checkouts dir) ns) =
        some ((checkouts dir).below ns.dropLast)) ∧
    (¬ (IsSystemMap fs top ns ∧ IsShort dir ns) →
      systemDir? fs cwd (visitAt fs top (checkouts dir) ns) = none) := by
  obtain ⟨front, n, rfl⟩ : ∃ front n, ns = front ++ [n] :=
    ⟨ns.dropLast, ns.getLast hne, (List.dropLast_concat_getLast hne).symm⟩
  obtain ⟨node, hnode⟩ := Option.isSome_iff_exists.1 hthere
  have hkind : (visitAt fs top (checkouts dir) (front ++ [n])).kind = node.kind := by
    rw [visitAt, hnode]
    rfl
  have htold := told_iff htree hnames hdir hnode rfl hkind
  have hparent : (visitAt fs top (checkouts dir) (front ++ [n])).path.parent? =
      some ((checkouts dir).below front) :=
    parent?_below fun m hm => (hnames _ hthere m hm).1
  rw [List.dropLast_concat, systemDir?, hparent]
  exact ⟨fun h => if_pos (htold.2 h), fun h => if_neg (mt htold.1 h)⟩

/-! ## Section 4: All module maps -/

/-- The checkouts themselves are no module map. -/
theorem systemDir?_checkouts {v : Visit} (hv : v.path = checkouts dir) :
    systemDir? fs cwd v = none := by
  have hcomponents : v.path.components =
      (dir.child buildName).components ++ [.name checkoutsName] := by
    rw [hv]
    exact Path.components_child (dir.child buildName) isPlainName_checkoutsName
  have hname : lowerName checkoutsName ≠ moduleMapText := by decide +kernel
  have hno : ¬ isModuleMap v = true := by
    rw [isModuleMap_iff hcomponents]
    exact fun h => hname h.2
  rw [systemDir?, if_neg]
  rw [Bool.and_eq_true]
  exact fun h => hno h.1

/-- To look for the module maps is to look at each node, and changes nothing. -/
theorem run_systemPaths (vs : List Visit) (h : Host) (m : Machine) :
    (systemPaths vs).run h m = (vs.filterMap (systemDir? m.files h.cwd), m) := by
  induction vs with
  | nil => rfl
  | cons v vs ih =>
    rw [systemPaths]
    cases hmap : isModuleMap v with
    | false =>
      have hno : systemDir? m.files h.cwd v = none := by
        rw [systemDir?, hmap]
        rfl
      rw [List.filterMap_cons_none hno]
      exact ih
    | true =>
      simp only [Bool.not_true, Bool.false_eq_true, if_false, Program.bind_eq, Program.request,
        Program.ask_bind, Program.done_bind, Program.run_ask, Machine.respond]
      cases hread : m.files.read h.cwd v.path with
      | error e =>
        have hno : systemDir? m.files h.cwd v = none := by
          rw [systemDir?, hmap, hread]
          rfl
        rw [List.filterMap_cons_none hno]
        exact ih
      | ok content =>
        simp only [Program.run_bind, ih]
        split
        · next q hsystem hparent =>
          have hyes : systemDir? m.files h.cwd v = some q := by
            simp [systemDir?, hmap, hread, Except.toOption, hsystem, hparent]
          rw [List.filterMap_cons_some hyes]
          rfl
        · next hother =>
          have hno : systemDir? m.files h.cwd v = none := by
            cases hparent : v.path.parent? with
            | none => simp [systemDir?, hparent]
            | some q =>
              have hsystem : ¬ declaresSystem content = true := fun hsystem =>
                hother q hsystem hparent
              simp [systemDir?, hread, Except.toOption, hsystem]
          rw [List.filterMap_cons_none hno]
          rfl

/-- What a listing of the checkouts gives is what their tree gives. -/
theorem filterMap_visits (hdir : fs.findNode cwd true (checkouts dir) = .ok (top, .directory)) :
    (fs.visits cwd (checkouts dir)).filterMap (systemDir? fs cwd) =
      (namesBelow fs top fs.height []).filterMap
        fun ns => systemDir? fs cwd (visitAt fs top (checkouts dir) ns) := by
  have hbelow : fs.visitsBelow fs.height 1 (checkouts dir) (top ++ []) =
      (namesBelow fs top fs.height []).map (visitAt fs top (checkouts dir)) :=
    visitsBelow_eq fs top fs.height [] (checkouts dir)
  obtain ⟨v, hv, hvisits⟩ : ∃ v : Visit, v.path = checkouts dir ∧
      fs.visits cwd (checkouts dir) = v :: fs.visitsBelow fs.height 1 (checkouts dir) top :=
    exists_visits_of_directory isPlainName_checkoutsName hdir
  rw [List.append_nil] at hbelow
  rw [hvisits, List.filterMap_cons_none (systemDir?_checkouts hv), hbelow, List.filterMap_map]
  rfl

/-- Without a directory of checkouts there are no module maps. -/
theorem filterMap_visits_of_no_directory
    (h : ∀ top, fs.findNode cwd true (checkouts dir) ≠ .ok (top, .directory)) :
    (fs.visits cwd (checkouts dir)).filterMap (systemDir? fs cwd) = [] := by
  rcases visits_of_no_directory h with hnone | ⟨v, hv, hone⟩
  · rw [hnone]
    rfl
  · rw [hone, List.filterMap_cons_none (systemDir?_checkouts hv)]
    rfl

/-- What passes gives something, and what does not pass gives nothing. -/
theorem filterMap_eq_map_filter {α β : Type} {P : α → Prop} [DecidablePred P] {f : α → Option β}
    {g : α → β} {xs : List α}
    (h : ∀ x ∈ xs, (P x → f x = some (g x)) ∧ (¬ P x → f x = none)) :
    xs.filterMap f = (xs.filter P).map g := by
  induction xs with
  | nil => rfl
  | cons x xs ih =>
    have hrest := ih fun y hy => h y (List.mem_cons_of_mem _ hy)
    obtain ⟨hpass, hfail⟩ := h x List.mem_cons_self
    by_cases hx : P x
    · rw [List.filterMap_cons_some (hpass hx), List.filter_cons_of_pos (by simpa using hx), hrest,
        List.map_cons]
    · rw [List.filterMap_cons_none (hfail hx), List.filter_cons_of_neg (by simpa using hx), hrest]

/-- The module maps that count, in the order of their names. -/
theorem exists_systemMaps (htree : fs.IsTree) (hnames : HasEntryNames fs top)
    (hdir : fs.findNode cwd true (checkouts dir) = .ok (top, .directory)) :
    ∃ nss : List (List Name),
      ((fs.visits cwd (checkouts dir)).filterMap (systemDir? fs cwd)).map includeArg =
        nss.map (systemArg dir) ∧
      nss.Pairwise (· < ·) ∧ ∀ ns, ns ∈ nss ↔ IsSystemMap fs top ns ∧ IsShort dir ns := by
  classical
  have hmem : ∀ ns, ns ∈ namesBelow fs top fs.height [] ↔
      ∃ more, more ≠ [] ∧ ns = [] ++ more ∧ (fs.at? (top ++ ns)).isSome :=
    fun ns => mem_namesBelow htree length_le_below_root
  refine ⟨(namesBelow fs top fs.height []).filter fun ns => IsSystemMap fs top ns ∧ IsShort dir ns,
    ?_, (pairwise_namesBelow htree).filter _, fun ns => ?_⟩
  · rw [filterMap_visits hdir,
      filterMap_eq_map_filter (P := fun ns => IsSystemMap fs top ns ∧ IsShort dir ns)
        (g := fun ns => (checkouts dir).below ns.dropLast), List.map_map]
    · rfl
    · intro ns hns
      obtain ⟨_, hmore, rfl, hthere⟩ := (hmem ns).1 hns
      exact systemDir?_visitAt htree hnames hdir hmore hthere
  · rw [List.mem_filter, decide_eq_true_iff, hmem]
    constructor
    · exact fun h => h.2
    · rintro ⟨hmap, hshort⟩
      have hthere := hmap
      obtain ⟨front, n, content, modified, mode, text, rfl, -, hfile, -⟩ := hthere
      exact ⟨⟨front ++ [n], by simp, rfl, by rw [hfile]; rfl⟩, hmap, hshort⟩

/-! ## Section 5: Results -/

/-- An invocation is completed by the headers and the module maps that listings show. -/
theorem exists_run_complete_eq (args : List Text) (dir : Path) (h : Host) (m : Machine) :
    ∃ patched, ((complete args dir).run h m).1 =
        patched ++ (headerPaths (m.files.visits h.cwd (artifacts dir))).map includeArg ++
          ((m.files.visits h.cwd (checkouts dir)).filterMap
            (systemDir? m.files h.cwd)).map includeArg ∧
      Prefers m.files h.cwd args patched := by
  obtain ⟨patched, hrun, hprefers⟩ := exists_run_preferModulesAll args h m
  refine ⟨patched, ?_, hprefers⟩
  unfold complete
  simp only [Program.bind_eq, Program.run_bind, hrun, Program.request, Program.ask_bind,
    Program.done_bind, Program.run_ask, Machine.respond, run_systemPaths]
  rfl

/-- Where nothing has been fetched, only include paths are changed. -/
theorem prefers_run_complete (args : List Text) {dir : Path} {h : Host} {m : Machine}
    (hartifacts : m.files.visits h.cwd (artifacts dir) = [])
    (hcheckouts : m.files.visits h.cwd (checkouts dir) = []) :
    Prefers m.files h.cwd args ((complete args dir).run h m).1 := by
  obtain ⟨patched, hrun, hprefers⟩ := exists_run_complete_eq args dir h m
  rw [hartifacts, hcheckouts, headerPaths] at hrun
  rw [hrun]
  simpa using hprefers

/-- So it is completed by the module maps that count. -/
theorem exists_run_complete_of_directory (args : List Text) (h : Host) (m : Machine)
    (htree : m.files.IsTree) (hnames : HasEntryNames m.files top)
    (hdir : m.files.findNode h.cwd true (checkouts dir) = .ok (top, .directory)) :
    ∃ (patched : List Text) (nss : List (List Name)), ((complete args dir).run h m).1 =
        patched ++ (headerPaths (m.files.visits h.cwd (artifacts dir))).map includeArg ++
          nss.map (systemArg dir) ∧
      Prefers m.files h.cwd args patched ∧
      ∀ ns, ns ∈ nss ↔ IsSystemMap m.files top ns ∧ IsShort dir ns := by
  obtain ⟨patched, hrun, hprefers⟩ := exists_run_complete_eq args dir h m
  obtain ⟨nss, hargs, -, hmem⟩ := exists_systemMaps htree hnames hdir
  exact ⟨patched, nss, hargs ▸ hrun, hprefers, hmem⟩

/-- A completed invocation has the given words, each at its place and with its include path
    preferred, then the paths of headers, then a word for each module map of a system library
    below the checkouts that has a short path, in the order of their names. -/
theorem complete_in_order (args : List Text) (dir : Path) (h : Host) (m : Machine) :
    ∃ patched system, ((complete args dir).run h m).1 =
        patched ++ (headerPaths (m.files.visits h.cwd (artifacts dir))).map includeArg ++ system ∧
      Prefers m.files h.cwd args patched ∧
      ((∀ top, m.files.findNode h.cwd true (checkouts dir) ≠ .ok (top, .directory)) →
        system = []) ∧
      ∀ top, m.files.IsTree → HasEntryNames m.files top →
        m.files.findNode h.cwd true (checkouts dir) = .ok (top, .directory) →
        ∃ nss : List (List Name), system = nss.map (systemArg dir) ∧ nss.Pairwise (· < ·) ∧
          ∀ ns, ns ∈ nss ↔ IsSystemMap m.files top ns ∧ IsShort dir ns := by
  obtain ⟨patched, hrun, hprefers⟩ := exists_run_complete_eq args dir h m
  refine ⟨patched, _, hrun, hprefers, fun hnone => ?_, fun top htree hnames hdir => ?_⟩
  · rw [filterMap_visits_of_no_directory hnone]
    rfl
  · exact exists_systemMaps htree hnames hdir

def moduleMapName : Name := Utf8.encode moduleMapText

/-- The checkouts of the package in `/pkg`. -/
def smallCheckouts : Location := [Utf8.encode "pkg".toList, buildName, checkoutsName]

def systemMap : Node := .file (Utf8.encode "[system]".toList) 0 0

/-- The module map in the checkout called `n`. -/
def smallMap (n : String) : List Name := [Utf8.encode n.toList, moduleMapName]

/-- A package with two system libraries, beside a directory of modules in `/x`. -/
def smallPackage : FileSystem :=
  ⟨(List.range 3).map (fun k => (smallCheckouts.take (k + 1), .directory)) ++
    ["a", "b"].flatMap (fun n => [(smallCheckouts ++ [Utf8.encode n.toList], .directory),
      (smallCheckouts ++ smallMap n, systemMap)]) ++
    [([Utf8.encode "x".toList], .directory),
      ([Utf8.encode "x".toList, Utf8.encode "Modules".toList], .directory)]⟩

theorem isTree_smallPackage : smallPackage.IsTree := by
  apply isTree_of_nodes
  · decide
  · decide

theorem mem_nodes_smallPackage {ns : List Name} {node : Node}
    (hnode : smallPackage.at? (smallCheckouts ++ ns) = some node) :
    (smallCheckouts ++ ns, node) ∈ smallPackage.nodes :=
  mem_nodes_of_at? hnode (by simp [smallCheckouts])

theorem hasEntryNames_smallPackage : HasEntryNames smallPackage smallCheckouts := by
  intro ns hthere n hn
  have hall : ∀ e ∈ smallPackage.nodes, ∀ n ∈ e.1, Path.IsEntryName n := by decide
  obtain ⟨node, hnode⟩ := Option.isSome_iff_exists.1 hthere
  exact hall _ (mem_nodes_smallPackage hnode) n (List.mem_append_right _ hn)

theorem isSystemMap_smallPackage_iff :
    IsSystemMap smallPackage smallCheckouts ns ↔ ns ∈ [smallMap "a", smallMap "b"] := by
  constructor
  · rintro ⟨front, n, content, modified, mode, text, rfl, -, hfile, -⟩
    have hfiles : ∀ e ∈ smallPackage.nodes, e.2.isFile = true →
        e.1 ∈ [smallMap "a", smallMap "b"].map (smallCheckouts ++ ·) := by decide
    have hmem := hfiles _ (mem_nodes_smallPackage hfile) rfl
    rwa [List.mem_map_of_injective (List.append_right_injective smallCheckouts)] at hmem
  · intro hns
    have hfile : smallPackage.at? (smallCheckouts ++ ns) = some systemMap := by
      revert ns
      decide
    obtain ⟨n, rfl⟩ : ∃ n, ns = [Utf8.encode n] ++ [moduleMapName] := by
      rcases List.mem_pair.1 hns with rfl | rfl
      · exact ⟨"a".toList, rfl⟩
      · exact ⟨"b".toList, rfl⟩
    exact ⟨_, moduleMapName, _, _, _, "[system]".toList, rfl, by decide +kernel, hfile,
      Utf8.decode_encode _, List.infix_refl _⟩

theorem findNode_smallPackage :
    smallPackage.findNode [] true (checkouts "/pkg") = .ok (smallCheckouts, .directory) := by
  have hcomponents : (checkouts "/pkg").components = .root :: smallCheckouts.map .name := by decide
  refine findNode_from_root hcomponents (by decide) (by decide) ?_ []
  refine ⟨?_, ?_, ?_, trivial⟩
  all_goals decide

/-- Nothing has been built for it. -/
theorem visits_artifacts_smallPackage : smallPackage.visits [] (artifacts "/pkg") = [] := by
  have hcomponents : (Path.child "/pkg" buildName).components =
      .root :: (smallCheckouts.take 2).map .name := by
    decide
  have hdirs : DirectoriesAlong smallPackage [] (smallCheckouts.take 2) := by
    refine ⟨?_, ?_, trivial⟩
    all_goals decide
  have hleads : Leads smallPackage [] (Path.child "/pkg" buildName) (smallCheckouts.take 2) := by
    refine ⟨linkLimit, ?_⟩
    rw [hcomponents]
    exact .root [] (route_names linkLimit (by decide) hdirs)
  exact visits_of_missing_child hleads (by decide) (by decide)

theorem preferred_smallPackage :
    preferred smallPackage [] "/x".toList = "/x/Modules".toList ∧
      preferred smallPackage [] "/y".toList = "/y".toList := by
  have hthere : smallPackage.isDirectory [] (Path.ofText (modulesPath "/x".toList)) = true := by
    have hdirs : DirectoriesAlong smallPackage []
        [Utf8.encode "x".toList, Utf8.encode "Modules".toList] := by
      refine ⟨?_, ?_, trivial⟩
      all_goals decide
    unfold isDirectory
    rw [findNode_from_root (by decide) (by decide) (by decide) hdirs]
    rfl
  have hmissing : smallPackage.isDirectory [] (Path.ofText (modulesPath "/y".toList)) = false :=
    isDirectory_of_missing (n := Utf8.encode "y".toList) (by decide) rfl
      (by decide) (by decide) []
  unfold preferred
  rw [hthere, hmissing]
  exact ⟨rfl, rfl⟩

theorem complete_in_order_package :
    ((complete ["-I".toList, "/x".toList, "-I/y".toList, "-lz".toList] "/pkg").run
        (Scripted.bare 0 [] [] "/t" []) ⟨smallPackage, []⟩).1 =
      ["-I", "/x/Modules", "-I/y", "-lz", "-I/pkg/.build/checkouts/a",
        "-I/pkg/.build/checkouts/b"].map String.toList := by
  obtain ⟨patched, system, hrun, ⟨hlength, hoperand, hattached, hother⟩, -, hsystem⟩ :=
    complete_in_order ["-I".toList, "/x".toList, "-I/y".toList, "-lz".toList] "/pkg"
      (Scripted.bare 0 [] [] "/t" []) ⟨smallPackage, []⟩
  obtain ⟨nss, rfl, hsorted, hmem⟩ := hsystem smallCheckouts isTree_smallPackage
    hasEntryNames_smallPackage findNode_smallPackage
  -- Each word is told by its place.
  obtain ⟨hx, hy⟩ := preferred_smallPackage
  have hfirst := hother 0 "-I".toList rfl (by decide) fun path hpath heq =>
    hpath (List.append_cancel_left (heq.symm.trans (List.append_nil _).symm))
  have hsecond := hoperand 1 "/x".toList rfl (by decide)
  have hthird := hattached 2 "/y".toList rfl (by decide) (by decide)
  have hlast := hother 3 "-lz".toList rfl (by decide) (by simp)
  have hwords : patched = ["-I", "/x/Modules", "-I/y", "-lz"].map String.toList := by
    apply List.ext_getElem?
    intro i
    match i with
    | 0 => exact hfirst
    | 1 => exact hsecond.trans (congrArg some hx)
    | 2 => exact hthird.trans (congrArg (fun path => some ("-I".toList ++ path)) hy)
    | 3 => exact hlast
    | i + 4 => rw [List.getElem?_eq_none (by simp [hlength]), List.getElem?_eq_none (by simp)]
  -- There are two module maps, and their order is that of the checkouts.
  have hmaps : nss = [smallMap "a", smallMap "b"] := by
    have honly : ∀ ns, ns ∈ nss ↔ ns ∈ [smallMap "a", smallMap "b"] := by
      intro ns
      rw [hmem, isSystemMap_smallPackage_iff, and_iff_left_iff_imp]
      unfold IsShort
      revert ns
      decide
    have hsorted' : [smallMap "a", smallMap "b"].Pairwise (· < ·) := by decide
    have hperm := (List.perm_ext_iff_of_nodup hsorted.nodup hsorted'.nodup).2 honly
    exact hperm.eq_of_pairwise (fun _ _ _ _ h h' => absurd h' (List.lt_asymm h)) hsorted hsorted'
  rw [hrun, hwords, hmaps]
  show _ ++ (headerPaths (smallPackage.visits [] (artifacts "/pkg"))).map includeArg ++ _ = _
  rw [visits_artifacts_smallPackage, headerPaths]
  decide +kernel

/-! ## Section 6: Trees with one module map -/

/-- A tree of directories in each other and nothing else; `up` are their names, from the
    innermost one. -/
def nested : List Name → FileSystem
  | [] => ⟨[]⟩
  | n :: up => (nested up).put (up.reverse ++ [n]) .directory

theorem not_prefix_of_longer {loc : Location} {ns : List Name} (hne : ns ≠ []) :
    ¬ loc ++ ns <+: loc := by
  intro hle
  have hlength := hle.length_le
  have hpos := List.length_pos_iff.2 hne
  rw [List.length_append] at hlength
  omega

theorem nested_spec (up : List Name) :
    (nested up).IsTree ∧
      ∀ loc, (nested up).at? loc = if loc <+: up.reverse then some .directory else none := by
  induction up with
  | nil =>
    refine ⟨isTree_of_nodes (by simp [nested]) List.Pairwise.nil, fun loc => ?_⟩
    by_cases hloc : loc = []
    · simp [hloc, at?]
    · simp [hloc, at?, nested]
  | cons n up ih =>
    obtain ⟨htree, hat⟩ := ih
    have hend : (nested up).at? up.reverse = some .directory := by
      rw [hat, if_pos (List.prefix_refl _)]
    have hfree : (nested up).at? (up.reverse ++ [n]) ≠ some .directory := by
      rw [hat, if_neg (not_prefix_of_longer (List.cons_ne_nil n []))]
      exact (Option.some_ne_none _).symm
    refine ⟨htree.put hend hfree _, fun loc => ?_⟩
    rw [nested, List.reverse_cons]
    by_cases hlast : loc = up.reverse ++ [n]
    · rw [hlast, at?_put_self _ _ (by simp), if_pos (List.prefix_refl _)]
    · rw [at?_put_ne _ _ hlast, hat]
      simp [List.prefix_concat_iff, hlast]

/-- A tree whose one file is the module map of a system library, below these checkouts in the
    directories `up`, named from the innermost one. -/
def lone (up : List Name) : FileSystem :=
  (nested (up ++ smallCheckouts.reverse)).put (smallCheckouts ++ up.reverse ++ [moduleMapName])
    systemMap

theorem lone_spec (up : List Name) :
    (lone up).IsTree ∧
      ∀ loc, (lone up).at? loc =
        if loc = smallCheckouts ++ up.reverse ++ [moduleMapName] then some systemMap
        else if loc <+: smallCheckouts ++ up.reverse then some .directory else none := by
  obtain ⟨htree, hat⟩ := nested_spec (up ++ smallCheckouts.reverse)
  rw [List.reverse_append, List.reverse_reverse] at hat
  have hend : (nested (up ++ smallCheckouts.reverse)).at? (smallCheckouts ++ up.reverse) =
      some .directory := by
    rw [hat, if_pos (List.prefix_refl _)]
  have hfree : (nested (up ++ smallCheckouts.reverse)).at?
      (smallCheckouts ++ up.reverse ++ [moduleMapName]) ≠ some .directory := by
    rw [hat, if_neg (not_prefix_of_longer (List.cons_ne_nil _ []))]
    exact (Option.some_ne_none _).symm
  refine ⟨htree.put hend hfree _, fun loc => ?_⟩
  rw [lone]
  split
  · next hlast => rw [hlast, at?_put_self _ _ (by simp)]
  · next hlast => rw [at?_put_ne _ _ hlast, hat]

theorem isEntryName_on_way {up : List Name} (hup : ∀ n ∈ up, Path.IsEntryName n) :
    ∀ m ∈ up.reverse ++ [moduleMapName], Path.IsEntryName m := by
  have hmap : Path.IsEntryName moduleMapName := by decide +kernel
  intro m hm
  rcases List.mem_append.1 hm with hm | hm
  · exact hup m (List.mem_reverse.1 hm)
  · exact List.mem_singleton.1 hm ▸ hmap

theorem hasEntryNames_lone {up : List Name} (hup : ∀ n ∈ up, Path.IsEntryName n) :
    HasEntryNames (lone up) smallCheckouts := by
  intro ns hthere n hn
  have hall := isEntryName_on_way hup
  rw [(lone_spec up).2] at hthere
  split at hthere
  · next hlast =>
    rw [List.append_assoc] at hlast
    exact hall n (List.append_cancel_left hlast ▸ hn)
  · split at hthere
    · next hle =>
      have hle' := (List.prefix_append_right_inj _).1 hle
      exact hall n (List.mem_append_left _ (hle'.subset hn))
    · cases hthere

theorem isSystemMap_lone_iff {up : List Name} :
    IsSystemMap (lone up) smallCheckouts ns ↔ ns = up.reverse ++ [moduleMapName] := by
  constructor
  · rintro ⟨front, n, content, modified, mode, text, rfl, -, hfile, -⟩
    rw [(lone_spec up).2] at hfile
    split at hfile
    · next hlast =>
      rw [List.append_assoc] at hlast
      exact List.append_cancel_left hlast
    · split at hfile
      · cases hfile
      · cases hfile
  · rintro rfl
    have hfile : (lone up).at? (smallCheckouts ++ (up.reverse ++ [moduleMapName])) =
        some systemMap := by
      rw [(lone_spec up).2, if_pos (List.append_assoc _ _ _).symm]
    exact ⟨up.reverse, moduleMapName, _, _, _, "[system]".toList, rfl, by decide +kernel, hfile,
      Utf8.decode_encode _, List.infix_refl _⟩

theorem findNode_lone (up : List Name) :
    (lone up).findNode [] true (checkouts "/pkg") = .ok (smallCheckouts, .directory) := by
  have hcomponents : (checkouts "/pkg").components = .root :: smallCheckouts.map .name := by
    decide +kernel
  have hdir : ∀ loc, loc <+: smallCheckouts → (lone up).at? loc = some .directory := by
    intro loc hle
    rw [(lone_spec up).2, if_neg, if_pos (hle.trans (List.prefix_append _ _))]
    rintro rfl
    rw [List.append_assoc] at hle
    exact not_prefix_of_longer (by simp) hle
  have hdirectories : DirectoriesAlong (lone up) [] smallCheckouts := by
    refine ⟨hdir _ ?_, hdir _ ?_, hdir _ ?_, trivial⟩
    all_goals decide +kernel
  have hleads : Leads (lone up) [] (checkouts "/pkg") smallCheckouts := by
    refine ⟨linkLimit, ?_⟩
    rw [hcomponents]
    exact .root [] (route_names linkLimit (by decide +kernel) hdirectories)
  exact hleads.findNode (by decide +kernel) (hdir _ (List.prefix_refl _))

/-- Each name below the checkouts is written with a slash before it. -/
theorem length_below (hns : ∀ m ∈ ns, Path.IsPlainName m) :
    ((checkouts dir).below ns).bytes.length =
      (checkouts dir).bytes.length + (ns.map fun m => m.length + 1).sum := by
  induction ns using List.reverseRecOn with
  | nil => rfl
  | append_singleton front n ih =>
    have hfront : ∀ m ∈ front, Path.IsPlainName m := fun m hm => hns m (List.mem_append_left _ hm)
    have hn : Path.IsPlainName n := hns n (by simp)
    obtain ⟨q, k, hk, hentry⟩ :=
      Path.exists_child_below (dir.child buildName) isPlainName_checkoutsName hfront
    have hwritten := hentry ▸ Path.written_child q hk
    rw [Path.below_concat, checkouts, Path.bytes_child hwritten hn.2.1, List.length_append,
      ← checkouts, ih hfront, List.map_append, List.sum_append]
    simp [Nat.add_assoc]

/-- Directories so deep that the path of a module map in them is too long. -/
def deep : List Name := List.replicate 16 (List.replicate 253 0x61)

theorem isEntryName_of_mem_deep : ∀ n ∈ deep, Path.IsEntryName n := by
  intro n hn
  rw [List.eq_of_mem_replicate hn]
  decide +kernel

theorem not_isShort_deep : ¬ IsShort "/pkg" (deep.reverse ++ [moduleMapName]) := by
  have hplain : ∀ m ∈ deep.reverse ++ [moduleMapName], Path.IsPlainName m :=
    fun m hm => (isEntryName_on_way isEntryName_of_mem_deep m hm).1
  unfold IsShort
  rw [length_below hplain]
  decide +kernel

/-- A module map with such a path is passed over. -/
theorem module_map_too_deep :
    ¬ ∀ (args : List Text) (dir : Path) (h : Host) (m : Machine) (top : Location),
      m.files.IsTree → HasEntryNames m.files top →
      m.files.findNode h.cwd true (checkouts dir) = .ok (top, .directory) →
      ∃ (patched : List Text) (nss : List (List Name)), ((complete args dir).run h m).1 =
          patched ++ (headerPaths (m.files.visits h.cwd (artifacts dir))).map includeArg ++
            nss.map (systemArg dir) ∧
        Prefers m.files h.cwd args patched ∧ nss.Pairwise (· < ·) ∧
        ∀ ns, ns ∈ nss ↔ IsSystemMap m.files top ns := by
  intro hlisted
  obtain ⟨patched, nss, hrun, hprefers, -, hmem⟩ := hlisted [] "/pkg"
    (Scripted.bare 0 [] [] "/t" []) ⟨lone deep, []⟩ smallCheckouts (lone_spec deep).1
    (hasEntryNames_lone isEntryName_of_mem_deep) (findNode_lone deep)
  obtain ⟨patched', nss', hrun', hprefers', hmem'⟩ := exists_run_complete_of_directory []
    (Scripted.bare 0 [] [] "/t" []) ⟨lone deep, []⟩ (lone_spec deep).1
    (hasEntryNames_lone isEntryName_of_mem_deep) (findNode_lone deep)
  have hnone : nss' = [] := by
    apply List.eq_nil_iff_forall_not_mem.2
    intro ns hns
    obtain ⟨hmap, hshort⟩ := (hmem' ns).1 hns
    obtain rfl := isSystemMap_lone_iff.1 hmap
    exact not_isShort_deep hshort
  have hsome : deep.reverse ++ [moduleMapName] ∈ nss := (hmem _).2 (isSystemMap_lone_iff.2 rfl)
  -- As many words are expected as there are, so no module map is.
  have hlength := congrArg List.length (hrun.symm.trans hrun')
  simp only [hnone, List.length_append, List.length_map, hprefers.length, hprefers'.length,
    List.length_nil] at hlength
  have hpos := List.length_pos_of_mem hsome
  omega

end Invocation
end ScriptDeps
