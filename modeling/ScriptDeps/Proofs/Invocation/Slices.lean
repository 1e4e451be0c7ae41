import Mathlib.Data.List.Induction
import ScriptDeps.Proofs.Path
import ScriptDeps.Proofs.Text.Utf8
import ScriptDeps.Toolchain.Invocation

/-! # Headers by their names

    Whether a node stands for headers is told by the last three names that lead
    to it: a binary framework, a slice for macOS in it, and a framework or
    headers in the slice (`IsHeaderPlace`).  Below the artifacts of a package
    only names below the artifacts count, as neither that directory nor the
    build directory around it is called like one of these. -/

namespace ScriptDeps

namespace Path

/-! ## Section 1: Paths below a path -/

variable {p : Path} {cs : List Component} {n : Name} {ns : List Name}

/-- Where the names `ns` lead from `p`. -/
def below (p : Path) (ns : List Name) : Path := ns.foldl child p

theorem below_concat (p : Path) (ns : List Name) (n : Name) :
    p.below (ns ++ [n]) = (p.below ns).child n := by
  simp [below]

theorem components_below (p : Path) (h : ∀ n ∈ ns, IsPlainName n) :
    (p.below ns).components = p.components ++ ns.map .name := by
  induction ns generalizing p with
  | nil => simp [below]
  | cons n ns ih =>
    have hn : IsPlainName n := h n (by simp)
    have hlater := ih (p.child n) fun m hm => h m (by simp [hm])
    show ((p.child n).below ns).components = _
    rw [hlater, components_child p hn]
    simp

/-- What is below an entry is an entry itself. -/
theorem exists_child_below (p : Path) {m : Name} (hm : IsPlainName m)
    (h : ∀ n ∈ ns, IsPlainName n) :
    ∃ (q : Path) (k : Name), IsPlainName k ∧ (p.child m).below ns = q.child k := by
  induction ns using List.reverseRecOn with
  | nil => exact ⟨p, m, hm, rfl⟩
  | append_singleton front n _ => exact ⟨_, n, h n (by simp), below_concat _ front n⟩

/-- The last name and the extension are those of the last component. -/
theorem last_of_components (h : p.components = cs ++ [.name n]) :
    p.fileName? = some n ∧ p.extension? = (cutName n).2 := by
  have hname : p.fileName? = some n := by
    unfold fileName?
    rw [h, List.getLast?_concat]
  exact ⟨hname, by rw [extension?, hname, Option.bind_some]⟩

/-- An entry is written after its directory and a slash. -/
theorem bytes_child (hlast : p.bytes ≠ [] ∧ p.bytes.getLast? ≠ some slash) (hn : slash ∉ n) :
    (p.child n).bytes = p.bytes ++ slash :: n := by
  have hrelative : ¬ (⟨n⟩ : Path).isAbsolute = true := by
    intro habsolute
    obtain ⟨rest, hrest⟩ := eq_slash_of_isAbsolute habsolute
    dsimp only at hrest
    apply hn
    rw [hrest]
    exact List.mem_cons_self
  have hwritten : ¬ (p.bytes.isEmpty || p.bytes.getLast? = some slash) = true := by
    simp [hlast.1, hlast.2]
  unfold child join
  rw [if_neg hrelative, if_neg hwritten]

/-- An entry is written with its name at the end. -/
theorem written_child (p : Path) (hn : IsPlainName n) :
    (p.child n).bytes ≠ [] ∧ (p.child n).bytes.getLast? ≠ some slash := by
  refine ⟨?_, getLast?_bytes_child p hn⟩
  obtain ⟨front, hfront, -⟩ := exists_front_child p hn
  rw [hfront]
  intro hnil
  exact hn.1 (List.append_eq_nil_iff.1 hnil).2

theorem body_child (p : Path) (hn : IsPlainName n) : ∃ bs, (p.child n).body = bs ++ [n] := by
  have hpieces := pieces_of_notMem hn.2.1
  rcases child_cases p hn with ⟨rfl, hchild⟩ | ⟨b, rfl, hchild⟩ | ⟨b, hb, rfl, hchild⟩
  · have hhead : (⟨n⟩ : Path).head = [] := by
      have hcomponents := components_plainName hn
      rw [components_eq] at hcomponents
      rcases List.append_eq_singleton_iff.1 hcomponents with ⟨hhead, -⟩ | ⟨hhead, -⟩
      · exact hhead
      · exact absurd (hhead ▸ List.mem_singleton_self _) (name_notMem_head _ n)
    refine ⟨[], ?_⟩
    rw [hchild, body, hhead]
    exact hpieces
  · rw [hchild]
    cases b with
    | nil => exact ⟨[], hpieces⟩
    | cons c b =>
      refine ⟨(⟨c :: b⟩ : Path).body, ?_⟩
      rw [body_append_slash _ _ (List.cons_ne_nil c b), hpieces]
  · refine ⟨(⟨b⟩ : Path).body, ?_⟩
    rw [hchild, body_append_slash b n hb, hpieces]

/-- The directory that holds an entry of an entry is written as the latter is. -/
theorem parent?_child (p : Path) {m : Name} (hm : IsPlainName m) (hn : IsPlainName n) :
    ((p.child m).child n).parent? = some (p.child m) := by
  -- Of the pieces of the longer path only the last is taken off, since none of them is idle.
  have hwritten := written_child p hm
  obtain ⟨bs, hbody⟩ := body_child p hm
  have hidle : ∀ {k : Name}, IsPlainName k → isIdle k = false := by
    intro k hk
    simp [isIdle, hk.1, hk.2.2.1]
  have htrim : ∀ {k : Name} (bs : List Bytes), IsPlainName k →
      Cut.trimEnd isIdle (bs ++ [k]) = bs ++ [k] := by
    intro k bs hk
    simp [Cut.trimEnd, hidle hk]
  have hbytes := bytes_child hwritten hn.2.1
  have hhead := head_append_slash (p.child m).bytes n hwritten.1
  have hlonger := body_append_slash (p.child m).bytes n hwritten.1
  have hsame : ∀ q : Path, (⟨q.bytes⟩ : Path) = q := fun _ => rfl
  rw [← hbytes, hsame, hsame] at hhead hlonger
  rw [pieces_of_notMem hn.2.1, hbody] at hlonger
  have hfront : (if ((p.child m).child n).head.isEmpty then [] else
      ((p.child m).child n).bytes.take 1) = (p.child m).front := by
    rw [hhead, hbytes, front, List.take_append_of_le_length (List.length_pos_iff.2 hwritten.1)]
  unfold parent?
  dsimp only
  rw [hfront, hlonger, htrim _ hn, List.reverse_append]
  show some (⟨_ ++ Cut.join [slash] (Cut.trimEnd isIdle (bs ++ [m]).reverse.reverse)⟩ : Path) = _
  rw [List.reverse_reverse, htrim _ hm, ← hbody, ← bytes_eq]

end Path

namespace Invocation

/-! ## Section 2: Model -/

/-- The text of a name in lower case. -/
def lowerName (n : Name) : Text := (Utf8.decodeLossy n).map Text.lowerChar

/-- A binary framework. -/
def IsBundleName (n : Name) : Prop :=
  (Path.cutName n).2 = some (Utf8.encode "xcframework".toList)

/-- A slice for macOS, in whatever case. -/
def IsSliceName (n : Name) : Prop := "macos-".toList <+: lowerName n

def IsFrameworkName (n : Name) : Prop :=
  (Path.cutName n).2 = some (Utf8.encode "framework".toList)

/-- Headers, in whatever case. -/
def IsHeadersName (n : Name) : Prop := lowerName n = "headers".toList

instance (n : Name) : Decidable (IsBundleName n) := inferInstanceAs (Decidable (_ = _))
instance (n : Name) : Decidable (IsSliceName n) := inferInstanceAs (Decidable (_ <+: _))
instance (n : Name) : Decidable (IsFrameworkName n) := inferInstanceAs (Decidable (_ = _))
instance (n : Name) : Decidable (IsHeadersName n) := inferInstanceAs (Decidable (_ = _))

/-- The names lead into a slice for macOS that lies directly in a binary framework, and
    there to a framework or to headers. -/
def IsHeaderPlace (ns : List Name) : Prop :=
  ∃ above bundle slice n, ns = above ++ [bundle, slice, n] ∧ IsBundleName bundle ∧
    IsSliceName slice ∧ (IsFrameworkName n ∨ IsHeadersName n)

def buildName : Name := Utf8.encode ".build".toList
def artifactsName : Name := Utf8.encode "artifacts".toList

/-- The artifacts of the package in `dir`. -/
def artifacts (dir : Path) : Path := (dir.child buildName).child artifactsName

/-- The path of the headers at `ns` below `p`. -/
def headersAt (p : Path) (ns : List Name) : Path :=
  if ∃ n ∈ ns.getLast?, IsFrameworkName n then (p.below ns).child (Utf8.encode "Headers".toList)
  else p.below ns

/-! ## Section 3: One path -/

variable {p : Path} {cs : List Path.Component} {n bundle slice : Name} {ns : List Name}

theorem lowerName?_of_components (h : p.components = cs ++ [.name n]) :
    lowerName? p = some (lowerName n) := by
  rw [lowerName?, (Path.last_of_components h).1]
  rfl

/-- The two names before the last one decide whether a path lies in a slice. -/
theorem isInMacSlice_iff (h : p.components = cs ++ [.name slice, .name n]) :
    isInMacSlice p = true ↔
      IsSliceName slice ∧ ∃ bundle, cs.getLast? = some (.name bundle) ∧ IsBundleName bundle := by
  have hsplit : p.components = (cs ++ [.name slice]) ++ [.name n] := by simpa using h
  obtain ⟨q, hq, hqcomponents, -⟩ := Path.parent?_eq hsplit
  obtain ⟨r, hr, hrcomponents, -⟩ := Path.parent?_eq hqcomponents
  have hlower := lowerName?_of_components hqcomponents
  have hbundle : r.extension? = some (Utf8.encode "xcframework".toList) ↔
      ∃ bundle, cs.getLast? = some (.name bundle) ∧ IsBundleName bundle := by
    rw [Path.extension?, Path.fileName?, hrcomponents]
    split
    · next m hm => simp [hm, IsBundleName]
    · next hm =>
      constructor
      · nofun
      · rintro ⟨m, hlast, -⟩
        exact absurd hlast (hm m)
  unfold isInMacSlice
  rw [hq]
  dsimp only
  rw [hlower, hr, Option.bind_some, Option.any_some, Bool.and_eq_true, List.isPrefixOf_iff_prefix,
    decide_eq_true_iff, hbundle]
  rfl

/-- What stands for headers in a slice. -/
theorem headersOf?_of_components (h : p.components = cs ++ [.name n]) :
    headersOf? p =
      if isInMacSlice p = true ∧ (IsFrameworkName n ∨ IsHeadersName n) then
        some (if IsFrameworkName n then p.child (Utf8.encode "Headers".toList) else p)
      else none := by
  unfold headersOf?
  rw [lowerName?_of_components h, (Path.last_of_components h).2]
  by_cases hslice : isInMacSlice p = true
  · rw [if_neg (by simp [hslice])]
    by_cases hframework : IsFrameworkName n
    · have hextension : (Path.cutName n).2 = some (Utf8.encode "framework".toList) := hframework
      rw [if_pos hextension, if_pos ⟨hslice, .inl hframework⟩, if_pos hframework]
      rfl
    · have hextension : ¬ (Path.cutName n).2 = some (Utf8.encode "framework".toList) := hframework
      rw [if_neg hextension, if_neg hframework]
      by_cases hheaders : IsHeadersName n
      · rw [if_pos (congrArg some hheaders), if_pos ⟨hslice, .inr hheaders⟩]
      · rw [if_neg fun heq => hheaders (Option.some.inj heq), if_neg]
        rintro ⟨-, hname | hname⟩
        · exact hframework hname
        · exact hheaders hname
  · rw [if_pos (by simp [hslice]), if_neg fun hboth => hslice hboth.1]

/-! ## Section 4: Paths below the artifacts -/

theorem isPlainName_buildName : Path.IsPlainName buildName := by decide
theorem isPlainName_artifactsName : Path.IsPlainName artifactsName := by decide

theorem components_artifacts (dir : Path) : (artifacts dir).components =
    dir.components ++ [.name buildName, .name artifactsName] := by
  unfold artifacts
  rw [Path.components_child _ isPlainName_artifactsName,
    Path.components_child _ isPlainName_buildName]
  simp

/-- Below the artifacts, the names from there on decide. -/
theorem isInMacSlice_below (dir : Path) (hns : ∀ m ∈ ns ++ [n], Path.IsPlainName m) :
    isInMacSlice ((artifacts dir).below (ns ++ [n])) = true ↔
      ∃ above bundle slice, ns = above ++ [bundle, slice] ∧ IsBundleName bundle ∧
        IsSliceName slice := by
  have hcomponents := Path.components_below (artifacts dir) hns
  rw [components_artifacts] at hcomponents
  have hartifacts : ¬ IsSliceName artifactsName ∧ ¬ IsBundleName artifactsName := by
    decide +kernel
  induction ns using List.reverseRecOn with
  | nil =>
    have hlast : ((artifacts dir).below ([] ++ [n])).components =
        (dir.components ++ [.name buildName]) ++ [.name artifactsName, .name n] := by
      simpa using hcomponents
    rw [isInMacSlice_iff hlast]
    simp [hartifacts.1]
  | append_singleton front slice _ =>
    have hlast : ((artifacts dir).below (front ++ [slice] ++ [n])).components =
        (dir.components ++ .name buildName :: .name artifactsName :: front.map .name) ++
          [.name slice, .name n] := by
      simpa using hcomponents
    rw [isInMacSlice_iff hlast]
    induction front using List.reverseRecOn with
    | nil =>
      -- The slice would lie in the artifacts themselves.
      constructor
      · rintro ⟨-, m, hname, hbundle⟩
        have hm : artifactsName = m := by simpa using hname
        rw [← hm] at hbundle
        exact absurd hbundle hartifacts.2
      · rintro ⟨above, m, m', heq, -⟩
        have hlength := congrArg List.length heq
        simp at hlength
    | append_singleton above bundle _ =>
      have hbefore : (dir.components ++ Path.Component.name buildName ::
          Path.Component.name artifactsName ::
            (above ++ [bundle]).map Path.Component.name).getLast? =
              some (Path.Component.name bundle) := by
        simp [List.getLast?_append, List.getLast?_cons]
      rw [hbefore]
      constructor
      · rintro ⟨hslice, m, hm, hbundle⟩
        cases hm
        exact ⟨above, bundle, slice, by simp, hbundle, hslice⟩
      · rintro ⟨above', bundle', slice', heq, hbundle, hslice⟩
        have hnames : above ++ [bundle, slice] = above' ++ [bundle', slice'] := by simpa using heq
        obtain ⟨-, htail⟩ := List.append_inj' hnames rfl
        cases htail
        exact ⟨hslice, bundle, rfl, hbundle⟩

/-- A node below the artifacts stands for headers if its names say so. -/
theorem headersOf?_below (dir : Path) (hns : ∀ m ∈ ns, Path.IsPlainName m) :
    (IsHeaderPlace ns →
      headersOf? ((artifacts dir).below ns) = some (headersAt (artifacts dir) ns)) ∧
      (¬ IsHeaderPlace ns → headersOf? ((artifacts dir).below ns) = none) := by
  induction ns using List.reverseRecOn with
  | nil =>
    -- The artifacts themselves lie in the build directory, which is no slice.
    have hno : headersOf? (artifacts dir) = none := by
      have hslice : ¬ isInMacSlice (artifacts dir) = true := by
        rw [isInMacSlice_iff (components_artifacts dir)]
        intro h
        exact absurd h.1 (by decide +kernel)
      simp [headersOf?, hslice]
    refine ⟨?_, fun _ => hno⟩
    rintro ⟨above, bundle, slice, n, heq, -⟩
    have hlength := congrArg List.length heq
    simp at hlength
  | append_singleton front n _ =>
    have hcomponents := Path.components_below (artifacts dir) hns
    rw [List.map_append, ← List.append_assoc] at hcomponents
    have hslice := isInMacSlice_below dir hns
    have hplace : IsHeaderPlace (front ++ [n]) ↔
        isInMacSlice ((artifacts dir).below (front ++ [n])) = true ∧
          (IsFrameworkName n ∨ IsHeadersName n) := by
      rw [hslice]
      constructor
      · rintro ⟨above, bundle, slice, m, heq, hbundle, hname, hm⟩
        have hnames : front ++ [n] = (above ++ [bundle, slice]) ++ [m] := by simpa using heq
        obtain ⟨rfl, hlast⟩ := List.append_inj' hnames rfl
        obtain rfl := List.singleton_inj.1 hlast
        exact ⟨⟨above, bundle, slice, rfl, hbundle, hname⟩, hm⟩
      · rintro ⟨⟨above, bundle, slice, rfl, hbundle, hname⟩, hn⟩
        exact ⟨above, bundle, slice, n, by simp, hbundle, hname, hn⟩
    rw [headersOf?_of_components hcomponents]
    refine ⟨fun h => ?_, fun h => if_neg (mt hplace.2 h)⟩
    rw [if_pos (hplace.1 h), headersAt, List.getLast?_concat]
    by_cases hframework : IsFrameworkName n
    · rw [if_pos hframework, if_pos ⟨n, rfl, hframework⟩]
    · rw [if_neg hframework, if_neg]
      rintro ⟨m, hm, hname⟩
      cases hm
      exact hframework hname

end Invocation
end ScriptDeps
