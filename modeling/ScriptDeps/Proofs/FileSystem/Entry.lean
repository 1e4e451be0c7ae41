import ScriptDeps.Proofs.FileSystem.Route

/-! # Entries of a directory

    Once a path leads to a directory, what an operation does at the path of
    an entry is decided by the node at its location alone: one equation for
    `find`, and from it one for each operation. -/

namespace ScriptDeps
namespace FileSystem

variable {fs fs' : FileSystem} {cwd loc : Location} {p : Path} {n : Name}

/-! ## Section 1: Paths that lead somewhere -/

/-- The path `p` leads from `cwd` to `loc`. -/
def Leads (fs : FileSystem) (cwd : Location) (p : Path) (loc : Location) : Prop :=
  ∃ links, Route fs linkLimit cwd p.components links loc

theorem Leads.mono (h : Leads fs cwd p loc) (hkeeps : Keeps fs fs') : Leads fs' cwd p loc := by
  obtain ⟨links, hroute⟩ := h
  exact ⟨links, hroute.mono hkeeps⟩

theorem Leads.child (h : Leads fs cwd p loc) (hn : Path.IsEntryName n)
    (hnode : fs.at? (loc ++ [n]) = some .directory) : Leads fs cwd (p.child n) (loc ++ [n]) := by
  obtain ⟨links, hroute⟩ := h
  refine ⟨links, ?_⟩
  rw [Path.components_child p hn.1]
  exact hroute.append (.enter hn.2.2 hnode (.nil _ _))

theorem find_eq_walk (h : p.Fits) (last : Bool) :
    fs.find cwd last p = fs.walk last linkLimit cwd p.steps := by
  obtain ⟨hzero, hne, hlength⟩ := h
  unfold find
  rw [if_neg (by simpa using hzero), if_neg (by simpa using hne), if_neg (by omega)]

/-! ## Section 2: Finding an entry -/

/-- The last name of a walk: what is found is what is there. -/
theorem walk_last (hn : n.length ≤ nameLimit) {last : Bool} (links : Nat)
    (hlink : last = true → ∀ t, fs.at? (loc ++ [n]) ≠ some (.link t)) :
    fs.walk last links loc [.name n] =
      .ok (match fs.at? (loc ++ [n]) with
        | none => .missing loc n
        | some node => .node (loc ++ [n]) node) := by
  rw [walk_name _ _ _ _ hn]
  cases hnode : fs.at? (loc ++ [n]) with
  | none => rfl
  | some node =>
    cases node with
    | directory => dsimp only; rw [walk, hnode]; rfl
    | file content modified mode => rfl
    | pipe content => rfl
    | link t =>
      cases last with
      | false => rfl
      | true => exact absurd hnode (hlink rfl t)

theorem find_child (h : Leads fs cwd p loc) (hn : Path.IsEntryName n) (hfits : (p.child n).Fits)
    (last : Bool) (hlink : last = true → ∀ t, fs.at? (loc ++ [n]) ≠ some (.link t)) :
    fs.find cwd last (p.child n) =
      .ok (match fs.at? (loc ++ [n]) with
        | none => .missing loc n
        | some node => .node (loc ++ [n]) node) := by
  obtain ⟨links, hroute⟩ := h
  rw [find_eq_walk hfits, Path.steps_child p hn.1, hroute.walk_append last (List.cons_ne_nil _ _)]
  exact walk_last hn.2.2 links hlink

/-- An entry that links to another one of its directory: the other is found. -/
theorem find_linked {links : Nat} {t : Path} {n' : Name}
    (h : Route fs linkLimit cwd p.components (links + 1) loc) (hn : Path.IsEntryName n)
    (hfits : (p.child n).Fits) (hnode : fs.at? (loc ++ [n]) = some (.link t))
    (ht : t.steps = [.name n']) (hn' : n'.length ≤ nameLimit)
    (hlink : ∀ t, fs.at? (loc ++ [n']) ≠ some (.link t)) :
    fs.find cwd true (p.child n) =
      .ok (match fs.at? (loc ++ [n']) with
        | none => .missing loc n'
        | some node => .node (loc ++ [n']) node) := by
  rw [find_eq_walk hfits, Path.steps_child p hn.1, h.walk_append true (List.cons_ne_nil _ _),
    walk_name _ _ _ _ hn.2.2, hnode]
  dsimp only
  rw [ht]
  exact walk_last hn' links fun _ => hlink

/-- The system refuses a path by its bytes alone. -/
theorem find_of_not_fits (h : ¬ p.Fits) :
    ∃ e, ∀ (fs : FileSystem) (cwd : Location) (last : Bool), fs.find cwd last p = .error e := by
  by_cases hzero : p.bytes.contains 0 = true
  · exact ⟨.zeroByte, fun _ _ _ => if_pos hzero⟩
  by_cases hempty : p.bytes.isEmpty = true
  · refine ⟨.noEntry, fun _ _ _ => ?_⟩
    rw [find, if_neg hzero, if_pos hempty]
  by_cases hlength : p.bytes.length ≥ pathLimit
  · refine ⟨.nameTooLong, fun _ _ _ => ?_⟩
    rw [find, if_neg hzero, if_neg hempty, if_pos hlength]
  · exact absurd ⟨by simpa using hzero, by simpa using hempty, by omega⟩ h

theorem fits_of_find {last : Bool} {found : Found} (h : fs.find cwd last p = .ok found) :
    p.Fits := by
  refine Decidable.byContradiction fun hfits => ?_
  obtain ⟨e, herror⟩ := find_of_not_fits hfits
  rw [herror] at h
  cases h

/-- To find an entry, or to find it missing, is to find its directory. -/
theorem exists_leads_of_find (hn : Path.IsPlainName n) {last : Bool} {found : Found}
    (h : fs.find cwd last (p.child n) = .ok found) : ∃ loc, Leads fs cwd p loc := by
  have hwalk := h
  rw [find_eq_walk (fits_of_find h), Path.steps_child p hn] at hwalk
  obtain ⟨links, loc, hroute⟩ := exists_route_of_walk hwalk
  exact ⟨loc, links, hroute⟩

/-- A name that no entry can have is not looked for. -/
theorem find_child_error (h : Leads fs cwd p loc) (hn : Path.IsPlainName n)
    (hentry : ¬ (Path.IsEntryName n ∧ (p.child n).Fits)) (last : Bool) :
    ∃ e, fs.find cwd last (p.child n) = .error e := by
  by_cases hfits : (p.child n).Fits
  · obtain ⟨links, hroute⟩ := h
    -- A path that fits holds no zero byte, so the name can only be too long.
    have hlong : n.length > nameLimit := by
      refine Nat.lt_of_not_le fun hle => hentry ⟨⟨hn, ?_, hle⟩, hfits⟩
      obtain ⟨front, hfront, _⟩ := Path.exists_front_child p hn
      intro hzero
      exact hfits.1 (hfront ▸ List.mem_append_right _ hzero)
    refine ⟨.nameTooLong, ?_⟩
    rw [find_eq_walk hfits, Path.steps_child p hn,
      hroute.walk_append last (List.cons_ne_nil _ _), walk, if_pos hlong]
  · obtain ⟨e, herror⟩ := find_of_not_fits hfits
    exact ⟨e, herror fs cwd last⟩

/-- Only a name that an entry can have is found. -/
theorem isEntryName_of_find (hn : Path.IsPlainName n) {last : Bool} {found : Found}
    (h : fs.find cwd last (p.child n) = .ok found) : Path.IsEntryName n := by
  refine Decidable.byContradiction fun hentry => ?_
  obtain ⟨loc, hleads⟩ := exists_leads_of_find hn h
  obtain ⟨e, herror⟩ := find_child_error hleads hn (fun hboth => hentry hboth.1) last
  rw [h] at herror
  cases herror

theorem findNode_child (h : Leads fs cwd p loc) (hn : Path.IsEntryName n)
    (hfits : (p.child n).Fits) (last : Bool)
    (hlink : last = true → ∀ t, fs.at? (loc ++ [n]) ≠ some (.link t)) :
    fs.findNode cwd last (p.child n) =
      match fs.at? (loc ++ [n]) with
      | none => .error .noEntry
      | some node => .ok (loc ++ [n], node) := by
  unfold findNode
  rw [find_child h hn hfits last hlink]
  cases fs.at? (loc ++ [n]) <;> rfl

/-! ## Section 3: Operations on an entry -/

/-- An entry that an operation would not follow elsewhere. -/
def NoLink (fs : FileSystem) (loc : Location) : Prop := ∀ t, fs.at? loc ≠ some (.link t)

/-- To put a file in place of a file, or where nothing was, loses no
    directory and no link. -/
theorem keeps_put_file (hroot : loc ≠ []) (hdir : fs.at? loc ≠ some .directory)
    (hlink : NoLink fs loc) (node : Node) : Keeps fs (fs.put loc node) := by
  intro other n hn hkind
  by_cases hloc : other = loc
  · subst hloc
    rcases hkind with rfl | hkind
    · exact absurd hn hdir
    · cases n with
      | link t => exact absurd hn (hlink t)
      | directory => cases hkind
      | file content modified mode => cases hkind
      | pipe content => cases hkind
  · rw [at?_put_ne fs node hloc]
    exact hn

theorem noLink_of_readLink (h : Leads fs cwd p loc) (hn : Path.IsEntryName n)
    (hfits : (p.child n).Fits) (hlink : ∀ t, fs.readLink cwd (p.child n) ≠ .ok t) :
    NoLink fs (loc ++ [n]) := by
  intro t hnode
  have hfind := findNode_child h hn hfits false (by simp)
  rw [hnode] at hfind
  refine hlink t ?_
  rw [readLink, hfind]

/-- What is found at an entry that is no link depends on its node alone. -/
theorem findNode_congr (h : Leads fs cwd p loc) (h' : Leads fs' cwd p loc)
    (hn : Path.IsEntryName n) (hlink : ∀ t, fs.readLink cwd (p.child n) ≠ .ok t)
    (hsame : fs'.at? (loc ++ [n]) = fs.at? (loc ++ [n])) :
    fs'.findNode cwd true (p.child n) = fs.findNode cwd true (p.child n) := by
  -- A path that the system refuses is refused for its bytes, whatever the files are.
  by_cases hfits : (p.child n).Fits
  · have hnone := noLink_of_readLink h hn hfits hlink
    rw [findNode_child h hn hfits true fun _ => hnone,
      findNode_child h' hn hfits true fun _ t => hsame ▸ hnone t, hsame]
  · obtain ⟨e, herror⟩ := find_of_not_fits hfits
    rw [findNode, findNode, herror, herror]

theorem read_child (h : Leads fs cwd p loc) (hn : Path.IsEntryName n) (hfits : (p.child n).Fits)
    (hlink : NoLink fs (loc ++ [n])) :
    fs.read cwd (p.child n) =
      match fs.at? (loc ++ [n]) with
      | none => .error .noEntry
      | some (.file content ..) => .ok content
      | some (.pipe content) => .ok content
      | some _ => .error .isDirectory := by
  unfold read
  rw [findNode_child h hn hfits true fun _ => hlink]
  cases fs.at? (loc ++ [n]) with
  | none => rfl
  | some node => cases node <;> rfl

theorem isPresent_child (h : Leads fs cwd p loc) (hn : Path.IsEntryName n)
    (hfits : (p.child n).Fits) (hlink : NoLink fs (loc ++ [n])) :
    fs.isPresent cwd (p.child n) = (fs.at? (loc ++ [n])).isSome := by
  unfold isPresent
  rw [findNode_child h hn hfits true fun _ => hlink]
  cases fs.at? (loc ++ [n]) <;> rfl

theorem write_child (h : Leads fs cwd p loc) (hn : Path.IsEntryName n) (hfits : (p.child n).Fits)
    (hlink : NoLink fs (loc ++ [n])) (now : Instant) (content : Bytes) :
    fs.write cwd now (p.child n) content =
      match fs.at? (loc ++ [n]) with
      | none => .ok (fs.put (loc ++ [n]) (.file content now plainMode))
      | some (.file _ _ mode) => .ok (fs.put (loc ++ [n]) (.file content now mode))
      | some (.pipe _) => .ok fs
      | some _ => .error .isDirectory := by
  unfold write
  rw [find_child h hn hfits true fun _ => hlink]
  cases fs.at? (loc ++ [n]) with
  | none => dsimp only; rw [if_neg (Path.getLast?_bytes_child p hn.1)]
  | some node => cases node <;> rfl

theorem setMode_child (h : Leads fs cwd p loc) (hn : Path.IsEntryName n)
    (hfits : (p.child n).Fits) (hlink : NoLink fs (loc ++ [n])) (mode : Nat) :
    fs.setMode cwd (p.child n) mode =
      match fs.at? (loc ++ [n]) with
      | none => .error .noEntry
      | some (.file content modified _) => .ok (fs.put (loc ++ [n]) (.file content modified mode))
      | some _ => .ok fs := by
  unfold setMode
  rw [findNode_child h hn hfits true fun _ => hlink]
  cases fs.at? (loc ++ [n]) with
  | none => rfl
  | some node => cases node <;> rfl

theorem removeFile_child (h : Leads fs cwd p loc) (hn : Path.IsEntryName n)
    (hfits : (p.child n).Fits) :
    fs.removeFile cwd (p.child n) =
      match fs.at? (loc ++ [n]) with
      | none => .error .noEntry
      | some .directory => .error .isDirectory
      | some _ => .ok (fs.erase (loc ++ [n])) := by
  unfold removeFile
  rw [findNode_child h hn hfits false (by simp)]
  cases fs.at? (loc ++ [n]) with
  | none => rfl
  | some node => cases node <;> rfl

theorem link_child (h : Leads fs cwd p loc) (hn : Path.IsEntryName n) (hfits : (p.child n).Fits)
    {target : Path} (htarget : target.bytes ≠ []) :
    fs.link cwd target (p.child n) =
      match fs.at? (loc ++ [n]) with
      | none => .ok (fs.put (loc ++ [n]) (.link target))
      | some _ => .error .alreadyExists := by
  unfold link
  rw [if_neg (by simpa using htarget), find_child h hn hfits false (by simp)]
  cases fs.at? (loc ++ [n]) <;> rfl

/-- To make a link changes nothing but the entry of its name, if that. -/
theorem link_other (h : Leads fs cwd p loc) (hn : Path.IsPlainName n) (target : Path)
    {other : Location} (hother : other ≠ loc ++ [n]) :
    (((fs.link cwd target (p.child n)).toOption).getD fs).at? other = fs.at? other := by
  by_cases htarget : target.bytes = []
  · unfold link
    rw [if_pos (by simpa using htarget)]
    rfl
  · by_cases hentry : Path.IsEntryName n ∧ (p.child n).Fits
    · rw [link_child h hentry.1 hentry.2 htarget]
      cases fs.at? (loc ++ [n]) with
      | none => exact at?_put_ne fs _ hother
      | some node => rfl
    · obtain ⟨e, hfind⟩ := find_child_error h hn hentry false
      unfold link
      rw [if_neg (by simpa using htarget), hfind]
      rfl

/-- A file that is removed is that of its name. -/
theorem eq_erase_of_removeFile (h : Leads fs cwd p loc) (hn : Path.IsPlainName n)
    (hremove : fs.removeFile cwd (p.child n) = .ok fs') : fs' = fs.erase (loc ++ [n]) := by
  by_cases hentry : Path.IsEntryName n ∧ (p.child n).Fits
  · rw [removeFile_child h hentry.1 hentry.2] at hremove
    split at hremove
    · cases hremove
    · cases hremove
    · cases hremove
      rfl
  · obtain ⟨e, hfind⟩ := find_child_error h hn hentry false
    unfold removeFile findNode at hremove
    rw [hfind] at hremove
    cases hremove

/-- Makes or finds the directory of an entry. -/
theorem makeDirectory_child (h : Leads fs cwd p loc) (hn : Path.IsEntryName n)
    (hfits : (p.child n).Fits) :
    fs.makeDirectory cwd (p.child n) =
      match fs.at? (loc ++ [n]) with
      | none => .ok (fs.put (loc ++ [n]) .directory)
      | some _ => .error .alreadyExists := by
  unfold makeDirectory
  rw [find_child h hn hfits false (by simp)]
  cases fs.at? (loc ++ [n]) <;> rfl

end FileSystem
end ScriptDeps
