import ScriptDeps.Proofs.Concurrent.Interleaving
import ScriptDeps.Proofs.Prepare.Reachable

/-! # Caches that runs share

    What runs on one cache keep true of it at every moment, and what none of
    them takes away from the others.  A cache is as the runs keep it
    (`IsShared`) if every manifest has the digest that its entry is named after
    and every record is one that is known for its entry.  It only grows
    (`Grows`): what a run has found in its entry stays there.  Each change that
    a run makes keeps the one and is an instance of the other. -/

namespace ScriptDeps

open FileSystem Store

variable {ι : Type}

/-! ## Section 1: Model -/

/-- A cache and the runs that share it. -/
structure Sharing (ι : Type) where
  store     : Store
  cwd       : Location
  /-- The location of the cache root. -/
  top       : Location
  /-- The files before the runs. -/
  start     : FileSystem
  /-- The manifest of each run. -/
  manifests : ι → Manifest
  /-- The resolutions before the runs: of which manifest, in release mode or
      not, and with which arguments as their result. -/
  past      : Bytes → Bool → List Text → Prop

namespace Sharing

variable (S : Sharing ι)

/-- The entry of the run `i`. -/
def entry (i : ι) : Path := S.store.entry (S.manifests i).hash

/-- The location of the entry of the run `i`. -/
def place (i : ι) : Location := entryAt S.top (S.manifests i).hash

/-- The name of an entry that some run uses. -/
def Uses (n : Name) : Prop := ∃ i, n = Utf8.encode (S.manifests i).hash

/-- The manifest of the run `i` is in its entry. -/
def HasManifest (i : ι) (fs : FileSystem) : Prop :=
  ∃ modified mode, fs.at? (S.place i ++ [manifestName]) =
    some (.file (S.manifests i).bytes modified mode)

/-- What the file called `f` may be in the entry called `n`, if `known` tells
    which records are known. -/
structure IsRightFile (known : Record → Prop) (n f : Name) (node : Node) : Prop where
  manifest    : f = manifestName → IsManifestOf n node
  placeholder : f = placeholderName → S.Uses n → node.isFile = true
  plain       : f = recordName → S.Uses n → node = .directory ∨ node.isFile = true
  record      : f = recordName → ∀ content modified mode r, node = .file content modified mode →
    (Utf8.decode content).bind Record.ofText? = some r → n = Utf8.encode r.hash ∧ known r

/-- What may be found at the end of `names` from the root of the cache. -/
def IsRight (known : Record → Prop) (names : List Name) (node : Node) : Prop :=
  match names with
  | [n] => n = storeName ∨ n = markersName → node = .directory
  | [n, e] => n = storeName → S.Uses e → node = .directory
  | [n, e, f] => n = storeName → S.IsRightFile known e f node
  | _ => True

/-- Outside the cache nothing has changed, but that the way to it may have been
    made. -/
def Outside (fs : FileSystem) : Prop :=
  ∀ loc, ¬ IsBelow S.top loc →
    fs.at? loc = S.start.at? loc ∨ loc <+: S.top ∧ S.start.at? loc = none

/-- The cache is as the runs keep it. -/
structure IsShared (known : Record → Prop) (fs : FileSystem) : Prop where
  located : S.store.Located S.cwd S.top fs
  outside : S.Outside fs
  right   : ∀ names node, fs.at? (S.top ++ names) = some node → S.IsRight known names node

/-- No run loses what it has found or left in `fs`. -/
structure Grows (fs fs' : FileSystem) : Prop where
  stands  : S.store.Stands S.cwd S.top fs → S.store.Stands S.cwd S.top fs'
  entries : ∀ i, DirectoriesAlong fs S.top [storeName, Utf8.encode (S.manifests i).hash] →
    DirectoriesAlong fs' S.top [storeName, Utf8.encode (S.manifests i).hash]
  markers : fs.at? (S.top ++ [markersName]) = some .directory →
    fs'.at? (S.top ++ [markersName]) = some .directory
  content : ∀ i, S.HasManifest i fs → S.HasManifest i fs'

/-- The manifests of the runs and of past resolutions have different digests
    where they differ. -/
structure IsDistinct : Prop where
  runs : ∀ i j, (S.manifests i).hash = (S.manifests j).hash →
    (S.manifests i).bytes = (S.manifests j).bytes
  past : ∀ content release args, S.past content release args →
    ∀ i, sha256Hex content = (S.manifests i).hash → content = (S.manifests i).bytes

variable {S} {known known' : Record → Prop} {fs fs' fs'' : FileSystem} {names : List Name}
  {node : Node} {i j : ι}

/-! ## Section 2: Nodes that are right -/

theorem place_append (S : Sharing ι) (i : ι) (names : List Name) :
    S.place i ++ names = S.top ++ storeName :: Utf8.encode (S.manifests i).hash :: names :=
  entryAt_append ..

theorem isRight_of_directory (hlength : names.length ≤ 2) : S.IsRight known names .directory := by
  match names with
  | [] => trivial
  | [_] => exact fun _ => rfl
  | [_, _] => exact fun _ _ => rfl
  | _ :: _ :: _ :: _ =>
    simp only [List.length_cons] at hlength
    omega

/-- Nothing is asked of what is built in an entry. -/
theorem isRight_of_build {n : Name} {rest : List Name} :
    S.IsRight known (storeName :: n :: buildName :: rest) node := by
  cases rest with
  | nil =>
    intro _
    exact ⟨fun hf => absurd hf (by decide), fun hf => absurd hf (by decide),
      fun hf => absurd hf (by decide), fun hf => absurd hf (by decide)⟩
  | cons _ _ => trivial

theorem isRight_of_marker {n : Name} : S.IsRight known [markersName, n] node :=
  fun hn => absurd hn (by decide)

theorem isRight_manifest {n : Name} (hmanifest : IsManifestOf n node) :
    S.IsRight known [storeName, n, manifestName] node :=
  fun _ => ⟨fun _ => hmanifest, fun hf => absurd hf (by decide), fun hf => absurd hf (by decide),
    fun hf => absurd hf (by decide)⟩

theorem isRight_placeholder {n : Name} (hfile : node.isFile = true) :
    S.IsRight known [storeName, n, placeholderName] node :=
  fun _ => ⟨fun hf => absurd hf (by decide), fun _ _ => hfile, fun hf => absurd hf (by decide),
    fun hf => absurd hf (by decide)⟩

theorem isRight_record {n : Name} {t : Text} {modified : Instant} {mode : Nat}
    (hread : ∀ r, Record.ofText? t = some r → n = Utf8.encode r.hash ∧ known r) :
    S.IsRight known [storeName, n, recordName] (.file (Utf8.encode t) modified mode) := by
  refine fun _ => ⟨fun hf => absurd hf (by decide), fun hf => absurd hf (by decide),
    fun _ _ => .inr rfl, fun _ content modified' mode' r heq hread' => ?_⟩
  cases heq
  rw [Utf8.decode_encode, Option.bind_some] at hread'
  exact hread r hread'

theorem IsRight.mono (h : S.IsRight known names node) (hknown : ∀ r, known r → known' r) :
    S.IsRight known' names node := by
  match names with
  | [] => trivial
  | [_] => exact h
  | [_, _] => exact h
  | [_, _, _] =>
    intro hn
    obtain ⟨hmanifest, hplaceholder, hplain, hrecord⟩ := h hn
    refine ⟨hmanifest, hplaceholder, hplain, fun hf content modified mode r heq hread => ?_⟩
    obtain ⟨hhash, hr⟩ := hrecord hf content modified mode r heq hread
    exact ⟨hhash, hknown r hr⟩
  | _ :: _ :: _ :: _ :: _ => trivial

theorem IsShared.mono (h : S.IsShared known fs) (hknown : ∀ r, known r → known' r) :
    S.IsShared known' fs :=
  ⟨h.located, h.outside, fun names node hnode => (h.right names node hnode).mono hknown⟩

/-! ## Section 3: What is found in a shared cache -/

theorem IsShared.file (h : S.IsShared known fs) {f : Name}
    (hnode : fs.at? (S.place i ++ [f]) = some node) :
    S.IsRightFile known (Utf8.encode (S.manifests i).hash) f node := by
  rw [place_append] at hnode
  exact h.right _ node hnode rfl

theorem uses (S : Sharing ι) (i : ι) : S.Uses (Utf8.encode (S.manifests i).hash) := ⟨i, rfl⟩

/-- The manifest of an entry is missing, or is a file. -/
theorem IsShared.isPlain_manifest (h : S.IsShared known fs) (i : ι) :
    IsPlain fs (S.place i ++ [manifestName]) ∧
      fs.at? (S.place i ++ [manifestName]) ≠ some .directory := by
  refine ⟨fun node hnode => ?_, fun hnode => ?_⟩
  · obtain ⟨_, _, _, rfl, _⟩ := (h.file hnode).manifest rfl
    exact .inr rfl
  · obtain ⟨_, _, _, heq, _⟩ := (h.file hnode).manifest rfl
    cases heq

theorem IsShared.isPlain_placeholder (h : S.IsShared known fs) (i : ι) :
    IsPlain fs (S.place i ++ [placeholderName]) ∧
      fs.at? (S.place i ++ [placeholderName]) ≠ some .directory := by
  refine ⟨fun node hnode => .inr ((h.file hnode).placeholder rfl (S.uses i)), fun hnode => ?_⟩
  cases (h.file hnode).placeholder rfl (S.uses i)

theorem IsShared.isPlain_record (h : S.IsShared known fs) (i : ι) :
    IsPlain fs (S.place i ++ [recordName]) :=
  fun _ hnode => (h.file hnode).plain rfl (S.uses i)

theorem IsShared.clear_entry (h : S.IsShared known fs) (i : ι) :
    ClearAlong fs S.top [storeName, Utf8.encode (S.manifests i).hash] := by
  refine ⟨?_, ?_, trivial⟩
  · cases hnode : fs.at? (S.top ++ [storeName]) with
    | none => exact .inl rfl
    | some node =>
      obtain rfl := h.right [storeName] node hnode (.inl rfl)
      exact .inr rfl
  · rw [List.append_assoc]
    cases hnode : fs.at? (S.top ++ ([storeName] ++ [Utf8.encode (S.manifests i).hash])) with
    | none => exact .inl rfl
    | some node =>
      obtain rfl := h.right [storeName, _] node hnode rfl (S.uses i)
      exact .inr rfl

theorem IsShared.clear_markers (h : S.IsShared known fs) :
    ClearAlong fs S.top [markersName] := by
  refine ⟨?_, trivial⟩
  cases hnode : fs.at? (S.top ++ [markersName]) with
  | none => exact .inl rfl
  | some node =>
    obtain rfl := h.right [markersName] node hnode (.inr rfl)
    exact .inr rfl

/-! ## Section 4: What stays -/

theorem Grows.refl (S : Sharing ι) (fs : FileSystem) : S.Grows fs fs :=
  ⟨id, fun _ => id, id, fun _ => id⟩

theorem Grows.trans (h : S.Grows fs fs') (h' : S.Grows fs' fs'') : S.Grows fs fs'' :=
  ⟨fun hs => h'.stands (h.stands hs), fun i hi => h'.entries i (h.entries i hi),
    fun hm => h'.markers (h.markers hm), fun i hi => h'.content i (h.content i hi)⟩

/-- What is added takes nothing away. -/
theorem Grows.of_kept (hkept : ∀ loc node, fs.at? loc = some node → fs'.at? loc = some node) :
    S.Grows fs fs' := by
  exact ⟨fun hs => hs.of_kept hkept,
    fun i hi => hi.mono fun loc node hnode _ => hkept loc node hnode, hkept _ _,
    fun i ⟨modified, mode, hnode⟩ => ⟨modified, mode, hkept _ _ hnode⟩⟩

/-! ## Section 5: Changes -/

theorem at?_of_directoriesAlong {here : Location} {ns front : List Name}
    (h : DirectoriesAlong fs here ns) (hfront : front <+: ns) (hne : front ≠ []) :
    fs.at? (here ++ front) = some .directory := by
  obtain ⟨rest, rfl⟩ := hfront
  exact (directoriesAlong_append.1 h).1.at?_append hne

/-- To make directories is in keeping with the others. -/
theorem IsShared.made (h : S.IsShared known fs) (hstands : S.store.Stands S.cwd S.top fs')
    (hmade : MadeAlong fs fs' S.top names) (hlength : names.length ≤ 2) :
    S.IsShared known fs' ∧ S.Grows fs fs' := by
  refine ⟨⟨.inr hstands, fun loc hloc => ?_, fun names' node hnode => ?_⟩, .of_kept hmade.kept⟩
  · by_cases hfront : loc <+: S.top ++ names
    · -- Nothing but the way to the root is made outside the cache.
      have htop : loc <+: S.top := by
        rcases List.prefix_or_prefix_of_prefix hfront (List.prefix_append S.top names) with
          htop | hbelow
        · exact htop
        · exact (Decidable.byContradiction fun hne => hloc ⟨hbelow, hne⟩ : loc = S.top) ▸
            List.prefix_rfl
      cases hstart : S.start.at? loc with
      | none => exact .inr ⟨htop, rfl⟩
      | some node =>
        rcases h.outside loc hloc with hsame | ⟨_, hnone⟩
        · exact .inl (hmade.kept loc node (hsame.trans hstart))
        · rw [hstart] at hnone
          cases hnone
    · rw [hmade.other loc hfront]
      exact h.outside loc hloc
  · -- Below the root only directories are made, and none where a file belongs.
    by_cases hfront : S.top ++ names' <+: S.top ++ names
    · have hfront := (List.prefix_append_right_inj S.top).1 hfront
      by_cases hnil : names' = []
      · subst hnil
        trivial
      · obtain rfl := Option.some.inj
          (hnode.symm.trans (at?_of_directoriesAlong hmade.along hfront hnil))
        exact isRight_of_directory (hfront.length_le.trans hlength)
    · rw [hmade.other _ hfront] at hnode
      exact h.right names' node hnode

/-- To change what is below the root is in keeping with the others if what is
    there then is right, the entries stay, and a manifest gives way to itself
    only. -/
theorem IsShared.changed (h : S.IsShared known fs) (hstands : S.store.Stands S.cwd S.top fs)
    (changes : List Name → Prop)
    (hsame : ∀ loc, (∀ names, loc = S.top ++ names → ¬ changes names) → fs'.at? loc = fs.at? loc)
    (hlength : ∀ names, changes names → names ≠ [] ∧ ∀ e, names ≠ [e] ∧ names ≠ [storeName, e])
    (hright : ∀ names node, changes names → fs'.at? (S.top ++ names) = some node →
      S.IsRight known names node)
    (hmanifest : ∀ i, changes [storeName, Utf8.encode (S.manifests i).hash, manifestName] →
      S.HasManifest i fs') :
    S.IsShared known fs' ∧ S.Grows fs fs' := by
  have hbelow : SameAbove S.top fs fs' := by
    refine fun loc hloc => hsame loc ?_
    rintro names rfl hnames
    exact hloc (isBelow_append S.top (hlength names hnames).1)
  -- The changed names are below an entry, so neither the way to an entry is among them
  -- nor the way to the root.
  have hat : ∀ names, ¬ changes names → fs'.at? (S.top ++ names) = fs.at? (S.top ++ names) := by
    intro names hnames
    refine hsame _ fun names' heq => ?_
    obtain rfl := List.append_cancel_left heq
    exact hnames
  have hstands' := hstands.of_below hbelow
  refine ⟨⟨.inr hstands', fun loc hloc => ?_, fun names node hnode => ?_⟩,
    ⟨fun _ => hstands', fun i hi => ?_, fun hdir => ?_, fun i hi => ?_⟩⟩
  · rw [hbelow loc hloc]
    exact h.outside loc hloc
  · by_cases hnames : changes names
    · exact hright names node hnames hnode
    · rw [hat names hnames] at hnode
      exact h.right names node hnode
  · rw [directoriesAlong_entry, entryAt] at hi ⊢
    rw [hat _ fun hnames => ((hlength _ hnames).2 _).1 rfl,
      hat _ fun hnames => ((hlength _ hnames).2 _).2 rfl]
    exact hi
  · rw [hat _ fun hnames => ((hlength _ hnames).2 _).1 rfl]
    exact hdir
  · by_cases hnames : changes [storeName, Utf8.encode (S.manifests i).hash, manifestName]
    · exact hmanifest i hnames
    · obtain ⟨modified, mode, hnode⟩ := hi
      refine ⟨modified, mode, ?_⟩
      rw [place_append] at hnode ⊢
      rw [hat _ hnames]
      exact hnode

/-- To write a file of the own entry is in keeping with the others if the file
    is right, and a manifest the own one. -/
theorem IsShared.written (h : S.IsShared known fs) (hdistinct : S.IsDistinct)
    (hstands : S.store.Stands S.cwd S.top fs) {f : Name} {content : Bytes} {modified : Instant}
    {mode : Nat}
    (hright : S.IsRight known [storeName, Utf8.encode (S.manifests i).hash, f]
      (.file content modified mode))
    (hmanifest : f = manifestName → content = (S.manifests i).bytes) :
    S.IsShared known (fs.put (S.place i ++ [f]) (.file content modified mode)) ∧
      S.Grows fs (fs.put (S.place i ++ [f]) (.file content modified mode)) := by
  have hself : (fs.put (S.place i ++ [f]) (.file content modified mode)).at? (S.place i ++ [f]) =
      some (.file content modified mode) := at?_put_self _ _ (by simp)
  refine h.changed hstands (· = [storeName, Utf8.encode (S.manifests i).hash, f])
    (fun loc hloc => at?_put_ne _ _ ?_) ?_ ?_ ?_
  · rintro rfl
    exact hloc _ (place_append S i [f]) rfl
  · rintro _ rfl
    exact ⟨by simp, fun e => by simp⟩
  · rintro _ node rfl hnode
    rw [← place_append] at hnode
    obtain rfl := Option.some.inj (hnode.symm.trans hself)
    exact hright
  · -- Who has the same entry has the same manifest, so it is this one for him as well.
    intro j hj
    simp only [List.cons.injEq, and_true, true_and] at hj
    obtain ⟨hhash, rfl⟩ := hj
    have hhash := Utf8.encode_injective hhash
    refine ⟨modified, mode, ?_⟩
    have hplace : S.place j = S.place i := by rw [place, place, hhash]
    rw [hplace, hdistinct.runs j i hhash, ← hmanifest rfl]
    exact hself

/-- So is to build in the own entry. -/
theorem IsShared.built (h : S.IsShared known fs) (hstands : S.store.Stands S.cwd S.top fs)
    (hbuilt : BuiltIn (S.place i) fs fs') : S.IsShared known fs' ∧ S.Grows fs fs' := by
  refine h.changed hstands
    ([storeName, Utf8.encode (S.manifests i).hash, buildName] <+: ·)
    (fun loc hloc => hbuilt loc ?_) ?_ ?_ ?_
  · rintro ⟨rest, rfl⟩
    refine hloc _ (by rw [List.append_assoc, place_append]) ?_
    exact ⟨rest, rfl⟩
  · rintro _ ⟨rest, rfl⟩
    exact ⟨by simp, fun e => by simp⟩
  · rintro _ node ⟨rest, rfl⟩ _
    exact isRight_of_build
  · rintro j ⟨rest, hrest⟩
    simp only [List.cons_append, List.nil_append, List.cons.injEq] at hrest
    exact absurd hrest.2.2.1 (by decide)

/-- So is to make or remove a marker. -/
theorem IsShared.marked (h : S.IsShared known fs) (hstands : S.store.Stands S.cwd S.top fs)
    {n : Name} (hsame : ∀ loc, loc ≠ S.top ++ [markersName] ++ [n] → fs'.at? loc = fs.at? loc) :
    S.IsShared known fs' ∧ S.Grows fs fs' := by
  refine h.changed hstands (· = [markersName, n]) (fun loc hloc => hsame loc ?_) ?_ ?_ ?_
  · rintro rfl
    exact hloc _ (by rw [List.append_assoc]; rfl) rfl
  · rintro _ rfl
    refine ⟨by simp, fun e => ⟨by simp, ?_⟩⟩
    intro heq
    exact absurd (List.cons.inj heq).1 (by decide)
  · rintro _ node rfl _
    exact isRight_of_marker
  · intro j hj
    exact absurd (congrArg List.length hj) (by simp)

end Sharing
end ScriptDeps
