import ScriptDeps.Proofs.Concurrent.SharedCache

/-! # What runs on one cache keep to

    The records of a shared cache are those of resolutions: past ones, or ones
    that can be read off the steps of the runs (`Resolved`).  This, and that
    the cache only grows, is the discipline that the runs keep to.  It says
    enough for each of them: what a run has made of its entry stays
    (`lasts_isOpen`, `lasts_isReady`), and a record with the digest of its
    manifest holds an answer to it (`Known.isAnswer`). -/

namespace ScriptDeps

open FileSystem Store

variable {ι : Type}

namespace Sharing

/-! ## Section 1: Model -/

section Model

variable [DecidableEq ι] (S : Sharing ι)

/-- Among the steps are those of a resolution: in its entry, in which the
    manifest was `content` all the time, a run has asked the toolchain, and
    `args` is what it has made of the answers. -/
def Resolved (steps : List (Step ι)) (content : Bytes) (release : Bool) (args : List Text) :
    Prop :=
  ∃ (j : ι) (o : Resolve.Options) (before mine later : List (Step ι)),
    steps.filter (·.who = j) = before ++ mine ++ later ∧
    Program.Follows (ExceptT.run (Resolve.invocation (S.entry j) o)) mine (.ok args) ∧
    (∀ s ∈ mine, S.HasManifest j s.files) ∧ (S.manifests j).bytes = content ∧ o.release = release

/-- The arguments of a record are those of a resolution of a manifest with its
    digest. -/
def Known (steps : List (Step ι)) (r : Record) : Prop :=
  ∃ content, sha256Hex content = r.hash ∧
    (S.past content r.releaseMode r.args ∨ S.Resolved steps content r.releaseMode r.args)

/-- The arguments are those of a resolution of the manifest of the run `i`. -/
def IsAnswer (i : ι) (release : Bool) (args : List Text) (w : World ι) : Prop :=
  S.past (S.manifests i).bytes release args ∨
    S.Resolved w.steps (S.manifests i).bytes release args

/-- The entry of the run `i` has been made. -/
def IsOpen (i : ι) (w : World ι) : Prop :=
  S.store.Stands S.cwd S.top w.files ∧
    DirectoriesAlong w.files S.top [storeName, Utf8.encode (S.manifests i).hash]

/-- The entry of the run `i` has been made and holds its manifest. -/
def IsReady (i : ι) (w : World ι) : Prop := S.IsOpen i w ∧ S.HasManifest i w.files

/-- The entry of the run `i` is ready, and the arguments answer its manifest. -/
def HasAnswer (i : ι) (release : Bool) (args : List Text) (w : World ι) : Prop :=
  S.IsReady i w ∧ S.IsAnswer i release args w

/-- The entry of the run `i` is ready, and a record that has been found answers
    its manifest. -/
def Finds (i : ι) (found : Option Record) (w : World ι) : Prop :=
  S.IsReady i w ∧ ∀ r, found = some r → S.IsAnswer i r.releaseMode r.args w

/-- The entry of the run `i` has been made, and so has the directory of the
    markers. -/
def HasMarkers (i : ι) (w : World ι) : Prop :=
  S.IsOpen i w ∧ w.files.at? (S.top ++ [markersName]) = some .directory

variable {S}

theorem Resolved.mono {steps steps' : List (Step ι)} (hsteps : steps <+: steps') {content : Bytes}
    {release : Bool} {args : List Text} (h : S.Resolved steps content release args) :
    S.Resolved steps' content release args := by
  obtain ⟨j, o, before, mine, later, hown, hmine⟩ := h
  obtain ⟨more, rfl⟩ := hsteps
  refine ⟨j, o, before, mine, later ++ more.filter (·.who = j), ?_, hmine⟩
  rw [List.filter_append, hown, List.append_assoc _ later]

theorem Known.mono {steps steps' : List (Step ι)} (hsteps : steps <+: steps') {r : Record}
    (h : S.Known steps r) : S.Known steps' r := by
  obtain ⟨content, hhash, hargs⟩ := h
  exact ⟨content, hhash, hargs.imp_right (·.mono hsteps)⟩

/-- The steps of a resolution start with the call of the toolchain. -/
theorem Resolved.asks {steps : List (Step ι)} {content : Bytes} {release : Bool}
    {args : List Text} (h : S.Resolved steps content release args) :
    ∃ s ∈ steps, s.request.isCapture = true := by
  obtain ⟨j, o, before, mine, later, hown, hfollows, _⟩ := h
  have hfirst : ∀ {r : Request} {next : r.Answer → Program (Except Failure (List Text))}
      {x : Except Failure (List Text)}, Program.Follows (.ask r next) mine x →
      ∃ s ∈ mine, s.request = r := by
    intro r next x hask
    cases hask with
    | ask _ => exact ⟨_, List.mem_cons_self, rfl⟩
  obtain ⟨s, hs, hrequest⟩ := hfirst hfollows
  have hmem : s ∈ steps.filter (·.who = j) := by
    rw [hown]
    exact List.mem_append_left _ (List.mem_append_right _ hs)
  exact ⟨s, (List.mem_filter.1 hmem).1, by rw [hrequest]; rfl⟩

variable (S)

/-- What all runs on a shared cache keep to. -/
def discipline : Discipline ι where
  Sound w := S.IsShared (S.Known w.steps) w.files
  Evolves w w' := w.steps <+: w'.steps ∧ S.Grows w.files w'.files
  refl w := ⟨List.prefix_rfl, .refl S w.files⟩
  trans h h' := ⟨h.1.trans h'.1, h.2.trans h'.2⟩
  looks w i h r hr hsound := by
    have hfiles : (w.after i h r).files = w.files :=
      Request.files_respond_of_looks hr h ⟨w.files, []⟩
    have hsteps : w.steps <+: (w.after i h r).steps := List.prefix_append _ _
    rw [hfiles]
    exact ⟨hsound.mono fun _ => Known.mono hsteps, hsteps, .refl S w.files⟩

/-- A toolchain is at work in the entry of some run. -/
def Builds (fs fs' : FileSystem) : Prop :=
  ∃ i, fs.at? (S.place i) = some .directory ∧ BuiltIn (S.place i) fs fs'

end Model

variable [DecidableEq ι] {S : Sharing ι} {i : ι} {w w' : World ι} {h : Host} {r : Request}

/-! ## Section 2: What lasts -/

theorem lasts_isAnswer (release : Bool) (args : List Text) :
    S.discipline.Lasts (S.IsAnswer i release args) :=
  fun _ _ hargs hw => hargs.imp_right (·.mono hw.1)

theorem lasts_isOpen : S.discipline.Lasts (S.IsOpen i) :=
  fun _ _ hopen hw => ⟨hw.2.stands hopen.1, hw.2.entries i hopen.2⟩

theorem lasts_hasManifest : S.discipline.Lasts fun w => S.HasManifest i w.files :=
  fun _ _ hmanifest hw => hw.2.content i hmanifest

theorem lasts_isReady : S.discipline.Lasts (S.IsReady i) := lasts_isOpen.and lasts_hasManifest

theorem lasts_hasAnswer (release : Bool) (args : List Text) :
    S.discipline.Lasts (S.HasAnswer i release args) := lasts_isReady.and (lasts_isAnswer _ _)

theorem lasts_finds (found : Option Record) : S.discipline.Lasts (S.Finds i found) :=
  lasts_isReady.and fun _ _ hknown hw r hr => lasts_isAnswer _ _ (hknown r hr) hw

theorem lasts_hasMarkers : S.discipline.Lasts (S.HasMarkers i) :=
  lasts_isOpen.and fun _ _ hdir hw => hw.2.markers hdir

/-- Where manifests differ their digests do, so a record with the digest of a
    manifest holds an answer to it. -/
theorem Known.isAnswer (hdistinct : S.IsDistinct) {r : Record} (hknown : S.Known w.steps r)
    (hhash : r.hash = (S.manifests i).hash) : S.IsAnswer i r.releaseMode r.args w := by
  obtain ⟨content, hcontent, hpast | ⟨j, o, before, mine, later, hown, hfollows, hfiles, rfl,
    hrelease⟩⟩ := hknown
  · obtain rfl := hdistinct.past _ _ _ hpast i (hcontent.trans hhash)
    exact .inl hpast
  · exact .inr ⟨j, o, before, mine, later, hown, hfollows, hfiles,
      hdistinct.runs j i (hcontent.trans hhash), hrelease⟩

/-! ## Section 3: Changes of files -/

/-- A change of files that is in keeping with the others. -/
theorem keeps_of_files {fs' : FileSystem} (hfiles : (w.after i h r).files = fs')
    (hshared : S.IsShared (S.Known w.steps) fs' ∧ S.Grows w.files fs') :
    S.discipline.Keeps w i h r := by
  have hsteps : w.steps <+: (w.after i h r).steps := List.prefix_append _ _
  subst hfiles
  exact ⟨hshared.1.mono fun _ => Known.mono hsteps, hsteps, hshared.2⟩

/-- A request that fails has changed nothing. -/
theorem keeps_of_same (hsound : S.discipline.Sound w) (hfiles : (w.after i h r).files = w.files) :
    S.discipline.Keeps w i h r := keeps_of_files hfiles ⟨hsound, .refl S w.files⟩

/-- At any time toolchains may be at work. -/
theorem allows_builds (S : Sharing ι) : S.discipline.Allows S.Builds := by
  rintro w fs hsound ⟨i, hentry, hbuilt⟩
  have hstands : S.store.Stands S.cwd S.top w.files := by
    refine hsound.located.resolve_left fun habsent => ?_
    have hnone := habsent.at?_eq_none [storeName, Utf8.encode (S.manifests i).hash]
    rw [place, entryAt, hnone] at hentry
    cases hentry
  obtain ⟨hshared, hgrows⟩ := IsShared.built hsound hstands hbuilt
  exact ⟨hshared, List.prefix_rfl, hgrows⟩

end Sharing

/-! ## Section 4: Guests -/

namespace Sharing

variable {S : Sharing ι} {s : Store} {cwd : Location} {i : ι} {fs : FileSystem}

/-- A run in the directory `cwd` has the cache where the others have it. -/
structure IsGuest (S : Sharing ι) (s : Store) (cwd : Location) : Prop where
  root  : s.root = S.store.root
  cwd   : cwd = S.cwd ∨ S.store.root.isAbsolute = true
  roomy : S.store.IsRoomy

theorem stands_of_root {s s' : Store} {cwd cwd' top : Location} (h : s.Stands cwd top fs)
    (hroot : s'.root = s.root) (hcwd : cwd' = cwd ∨ s.root.isAbsolute = true) :
    s'.Stands cwd' top fs := by
  obtain ⟨hthere, links, hroute⟩ := h
  refine ⟨hthere, links, ?_⟩
  rw [hroot]
  exact route_anywhere hcwd (List.append_nil _).symm (by simp) hroute

namespace IsGuest

theorem entry (hguest : S.IsGuest s cwd) (i : ι) : s.entry (S.manifests i).hash = S.entry i := by
  rw [Sharing.entry, entry_eq, entry_eq, entries, entries, hguest.root]

theorem isRoomy (hguest : S.IsGuest s cwd) : s.IsRoomy := by
  unfold IsRoomy
  rw [hguest.root]
  exact hguest.roomy

theorem located (hguest : S.IsGuest s cwd) (h : S.store.Located S.cwd S.top fs) :
    s.Located cwd S.top fs := h.of_root hguest.root hguest.cwd

theorem stands (hguest : S.IsGuest s cwd) (h : S.store.Stands S.cwd S.top fs) :
    s.Stands cwd S.top fs := stands_of_root h hguest.root hguest.cwd

theorem stands_back (hguest : S.IsGuest s cwd) (h : s.Stands cwd S.top fs) :
    S.store.Stands S.cwd S.top fs := by
  refine stands_of_root h hguest.root.symm ?_
  rw [hguest.root]
  exact hguest.cwd.imp_left Eq.symm

theorem leadsToEntry [DecidableEq ι] {w : World ι} (hguest : S.IsGuest s cwd)
    (hopen : S.IsOpen i w) : LeadsToEntry w.files cwd (S.entry i) (S.place i) :=
  hguest.entry i ▸ (hguest.stands hopen.1).leadsToEntry hguest.isRoomy hopen.2

end IsGuest
end Sharing
end ScriptDeps
