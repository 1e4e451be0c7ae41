import ScriptDeps.Proofs.Concurrent.Stages
import ScriptDeps.Proofs.Script.LineByLine

/-! # Preparing scripts at the same time

    Any number of runs prepare their scripts on one cache, which none of them
    locks.  However their steps are interleaved, each of them succeeds, with
    arguments that a resolution of its own manifest in its own mode has given,
    and at every moment the manifests and the records are filed under their
    digests. -/

namespace ScriptDeps

open FileSystem Store

/-! ## Section 1: Model -/

/-- A run: how it is to prepare its script, and from where. -/
structure Job where
  homes   : Homes
  options : Prepare.Options
  store   : Store
  source  : Script.Source
  /-- The content of the script. -/
  script  : Bytes
  cwd     : Location

namespace Job

variable (j : Job)

def dependencies : List Dependency :=
  (Script.scan (j.source.context j.homes) j.script).dependencies

def manifest : Manifest := Prepare.manifestFor j.options j.dependencies

/-- There is nothing to resolve, and the run does without a package. -/
def isIdle : Bool := j.dependencies.isEmpty && j.options.skipPackage

def program : Program (Except Failure Prepare.Prepared) :=
  ExceptT.run (prepare j.homes j.options j.store j.source)

/-- Surroundings in which the toolchain serves the run, and in which the script
    can be read from the files `fs`. -/
structure Allows (fs : FileSystem) (h : Host) : Prop where
  serves : h.Serves j.cwd
  reads  : (j.source.read.run h ⟨fs, []⟩).1 = .ok j.script

end Job

namespace Sharing

variable {ι : Type} [DecidableEq ι] {S : Sharing ι} {i : ι} {w : World ι} {ok : Host → Prop}
  {j : Job}

/-- What a run ends with: no arguments and no record if it is idle, and else
    those of a resolution of its manifest in its mode. -/
def IsPrepared (S : Sharing ι) (i : ι) (j : Job) (p : Prepare.Prepared) (w : World ι) : Prop :=
  if j.isIdle then p.args = [] ∧ p.record = none
  else S.IsAnswer i j.options.release p.args w ∧ p.record.map (·.args) = some p.args

/-- The cache is as runs keep it, and its records are those of past
    resolutions. -/
def IsConsistent (S : Sharing ι) : Prop := S.IsShared (S.Known []) S.start

/-! ## Section 2: The script is read -/

omit [DecidableEq ι] in
/-- What is read above the cache stays as it is. -/
theorem Outside.kept {fs : FileSystem} (houtside : S.Outside fs) {loc : Location} {node : Node}
    (hnode : (S.start.above S.top).at? loc = some node) : fs.at? loc = some node := by
  obtain ⟨hbelow, hstart⟩ := above_eq_some hnode
  rcases houtside loc hbelow with hsame | ⟨_, hnone⟩
  · rw [hsame, hstart]
  · rw [hstart] at hnone
    cases hnone

/-- What a script is read from: its file, or the standard input. -/
theorem read_eq_of_run {source : Script.Source} {h : Host} {fs : FileSystem} {content : Bytes}
    (hread : (source.read.run h ⟨fs, []⟩).1 = .ok content) :
    match source.runPath.orElse fun _ => source.origin with
    | none => h.stdin = content
    | some p => fs.read h.cwd p = .ok content := by
  unfold Script.Source.read at hread
  cases hpath : source.runPath.orElse fun _ => source.origin with
  | none =>
    rw [hpath] at hread
    exact Except.ok.inj hread
  | some p =>
    rw [hpath] at hread
    dsimp only at hread ⊢
    have hask : Machine.respond h ⟨fs, []⟩ (.read p) = (fs.read h.cwd p, ⟨fs, []⟩) := rfl
    rw [Action.run_bind, Action.run_ask, hask] at hread
    cases hfound : fs.read h.cwd p with
    | ok found =>
      rw [hfound] at hread
      exact congrArg Except.ok (Except.ok.inj hread)
    | error e =>
      rw [hfound] at hread
      cases e <;> cases hread

theorem withstands_read (hallows : ∀ h, ok h → j.Allows (S.start.above S.top) h)
    (hsound : S.discipline.Sound w) :
    j.source.read.Withstands S.discipline i ok (fun content _ => content = j.script) w := by
  have hreads := fun h hh => read_eq_of_run (hallows h hh).reads
  unfold Script.Source.read
  cases hpath : j.source.runPath.orElse fun _ => j.source.origin with
  | none =>
    rw [hpath] at hreads
    have hask : (Action.ask .standardInput).Withstands S.discipline i ok
        (fun x _ => x = .ok j.script) w :=
      Action.withstands_look rfl (fun _ => S.discipline.lasts_const _)
        fun _ h _ hh => congrArg Except.ok (hreads h hh)
    refine hask.bind hsound fun x w₁ _ hx => ?_
    subst hx
    exact Action.withstands_pure (S.discipline.lasts_const _) rfl
  | some p =>
    rw [hpath] at hreads
    have hask : (Action.ask (.read p)).Withstands S.discipline i ok
        (fun x _ => x = .ok j.script) w :=
      Action.withstands_look rfl (fun _ => S.discipline.lasts_const _)
        fun _ h hw hh => read_of_kept (fun _ _ => Outside.kept hw.sound.outside) (hreads h hh)
    refine hask.bind hsound fun x w₁ _ hx => ?_
    subst hx
    exact Action.withstands_pure (S.discipline.lasts_const _) rfl

theorem withstands_scan (hallows : ∀ h, ok h → j.Allows (S.start.above S.top) h)
    (hsound : S.discipline.Sound w) :
    (Prepare.scan j.homes j.source).Withstands S.discipline i ok
      (fun x _ => x = (Script.scan (j.source.context j.homes) j.script, j.script)) w := by
  unfold Prepare.scan
  refine (withstands_read hallows hsound).bind hsound fun content w₁ hsound₁ hcontent => ?_
  subst hcontent
  exact (Action.withstands_logAll hsound₁ (S.discipline.lasts_const True) trivial _).bind hsound₁
    fun _ _ _ _ => Action.withstands_pure (S.discipline.lasts_const _) rfl

/-! ## Section 3: One of the runs -/

theorem lasts_isPrepared (p : Prepare.Prepared) : S.discipline.Lasts (S.IsPrepared i j p) := by
  unfold IsPrepared
  cases j.isIdle with
  | true => exact S.discipline.lasts_const _
  | false => exact (lasts_isAnswer _ _).and (S.discipline.lasts_const _)

/-- A run succeeds whatever the others do between its steps. -/
theorem withstands_prepare (hmanifest : S.manifests i = j.manifest)
    (hguest : S.IsGuest j.store j.cwd) (hdistinct : S.IsDistinct)
    (hallows : ∀ h, ok h → j.Allows (S.start.above S.top) h) (hsound : S.discipline.Sound w) :
    (prepare j.homes j.options j.store j.source).Withstands S.discipline i ok
      (S.IsPrepared i j) w := by
  have hok := fun h hh => (hallows h hh).serves
  unfold prepare
  refine (withstands_scan hallows hsound).bind hsound fun x w₁ hsound₁ hx => ?_
  subst hx
  dsimp only
  change Action.Withstands _ _ _ _ (if j.isIdle = true then _ else _) _
  cases hidle : j.isIdle with
  | true =>
    -- Nothing is to be resolved, so no entry is made.
    rw [if_pos rfl]
    refine (Action.withstands_look_on rfl (S.discipline.lasts_const True) trivial).bind hsound₁
      fun _ w₂ _ _ => Action.withstands_pure (lasts_isPrepared _) ?_
    rw [IsPrepared, if_pos hidle]
    exact ⟨rfl, rfl⟩
  | false =>
    rw [if_neg Bool.false_ne_true]
    change Action.Withstands _ _ _ _ (Prepare.record j.options j.store j.manifest >>= _) _
    rw [← hmanifest]
    refine (withstands_record hguest hok hdistinct hsound₁).bind hsound₁
      fun r w₂ hsound₂ ⟨hready, hanswer⟩ => ?_
    have hprepared : ∀ w' p, S.IsAnswer i j.options.release r.args w' → p.args = r.args →
        p.record = some r → S.IsPrepared i j p w' := by
      intro w' p hanswer' hargs hrecord
      rw [IsPrepared, if_neg (by rw [hidle]; exact Bool.false_ne_true), hargs, hrecord]
      exact ⟨hanswer', rfl⟩
    -- The answer lasts while the marker is written, if one is.
    split
    · refine (withstands_writeMarker hguest hok (isPlainName_markerName j.source j.script)
        (lasts_isAnswer j.options.release r.args) hsound₂ hready.1 hanswer).bind hsound₂
        fun _ w₃ _ hanswer₃ => ?_
      exact Action.withstands_pure (lasts_isPrepared _) (hprepared w₃ _ hanswer₃ rfl rfl)
    · exact Action.withstands_pure (lasts_isPrepared _) (hprepared w₂ _ hanswer rfl rfl)

/-! ## Section 4: Runs that meet -/

/-- The runs before their first steps. -/
def runs (S : Sharing ι) (jobs : ι → Job) : Runs ι (Except Failure Prepare.Prepared) :=
  ⟨fun i => (jobs i).program, ⟨S.start, []⟩⟩

/-- The runs meet on a cache that is as runs keep it, in surroundings that serve
    them. -/
structure Meets (S : Sharing ι) (jobs : ι → Job) (may : ι → Host → Prop) : Prop where
  manifests  : ∀ i, S.manifests i = (jobs i).manifest
  guests     : ∀ i, S.IsGuest (jobs i).store (jobs i).cwd
  distinct   : S.IsDistinct
  consistent : S.IsConsistent
  allows     : ∀ i h, may i h → (jobs i).Allows (S.start.above S.top) h
  served     : ∀ i, ∃ h, may i h

variable {jobs : ι → Job} {may : ι → Host → Prop}
  {c : Runs ι (Except Failure Prepare.Prepared)}

theorem Meets.withstands (hmeets : S.Meets jobs may) (i : ι) :
    ((S.runs jobs).programs i).Withstands S.discipline i (may i)
      (fun x w => ∃ p, x = .ok p ∧ S.IsPrepared i (jobs i) p w) (S.runs jobs).world :=
  withstands_prepare (hmeets.manifests i) (hmeets.guests i) hmeets.distinct
    (fun h hh => hmeets.allows i h hh) hmeets.consistent

theorem Meets.isShared (hmeets : S.Meets jobs may)
    (hreach : (S.runs jobs).Reaches may S.Builds c) :
    S.IsShared (S.Known c.world.steps) c.world.files :=
  (hreach.withstands (D := S.discipline) S.allows_builds hmeets.consistent hmeets.withstands).1

theorem Meets.result (hmeets : S.Meets jobs may)
    (hreach : (S.runs jobs).Reaches may S.Builds c) {x : Except Failure Prepare.Prepared}
    (hdone : c.programs i = .done x) :
    ∃ p, x = .ok p ∧ S.IsPrepared i (jobs i) p c.world :=
  hreach.result (D := S.discipline) S.allows_builds hmeets.consistent hmeets.withstands hdone

/-- Two runs of the script `script`, one of them in release mode, on a cache
    that is not there yet. -/
def pairJobs (script : Bytes) (release : Bool) : Job :=
  ⟨Prepare.smallHomes, { Prepare.smallOptions with release, marker := true }, Prepare.smallStore,
    .ofStdin "/", script, []⟩

def pair (script : Bytes) : Sharing Bool :=
  ⟨Prepare.smallStore, [], Prepare.smallTop, .empty, fun i => (pairJobs script i).manifest,
    fun _ _ _ => False⟩

/-- A host that gives the script on standard input, with a toolchain that
    builds. -/
def pairHost (script : Bytes) : Host :=
  (Scripted.bare 0 [] script "/t" []).builder Prepare.smallAnswer

theorem serves_pairHost (script : Bytes) : (pairHost script).Serves [] := by
  refine ⟨rfl, fun call dir d fs hdirectory hfind => ?_, Host.confined_builder _ _⟩
  exact ⟨_, _, _, Host.capture_builder _ hdirectory hfind,
    (Resolve.result_any_program _ _ _).trans Prepare.result_smallAnswer⟩

theorem isConsistent_pair (script : Bytes) : (pair script).IsConsistent := by
  refine ⟨Prepare.located_small, fun _ _ => .inl rfl, fun names node hnode => ?_⟩
  cases (Prepare.absent_small.at?_eq_none names).symm.trans hnode

theorem meets_pair (script : Bytes) :
    (pair script).Meets (pairJobs script) fun _ h => h = pairHost script where
  manifests _ := rfl
  guests _ := ⟨rfl, .inl rfl, Prepare.isRoomy_small⟩
  distinct := ⟨fun _ _ _ => rfl, nofun⟩
  consistent := isConsistent_pair script
  allows := by
    rintro _ _ rfl
    exact ⟨serves_pairHost script, rfl⟩
  served _ := ⟨_, rfl⟩

/-! ## Section 5: All of them -/

/-- However the steps of the runs are interleaved with each other and with the
    work of toolchains: a run that is done has succeeded, with the arguments of
    a resolution of its own manifest in its own mode unless it is idle; all
    manifests and all records are filed under their digests, and the records
    are those of resolutions; and every run can be brought to its end. -/
theorem results_in_any_order [Fintype ι] (hmeets : S.Meets jobs may)
    (hreach : (S.runs jobs).Reaches may S.Builds c) :
    (∀ i x, c.programs i = .done x → ∃ p, x = .ok p ∧ S.IsPrepared i (jobs i) p c.world) ∧
    (∀ n node, c.world.files.at? (S.top ++ [storeName, n, manifestName]) = some node →
      IsManifestOf n node) ∧
    (∀ n content modified mode r,
      c.world.files.at? (S.top ++ [storeName, n, recordName]) =
        some (.file content modified mode) →
      (Utf8.decode content).bind Record.ofText? = some r →
      n = Utf8.encode r.hash ∧ S.Known c.world.steps r) ∧
    ∃ c', c.Reaches may S.Builds c' ∧ ∀ i, ∃ p, c'.programs i = .done (.ok p) := by
  have hright := (hmeets.isShared hreach).right
  refine ⟨fun i x => hmeets.result hreach, fun n node hnode => ?_,
    fun n content modified mode r hnode hread => ?_, ?_⟩
  · exact (hright [storeName, n, manifestName] node hnode rfl).manifest rfl
  · exact (hright [storeName, n, recordName] _ hnode rfl).record rfl _ _ _ r rfl hread
  · obtain ⟨c', hreach', hdone⟩ := c.exists_all_done hmeets.served
    refine ⟨c', hreach', fun i => ?_⟩
    obtain ⟨x, hx⟩ := hdone i
    obtain ⟨p, rfl, _⟩ := hmeets.result (hreach.trans hreach') hx
    exact ⟨p, hx⟩

theorem results_in_any_order_pair :
    ∃ c, ((pair Prepare.smallScript).runs (pairJobs Prepare.smallScript)).Reaches
        (fun _ h => h = pairHost Prepare.smallScript) (pair Prepare.smallScript).Builds c ∧
      ∀ release, ∃ p, c.programs release = .done (.ok p) ∧
        (pair Prepare.smallScript).IsAnswer release release p.args c.world := by
  obtain ⟨_, _, _, c, hreach, hdone⟩ :=
    results_in_any_order (meets_pair Prepare.smallScript) .refl
  obtain ⟨hresults, _⟩ := results_in_any_order (meets_pair Prepare.smallScript) hreach
  refine ⟨c, hreach, fun release => ?_⟩
  obtain ⟨p, hp⟩ := hdone release
  obtain ⟨_, heq, hprepared⟩ := hresults release _ hp
  cases heq
  have hbusy : (pairJobs Prepare.smallScript release).isIdle = false := Prepare.smallScan_busy
  rw [IsPrepared, if_neg (by rw [hbusy]; exact Bool.false_ne_true)] at hprepared
  exact ⟨p, hp, hprepared.1⟩

/-- A script without dependencies is left to itself: its runs end with no
    arguments, and no resolution has given them. -/
theorem idle_runs_resolve_nothing :
    (pair []).Meets (pairJobs []) (fun _ h => h = pairHost []) ∧
    ∃ c, ((pair []).runs (pairJobs [])).Reaches (fun _ h => h = pairHost []) (pair []).Builds c ∧
      ∀ release, ∃ p, c.programs release = .done (.ok p) ∧ p.args = [] ∧
        ¬ (pair []).IsAnswer release release p.args c.world := by
  let start := (pair []).runs (pairJobs [])
  let h := pairHost []
  -- Each run reads its script and says that there is nothing to resolve.
  refine ⟨meets_pair [], (((start.move false h).move false h).move true h).move true h,
    .move (.move (.move (.move .refl false h rfl) false h rfl) true h rfl) true h rfl,
    fun release => ⟨⟨[], ['-'], some [], none⟩, by cases release <;> rfl, rfl, ?_⟩⟩
  rintro (hpast | hresolved)
  · exact hpast
  · obtain ⟨s, hs, hcapture⟩ := hresolved.asks
    have hnone : ((((start.move false h).move false h).move true h).move true h).world.steps.any
        (·.request.isCapture) = false := rfl
    exact List.any_eq_false.1 hnone s hs hcapture

end Sharing
end ScriptDeps
