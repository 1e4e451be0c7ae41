import ScriptDeps.Proofs.Concurrent.CacheDiscipline

/-! # The stages of a run among others

    Each stage of a run succeeds whatever the others do between its requests:
    the entry is made and brought up to date, a record is looked for, the
    toolchain is asked, its answer is saved, and the script is marked.  What a
    stage leaves to the next one lasts, and each change that it makes is one of
    those that are in keeping with the others. -/

namespace ScriptDeps

open FileSystem Store

/-! ## Section 1: Model -/

/-- Called in a directory that is there, the toolchain shows arguments. -/
def Host.Succeeds (h : Host) : Prop :=
  ∀ call dir d fs, call.directory = some dir → fs.findNode h.cwd true dir = .ok (d, .directory) →
    ∃ fs' es shown, h.capture call fs = .ok (fs', es) ∧
      ((Capture.run es).result call.program.display).1 = .ok shown

/-- Surroundings that a run in the directory `cwd` may have at some moment. -/
structure Host.Serves (h : Host) (cwd : Location) : Prop where
  cwd      : h.cwd = cwd
  succeeds : h.Succeeds
  confined : h.Confined

namespace Sharing

variable {ι : Type} [DecidableEq ι] {S : Sharing ι} {i : ι} {w : World ι} {s : Store}
  {cwd : Location} {ok : Host → Prop} {o : Prepare.Options}

/-! ## Section 2: The entry is made -/

theorem withstands_makeEntry (hguest : S.IsGuest s cwd) (hok : ∀ h, ok h → h.Serves cwd)
    (hsound : S.discipline.Sound w) :
    (s.makeEntry (S.manifests i).hash).Withstands S.discipline i ok
      (fun dir w' => dir = S.entry i ∧ S.IsOpen i w') w := by
  have hask : (Action.ask (.makeDirectories (s.entry (S.manifests i).hash))).Withstands
      S.discipline i ok (fun x w' => x = .ok () ∧ S.IsOpen i w') w := by
    refine Action.withstands_ask (fun x => (S.discipline.lasts_const _).and lasts_isOpen)
      fun w' h hw hh => ?_
    obtain ⟨fs, hmake, hopened⟩ := (hguest.located hw.sound.located).open hguest.isRoomy
      fun _ => hw.sound.clear_entry i
    have hrespond : Machine.respond h ⟨w'.files, []⟩
        (.makeDirectories (s.entry (S.manifests i).hash)) = (.ok (), ⟨fs, []⟩) := by
      change Machine.change _ (w'.files.makeDirectories h.cwd _) = _
      rw [(hok h hh).cwd, hmake]
      rfl
    obtain ⟨hanswer, hfiles⟩ := World.after_of_respond i hrespond
    have hstands := hguest.stands_back hopened.stands
    refine ⟨keeps_of_files hfiles (hw.sound.made hstands hopened.made (by simp)), hanswer, ?_⟩
    rw [IsOpen, hfiles]
    exact ⟨hstands, hopened.made.along⟩
  unfold makeEntry
  refine hask.bind hsound fun x w₁ hsound₁ ⟨hx, hopen⟩ => ?_
  subst hx
  refine (Action.withstands_orFail lasts_isOpen hopen).bind hsound₁ fun _ w₂ _ hopen₂ => ?_
  exact Action.withstands_pure ((S.discipline.lasts_const _).and lasts_isOpen)
    ⟨hguest.entry i, hopen₂⟩

/-! ## Section 3: The entry is brought up to date -/

/-- Whatever is written over it meanwhile, a manifest that is found to be the
    own one stays. -/
theorem withstands_readManifest (hguest : S.IsGuest s cwd) (hok : ∀ h, ok h → h.Serves cwd)
    (hopen : S.IsOpen i w) :
    (Action.ask (.read (manifestIn (S.entry i)))).Withstands S.discipline i ok
      (fun x w' => S.IsOpen i w' ∧ (x = .error .noEntry ∨ ∃ content, x = .ok content ∧
        (content = (S.manifests i).bytes → S.HasManifest i w'.files))) w := by
  refine Action.withstands_look rfl (fun x => lasts_isOpen.and ?_) fun w' h hw hh => ?_
  · rintro w₁ w₂ (hx | ⟨content, hx, hmanifest⟩) hw
    · exact .inl hx
    · exact .inr ⟨content, hx, fun heq => lasts_hasManifest (hmanifest heq) hw⟩
  · have hopen' := lasts_isOpen hopen hw.evolves
    have hentry := hguest.leadsToEntry hopen'
    have hplain := hw.sound.isPlain_manifest i
    have hfound := read_child hentry.leads isEntryName_manifestName
      (hentry.fits manifestName (by decide)) hplain.1.noLink
    refine ⟨hopen', ?_⟩
    change w'.files.read h.cwd _ = _ ∨ ∃ content, w'.files.read h.cwd _ = _ ∧ _
    rw [(hok h hh).cwd, manifestIn_eq, hfound]
    rcases hplain.1.cases with hnode | hnode | ⟨content, modified, mode, hnode⟩
    · rw [hnode]
      exact .inl rfl
    · exact absurd hnode hplain.2
    · rw [hnode]
      exact .inr ⟨content, rfl, fun heq => ⟨modified, mode, heq ▸ hnode⟩⟩

theorem withstands_statusManifest (hguest : S.IsGuest s cwd) (hok : ∀ h, ok h → h.Serves cwd)
    (hready : S.IsReady i w) :
    (Action.ask (.status (manifestIn (S.entry i)) true)).Withstands S.discipline i ok
      (fun x w' => S.IsReady i w' ∧ ∃ status, x = .ok status) w := by
  refine Action.withstands_look rfl (fun x => lasts_isReady.and (S.discipline.lasts_const _))
    fun w' h hw hh => ?_
  have hready' := lasts_isReady hready hw.evolves
  obtain ⟨hopen', modified, mode, hnode⟩ := hready'
  have hentry := hguest.leadsToEntry hopen'
  have hfound := findNode_child hentry.leads isEntryName_manifestName
    (hentry.fits manifestName (by decide)) true fun _ => (hw.sound.isPlain_manifest i).1.noLink
  refine ⟨⟨hopen', modified, mode, hnode⟩, ?_⟩
  change ∃ status, (w'.files.findNode h.cwd true _).map _ = _
  rw [(hok h hh).cwd, manifestIn_eq, hfound, hnode]
  exact ⟨_, rfl⟩

/-- Where nothing is to be refreshed the manifest is there. -/
theorem withstands_needsRefresh (hguest : S.IsGuest s cwd) (hok : ∀ h, ok h → h.Serves cwd)
    (hsound : S.discipline.Sound w) (hopen : S.IsOpen i w) :
    (s.needsRefresh (S.entry i) (S.manifests i).bytes).Withstands S.discipline i ok
      (fun b w' => S.IsOpen i w' ∧ (b = false → S.HasManifest i w'.files)) w := by
  have hlasts : ∀ b : Bool, S.discipline.Lasts fun w' =>
      S.IsOpen i w' ∧ (b = false → S.HasManifest i w'.files) := fun b =>
    lasts_isOpen.and fun _ _ hmanifest hw hb => lasts_hasManifest (hmanifest hb) hw
  -- Only a manifest that is read to be the own one keeps the run from refreshing.
  unfold needsRefresh
  refine (withstands_readManifest hguest hok hopen).bind hsound
    fun x w₁ hsound₁ ⟨hopen₁, hx⟩ => ?_
  rcases hx with rfl | ⟨content, rfl, hmanifest⟩
  · exact Action.withstands_pure (hlasts true) ⟨hopen₁, nofun⟩
  dsimp only
  split
  · exact Action.withstands_pure (hlasts true) ⟨hopen₁, nofun⟩
  · next hsame =>
    have hready : S.IsReady i w₁ := ⟨hopen₁, hmanifest (by simpa using hsame)⟩
    refine (withstands_statusManifest hguest hok hready).bind hsound₁
      fun x w₂ hsound₂ ⟨hready₂, status, hx⟩ => ?_
    subst hx
    refine (Action.withstands_orFail lasts_isReady hready₂).bind hsound₂
      fun status w₃ hsound₃ hready₃ => ?_
    refine (Action.withstands_look_on rfl lasts_isReady hready₃).bind hsound₃
      fun now w₄ _ hready₄ => ?_
    exact Action.withstands_pure (hlasts _) ⟨hready₄.1, fun _ => hready₄.2⟩

/-- To write a file of the own entry is in keeping with the others, and
    succeeds unless a directory stands in its place. -/
theorem keeps_write {h : Host} {f : Name} {content : Bytes} (hguest : S.IsGuest s cwd)
    (hserves : h.Serves cwd) (hdistinct : S.IsDistinct) (hsound : S.discipline.Sound w)
    (hopen : S.IsOpen i w) (hf : f ∈ ownNames) (hplain : IsPlain w.files (S.place i ++ [f]))
    (hright : ∀ mode, S.IsRight (S.Known w.steps) [storeName, Utf8.encode (S.manifests i).hash, f]
      (.file content h.now mode))
    (hmanifest : f = manifestName → content = (S.manifests i).bytes) :
    S.discipline.Keeps w i h (.write ((S.entry i).child f) content) ∧
      (w.files.at? (S.place i ++ [f]) ≠ some .directory →
        w.answer h (.write ((S.entry i).child f) content) = .ok () ∧
        ∃ mode, (w.after i h (.write ((S.entry i).child f) content)).files.at?
          (S.place i ++ [f]) = some (.file content h.now mode)) := by
  have hentry := hguest.leadsToEntry hopen
  have hwrite := write_child hentry.leads (isEntryName_of_mem_ownNames hf) (hentry.fits f hf)
    hplain.noLink h.now content
  rw [← hserves.cwd] at hwrite
  -- Where nothing or a file is, the file is put.
  have hput : ∀ mode, w.files.write h.cwd h.now ((S.entry i).child f) content =
        .ok (w.files.put (S.place i ++ [f]) (.file content h.now mode)) →
      S.discipline.Keeps w i h (.write ((S.entry i).child f) content) ∧
        w.answer h (.write ((S.entry i).child f) content) = .ok () ∧
        ∃ mode, (w.after i h (.write ((S.entry i).child f) content)).files.at?
          (S.place i ++ [f]) = some (.file content h.now mode) := by
    intro mode hok
    have hrespond : Machine.respond h ⟨w.files, []⟩ (.write ((S.entry i).child f) content) =
        (.ok (), ⟨w.files.put (S.place i ++ [f]) (.file content h.now mode), []⟩) := by
      change Machine.change _ (w.files.write h.cwd h.now _ _) = _
      rw [hok]
      rfl
    obtain ⟨hanswer, hfiles⟩ := World.after_of_respond i hrespond
    refine ⟨keeps_of_files hfiles (hsound.written hdistinct hopen.1 (hright mode) hmanifest),
      hanswer, mode, ?_⟩
    rw [hfiles]
    exact at?_put_self _ _ (by simp)
  rcases hplain.cases with hnode | hnode | ⟨_, _, mode, hnode⟩
  · rw [hnode] at hwrite
    exact (hput plainMode hwrite).imp_right fun hdone _ => hdone
  · rw [hnode] at hwrite
    refine ⟨keeps_of_same hsound ?_, fun hdir => absurd hnode hdir⟩
    change (Machine.change _ (w.files.write h.cwd h.now _ _)).2.files = _
    rw [hwrite]
    rfl
  · rw [hnode] at hwrite
    exact (hput mode hwrite).imp_right fun hdone _ => hdone

theorem withstands_ensurePlaceholder (hguest : S.IsGuest s cwd) (hok : ∀ h, ok h → h.Serves cwd)
    (hdistinct : S.IsDistinct) (hsound : S.discipline.Sound w) (hready : S.IsReady i w) :
    (ensurePlaceholder (S.entry i)).Withstands S.discipline i ok (fun _ => S.IsReady i) w := by
  have hwrite : ∀ w : World ι, S.IsReady i w →
      (Action.ask (.write (placeholderIn (S.entry i)) [])).Withstands S.discipline i ok
        (fun x w' => x = .ok () ∧ S.IsReady i w') w := by
    intro w hready
    refine Action.withstands_ask (fun x => (S.discipline.lasts_const _).and lasts_isReady)
      fun w' h hw hh => ?_
    have hready' := lasts_isReady hready hw.evolves
    have hplain := hw.sound.isPlain_placeholder i
    obtain ⟨hkeeps, hdone⟩ := keeps_write hguest (hok h hh) hdistinct hw.sound hready'.1
      (f := placeholderName) (by decide) hplain.1 (fun _ => isRight_placeholder rfl)
      fun heq => absurd heq (by decide)
    exact ⟨hkeeps, (hdone hplain.2).1, lasts_isReady hready' hkeeps.evolves⟩
  unfold ensurePlaceholder
  refine (Action.withstands_look_on rfl lasts_isReady hready).bind hsound
    fun present w₁ hsound₁ hready₁ => ?_
  split
  · exact Action.withstands_pure lasts_isReady hready₁
  · refine (hwrite w₁ hready₁).bind hsound₁ fun x w₂ hsound₂ ⟨hx, hready₂⟩ => ?_
    subst hx
    exact Action.withstands_orFail lasts_isReady hready₂

theorem withstands_materialize (hguest : S.IsGuest s cwd) (hok : ∀ h, ok h → h.Serves cwd)
    (hdistinct : S.IsDistinct) (hsound : S.discipline.Sound w) (hopen : S.IsOpen i w) :
    (materialize (S.entry i) (S.manifests i)).Withstands S.discipline i ok
      (fun _ => S.IsReady i) w := by
  have hwrite : (Action.ask (.write (manifestIn (S.entry i)) (S.manifests i).bytes)).Withstands
      S.discipline i ok (fun x w' => x = .ok () ∧ S.IsReady i w') w := by
    refine Action.withstands_ask (fun x => (S.discipline.lasts_const _).and lasts_isReady)
      fun w' h hw hh => ?_
    have hopen' := lasts_isOpen hopen hw.evolves
    have hplain := hw.sound.isPlain_manifest i
    obtain ⟨hkeeps, hdone⟩ := keeps_write hguest (hok h hh) hdistinct hw.sound hopen'
      (f := manifestName) (by decide) hplain.1
      (fun mode => isRight_manifest ⟨_, h.now, mode, rfl, rfl⟩) fun _ => rfl
    obtain ⟨hanswer, mode, hnode⟩ := hdone hplain.2
    exact ⟨hkeeps, hanswer, lasts_isOpen hopen' hkeeps.evolves, h.now, mode, hnode⟩
  unfold materialize
  refine hwrite.bind hsound fun x w₁ hsound₁ ⟨hx, hready⟩ => ?_
  subst hx
  exact (Action.withstands_orFail lasts_isReady hready).bind hsound₁ fun _ w₂ hsound₂ hready₂ =>
    withstands_ensurePlaceholder hguest hok hdistinct hsound₂ hready₂

theorem withstands_refresh (hguest : S.IsGuest s cwd) (hok : ∀ h, ok h → h.Serves cwd)
    (hdistinct : S.IsDistinct) (hsound : S.discipline.Sound w) (hopen : S.IsOpen i w) :
    (Prepare.refresh s (S.entry i) (S.manifests i)).Withstands S.discipline i ok
      (fun _ => S.IsReady i) w := by
  unfold Prepare.refresh
  refine (withstands_needsRefresh hguest hok hsound hopen).bind hsound
    fun refreshed w₁ hsound₁ ⟨hopen₁, hmanifest⟩ => ?_
  cases refreshed with
  | true =>
    rw [if_pos rfl]
    exact (withstands_materialize hguest hok hdistinct hsound₁ hopen₁).bind hsound₁
      fun _ _ _ hready => Action.withstands_pure lasts_isReady hready
  | false =>
    rw [if_neg Bool.false_ne_true]
    exact (withstands_ensurePlaceholder hguest hok hdistinct hsound₁
      ⟨hopen₁, hmanifest rfl⟩).bind hsound₁
      fun _ _ _ hready => Action.withstands_pure lasts_isReady hready

/-! ## Section 4: A record is looked for -/

/-- A record that is read in the own entry is one that is known. -/
theorem withstands_readRecord (hguest : S.IsGuest s cwd) (hok : ∀ h, ok h → h.Serves cwd)
    (hdistinct : S.IsDistinct) (hready : S.IsReady i w) :
    (Action.ask (.read (recordIn (S.entry i)))).Withstands S.discipline i ok
      (fun x w' => S.IsReady i w' ∧ ∀ content t r, x = .ok content →
        Utf8.decode content = some t → Record.ofText? t = some r →
        r.hash = (S.manifests i).hash → S.IsAnswer i r.releaseMode r.args w') w := by
  refine Action.withstands_look rfl (fun x => lasts_isReady.and ?_) fun w' h hw hh => ?_
  · exact fun _ _ hknown hw content t r hx ht hr hhash =>
      lasts_isAnswer _ _ (hknown content t r hx ht hr hhash) hw
  · have hready' := lasts_isReady hready hw.evolves
    have hentry := hguest.leadsToEntry hready'.1
    refine ⟨hready', fun content t r hx ht hr hhash => ?_⟩
    have hfound := read_child hentry.leads isEntryName_recordName
      (hentry.fits recordName (by decide)) (hw.sound.isPlain_record i).noLink
    change w'.files.read h.cwd _ = _ at hx
    rw [(hok h hh).cwd, recordIn_eq, hfound] at hx
    rcases (hw.sound.isPlain_record i).cases with hnode | hnode | ⟨content', _, _, hnode⟩
    · rw [hnode] at hx
      cases hx
    · rw [hnode] at hx
      cases hx
    · rw [hnode] at hx
      cases hx
      have hknown := (hw.sound.file hnode).record rfl _ _ _ r rfl
        (by rw [ht, Option.bind_some, hr])
      exact hknown.2.isAnswer hdistinct hhash

theorem withstands_loadRecord (hguest : S.IsGuest s cwd) (hok : ∀ h, ok h → h.Serves cwd)
    (hdistinct : S.IsDistinct) (hsound : S.discipline.Sound w) (hready : S.IsReady i w) :
    (loadRecord (S.entry i) (S.manifests i).hash).Withstands S.discipline i ok (S.Finds i) w := by
  have hnone : ∀ w₁ : World ι, S.IsReady i w₁ →
      (pure none : Action (Option Record)).Withstands S.discipline i ok (S.Finds i) w₁ :=
    fun w₁ hready₁ => Action.withstands_pure (lasts_finds none) ⟨hready₁, nofun⟩
  have hlogged : ∀ (e : Log.Event) (w₁ : World ι), S.discipline.Sound w₁ → S.IsReady i w₁ →
      (do Action.ask (.log e); pure none : Action (Option Record)).Withstands S.discipline i ok
        (S.Finds i) w₁ :=
    fun e w₁ hsound₁ hready₁ => (Action.withstands_look_on rfl lasts_isReady hready₁).bind hsound₁
      fun _ w₂ _ hready₂ => hnone w₂ hready₂
  -- Every way out but one finds nothing; that one has read a record for the own hash.
  unfold loadRecord
  refine (withstands_readRecord hguest hok hdistinct hready).bind hsound
    fun x w₁ hsound₁ ⟨hready₁, hknown⟩ => ?_
  split
  · exact hnone w₁ hready₁
  · exact hlogged _ w₁ hsound₁ hready₁
  · next content =>
    split
    · exact hlogged _ w₁ hsound₁ hready₁
    · next t ht =>
      split
      · exact hlogged _ w₁ hsound₁ hready₁
      · next r hr =>
        split
        · exact hnone w₁ hready₁
        · next hhash =>
          have hanswer := hknown _ t r rfl ht hr (by simpa using hhash)
          refine (Action.withstands_look_on rfl (lasts_hasAnswer _ _)
            ⟨hready₁, hanswer⟩).bind hsound₁ fun present w₂ _ ⟨hready₂, hanswer₂⟩ => ?_
          split
          · refine Action.withstands_pure (lasts_finds (some r)) ⟨hready₂, fun r' heq => ?_⟩
            cases heq
            exact hanswer₂
          · exact hnone w₂ hready₂

/-- A record that is used again is one of the mode that is asked for. -/
theorem withstands_reusable (hguest : S.IsGuest s cwd) (hok : ∀ h, ok h → h.Serves cwd)
    (hdistinct : S.IsDistinct) (hsound : S.discipline.Sound w) (hready : S.IsReady i w)
    (refreshed : Bool) :
    (Prepare.reusable o (S.entry i) (S.manifests i) refreshed).Withstands S.discipline i ok
      (fun found w' => S.Finds i found w' ∧ ∀ r, found = some r → r.releaseMode = o.release)
      w := by
  have hlasts : ∀ found : Option Record, S.discipline.Lasts fun w' =>
      S.Finds i found w' ∧ ∀ r, found = some r → r.releaseMode = o.release := fun found =>
    (lasts_finds found).and (S.discipline.lasts_const _)
  unfold Prepare.reusable
  split
  · refine (withstands_loadRecord hguest hok hdistinct hsound hready).bind hsound
      fun found w₁ _ ⟨hready₁, hknown⟩ => ?_
    refine Action.withstands_pure (hlasts _)
      ⟨⟨hready₁, fun r hr => hknown r (Option.filter_eq_some_iff.1 hr).1⟩, fun r hr => ?_⟩
    exact of_decide_eq_true (Option.filter_eq_some_iff.1 hr).2
  · exact Action.withstands_pure (hlasts none) ⟨⟨hready, nofun⟩, nofun⟩

/-! ## Section 5: The toolchain is asked -/

theorem withstands_capture {o : Resolve.Options} (hguest : S.IsGuest s cwd)
    (hok : ∀ h, ok h → h.Serves cwd) (hsound : S.discipline.Sound w) (hready : S.IsReady i w) :
    (Resolve.capture (S.entry i) o).Withstands S.discipline i ok (fun _ => S.IsReady i) w := by
  have hask : (Action.ask (.capture (Resolve.call (S.entry i) o))).Withstands S.discipline i ok
      (fun x w' => (∃ es shown, x = .ok es ∧
        ((Capture.run es).result o.swift.display).1 = .ok shown) ∧ S.IsReady i w') w := by
    refine Action.withstands_ask (fun x => (S.discipline.lasts_const _).and lasts_isReady)
      fun w' h hw hh => ?_
    have hready' := lasts_isReady hready hw.evolves
    have hentry := hguest.leadsToEntry hready'.1
    rw [← (hok h hh).cwd] at hentry
    obtain ⟨fs, es, shown, hcall, hresult⟩ := (hok h hh).succeeds
      (Resolve.call (S.entry i) o) (S.entry i) (S.place i) w'.files rfl
      (hentry.leads.findNode hentry.fitsDir hentry.directory)
    have hbuilt := hentry.builtIn (hok h hh).confined hcall
    have hrespond : w'.answer h (.capture (Resolve.call (S.entry i) o)) = .ok es ∧
        (w'.after i h (.capture (Resolve.call (S.entry i) o))).files = fs := by
      rw [World.answer, World.after, Resolve.respond_capture, hcall]
      exact ⟨rfl, rfl⟩
    -- What a build leaves behind is confined to its entry.
    have hkeeps := keeps_of_files hrespond.2 (hw.sound.built hready'.1.1 hbuilt)
    exact ⟨hkeeps, ⟨es, shown, hrespond.1, hresult⟩, lasts_isReady hready' hkeeps.evolves⟩
  unfold Resolve.capture
  refine hask.bind hsound fun x w₁ hsound₁ hx => ?_
  obtain ⟨⟨es, shown, rfl, hresult⟩, hready₁⟩ := hx
  dsimp only
  refine (Action.withstands_logAll hsound₁ lasts_isReady hready₁ _).bind hsound₁
    fun _ w₂ hsound₂ hready₂ => ?_
  refine (Action.withstands_logAll hsound₂ lasts_isReady hready₂ _).bind hsound₂
    fun _ w₃ _ hready₃ => ?_
  rw [hresult]
  exact Action.withstands_pure lasts_isReady hready₃

/-- What the toolchain is asked in an entry with its manifest is a resolution
    of the manifest. -/
theorem withstands_invocation {o : Resolve.Options} (hguest : S.IsGuest s cwd)
    (hok : ∀ h, ok h → h.Serves cwd) (hsound : S.discipline.Sound w) (hready : S.IsReady i w) :
    (Resolve.invocation (S.entry i) o).Withstands S.discipline i ok
      (S.HasAnswer i o.release) w := by
  have hready' : (Resolve.invocation (S.entry i) o).Withstands S.discipline i ok
      (fun _ => S.IsReady i) w := by
    unfold Resolve.invocation
    refine (withstands_capture hguest hok hsound hready).bind hsound
      fun args w₁ hsound₁ hready₁ => ?_
    refine (Action.withstands_logAll hsound₁ lasts_isReady hready₁ _).bind hsound₁
      fun _ w₂ hsound₂ hready₂ => ?_
    exact Action.withstands_lift hsound₂ (Program.withstands_of_looks (Resolve.only_complete _ _)
      lasts_isReady hready₂) fun _ => lasts_isReady
  refine Program.Withstands.mono (Program.Withstands.follows hready') ?_
  rintro _ w' ⟨⟨args, rfl, hready₁⟩, mine, hown, hfollows, hfiles⟩
  refine ⟨args, rfl, hready₁, .inr ⟨i, o, w.own i, mine, [], ?_, hfollows, fun s hs => ?_, rfl,
    rfl⟩⟩
  · rw [List.append_nil]
    exact hown
  · obtain ⟨w₁, hw₁, heq⟩ := hfiles s hs
    rw [heq]
    exact lasts_hasManifest hready.2 hw₁

/-! ## Section 6: Its answer is saved -/

/-- Whether or not the record can be written, to save it is in keeping with the
    others. -/
theorem withstands_saveRecord {r : Record} (hguest : S.IsGuest s cwd)
    (hok : ∀ h, ok h → h.Serves cwd) (hdistinct : S.IsDistinct)
    (hhash : r.hash = (S.manifests i).hash) (hdirectory : r.directory = S.entry i)
    (hsound : S.discipline.Sound w) (hanswer : S.HasAnswer i r.releaseMode r.args w) :
    Program.Withstands S.discipline i ok (fun _ => S.HasAnswer i r.releaseMode r.args)
      (ExceptT.run (saveRecord r)) w := by
  have hlasts := lasts_hasAnswer (S := S) (i := i) r.releaseMode r.args
  have hwrite : ∀ t, r.render? = some t →
      (Action.ask (.write r.file (Utf8.encode t))).Withstands S.discipline i ok
        (fun _ => S.HasAnswer i r.releaseMode r.args) w := by
    intro t hrender
    refine Action.withstands_ask (fun _ => hlasts) fun w' h hw hh => ?_
    have hanswer' := hlasts hanswer hw.evolves
    -- Whichever time is read, the rest of the record is read as it is.
    have hknown : ∀ r', Record.ofText? t = some r' →
        Utf8.encode (S.manifests i).hash = Utf8.encode r'.hash ∧ S.Known w'.steps r' := by
      intro r' hread
      rw [Record.ofText?_of_render hrender] at hread
      obtain ⟨resolvedAt, _, rfl⟩ := Option.map_eq_some_iff.1 hread
      exact ⟨by rw [hhash], (S.manifests i).bytes, hhash.symm, hanswer'.2⟩
    obtain ⟨hkeeps, _⟩ := keeps_write hguest (hok h hh) hdistinct hw.sound hanswer'.1.1
      (f := recordName) (by decide) (hw.sound.isPlain_record i)
      (fun _ => isRight_record hknown) fun heq => absurd heq (by decide)
    rw [← hdirectory] at hkeeps
    exact ⟨hkeeps, hlasts hanswer' hkeeps.evolves⟩
  unfold saveRecord
  cases hrender : r.render? with
  | none => exact fun w' hw => hlasts hanswer hw.evolves
  | some t =>
    refine (hwrite t hrender).run_bind hsound fun x w₁ _ hanswer₁ => ?_
    cases x with
    | ok _ => exact fun w' hw => hlasts hanswer₁ hw.evolves
    | error e => exact fun w' hw => hlasts hanswer₁ hw.evolves

theorem withstands_resolve (hguest : S.IsGuest s cwd) (hok : ∀ h, ok h → h.Serves cwd)
    (hdistinct : S.IsDistinct) (hsound : S.discipline.Sound w) (hready : S.IsReady i w) :
    (Prepare.resolve o (S.entry i) (S.manifests i)).Withstands S.discipline i ok
      (fun r => S.HasAnswer i o.release r.args) w := by
  unfold Prepare.resolve
  refine (Action.withstands_look_on rfl lasts_isReady hready).bind hsound
    fun _ w₁ hsound₁ hready₁ => ?_
  refine (withstands_invocation hguest hok hsound₁ hready₁).bind hsound₁
    fun args w₂ hsound₂ hanswer₂ => ?_
  have hlasts := lasts_hasAnswer (S := S) (i := i) o.release args
  refine (Action.withstands_look_on rfl hlasts hanswer₂).bind hsound₂
    fun now w₃ hsound₃ hanswer₃ => ?_
  dsimp only
  refine (Action.withstands_lift hsound₃ (withstands_saveRecord hguest hok hdistinct
    (r := ⟨(S.manifests i).hash, S.entry i, args, o.release, Timestamp.ofNanoseconds now⟩)
    rfl rfl hsound₃ hanswer₃) fun _ => hlasts).bind hsound₃ fun x w₄ hsound₄ hanswer₄ => ?_
  cases x with
  | ok _ => exact Action.withstands_pure hlasts hanswer₄
  | error f =>
    exact (Action.withstands_look_on rfl hlasts hanswer₄).bind hsound₄
      fun _ w₅ _ hanswer₅ => Action.withstands_pure hlasts hanswer₅

/-- The record of a run is that of a resolution of its manifest in its mode,
    found or new. -/
theorem withstands_record (hguest : S.IsGuest s cwd) (hok : ∀ h, ok h → h.Serves cwd)
    (hdistinct : S.IsDistinct) (hsound : S.discipline.Sound w) :
    (Prepare.record o s (S.manifests i)).Withstands S.discipline i ok
      (fun r => S.HasAnswer i o.release r.args) w := by
  rw [Prepare.record_eq]
  refine (withstands_makeEntry hguest hok hsound).bind hsound
    fun dir w₁ hsound₁ ⟨hdir, hopen₁⟩ => ?_
  subst hdir
  refine (withstands_refresh hguest hok hdistinct hsound₁ hopen₁).bind hsound₁
    fun refreshed w₂ hsound₂ hready₂ => ?_
  refine (withstands_reusable hguest hok hdistinct hsound₂ hready₂ refreshed).bind hsound₂
    fun found w₃ hsound₃ ⟨⟨hready₃, hknown₃⟩, hmode⟩ => ?_
  cases found with
  | none => exact withstands_resolve hguest hok hdistinct hsound₃ hready₃
  | some r =>
    have hlasts := lasts_hasAnswer (S := S) (i := i) o.release r.args
    have hanswer₃ : S.HasAnswer i o.release r.args w₃ := ⟨hready₃, hmode r rfl ▸ hknown₃ r rfl⟩
    exact (Action.withstands_look_on rfl hlasts hanswer₃).bind hsound₃
      fun _ w₄ _ hanswer₄ => Action.withstands_pure hlasts hanswer₄

/-! ## Section 7: The script is marked -/

section Markers

variable {h : Host} {p : Path} {dir loc : Location} {n : Name}

omit [DecidableEq ι] in
theorem after_removeFile_other (i : ι) (hleads : w.files.Leads h.cwd p dir)
    (hn : Path.IsPlainName n) (hloc : loc ≠ dir ++ [n]) :
    (w.after i h (.removeFile (p.child n))).files.at? loc = w.files.at? loc := by
  change (Machine.change _ (w.files.removeFile h.cwd (p.child n))).2.files.at? loc = _
  cases hremove : w.files.removeFile h.cwd (p.child n) with
  | error e => rfl
  | ok fs =>
    obtain rfl := eq_erase_of_removeFile hleads hn hremove
    exact at?_erase_ne _ hloc

omit [DecidableEq ι] in
theorem after_link_other (i : ι) (hleads : w.files.Leads h.cwd p dir) (hn : Path.IsPlainName n)
    (target : Path) (hloc : loc ≠ dir ++ [n]) :
    (w.after i h (.link target (p.child n))).files.at? loc = w.files.at? loc := by
  have hother := link_other hleads hn target hloc
  change (Machine.change _ (w.files.link h.cwd target (p.child n))).2.files.at? loc = _
  cases hlink : w.files.link h.cwd target (p.child n) with
  | error e => rfl
  | ok fs =>
    rw [hlink] at hother
    exact hother

end Markers

variable {P : World ι → Prop}

/-- Whatever becomes of it, a request that changes a single marker is in
    keeping with the others. -/
theorem withstands_marked {r : Request} {n : Name} (hguest : S.IsGuest s cwd)
    (hok : ∀ h, ok h → h.Serves cwd) (hP : S.discipline.Lasts P)
    (hmarked : ∀ (w' : World ι) h, w'.files.Leads h.cwd s.markers (S.top ++ [markersName]) →
      ∀ loc, loc ≠ S.top ++ [markersName] ++ [n] →
        (w'.after i h r).files.at? loc = w'.files.at? loc)
    (hmarkers : S.HasMarkers i w) (hw : P w) :
    (Program.request r).Withstands S.discipline i ok (fun _ w' => S.HasMarkers i w' ∧ P w')
      w := by
  have hlasts : S.discipline.Lasts fun w' => S.HasMarkers i w' ∧ P w' := lasts_hasMarkers.and hP
  refine Program.withstands_request (fun _ => hlasts) fun w' h hw' hh => ?_
  obtain ⟨⟨hopen, hdir⟩, hP'⟩ := hlasts ⟨hmarkers, hw⟩ hw'.evolves
  have hleads := (hguest.stands hopen.1).leads_root.child isEntryName_markersName hdir
  rw [← (hok h hh).cwd] at hleads
  have hkeeps := keeps_of_files rfl (hw'.sound.marked hopen.1 (hmarked w' h hleads))
  exact ⟨hkeeps, hlasts ⟨⟨hopen, hdir⟩, hP'⟩ hkeeps.evolves⟩

theorem withstands_makeMarkers (hguest : S.IsGuest s cwd) (hok : ∀ h, ok h → h.Serves cwd)
    (hP : S.discipline.Lasts P) (hopen : S.IsOpen i w) (hw : P w) :
    (Program.request (.makeDirectories s.markers)).Withstands S.discipline i ok
      (fun _ w' => S.HasMarkers i w' ∧ P w') w := by
  have hlasts : S.discipline.Lasts fun w' => S.HasMarkers i w' ∧ P w' := lasts_hasMarkers.and hP
  refine Program.withstands_request (fun _ => hlasts) fun w' h hw' hh => ?_
  have hopen' := lasts_isOpen hopen hw'.evolves
  obtain ⟨fs, hmake, hstands, hmade⟩ := Located.makeDirectories (.inr (hguest.stands hopen'.1))
    (components_markers s) ((hguest.isRoomy.mono (by decide)).fits_child isEntryName_markersName)
    (by decide) (List.cons_ne_nil _ _) fun _ => hw'.sound.clear_markers
  have hrespond : Machine.respond h ⟨w'.files, []⟩ (.makeDirectories s.markers) =
      (.ok (), ⟨fs, []⟩) := by
    change Machine.change _ (w'.files.makeDirectories h.cwd _) = _
    rw [(hok h hh).cwd, hmake]
    rfl
  obtain ⟨_, hfiles⟩ := World.after_of_respond i hrespond
  have hkeeps := keeps_of_files hfiles
    (hw'.sound.made (hguest.stands_back hstands) hmade (by simp))
  refine ⟨hkeeps, ⟨lasts_isOpen hopen' hkeeps.evolves, ?_⟩, hP (hP hw hw'.evolves) hkeeps.evolves⟩
  rw [hfiles]
  exact hmade.along.1

theorem withstands_replaceMarker {n : Name} {hash : Text} (hguest : S.IsGuest s cwd)
    (hok : ∀ h, ok h → h.Serves cwd) (hn : Path.IsPlainName n) (hP : S.discipline.Lasts P)
    (hsound : S.discipline.Sound w) (hopen : S.IsOpen i w) (hw : P w) :
    (s.replaceMarker (s.markers.child n) hash).Withstands S.discipline i ok (fun _ => P) w := by
  have hlink : ∀ w₁ : World ι, S.HasMarkers i w₁ → P w₁ →
      (Program.request (.link (markerTarget hash) (s.markers.child n))).Withstands S.discipline i
        ok (fun _ => P) w₁ := fun w₁ hmarkers₁ hw₁ =>
    (withstands_marked hguest hok hP (fun _ _ hleads _ => after_link_other i hleads hn _)
      hmarkers₁ hw₁).mono fun _ _ => And.right
  refine Program.Withstands.bind hsound (withstands_makeMarkers hguest hok hP hopen hw)
    fun made w₁ hsound₁ ⟨hmarkers₁, hw₁⟩ => ?_
  cases made with
  | error e => exact fun w' hw' => hP hw₁ hw'.evolves
  | ok _ =>
    have hremove : Program.Withstands S.discipline i ok (fun _ w' => S.HasMarkers i w' ∧ P w')
        ((Program.request (.removeFile (s.markers.child n))).bind fun x =>
          .done (Except.ok (ε := IoError) x)) w₁ :=
      (withstands_marked hguest hok hP (fun _ _ hleads _ => after_removeFile_other i hleads hn)
        hmarkers₁ hw₁).bind hsound₁ fun _ _ _ hw₂ _ hw' => lasts_hasMarkers.and hP hw₂ hw'.evolves
    refine Program.Withstands.bind hsound₁ hremove
      fun removed w₂ hsound₂ ⟨hmarkers₂, hw₂⟩ => ?_
    -- The old marker is gone, or was never there; or it stays, and nothing is made.
    cases removed with
    | error e => exact fun w' hw' => hP hw₂ hw'.evolves
    | ok removed =>
      cases removed with
      | ok _ => exact hlink w₂ hmarkers₂ hw₂
      | error e =>
        cases e with
        | noEntry => exact hlink w₂ hmarkers₂ hw₂
        | _ => exact fun w' hw' => hP hw₂ hw'.evolves

theorem withstands_writeMarker {identity : Identity} {hash : Text} (hguest : S.IsGuest s cwd)
    (hok : ∀ h, ok h → h.Serves cwd)
    (hn : Path.IsPlainName (Utf8.encode identity.markerName)) (hP : S.discipline.Lasts P)
    (hsound : S.discipline.Sound w) (hopen : S.IsOpen i w) (hw : P w) :
    (s.writeMarker identity hash).Withstands S.discipline i ok (fun _ => P) w := by
  unfold writeMarker
  refine (Action.withstands_lift hsound (withstands_replaceMarker hguest hok hn hP hsound hopen hw)
    fun _ => hP).bind hsound fun x w₁ _ hw₁ => ?_
  cases x with
  | ok _ => exact Action.withstands_pure hP hw₁
  | error e => exact Action.withstands_look_on rfl hP hw₁

end Sharing
end ScriptDeps
