import ScriptDeps.Proofs.Script.Ways
import ScriptDeps.Proofs.Store.Elsewhere

/-! # Private files of scripts

    A script without a file of its own, and a script that is to be compiled, is
    put into a private file: the file is made, filled and restricted, one step
    after the other, and each of them may fail.  Opening such a script either
    leaves that file with the whole script in it, or fails and leaves nothing
    behind (`always_ofContent`, `always_copyOf`); and to discard the file leaves
    the directory as it has been before (`HasPrivate.always_discard`). -/

namespace ScriptDeps

open FileSystem

namespace Script

/-! ## Section 1: Model -/

/-- The path of a new private file. -/
def temporaryFile (h : Host) : Path := h.temporary.child (temporaryName h)

/-- In `dir` and below, `fs'` is `fs` with one new file: the private one, with the given
    content. -/
structure HasPrivate (h : Host) (dir : Location) (content : Bytes) (fs fs' : FileSystem) :
    Prop where
  name  : Path.IsEntryName (temporaryName h)
  fits  : (temporaryFile h).Fits
  fresh : fs.at? (dir ++ [temporaryName h]) = none
  file  : ∃ modified mode,
    fs'.at? (dir ++ [temporaryName h]) = some (.file content modified mode)
  other : ∀ loc, dir <+: loc → loc ≠ dir ++ [temporaryName h] → fs'.at? loc = fs.at? loc

/-- In `dir` and below, `fs'` is `fs` with one new file, which holds a beginning
    of the script. -/
def HasPart (h : Host) (dir : Location) (script : Except IoError Bytes) (fs fs' : FileSystem) :
    Prop :=
  ∃ content front, script = .ok content ∧ front <+: content ∧ HasPrivate h dir front fs fs'

/-- The source runs the private file, and is to remove it. -/
structure RunsPrivate (h : Host) (dir : Location) (content : Bytes) (fs : FileSystem)
    (source : Source) (fs' : FileSystem) : Prop where
  runPath   : source.runPath = some (temporaryFile h)
  temporary : source.temporary = some (temporaryFile h)
  holds     : HasPrivate h dir content fs fs'

/-- While a script is opened, `I` holds of each request and the files it is made on. -/
abbrev Admits (h : Host) (dir : Location) (script : Except IoError Bytes) (fs : FileSystem)
    (I : Request → FileSystem → Prop) : Prop :=
  ∀ r fs', r.opens = true → SameBelow dir fs fs' ∨ HasPart h dir script fs fs' → I r fs'

/-- Requests are answered while the store is apart, and those that `F` allows may fail. -/
abbrev apart (s : Store) (h : Host) (F : Request → Prop) (dir : Location) : Service :=
  (Service.faulty h F).within (s.Apart h dir)

variable {h : Host} {F : Request → Prop} {dir : Location} {fs fs' fs'' : FileSystem}
  {content : Bytes} {s : Store}

/-! ## Section 2: The private file -/

theorem isPlainName_temporaryName (hslash : Path.slash ∉ h.freshName) :
    Path.IsPlainName (temporaryName h) := by
  have hfront : Path.slash ∉ Utf8.encode "swift-sh-inline-content-" ∧
      2 < (Utf8.encode "swift-sh-inline-content-").length := by decide
  have hback : Path.slash ∉ Utf8.encode ".swift" := by decide
  have hlong : ∀ n : Name, n.length ≤ 2 → temporaryName h ≠ n := by
    rintro n hn rfl
    rw [temporaryName, List.length_append, List.length_append] at hn
    omega
  refine ⟨hlong _ (by decide), fun hmem => ?_, hlong _ (by decide), hlong _ (by decide)⟩
  rcases List.mem_append.1 hmem with hmem | hmem
  · exact (List.mem_append.1 hmem).elim hfront.1 hslash
  · exact hback hmem

/-- Either no file is made, or the new one is the private one, and empty. -/
theorem hasPrivate_of_served {x : Except IoError Path}
    (hserved : Served h F fs (.temporary "swift-sh-inline-content-".toList ".swift".toList) x fs')
    (hslash : Path.slash ∉ h.freshName) (hway : fs.Leads h.cwd h.temporary dir) :
    (∃ e, x = .error e) ∧ fs' = fs ∨ x = .ok (temporaryFile h) ∧ HasPrivate h dir [] fs fs' := by
  have hplain := isPlainName_temporaryName hslash
  cases hserved with
  | refused _ hx =>
    cases hx
    exact .inl ⟨⟨_, rfl⟩, rfl⟩
  | well =>
    unfold Machine.respond
    dsimp only
    have hpath : Machine.temporaryPath h "swift-sh-inline-content-".toList ".swift".toList =
        temporaryFile h := rfl
    rw [hpath]
    cases hfind : fs.find h.cwd false (temporaryFile h) with
    | error e => exact .inl ⟨⟨e, rfl⟩, rfl⟩
    | ok found =>
      -- The file is made only if nothing is there, be it a link that leads nowhere.
      have hname := isEntryName_of_find hplain hfind
      have hfits := fits_of_find hfind
      have hplace := Except.ok.inj (hfind.symm.trans (find_child hway hname hfits false nofun))
      cases hfresh : fs.at? (dir ++ [temporaryName h]) with
      | some node =>
        rw [hfresh] at hplace
        subst hplace
        exact .inl ⟨⟨_, rfl⟩, rfl⟩
      | none =>
        rw [hfresh] at hplace
        subst hplace
        exact .inr ⟨rfl, hname, hfits, hfresh, ⟨_, _, at?_put_self fs _ (by simp)⟩,
          fun _ _ hne => at?_put_ne fs _ hne⟩

theorem HasPrivate.of_same (hprivate : HasPrivate h dir content fs fs')
    (hsame : SameBelow dir fs' fs'') : HasPrivate h dir content fs fs'' := by
  obtain ⟨modified, mode, hfile⟩ := hprivate.file
  refine ⟨hprivate.name, hprivate.fits, hprivate.fresh, ⟨modified, mode, ?_⟩,
    fun loc hloc hne => ?_⟩
  · rw [hsame _ (List.prefix_append ..), hfile]
  · rw [hsame loc hloc, hprivate.other loc hloc hne]

/-- The private file with other content in its place. -/
theorem HasPrivate.put (hprivate : HasPrivate h dir content fs fs') (content' : Bytes)
    (modified : Instant) (mode : Nat) :
    HasPrivate h dir content' fs
      (fs'.put (dir ++ [temporaryName h]) (.file content' modified mode)) where
  name := hprivate.name
  fits := hprivate.fits
  fresh := hprivate.fresh
  file := ⟨modified, mode, at?_put_self fs' _ (by simp)⟩
  other := by
    intro loc hloc hne
    rw [at?_put_ne fs' _ hne, hprivate.other loc hloc hne]

theorem HasPrivate.noLink (hprivate : HasPrivate h dir content fs fs') :
    NoLink fs' (dir ++ [temporaryName h]) := by
  obtain ⟨modified, mode, hfile⟩ := hprivate.file
  intro t
  rw [hfile]
  simp

theorem HasPrivate.read (hprivate : HasPrivate h dir content fs fs')
    (hway : fs'.Leads h.cwd h.temporary dir) :
    fs'.read h.cwd (temporaryFile h) = .ok content := by
  obtain ⟨modified, mode, hfile⟩ := hprivate.file
  have hread := read_child hway hprivate.name hprivate.fits hprivate.noLink
  rwa [hfile] at hread

theorem HasPrivate.hasPart {front : Bytes} (hprivate : HasPrivate h dir front fs fs')
    (hfront : front <+: content) : HasPart h dir (.ok content) fs fs' :=
  ⟨content, front, rfl, hfront, hprivate⟩

/-- What is written to the private file, as a whole or in part, is its new content. -/
theorem HasPrivate.of_write (hprivate : HasPrivate h dir [] fs fs')
    (hway : fs'.Leads h.cwd h.temporary dir) {x : Except IoError Unit}
    (hserved : Served h F fs' (.write (temporaryFile h) content) x fs'') :
    (∃ e, x = .error e) ∧ HasPart h dir (.ok content) fs fs'' ∨
      x = .ok () ∧ HasPrivate h dir content fs fs'' := by
  obtain ⟨modified, mode, hfile⟩ := hprivate.file
  have hwrites : ∀ bytes, fs'.write h.cwd h.now (temporaryFile h) bytes =
      .ok (fs'.put (dir ++ [temporaryName h]) (.file bytes h.now mode)) := by
    intro bytes
    have hwrite := write_child hway hprivate.name hprivate.fits hprivate.noLink h.now bytes
    rwa [hfile] at hwrite
  cases hserved with
  | refused _ hx =>
    cases hx
    exact .inl ⟨⟨_, rfl⟩, hprivate.hasPart List.nil_prefix⟩
  | writtenInPart e _ hfront hwrite =>
    rw [hwrites] at hwrite
    cases hwrite
    exact .inl ⟨⟨e, rfl⟩, (hprivate.put _ _ _).hasPart hfront⟩
  | well =>
    unfold Machine.respond
    dsimp only
    rw [hwrites]
    exact .inr ⟨rfl, hprivate.put _ _ _⟩

/-- Another mode is no other content. -/
theorem HasPrivate.of_setMode (hprivate : HasPrivate h dir content fs fs')
    (hway : fs'.Leads h.cwd h.temporary dir) {mode : Nat} {x : Except IoError Unit}
    (hserved : Served h F fs' (.setMode (temporaryFile h) mode) x fs'') :
    HasPrivate h dir content fs fs'' := by
  obtain ⟨modified, mode', hfile⟩ := hprivate.file
  apply hserved.whole hprivate _ nofun nofun
  apply Machine.files_change hprivate
  intro fs₁ hset
  rw [temporaryFile, setMode_child hway hprivate.name hprivate.fits hprivate.noLink, hfile] at hset
  cases hset
  exact hprivate.put _ _ _

/-- With the private file removed, everything is as before. -/
theorem HasPrivate.sameBelow_of_served (hprivate : HasPrivate h dir content fs fs')
    (hway : fs'.Leads h.cwd h.temporary dir) {x : (Request.removeFile (temporaryFile h)).Answer}
    (hserved : Served h F fs' (.removeFile (temporaryFile h)) x fs'')
    (hremove : ¬ F (.removeFile (temporaryFile h))) : SameBelow dir fs fs'' := by
  cases hserved with
  | refused hfail => exact absurd hfail hremove
  | well =>
    obtain ⟨modified, mode, hfile⟩ := hprivate.file
    have hremoved : fs'.removeFile h.cwd (temporaryFile h) =
        .ok (fs'.erase (dir ++ [temporaryName h])) := by
      have hchild := removeFile_child hway hprivate.name hprivate.fits
      rwa [hfile] at hchild
    show SameBelow dir fs (Machine.change ⟨fs', []⟩ (fs'.removeFile h.cwd _)).2.files
    rw [hremoved]
    intro loc hloc
    -- The name has been free before, so nothing is missed when the file is gone.
    by_cases hplace : loc = dir ++ [temporaryName h]
    · rw [hplace, hprivate.fresh]
      exact at?_erase_self fs' (by simp)
    · exact (at?_erase_ne fs' hplace).trans (hprivate.other loc hloc hplace)

variable {I : Request → FileSystem → Prop} {script : Except IoError Bytes}

/-- To discard the private file leaves nothing behind. -/
theorem HasPrivate.always_discard (hprivate : HasPrivate h dir content fs fs')
    (hremove : ¬ F (.removeFile (temporaryFile h)))
    (hI : I (.removeFile (temporaryFile h)) fs') :
    (Source.discard (temporaryFile h)).Always (apart s h F dir) I (fun _ => SameBelow dir fs)
      fs' := by
  refine ⟨hI, ?_⟩
  intro x fs'' hserved
  exact hprivate.sameBelow_of_served hserved.1.way hserved.2 hremove

theorem HasPart.always_discard (hpart : HasPart h dir script fs fs')
    (hremove : ¬ F (.removeFile (temporaryFile h))) (hI : Admits h dir script fs I) :
    (Source.discard (temporaryFile h)).Always (apart s h F dir) I (fun _ => SameBelow dir fs)
      fs' := by
  have hmay := hI (.removeFile (temporaryFile h)) fs' rfl (.inr hpart)
  obtain ⟨_, _, _, _, hprivate⟩ := hpart
  exact hprivate.always_discard hremove hmay

/-! ## Section 3: Opening -/

theorem Admits.same (hI : Admits h dir script fs I) : ∀ r, r.opens = true → I r fs :=
  fun r hr => hI r fs hr (.inl (.refl dir fs))

/-- What is seen is told, or that it cannot be seen. -/
theorem always_look (hI : ∀ r, r.opens = true → I r fs) {r : Request} (hr : r.looks = true) :
    (Action.ask r).Always (apart s h F dir) I (fun x fs' =>
      (x = (Machine.respond h ⟨fs, []⟩ r).1 ∨ ∃ e, r.refusal? e = some x) ∧ fs' = fs)
      (SameBelow dir fs) fs := by
  refine Action.always_ask (hI r (Request.opens_of_looks hr)) fun x fs' hserved => ?_
  have hsame := (apart s h F dir).looks hserved hr
  cases hserved.2 with
  | well => exact ⟨.inl rfl, hsame⟩
  | refused _ hx => exact ⟨.inr ⟨_, hx⟩, hsame⟩
  | removedInPart | writtenInPart => cases hr

/-- What only looks around leaves the files as they are, and fails without a trace. -/
theorem always_looks {α : Type} {a : Action α} (hI : ∀ r, r.opens = true → I r fs) (ha : a.Looks) :
    a.Always (apart s h F dir) I (fun _ fs' => fs' = fs) (SameBelow dir fs) fs := by
  have halways := ha.always (S := apart s h F dir) fun r hr =>
    hI r (Request.opens_of_looks hr)
  exact Program.Always.mono halways (fun _ _ h => h) fun _ _ ⟨hok, herror⟩ =>
    ⟨hok, fun f hf => herror f hf ▸ .refl dir fs⟩

namespace Source

/-- The private file is filled, or holds a beginning of what it is to hold. -/
theorem always_fill (hI : Admits h dir (.ok content) fs I) (hprivate : HasPrivate h dir [] fs fs')
    (mode : Nat) :
    (fill (temporaryFile h) content mode).Always (apart s h F dir) I
      (fun _ => HasPrivate h dir content fs) (HasPart h dir (.ok content) fs) fs' := by
  have hwrite : (Action.ask (.write (temporaryFile h) content)).Always (apart s h F dir) I
      (fun x fs'' => (∃ e, x = .error e) ∧ HasPart h dir (.ok content) fs fs'' ∨
        x = .ok () ∧ HasPrivate h dir content fs fs'') (HasPart h dir (.ok content) fs) fs' :=
    Action.always_ask (hI _ fs' rfl (.inr (hprivate.hasPart List.nil_prefix)))
      fun x fs'' hserved => hprivate.of_write hserved.1.way hserved.2
  refine hwrite.bind fun written fs₁ hwritten => ?_
  rcases hwritten with ⟨⟨e, rfl⟩, hpart⟩ | ⟨rfl, hfilled⟩
  · exact Action.always_throw _ hpart
  · have hset : (Action.ask (.setMode (temporaryFile h) mode)).Always (apart s h F dir) I
        (fun _ => HasPrivate h dir content fs) (HasPart h dir (.ok content) fs) fs₁ :=
      Action.always_ask (hI _ fs₁ rfl (.inr (hfilled.hasPart (List.prefix_refl _))))
        fun x fs'' hserved => hfilled.of_setMode hserved.1.way hserved.2
    refine hset.bind fun set fs₂ hmode => ?_
    exact Action.always_orFail (fun _ _ => hmode) fun _ _ => hmode.hasPart (List.prefix_refl _)

/-- Either the private file is there with its content, or there is none. -/
theorem always_makeTemporary (hslash : Path.slash ∉ h.freshName)
    (hremove : ¬ F (.removeFile (temporaryFile h))) (hI : Admits h dir (.ok content) fs I)
    (mode : Nat) :
    (makeTemporary content mode).Always (apart s h F dir) I
      (fun file fs' => file = temporaryFile h ∧ HasPrivate h dir content fs fs')
      (SameBelow dir fs) fs := by
  have hask : (Action.ask (.temporary _ _)).Always (apart s h F dir) I
      (fun made fs' => (∃ e, made = .error e) ∧ fs' = fs ∨
        made = .ok (temporaryFile h) ∧ HasPrivate h dir [] fs fs') (SameBelow dir fs) fs :=
    Action.always_ask (hI.same _ rfl) fun made fs' ⟨hapart, hserved⟩ =>
      hasPrivate_of_served hserved hslash hapart.way
  refine hask.bind fun made fs' hmade => ?_
  rcases hmade with ⟨⟨e, rfl⟩, rfl⟩ | ⟨rfl, hprivate⟩
  · exact Action.always_throw _ (.refl dir fs')
  · -- What cannot be filled is discarded, and only then does the action fail.
    have hfill := (always_fill (s := s) (F := F) hI hprivate mode).orUndo fun fs'' hpart =>
      hpart.always_discard hremove hI
    exact hfill.bind fun _ fs'' hfilled => Action.always_pure ⟨rfl, hfilled⟩

theorem always_inlined (hslash : Path.slash ∉ h.freshName)
    (hremove : ¬ F (.removeFile (temporaryFile h))) (hI : Admits h dir (.ok content) fs I)
    (mode : Nat) (origin : Option Path) (folder : Path) :
    Action.Always (apart s h F dir) I (RunsPrivate h dir content fs) (SameBelow dir fs) (do
      let file ← makeTemporary content mode
      return ⟨.inlined, some file, origin, folder, some file⟩) fs := by
  refine (always_makeTemporary hslash hremove hI mode).bind fun file fs' ⟨hfile, hprivate⟩ => ?_
  subst hfile
  exact Action.always_pure ⟨rfl, rfl, hprivate⟩

/-- The file that is there already is discarded if the current directory cannot be told. -/
theorem always_ofContent {t : Text} (hslash : Path.slash ∉ h.freshName)
    (hremove : ¬ F (.removeFile (temporaryFile h))) (hI : Admits h dir (.ok (Utf8.encode t)) fs I)
    (cwd : Path) :
    (ofContent cwd t).Always (apart s h F dir) I (RunsPrivate h dir (Utf8.encode t) fs)
      (SameBelow dir fs) fs := by
  refine (always_makeTemporary hslash hremove hI _).bind fun file fs' ⟨hfile, hprivate⟩ => ?_
  subst hfile
  have hthere : ∀ r, r.opens = true → I r fs' := fun r hr =>
    hI r fs' hr (.inr (hprivate.hasPart (List.prefix_refl _)))
  have hneed := looks_needDirectory.always (S := apart s h F dir) fun r hr =>
    hthere r (Request.opens_of_looks hr)
  have hundo := hneed.orUndo fun fs'' hsame =>
    hsame ▸ hprivate.always_discard hremove (hthere _ rfl)
  refine hundo.bind fun _ fs'' hsame => ?_
  subst hsame
  exact Action.always_pure ⟨rfl, rfl, hprivate⟩

theorem always_ofPath (hI : ∀ r, r.opens = true → I r fs) (cwd p : Path) :
    (ofPath cwd p).Always (apart s h F dir) I
      (fun source fs' => fs' = fs ∧ source.temporary = none) (SameBelow dir fs) fs := by
  have hlooks : (ofPath cwd p).Always (apart s h F dir) I (fun _ fs' => fs' = fs)
      (SameBelow dir fs) fs := always_looks hI (looks_ofPath cwd p)
  refine (hlooks.gives (gives_ofPath cwd p)).mono fun source fs' ⟨hsame, hopened⟩ => ⟨hsame, ?_⟩
  rcases hopened with rfl | ⟨full, folder, _, rfl | rfl⟩ <;> rfl

/-- The content is read before the file is made. -/
theorem always_copied (hslash : Path.slash ∉ h.freshName)
    (hremove : ¬ F (.removeFile (temporaryFile h))) (hI : Admits h dir script fs I)
    {answer : Except IoError Bytes} (hanswer : answer = script ∨ ∃ e, answer = .error e)
    (f : IoError → Failure) {between : Action PUnit} (hbetween : between.Looks)
    (mode : Nat) (origin : Option Path) (folder : Path) :
    Action.Always (apart s h F dir) I (fun source fs' => ∃ content, script = .ok content ∧
      RunsPrivate h dir content fs source fs') (SameBelow dir fs) (do
        let content ← Action.orFail answer f
        between
        let file ← makeTemporary content mode
        return ⟨.inlined, some file, origin, folder, some file⟩) fs := by
  cases answer with
  | error e => exact Action.always_throw _ (.refl dir fs)
  | ok content =>
    rcases hanswer with rfl | ⟨e, he⟩
    · refine (always_looks hI.same hbetween).bind fun _ fs' hsame => ?_
      subst hsame
      exact (always_inlined hslash hremove hI mode origin folder).mono
        fun source fs' hruns => ⟨content, rfl, hruns⟩
    · cases he

theorem always_copyOf (hslash : Path.slash ∉ h.freshName)
    (hremove : ¬ F (.removeFile (temporaryFile h))) (cwd p : Path)
    (hI : Admits h dir (if p.same (Path.ofText stdinArgument) then .ok h.stdin
      else fs.read h.cwd p) fs I) :
    (copyOf cwd p).Always (apart s h F dir) I (fun source fs' => ∃ content,
      (if p.same (Path.ofText stdinArgument) then .ok h.stdin else fs.read h.cwd p) = .ok content ∧
        RunsPrivate h dir content fs source fs') (SameBelow dir fs) fs := by
  unfold copyOf
  by_cases hstdin : p.same (Path.ofText stdinArgument) = true
  · simp only [if_pos hstdin] at hI ⊢
    refine (always_look hI.same rfl).bind fun answer fs' ⟨hanswer, hsame⟩ => ?_
    subst hsame
    exact always_copied hslash hremove hI
      (hanswer.imp_right fun ⟨e, he⟩ => ⟨e, (Option.some.inj he).symm⟩) _ looks_needDirectory _
      none cwd
  · simp only [if_neg hstdin] at hI ⊢
    refine (always_ofPath hI.same cwd p).bind fun named fs' ⟨hsame, _⟩ => ?_
    subst hsame
    refine (always_look hI.same rfl).bind fun answer fs'' ⟨hanswer, hsame⟩ => ?_
    subst hsame
    exact always_copied hslash hremove hI
      (hanswer.imp_right fun ⟨e, he⟩ => ⟨e, (Option.some.inj he).symm⟩) _
      (Action.only_pure ()) _ named.origin named.folder

end Source
end Script

end ScriptDeps
