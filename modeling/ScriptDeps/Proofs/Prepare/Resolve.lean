import ScriptDeps.Prepare
import ScriptDeps.Proofs.Store.Steps
import ScriptDeps.Proofs.Time.Text

/-! # Asking the toolchain

    However the toolchain behaves, asking it ends in one of three ways
    (`Resolved`): it cannot be started, it fails, or its answer is recorded,
    which is what it has shown, completed on the files that it has left
    (`Resolve.completed`).  It is called once (`calls_resolve`).  What it does
    to files is bounded by what the host allows it (`Host.Confined`), and a
    record is all that is written besides. -/

namespace ScriptDeps

/-! ## Section 1: Hosts and failures -/

namespace Host

/-- Whatever it is called for, the toolchain changes nothing but the build
    directory of the package that it runs in. -/
def Confined (h : Host) : Prop :=
  ∀ call dir d fs fs' es, call.directory = some dir → h.capture call fs = .ok (fs', es) →
    fs.findNode h.cwd true dir = .ok (d, .directory) →
    ∀ loc, ¬ (d ++ [Store.buildName]) <+: loc → fs'.at? loc = fs.at? loc

/-- The clock shows a time that can be written as a date. -/
def Dated (h : Host) : Prop := (Timestamp.ofNanoseconds h.now).IsDated

instance (h : Host) : Decidable h.Dated :=
  inferInstanceAs (Decidable (Timestamp.ofNanoseconds h.now).IsDated)

end Host

/-- Whether a failure is that of a resolution. -/
def Failure.isResolution : Failure → Bool
  | toolchainStart _ | resolution _ | interrupted _ => true
  | _ => false

namespace Resolve

/-! ## Section 2: The arguments -/

theorem only_request {r : Request} (hr : r.looks = true) :
    Program.Only (·.looks = true) (Program.request r) := ⟨hr, fun _ => trivial⟩

theorem only_preferModules (path : Text) :
    Program.Only (·.looks = true) (Invocation.preferModules path) := by
  refine (only_request rfl).bind fun there => ?_
  split
  · trivial
  · trivial

theorem only_preferModulesAll (args : List Text) :
    Program.Only (·.looks = true) (Invocation.preferModulesAll args) := by
  fun_induction Invocation.preferModulesAll args with
  | case1 => trivial
  | case2 path rest ih => exact (only_preferModules path).bind fun _ => ih.bind fun _ => trivial
  | case3 path rest _ _ ih => exact ih.bind fun _ => trivial
  | case4 path rest _ _ ih => exact (only_preferModules path).bind fun _ => ih.bind fun _ => trivial
  | case5 word rest _ _ ih => exact ih.bind fun _ => trivial

theorem only_systemPaths (vs : List Visit) :
    Program.Only (·.looks = true) (Invocation.systemPaths vs) := by
  induction vs with
  | nil => trivial
  | cons v rest ih =>
    rw [Invocation.systemPaths]
    split
    · exact ih
    · refine (only_request rfl).bind fun found => ?_
      split
      · exact ih
      · refine ih.bind fun later => ?_
        split
        · trivial
        · trivial

theorem only_complete (args : List Text) (dir : Path) :
    Program.Only (·.looks = true) (Invocation.complete args dir) := by
  refine (only_preferModulesAll args).bind fun _ => ?_
  refine (only_request rfl).bind fun _ => (only_request rfl).bind fun checkouts => ?_
  exact (only_systemPaths checkouts).bind fun _ => trivial

/-- Whether arguments are shown does not depend on the name of the program. -/
theorem result_any_program (c : Capture) (program program' : Text) :
    (c.result program).1 = (c.result program').1 := by
  unfold Capture.result
  cases c.forwarded.getLast? with
  | some s => rfl
  | none =>
    dsimp only
    split
    · rfl
    · rfl

/-- A reading that has no result ends in the failure of a resolution. -/
theorem isResolution_of_result {c : Capture} {program : Text} {f : Failure}
    (h : (c.result program).1 = .error f) : f.isResolution = true := by
  unfold Capture.result at h
  dsimp only at h
  -- A signal is a failure by itself; without one the end is, or that no arguments were shown.
  cases hsignal : c.forwarded.getLast? with
  | some s =>
    rw [hsignal] at h
    cases h
    rfl
  | none =>
    rw [hsignal] at h
    dsimp only at h
    cases hshown : c.invocation with
    | none =>
      rw [hshown] at h
      split at h
      · cases h
        rfl
      · cases h
        rfl
    | some args =>
      rw [hshown] at h
      split at h
      · cases h
      · cases h
        rfl

/-- The arguments that are made of what the toolchain has shown in `dir`, if
    `fs` are the files that it has left. -/
def completed (h : Host) (dir : Path) (fs : FileSystem) (shown : List Text) : List Text :=
  ((Invocation.complete shown dir).run h ⟨fs, []⟩).1

theorem respond_capture (x : Call) (h : Host) (m : Machine) :
    m.respond h (.capture x) =
      match h.capture x m.files with
      | .ok (fs, es) => (.ok es, { m with files := fs }.see (.captured x))
      | .error e => (.error e, m) := rfl

/-- What the toolchain shows is read after it has done its work. -/
theorem run_capture (dir : Path) (o : Options) (h : Host) (m : Machine) :
    match h.capture (call dir o) m.files with
    | .error _ => (capture dir o).run h m = (.error (.toolchainStart o.swift.display), m)
    | .ok (fs, es) => ∃ m', m'.files = fs ∧
        (capture dir o).run h m = (((Capture.run es).result o.swift.display).1, m') := by
  unfold capture
  rw [Action.run_bind, Action.run_ask, respond_capture]
  cases hcall : h.capture (call dir o) m.files with
  | error e => rfl
  | ok answer =>
    obtain ⟨fs, es⟩ := answer
    dsimp only
    obtain ⟨m₁, hlog₁, hfiles₁⟩ := Action.run_logAll (Capture.run es).events h
      ({ m with files := fs }.see (.captured (call dir o)))
    obtain ⟨m₂, hlog₂, hfiles₂⟩ := Action.run_logAll
      ((Capture.run es).result o.swift.display).2 h m₁
    refine ⟨m₂, hfiles₂.trans hfiles₁, ?_⟩
    rw [Action.run_bind_ok hlog₁, Action.run_bind_ok hlog₂]
    cases ((Capture.run es).result o.swift.display).1 <;> rfl

/-- What the toolchain shows is completed on the files that it has left, which
    is no failure and changes no files. -/
theorem run_invocation (dir : Path) (o : Options) (h : Host) (m : Machine) :
    match h.capture (call dir o) m.files with
    | .error _ => (invocation dir o).run h m = (.error (.toolchainStart o.swift.display), m)
    | .ok (fs, es) => ∃ m', m'.files = fs ∧ (invocation dir o).run h m =
        (((Capture.run es).result o.swift.display).1.map (completed h dir fs), m') := by
  have hcapture := run_capture dir o h m
  unfold invocation
  cases hcall : h.capture (call dir o) m.files with
  | error e =>
    rw [hcall] at hcapture
    exact Action.run_bind_error hcapture
  | ok answer =>
    obtain ⟨fs, es⟩ := answer
    rw [hcall] at hcapture
    obtain ⟨m₁, hfiles, hrun⟩ := hcapture
    dsimp only
    cases hresult : ((Capture.run es).result o.swift.display).1 with
    | error f =>
      rw [hresult] at hrun
      exact ⟨m₁, hfiles, Action.run_bind_error hrun⟩
    | ok shown =>
      rw [hresult] at hrun
      obtain ⟨m₂, hlog, hfiles₂⟩ := Action.run_logAll (Invocation.events shown) h m₁
      have hleft : m₂.files = (⟨fs, []⟩ : Machine).files := hfiles₂.trans hfiles
      have hargs : ((Invocation.complete shown dir).run h m₂).1 = completed h dir fs shown :=
        (Program.run_congr hleft h _).1
      refine ⟨((Invocation.complete shown dir).run h m₂).2,
        ((only_complete shown dir).files_run h m₂).trans hleft, ?_⟩
      rw [Action.run_bind_ok hrun, Action.run_bind_ok hlog, Action.run_lift, hargs]
      rfl

/-- What is done with the answer to a call. -/
def hear (o : Options) : Except IoError (List Capture.Event) → Action (List Text)
  | .error _ => throw (.toolchainStart o.swift.display)
  | .ok events => do
      let c := Capture.run events
      Action.logAll c.events
      let (result, more) := c.result o.swift.display
      Action.logAll more
      match result with
      | .ok args => return args
      | .error f => throw f

theorem capture_eq (dir : Path) (o : Options) :
    capture dir o = Action.ask (.capture (call dir o)) >>= hear o := by
  refine congrArg (Action.ask (.capture (call dir o)) >>= ·) (funext fun answer => ?_)
  cases answer <;> rfl

theorem looks_hear (o : Options) (answer : Except IoError (List Capture.Event)) :
    Action.Looks (hear o answer) := by
  cases answer with
  | error e => exact Action.only_throw _
  | ok events =>
    refine (Action.looks_logAll _).bind fun _ => (Action.looks_logAll _).bind fun _ => ?_
    split
    · exact Action.only_pure _
    · exact Action.only_throw _

/-- To make the arguments, the toolchain is called once. -/
theorem calls_invocation (dir : Path) (o : Options) (h : Host) (m : Machine) :
    (invocation dir o).calls h m = [(call dir o, m.files)] := by
  have hrest : ∀ args, Action.Looks (do
      Action.logAll (Invocation.events args)
      ExceptT.lift (Invocation.complete args dir)) := fun args =>
    (Action.looks_logAll _).bind fun _ => Action.only_lift (only_complete args dir)
  calc (invocation dir o).calls h m
      = (capture dir o).calls h m := Action.calls_bind_alone fun args => (hrest args).alone
    _ = (Action.ask (.capture (call dir o))).calls h m := by
        rw [capture_eq]
        exact Action.calls_bind_alone fun answer => (looks_hear o answer).alone
    _ = [(call dir o, m.files)] := rfl

end Resolve

namespace Prepare

open Store

/-! ## Section 3: The record -/

/-- The files after a record has been written as far as it can be. -/
def savedFiles (h : Host) (r : Record) (fs : FileSystem) : FileSystem :=
  match r.render? with
  | none => fs
  | some content =>
      ((fs.write h.cwd h.now (recordIn r.directory) (Utf8.encode content)).toOption).getD fs

/-- The record that is made of the arguments `args`. -/
def newRecord (h : Host) (o : Options) (dir : Path) (mf : Manifest) (args : List Text) : Record :=
  ⟨mf.hash, dir, args, o.release, Timestamp.ofNanoseconds h.now⟩

/-- The ways in which asking the toolchain ends: with which result, and with
    which files. -/
inductive Resolved (h : Host) (o : Options) (dir : Path) (mf : Manifest) (fs : FileSystem) :
    Except Failure Record → FileSystem → Prop
  | notStarted {e : IoError} (hcall : h.capture (Resolve.call dir o.resolve) fs = .error e) :
      Resolved h o dir mf fs (.error (.toolchainStart o.swift.display)) fs
  | failed {fs' : FileSystem} {es : List Capture.Event} {f : Failure}
      (hcall : h.capture (Resolve.call dir o.resolve) fs = .ok (fs', es))
      (hresult : ((Capture.run es).result o.swift.display).1 = .error f) :
      Resolved h o dir mf fs (.error f) fs'
  | recorded {fs' : FileSystem} {es : List Capture.Event} {shown : List Text}
      (hcall : h.capture (Resolve.call dir o.resolve) fs = .ok (fs', es))
      (hresult : ((Capture.run es).result o.swift.display).1 = .ok shown) :
      Resolved h o dir mf fs (.ok (newRecord h o dir mf (Resolve.completed h dir fs' shown)))
        (savedFiles h (newRecord h o dir mf (Resolve.completed h dir fs' shown)) fs')

theorem Resolved.isResolution {h : Host} {o : Options} {dir : Path} {mf : Manifest}
    {fs fs' : FileSystem} {f : Failure} (hresolved : Resolved h o dir mf fs (.error f) fs') :
    f.isResolution = true := by
  cases hresolved with
  | notStarted hcall => rfl
  | failed hcall hresult => exact Resolve.isResolution_of_result hresult

/-- A record that cannot be written is returned all the same. -/
theorem run_save (r : Record) (h : Host) (m : Machine) :
    ∃ x, Action.run (ExceptT.lift (ExceptT.run (saveRecord r)) :
        Action (Except Failure PUnit)) h m =
      (.ok x, { m with files := savedFiles h r m.files }) := by
  rw [Action.run_lift]
  change ∃ x, (Except.ok ((saveRecord r).run h m).1, ((saveRecord r).run h m).2) = _
  refine ⟨((saveRecord r).run h m).1, ?_⟩
  rw [run_saveRecord]
  unfold savedFiles
  cases r.render? with
  | none => rfl
  | some content =>
    dsimp only
    cases m.files.write h.cwd h.now (recordIn r.directory) (Utf8.encode content) <;> rfl

theorem run_resolve (o : Options) (dir : Path) (mf : Manifest) (h : Host) (m : Machine) :
    Resolved h o dir mf m.files ((resolve o dir mf).run h m).1
      ((resolve o dir mf).run h m).2.files := by
  have hsaid : (Action.ask (.progress "Resolving dependencies...".toList)).run h m =
      (.ok (), m.see (.progressed "Resolving dependencies...".toList)) := rfl
  have hinvocation := Resolve.run_invocation dir o.resolve h
    (m.see (.progressed "Resolving dependencies...".toList))
  unfold resolve
  rw [Action.run_bind_ok hsaid]
  change match h.capture (Resolve.call dir o.resolve) m.files with
    | .error _ => _
    | .ok (fs, es) => _ at hinvocation
  cases hcall : h.capture (Resolve.call dir o.resolve) m.files with
  | error e =>
    rw [hcall] at hinvocation
    rw [Action.run_bind_error hinvocation]
    exact .notStarted hcall
  | ok answer =>
    obtain ⟨fs, es⟩ := answer
    rw [hcall] at hinvocation
    obtain ⟨m₁, hfiles, hrun⟩ := hinvocation
    subst hfiles
    change _ = (((Capture.run es).result o.swift.display).1.map _, _) at hrun
    cases hresult : ((Capture.run es).result o.swift.display).1 with
    | error f =>
      rw [hresult] at hrun
      rw [Action.run_bind_error hrun]
      exact .failed hcall hresult
    | ok shown =>
      rw [hresult] at hrun
      rw [Action.run_bind_ok hrun]
      obtain ⟨x, hsave⟩ := run_save
        (newRecord h o dir mf (Resolve.completed h dir m₁.files shown)) h m₁
      have hnow : (Action.ask .now).run h m₁ = (.ok h.now, m₁) := rfl
      unfold newRecord at hsave
      rw [Action.run_bind_ok hnow]
      dsimp only
      rw [Action.run_bind_ok hsave]
      -- Whether it was saved is only logged.
      cases x with
      | ok _ => exact .recorded hcall hresult
      | error f => exact .recorded hcall hresult

/-- To resolve, the toolchain is called once. -/
theorem calls_resolve (o : Options) (dir : Path) (mf : Manifest) (h : Host) (m : Machine) :
    (resolve o dir mf).calls h m = [(Resolve.call dir o.resolve, m.files)] := by
  have hsaid : (Action.ask (.progress "Resolving dependencies...".toList)).run h m =
      (.ok (), m.see (.progressed "Resolving dependencies...".toList)) := rfl
  unfold resolve
  rw [(Action.alone_ask rfl).calls_bind hsaid, Action.calls_bind_alone fun args => ?_,
    Resolve.calls_invocation]
  · rfl
  · refine (Action.alone_ask rfl).bind fun now =>
      (Action.only_lift (alone_saveRecord _)).bind fun saved => ?_
    split
    · exact Action.only_pure _
    · exact (Action.alone_ask rfl).bind fun _ => Action.only_pure _

end Prepare
end ScriptDeps
