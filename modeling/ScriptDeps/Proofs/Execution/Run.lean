import ScriptDeps.Proofs.Execution.Feeding
import ScriptDeps.Proofs.Path
import ScriptDeps.Proofs.Prepare.Requests
import ScriptDeps.Proofs.Session
import ScriptDeps.Proofs.Text.Utf8
import ScriptDeps.Tool.Session
import ScriptDeps.Toolchain.Scripted

/-! # Running a prepared script

    The path of an open script is never written `-` (`argument_eq_stdin_iff`),
    so the toolchain is told to read its standard input exactly when there is
    no file, and exactly then it is fed.  A run that reaches its script asks
    for one execution, of the prepared call (`run_hands_over`), and what comes
    of it is the exit code. -/

namespace ScriptDeps

/-! ## Section 1: The argument of the script -/

theorem Path.display_ne_stdin {p : Path} (h : p.bytes ≠ [0x2D]) :
    p.display ≠ Script.stdinArgument := by
  intro hdisplay
  exact h (Utf8.eq_encode_of_decodeLossy (by decide) hdisplay)

theorem Path.isAbsolute_foldl_join {p : Path} (h : p.isAbsolute = true)
    (cs : List Path.Component) :
    (cs.foldl (fun q c => q.join c.path) p).isAbsolute = true := by
  induction cs generalizing p with
  | nil => exact h
  | cons c cs ih => exact ih (isAbsolute_join _ h)

/-- The absolute form of a path is absolute. -/
theorem Path.isAbsolute_of_absolute {p cwd full : Path} (hcwd : cwd.isAbsolute = true)
    (h : p.absolute cwd = .ok full) : full.isAbsolute = true := by
  unfold Path.absolute at h
  split at h
  · cases h
  dsimp only at h
  generalize hstart : (if (!p.isAbsolute) = true then cwd else _ : Path) = start at h
  -- The components of an absolute path begin with the root.
  have hcases : start.isAbsolute = true ∨ start = ⟨[]⟩ ∧ p.isAbsolute = true := by
    split at hstart
    · exact .inl (hstart ▸ hcwd)
    · next habsolute =>
      have habsolute : p.isAbsolute = true := by simpa using habsolute
      repeat' split at hstart
      all_goals first
        | exact .inr ⟨hstart.symm, habsolute⟩
        | exact .inl (hstart ▸ rfl)
  generalize hcs : (if start = ⟨[slash, slash]⟩ then _ else _ : List Component) = cs at h
  have hfolded : (cs.foldl (fun q c => q.join c.path) start).isAbsolute = true := by
    rcases hcases with hstart | ⟨rfl, hp⟩
    · exact isAbsolute_foldl_join hstart cs
    · rw [if_neg (by decide)] at hcs
      unfold components head at hcs
      rw [if_pos hp] at hcs
      subst hcs
      exact isAbsolute_foldl_join (p := ⟨[slash]⟩) rfl _
  cases h
  split
  · exact isAbsolute_join _ hfolded
  · exact hfolded

/-- Whether a request starts a program and waits for it. -/
def Request.isExecute : Request → Bool
  | execute .. => true
  | _ => false

namespace Script.Source

variable {source : Source}

theorem argument_eq_stdin_iff_of (h : ∀ file, source.runPath = some file → file.bytes ≠ [0x2D]) :
    source.argument = stdinArgument ↔ source.runPath = none := by
  unfold argument
  cases hfile : source.runPath with
  | none => exact ⟨fun _ => rfl, fun _ => rfl⟩
  | some file =>
    exact ⟨fun heq => absurd heq (Path.display_ne_stdin (h file hfile)), nofun⟩

/-- The path of a new temporary file. -/
theorem run_makeTemporary {content : Bytes} {mode : Nat} {h : Host} {m m' : Machine} {file : Path}
    (hmade : (makeTemporary content mode).run h m = (.ok file, m')) :
    file = Machine.temporaryPath h "swift-sh-inline-content-".toList ".swift".toList := by
  obtain ⟨answer, m₁, hask, hrest⟩ := Action.exists_of_run_bind hmade
  have hanswer : answer = .ok file := by
    obtain ⟨made, m₂, htold, hfilled⟩ := Action.exists_of_run_bind hrest
    obtain ⟨_, m₃, _, hdone⟩ := Action.exists_of_run_bind hfilled
    cases hdone
    exact (Action.gives_orFail answer _).of_run htold
  rw [Action.run_ask, hanswer] at hask
  have hask := congrArg Prod.fst hask
  unfold Machine.respond at hask
  dsimp only at hask
  split at hask <;> cases hask
  rfl

theorem bytes_temporaryPath_ne (h : Host) :
    (Machine.temporaryPath h "swift-sh-inline-content-".toList ".swift".toList).bytes ≠ [0x2D] := by
  intro hbytes
  have hlength := congrArg List.length hbytes
  have hname : 2 ≤ (Utf8.encode "swift-sh-inline-content-".toList ++ h.freshName ++
      Utf8.encode ".swift".toList).length := by
    have hfront : (Utf8.encode "swift-sh-inline-content-".toList).length = 24 := by decide
    rw [List.length_append, List.length_append, hfront]
    omega
  unfold Machine.temporaryPath Path.child Path.join at hlength
  generalize Utf8.encode "swift-sh-inline-content-".toList ++ h.freshName ++
    Utf8.encode ".swift".toList = name at hlength hname
  repeat' split at hlength
  all_goals
    simp only [List.length_append, List.length_cons, List.length_nil] at hlength
    omega

end Script.Source

namespace Tool

open CommandLine (Preparation)

variable {e : Environment} {s : Settings} {p : Preparation} {script : Text} {args : List Text}
  {h : Host} {m m' m₁ m₂ : Machine} {source : Script.Source} {content : Bytes}
  {prepared : Prepare.Prepared}

/-- The path of an open script is never written as standard input is. -/
theorem argument_eq_stdin_iff (hcwd : e.cwd.isAbsolute = true)
    (hopen : (openScript e p script).run h m = (.ok source, m')) :
    source.argument = Script.stdinArgument ↔ source.runPath = none := by
  refine Script.Source.argument_eq_stdin_iff_of fun file hfile => ?_
  unfold openScript at hopen
  split at hopen
  · obtain ⟨made, m₁, hmade, hrest⟩ := Action.exists_of_run_bind hopen
    obtain ⟨_, m₂, _, hdone⟩ := Action.exists_of_run_bind hrest
    cases hdone
    cases hfile
    rw [Script.Source.run_makeTemporary hmade]
    exact Script.Source.bytes_temporaryPath_ne h
  · -- A script that is named is run by its absolute path, if it is a file.
    rcases (Script.Source.gives_ofPath _ _).of_run hopen with
      rfl | ⟨full, folder, hfull, rfl | rfl⟩
    · cases hfile
    · cases hfile
      obtain ⟨rest, hrest⟩ := Path.eq_slash_of_isAbsolute (Path.isAbsolute_of_absolute hcwd hfull)
      rw [hrest]
      intro heq
      cases heq
    · cases hfile

/-! ## Section 2: The prepared script -/

/-- What a run goes through on its way to the script: the open source, the
    bytes scanned, and what is prepared. -/
structure Reaches (e : Environment) (s : Settings) (p : Preparation) (script : Text) (h : Host)
    (m : Machine) (source : Script.Source) (content : Bytes) (prepared : Prepare.Prepared)
    (m₁ m₂ : Machine) : Prop where
  opened   : (openScript e p script).run h m = (.ok source, m₁)
  scanned  : ∃ m', (Prepare.scan e.homes source).run h m₁ =
    (.ok (Script.scan ⟨⟨source.folder, e.homes.home?, e.homes.homeOf?⟩, toolVersion⟩ content,
      content), m')
  prepared : (prepare e.homes (prepareOptions p s true) (store e s) source).run h m₁ =
    (.ok prepared, m₂)

/-- What is prepared says how to hand over the script that was scanned. -/
theorem handover_of_prepare {homes : Homes} {o : Prepare.Options} {st : Store}
    (hprepare : (prepare homes o st source).run h m = (.ok prepared, m')) :
    ∃ content, (∃ m', (Prepare.scan homes source).run h m =
        (.ok (Script.scan ⟨⟨source.folder, homes.home?, homes.homeOf?⟩, toolVersion⟩ content,
          content), m')) ∧
      prepared.script = source.argument ∧
      prepared.stdin = if source.isReplayable then none else some content := by
  obtain ⟨⟨scanned, content⟩, m₁, hscan, hrest⟩ := Action.exists_of_run_bind hprepare
  have hscanned : scanned = Script.scan
      ⟨⟨source.folder, homes.home?, homes.homeOf?⟩, toolVersion⟩ content := by
    have hgives : (Prepare.scan homes source).Gives fun x => x.1 = Script.scan
        ⟨⟨source.folder, homes.home?, homes.homeOf?⟩, toolVersion⟩ x.2 :=
      Action.Gives.of_bind fun _ => Action.Gives.of_bind fun _ => Action.gives_pure rfl
    exact hgives.of_run hscan
  subst hscanned
  refine ⟨content, ⟨m₁, hscan⟩, ?_⟩
  refine Action.Gives.of_run (R := fun prepared => prepared.script = source.argument ∧
    prepared.stdin = if source.isReplayable then none else some content) ?_ hrest
  dsimp only
  generalize (if source.isReplayable then none else some content) = stdin
  split
  · exact Action.Gives.of_bind fun _ => Action.gives_pure ⟨rfl, rfl⟩
  · refine Action.Gives.of_bind fun record => ?_
    split
    · exact Action.Gives.of_bind fun _ => Action.gives_pure ⟨rfl, rfl⟩
    · exact Action.gives_pure ⟨rfl, rfl⟩

/-! ## Section 3: The execution -/

theorem run_eq_execute (hreaches : Reaches e s p script h m source content prepared m₁ m₂)
    (args : List Text) :
    ((run e s p script args).run h m).1 =
      ((execute (prepareOptions p s true).swift prepared args).run h m₂).1 ∧
    (run e s p script args).requests h m = (openScript e p script).requests h m ++
      ((prepare e.homes (prepareOptions p s true) (store e s) source).requests h m₁ ++
        (execute (prepareOptions p s true).swift prepared args).requests h m₂ ++
        source.close.requests h
          ((execute (prepareOptions p s true).swift prepared args).run h m₂).2) := by
  unfold run Script.Source.whileOpen
  dsimp only
  rw [Action.run_bind_ok hreaches.opened, Action.requests_bind_ok hreaches.opened,
    Action.run_thenAlways, Action.requests_thenAlways, Action.run_bind_ok hreaches.prepared,
    Action.requests_bind_ok hreaches.prepared]
  exact ⟨rfl, rfl⟩

theorem isExecute_of_looks {r : Request} (h : r.looks = true) : r.isExecute = false := by
  cases r <;> first | rfl | cases h

theorem isExecute_of_opens {r : Request} (h : r.opens = true) : r.isExecute = false := by
  cases r <;> first | rfl | cases h

theorem isExecute_of_asks {st : Store} {r : Request} (h : Prepare.Asks st source r) :
    r.isExecute = false := by
  cases h with
  | looks hlooks => exact isExecute_of_looks hlooks
  | makeEntry _ | writeManifest _ _ | writePlaceholder _ | writeRecord _ _ | capture _
  | makeMarkers | removeMarker _ | linkMarker _ _ => rfl

theorem filter_isExecute {α : Type} {P : Request → Prop} {q : Program α} (hq : q.Only P)
    (hP : ∀ r, P r → r.isExecute = false) (h : Host) (m : Machine) :
    (q.requests h m).filter Request.isExecute = [] := by
  refine List.filter_eq_nil_iff.2 fun r hr => ?_
  rw [hP r (hq.requests h m r hr)]
  exact Bool.false_ne_true

/-- What is executed, and what it is given to read. -/
theorem requests_execute (swift : Path) (prepared : Prepare.Prepared) (args : List Text) (h : Host)
    (m : Machine) :
    ((execute swift prepared args).requests h m).filter Request.isExecute =
      [.execute (runCall swift prepared args) (runInput prepared)] := by
  have hask := Action.run_ask (.execute (runCall swift prepared args) (runInput prepared)) h m
  rw [execute_eq, Action.requests_bind_ok hask, List.filter_append]
  have hafter := fun answer => filter_isExecute (looks_exitCodeOf swift answer)
    (fun _ => isExecute_of_looks) h
  exact congrArg (_ :: ·) (hafter _ _)

theorem run_exitCodeOf (swift : Path) (x : Execution) (h : Host) (m : Machine) :
    ((exitCodeOf swift (.ok x)).run h m).1 = .ok x.ending.exitCode := by
  obtain ⟨m', hlog, _⟩ := Action.run_logAll x.events h m
  unfold exitCodeOf
  rw [Action.run_bind_ok hlog]
  cases x.ending <;> rfl

/-- An execution that ends gives its exit code, whatever was fed and read. -/
theorem run_execute (swift : Path) (prepared : Prepare.Prepared) (args : List Text) (h : Host)
    (m : Machine) :
    ((execute swift prepared args).run h m).1 =
      match h.execute (runCall swift prepared args)
        (Machine.inputBytes h (runCall swift prepared args) (runInput prepared)) m.files with
      | .ok performance => .ok performance.execution.ending.exitCode
      | .error _ => .error (.toolchainStart swift.display) := by
  have hask := Action.run_ask (.execute (runCall swift prepared args) (runInput prepared)) h m
  rw [execute_eq, Action.run_bind_ok hask]
  unfold Machine.respond
  dsimp only
  cases h.execute (runCall swift prepared args)
      (Machine.inputBytes h (runCall swift prepared args) (runInput prepared)) m.files with
  | error e => rfl
  | ok performance => exact run_exitCodeOf swift _ h _

/-- A program is started only once the script is prepared. -/
theorem exists_reaches {call : Call} {input : Input}
    (hreq : .execute call input ∈ (run e s p script args).requests h m) :
    ∃ source content prepared m₁ m₂, Reaches e s p script h m source content prepared m₁ m₂ ∧
      prepared.script = source.argument ∧
      prepared.stdin = if source.isReplayable then none else some content := by
  rcases Action.mem_requests_bind hreq with hreq | ⟨source, m₁, hopen, hreq⟩
  · exact absurd (isExecute_of_opens ((opens_openScript e p script).requests h m _ hreq)) nofun
  rw [Action.requests_thenAlways] at hreq
  rcases List.mem_append.1 hreq with hreq | hreq
  · rcases Action.mem_requests_bind hreq with hreq | ⟨prepared, m₂, hprepare, _⟩
    · exact absurd (isExecute_of_asks ((asks_prepare _ _ _ source).requests h m₁ _ hreq)) nofun
    · obtain ⟨content, hscan, hhandover⟩ := handover_of_prepare hprepare
      exact ⟨source, content, prepared, m₁, m₂, ⟨hopen, hscan, hprepare⟩, hhandover⟩
  · obtain ⟨file, _, hremove⟩ := source.only_close.requests h _ _ hreq
    cases hremove

/-! ## Section 4: The exit code -/

theorem exitCode_exited {c : Nat} (hc : c < 256) : (Ending.exited c).exitCode = c := by
  show ((c : Int) % 256).toNat = c
  omega

theorem exitCode_signaled {n : Nat} (hn : n < 128) : (Ending.signaled n).exitCode = 128 + n := by
  show (min (max (128 + (n : Int)) 0) 255).toNat = 128 + n
  omega

theorem session_run {argv : List CommandLine.Argument} {verbose : Nat} {named : Option Path}
    {code : Nat} {m₀ : Machine}
    (hread : CommandLine.readNormal e.settings? argv = .ok ⟨verbose, named, .run p script args⟩)
    (hload : (Settings.load (Settings.locate e.places named)).run h m₀ = (.ok s, m))
    (hrun : ((run e s p script args).run h m).1 = .ok code) :
    ((session e argv).run h m₀).1 = code := by
  obtain ⟨hcode, _⟩ := run_session_ok hread nofun hload
  exact hcode.trans (congrArg outcomeCode hrun)

/-! ## Section 5: The whole -/

/-- How a prepared script is handed to the toolchain, and what comes of it. -/
structure HandsOver (e : Environment) (s : Settings) (p : Preparation) (script : Text)
    (args : List Text) (h : Host) (m : Machine) (source : Script.Source) (content : Bytes)
    (prepared : Prepare.Prepared) (files : FileSystem) (call : Call) (input : Input) : Prop where
  /-- Nothing else is executed. -/
  once     : ((run e s p script args).requests h m).filter Request.isExecute =
    [.execute call input]
  /-- The prepared arguments, the script, and what the user has given. -/
  call_eq  : call =
    ⟨(prepareOptions p s true).swift, prepared.args ++ source.argument :: args, none⟩
  argument : source.argument = Script.stdinArgument ↔ source.runPath = none
  input_eq : input = if source.runPath = none then .fed content else .inherited
  /-- What is fed arrives in order, and whole if the child reads to the end. -/
  fed      : source.runPath = none →
    Machine.inputBytes h call input <+: content ∧
      (Feeding.RefusesLate (h.feeding call content) →
        (Machine.feeding h call content).sawEnd = true →
          Machine.inputBytes h call input = content)
  failed   : ∀ error, h.execute call (Machine.inputBytes h call input) files = .error error →
    ((run e s p script args).run h m).1 =
      .error (.toolchainStart (prepareOptions p s true).swift.display)
  ended    : ∀ performance,
    h.execute call (Machine.inputBytes h call input) files = .ok performance →
      ((run e s p script args).run h m).1 = .ok performance.execution.ending.exitCode
  /-- A run for which settings have been loaded gives the exit code of the tool. -/
  exits    : ∀ argv verbose named m₀ code,
    CommandLine.readNormal e.settings? argv = .ok ⟨verbose, named, .run p script args⟩ →
      (Settings.load (Settings.locate e.places named)).run h m₀ = (.ok s, m) →
        ((run e s p script args).run h m).1 = .ok code → ((session e argv).run h m₀).1 = code

/-- A run that reaches its script hands over the prepared arguments, the script
    and the given arguments; feeds the child exactly if there is no file to
    run, from the front of what was scanned; and ends with the child's exit
    code, or 128 and the signal. -/
theorem run_hands_over (hcwd : e.cwd.isAbsolute = true) {call : Call} {input : Input}
    (hreq : .execute call input ∈ (run e s p script args).requests h m) :
    (∃ source content prepared m₁ m₂,
      Reaches e s p script h m source content prepared m₁ m₂ ∧
      HandsOver e s p script args h m source content prepared m₂.files call input) ∧
    (∀ c : Nat, c < 256 → (Ending.exited c).exitCode = c) ∧
    (∀ n : Nat, n < 128 → (Ending.signaled n).exitCode = 128 + n) := by
  -- A request to execute something shows that the run has come to its script.
  refine ⟨?_, fun c hc => exitCode_exited hc, fun n hn => exitCode_signaled hn⟩
  obtain ⟨source, content, prepared, m₁, m₂, hreaches, hargument, hstdin⟩ := exists_reaches hreq
  obtain ⟨hresult, hrequests⟩ := run_eq_execute hreaches args
  have hinput : runInput prepared =
      if source.runPath = none then .fed content else .inherited := by
    unfold runInput
    rw [hstdin]
    unfold Script.Source.isReplayable
    cases source.runPath <;> rfl
  -- Neither opening nor preparing nor closing executes anything.
  have honce : ((run e s p script args).requests h m).filter Request.isExecute =
      [.execute (runCall (prepareOptions p s true).swift prepared args) (runInput prepared)] := by
    have hopened := filter_isExecute (opens_openScript e p script)
      (fun _ => isExecute_of_opens) h m
    have hprepared := filter_isExecute (asks_prepare e.homes (prepareOptions p s true)
      (store e s) source) (fun _ => isExecute_of_asks) h m₁
    have hclosed := filter_isExecute source.only_close
      (fun r ⟨_, _, hr⟩ => hr ▸ rfl) h
    rw [hrequests, List.filter_append, List.filter_append, List.filter_append]
    unfold Action.requests at hopened hprepared ⊢
    rw [hopened, hprepared, hclosed]
    exact (List.append_nil _).trans (requests_execute _ prepared args h m₂)
  have hmem : .execute call input ∈ [Request.execute
      (runCall (prepareOptions p s true).swift prepared args) (runInput prepared)] := by
    rw [← honce]
    exact List.mem_filter.2 ⟨hreq, rfl⟩
  obtain ⟨rfl, rfl⟩ := Request.execute.inj (List.mem_singleton.1 hmem)
  rw [run_execute] at hresult
  refine ⟨source, content, prepared, m₁, m₂, hreaches, honce, ?_,
    argument_eq_stdin_iff hcwd hreaches.opened, hinput, ?_, ?_, ?_, ?_⟩
  · rw [runCall, hargument]
  · intro hnone
    rw [hinput, if_pos hnone]
    exact ⟨Feeding.received_prefix _ _, Feeding.received_of_sawEnd⟩
  · intro error herror
    rw [hresult, herror]
  · intro performance hperformance
    rw [hresult, hperformance]
  · intro argv verbose named m₀ code hread hload hrun
    exact session_run hread hload hrun

/-! ## Section 6: A child that stops reading -/

/-- A script on standard input. -/
def pipedScript : Bytes := Utf8.encode "print(1)\n".toList

/-- A toolchain that reads three bytes, closes its standard input, and exits
    with the number of bytes it has read. -/
def pipedHost : Host :=
  { Scripted.bare 0 [] pipedScript "/t" [] with
    execute := fun _ input fs =>
      .ok ⟨fs, [], [], { signals := [], ending := .exited input.length }⟩
    feeding := fun _ _ => [.written 4, .read 3, .hungUp, .refused .brokenPipe] }

def pipedEnvironment : Environment := ⟨⟨none, none, none⟩, fun _ => none, none, none, "/"⟩

/-- What the child has not read is no failure. -/
theorem run_hands_over_piped :
    .execute ⟨"swift", [['-'], "x".toList], none⟩ (.fed pipedScript) ∈
      (run pipedEnvironment {} {} ['-'] ["x".toList]).requests pipedHost ⟨.empty, []⟩ ∧
    ((run pipedEnvironment {} {} ['-'] ["x".toList]).run pipedHost ⟨.empty, []⟩).1 = .ok 3 := by
  have hreq : .execute ⟨"swift", [['-'], "x".toList], none⟩ (.fed pipedScript) ∈
      (run pipedEnvironment {} {} ['-'] ["x".toList]).requests pipedHost ⟨.empty, []⟩ := by
    decide +kernel
  refine ⟨hreq, ?_⟩
  obtain ⟨⟨source, content, prepared, m₁, m₂, _, hhands⟩, hexited, _⟩ :=
    run_hands_over (by decide) hreq
  have hread : (Machine.inputBytes pipedHost ⟨"swift", [['-'], "x".toList], none⟩
      (.fed pipedScript)).length = 3 := by decide +kernel
  rw [hhands.ended _ rfl]
  dsimp only
  rw [hread, hexited 3 (by decide)]

end Tool
end ScriptDeps
