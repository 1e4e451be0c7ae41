import ScriptDeps.Proofs.Capture.Streams
import ScriptDeps.Proofs.Prepare.Builder

/-! # Signals during a resolution

    A signal is heard as long as one of the two streams is open (`heard`),
    and what is heard is passed on and ends the resolution.  Between the end
    of the second stream and the end of the toolchain nobody listens: a signal
    that arrives then is lost (`LosesSignal`).  A run that fails leaves neither
    a record nor a marker, so one that is interrupted does not either. -/

namespace ScriptDeps

/-! ## Section 1: Model -/

namespace Capture

/-- Both streams have come to their ends. -/
def Closed (es : List Event) : Prop := .terminalEnd ∈ es ∧ .errorsEnd ∈ es

instance (es : List Event) : Decidable (Closed es) := inferInstanceAs (Decidable (_ ∧ _))

/-- The events that come while a stream is open, after those in `before`. -/
def whileOpen (before : List Event) : List Event → List Event
  | [] => []
  | e :: es => if Closed before then [] else e :: whileOpen (before ++ [e]) es

/-- The signals that arrive while a stream is open. -/
def heard (es : List Event) : List Signal := (whileOpen [] es).filterMap Event.signal?

/-- The events before the toolchain has ended. -/
def beforeExit (es : List Event) : List Event := es.takeWhile fun e => e.ending?.isNone

/-- The signals that arrive before the toolchain has ended. -/
def signalsBeforeExit (es : List Event) : List Signal := (beforeExit es).filterMap Event.signal?

/-- A signal arrives when both streams have come to their ends but the
    toolchain has not. -/
def LosesSignal (es : List Event) : Prop :=
  ∃ before s after, es = before ++ .signal s :: after ∧
    (∀ e ∈ before, e.ending? = none) ∧ Closed before

end Capture

/-- Whatever it is called for, the toolchain shows the events `es`. -/
def Host.Shows (h : Host) (es : List Capture.Event) : Prop :=
  ∀ call fs, ∃ fs', h.capture call fs = .ok (fs', es)

/-- Whether a request writes a record or makes or removes a marker. -/
def Request.LeavesResult : Request → Prop
  | write p _ => ∃ dir, p = Store.recordIn dir
  | removeFile _ | link .. => True
  | _ => False

namespace Capture

variable {es : List Event} {c : Capture} {e : Event}

/-! ## Section 2: What is heard -/

theorem Closed.append (h : Closed es) (more : List Event) : Closed (es ++ more) :=
  ⟨List.mem_append_left _ h.1, List.mem_append_left _ h.2⟩

theorem whileOpen_concat (before es : List Event) (e : Event) :
    whileOpen before (es ++ [e]) =
      whileOpen before es ++ if Closed (before ++ es) then [] else [e] := by
  induction es generalizing before with
  | nil =>
    rw [List.nil_append, whileOpen, whileOpen, List.append_nil, List.nil_append, whileOpen]
  | cons e' es ih =>
    rw [List.cons_append, whileOpen, whileOpen, ih, List.append_assoc, List.singleton_append]
    by_cases hclosed : Closed before
    · rw [if_pos hclosed, if_pos hclosed, if_pos (hclosed.append _)]
      rfl
    · rw [if_neg hclosed, if_neg hclosed]
      rfl

theorem heard_concat (es : List Event) (e : Event) :
    heard (es ++ [e]) = heard es ++ if Closed es then [] else e.signal?.toList := by
  unfold heard
  rw [whileOpen_concat, List.filterMap_append, List.nil_append]
  split
  · rfl
  · cases hsignal : e.signal? with
    | none => simp [hsignal]
    | some s => simp [hsignal]

theorem isPrefix_whileOpen (before es : List Event) : whileOpen before es <+: es := by
  induction es generalizing before with
  | nil => exact List.nil_prefix
  | cons e es ih =>
    rw [whileOpen]
    split
    · exact List.nil_prefix
    · exact List.cons_prefix_cons.2 ⟨rfl, ih _⟩

/-- What is heard has arrived. -/
theorem isPrefix_heard (es : List Event) : heard es <+: es.filterMap Event.signal? :=
  (isPrefix_whileOpen [] es).filterMap _

theorem heard_of_no_signal (h : es.filterMap Event.signal? = []) : heard es = [] := by
  have hprefix := isPrefix_heard es
  rw [h] at hprefix
  exact List.prefix_nil.1 hprefix

theorem isListening_run (es : List Event) : (run es).isListening = true ↔ ¬ Closed es := by
  obtain ⟨hterminal, herrors⟩ := reads_run es
  rw [isListening, Bool.or_eq_true, hterminal.isOpen, herrors.isOpen, Closed, not_and_or]

/-- What is passed on is what is heard, interrupts as requests to terminate. -/
theorem forwarded_run (es : List Event) :
    (run es).forwarded = (heard es).map Signal.forwarded := by
  induction es using List.reverseRecOn with
  | nil => rfl
  | append_singleton es e ih =>
    rw [run_append, heard_concat, List.map_append, ← ih, List.foldl_cons, List.foldl_nil]
    cases hsignal : e.signal? with
    | none =>
      rw [(fields_step _).2.2.1 hsignal]
      simp
    | some s =>
      cases e with
      | signal s =>
        cases hsignal
        rw [step]
        by_cases hclosed : Closed es
        · rw [if_pos hclosed, if_neg ((isListening_run es).not.2 (not_not.2 hclosed))]
          simp
        · rw [if_neg hclosed, if_pos ((isListening_run es).2 hclosed)]
          simp
      | _ => cases hsignal

/-! ## Section 3: What is lost -/

/-- Nobody listens any more once both streams have ended. -/
theorem isPrefix_whileOpen_of_closed (before : List Event) {front : List Event}
    (h : Closed (before ++ front)) (rest : List Event) :
    whileOpen before (front ++ rest) <+: front := by
  induction front generalizing before with
  | nil =>
    rw [List.append_nil] at h
    cases rest with
    | nil => exact List.nil_prefix
    | cons e rest =>
      have hstop : whileOpen before (e :: rest) = [] := if_pos h
      exact hstop.symm ▸ List.nil_prefix
  | cons e front ih =>
    rw [List.cons_append, whileOpen]
    split
    · exact List.nil_prefix
    · rw [← List.singleton_append, ← List.append_assoc] at h
      exact List.cons_prefix_cons.2 ⟨rfl, ih _ h⟩

/-- If something is not listened to, both streams have ended before. -/
theorem closed_of_whileOpen (before : List Event) {es rest : List Event}
    (hes : es = whileOpen before es ++ rest) (hrest : rest ≠ []) : Closed (before ++ whileOpen before es) := by
  induction es generalizing before with
  | nil =>
    rw [whileOpen, List.nil_append] at hes
    exact absurd hes.symm hrest
  | cons e es ih =>
    rw [whileOpen] at hes ⊢
    split
    · next hclosed => simpa using hclosed
    · next hclosed =>
      rw [if_neg hclosed, List.cons_append, List.cons.injEq] at hes
      have hclosed' := ih _ hes.2
      rwa [List.append_assoc] at hclosed'

theorem losesSignal_iff : LosesSignal es ↔
    ∃ front s rest, beforeExit es = whileOpen [] es ++ front ++ .signal s :: rest := by
  constructor
  · rintro ⟨before, s, after, rfl, hrunning, hclosed⟩
    obtain ⟨front, hfront⟩ := isPrefix_whileOpen_of_closed [] hclosed (.signal s :: after)
    refine ⟨front, s, beforeExit after, ?_⟩
    rw [hfront, beforeExit, List.takeWhile_append_of_pos (by simpa using hrunning)]
    rfl
  · rintro ⟨front, s, rest, hbefore⟩
    obtain ⟨after, hafter⟩ : beforeExit es <+: es := List.takeWhile_prefix _
    rw [hbefore] at hafter
    have hes : es = whileOpen [] es ++ (front ++ .signal s :: (rest ++ after)) := by
      simpa only [List.append_assoc, List.cons_append] using hafter.symm
    have hclosed := closed_of_whileOpen [] hes (by simp)
    rw [← List.append_assoc] at hes
    refine ⟨_, s, _, hes, fun e he => ?_, hclosed.append front⟩
    have hmem : e ∈ beforeExit es := hbefore ▸ List.mem_append_left _ he
    have hall := List.all_eq_true.1
      (List.all_takeWhile (p := fun e : Event => e.ending?.isNone)) e hmem
    simpa using hall

/-- Every signal that arrives before the toolchain has ended is heard, unless
    one comes after the streams. -/
theorem heard_all_iff : signalsBeforeExit es <+: heard es ↔ ¬ LosesSignal es := by
  rw [losesSignal_iff]
  constructor
  · rintro hprefix ⟨front, s, rest, hbefore⟩
    have hlength := hprefix.length_le
    rw [signalsBeforeExit, hbefore, heard, List.filterMap_append, List.filterMap_append,
      List.length_append, List.length_append,
      List.filterMap_cons_some (rfl : (Event.signal s).signal? = some s), List.length_cons]
      at hlength
    omega
  · intro hnone
    have hfront : beforeExit es <+: es := List.takeWhile_prefix _
    rcases List.prefix_or_prefix_of_prefix hfront (isPrefix_whileOpen [] es) with
      hprefix | ⟨more, hmore⟩
    · exact hprefix.filterMap _
    · -- The streams end first, and no signal comes between their end and the exit.
      have hquiet : more.filterMap Event.signal? = [] := by
        rw [List.filterMap_eq_nil_iff]
        intro e he
        obtain ⟨front, rest, rfl⟩ := List.append_of_mem he
        cases e with
        | signal s => exact absurd ⟨front, s, rest, by rw [← hmore, List.append_assoc]⟩ hnone
        | _ => rfl
      rw [signalsBeforeExit, ← hmore, List.filterMap_append, hquiet, List.append_nil]
      exact List.prefix_rfl

/-- The signal that was passed on last is what a resolution is interrupted
    by. -/
theorem result_interrupted_iff (c : Capture) (program : Text) (n : Int) :
    (c.result program).1 = .error (.interrupted n) ↔
      ∃ s, c.forwarded.getLast? = some s ∧ n = s.number := by
  unfold result
  cases c.forwarded.getLast? with
  | some s => simp [eq_comm]
  | none =>
    dsimp only
    cases c.invocation with
    | none => split <;> simp
    | some args => split <;> simp

end Capture

/-! ## Section 4: What a failed run leaves -/

namespace Action

/-- An action that leaves neither a record nor a marker, however it ends. -/
abbrev Traceless {α : Type} (a : Action α) : Prop := a.Only fun r => ¬ r.LeavesResult

/-- An action that leaves neither a record nor a marker if it fails. -/
def TracelessIfFails {α : Type} (a : Action α) : Prop :=
  ∀ h m f m', a.run h m = (.error f, m') → ∀ r ∈ a.requests h m, ¬ r.LeavesResult

variable {α β : Type} {a : Action α} {f : α → Action β}

theorem not_leavesResult_of_looks {r : Request} (h : r.looks = true) : ¬ r.LeavesResult := by
  cases r <;> first | exact id | cases h

theorem Looks.traceless (ha : Looks a) : Traceless a :=
  Program.Only.mono ha fun _ => not_leavesResult_of_looks

theorem traceless_ask {r : Request} (hr : ¬ r.LeavesResult) : Traceless (ask r) :=
  ⟨hr, fun _ => trivial⟩

theorem Traceless.ifFails (ha : Traceless a) : TracelessIfFails a :=
  fun h m _ _ _ => Program.Only.requests ha h m

/-- What comes first leaves nothing, so it is for what comes then to do so. -/
theorem Traceless.bind_ifFails (ha : Traceless a) (hf : ∀ x, TracelessIfFails (f x)) :
    TracelessIfFails (a >>= f) := by
  intro h m e m' hrun r hr
  rcases hrun₁ : a.run h m with ⟨x | x, m₁⟩
  · rw [requests_bind_error hrun₁] at hr
    exact Program.Only.requests ha h m r hr
  · rw [run_bind_ok hrun₁] at hrun
    rw [requests_bind_ok hrun₁, List.mem_append] at hr
    rcases hr with hr | hr
    · exact Program.Only.requests ha h m r hr
    · exact hf x h m₁ e m' hrun r hr

/-- What comes then cannot fail, so only a failure before it counts. -/
theorem TracelessIfFails.bind_of_succeeds (ha : TracelessIfFails a)
    (hf : ∀ x h m, ∃ y m', (f x).run h m = (.ok y, m')) : TracelessIfFails (a >>= f) := by
  intro h m e m' hrun r hr
  rcases hrun₁ : a.run h m with ⟨x | x, m₁⟩
  · rw [requests_bind_error hrun₁] at hr
    exact ha h m x m₁ hrun₁ r hr
  · obtain ⟨y, m₂, hrun₂⟩ := hf x h m₁
    rw [run_bind_ok hrun₁, hrun₂] at hrun
    cases hrun

end Action

namespace Prepare

open Store

variable {homes : Homes} {o : Options} {s : Store} {source : Script.Source} {h : Host}
  {m : Machine} {es : List Capture.Event}

/-- A record is no manifest and no placeholder, whichever entry it is of. -/
theorem not_leavesResult_write {n : Name} (hn : Path.IsPlainName n) (hne : n ≠ recordName)
    (dir : Path) (content : Bytes) : ¬ (Request.write (dir.child n) content).LeavesResult := by
  rintro ⟨dir', heq⟩
  have hlast := congrArg (fun p => p.components.getLast?) heq
  rw [recordIn_eq, Path.components_child dir hn,
    Path.components_child dir' isEntryName_recordName.1, List.getLast?_concat,
    List.getLast?_concat] at hlast
  simp only [Option.some.injEq, Path.Component.name.injEq] at hlast
  exact hne hlast

theorem traceless_refresh (s : Store) (dir : Path) (mf : Manifest) :
    Action.Traceless (refresh s dir mf) := by
  have hplaceholder : Action.Traceless (ensurePlaceholder dir) := by
    refine (Action.traceless_ask (r := .isPresent _) id).bind fun there => ?_
    split
    · exact Action.only_pure _
    · exact (Action.traceless_ask (not_leavesResult_write (by decide) (by decide) dir [])).bind
        fun written => Action.only_orFail written _
  refine (looks_needsRefresh s dir mf.bytes).traceless.bind fun refreshed => ?_
  split
  · refine Action.Only.bind ?_ fun _ => Action.only_pure _
    exact (Action.traceless_ask (not_leavesResult_write (by decide) (by decide) dir _)).bind
      fun written => (Action.only_orFail written _).bind fun _ => hplaceholder
  · exact hplaceholder.bind fun _ => Action.only_pure _

theorem traceless_invocation (dir : Path) (o : Resolve.Options) :
    Action.Traceless (Resolve.invocation dir o) := by
  refine Action.Only.bind ?_ fun args => (Action.looks_logAll _).traceless.bind fun _ => ?_
  · refine (Action.traceless_ask (r := .capture _) id).bind fun answer => ?_
    split
    · exact Action.only_throw _
    · refine (Action.looks_logAll _).traceless.bind fun _ => ?_
      refine (Action.looks_logAll _).traceless.bind fun _ => ?_
      split
      · exact Action.only_pure _
      · exact Action.only_throw _
  · exact ((Resolve.only_complete args dir).mono fun _ => Action.not_leavesResult_of_looks).bind
      fun _ => trivial

theorem tracelessIfFails_resolve (o : Options) (dir : Path) (mf : Manifest) :
    Action.TracelessIfFails (resolve o dir mf) := by
  refine (Action.traceless_ask (r := .progress _) id).bind_ifFails fun _ => ?_
  refine (traceless_invocation dir o.resolve).ifFails.bind_of_succeeds fun args h m => ?_
  -- A record that cannot be written is logged, no more.
  obtain ⟨x, hsave⟩ := run_save (newRecord h o dir mf args) h m
  have hnow : (Action.ask .now).run h m = (.ok h.now, m) := rfl
  unfold newRecord at hsave
  rw [Action.run_bind_ok hnow]
  dsimp only
  rw [Action.run_bind_ok hsave]
  cases x with
  | ok _ => exact ⟨_, _, rfl⟩
  | error f => exact ⟨_, _, rfl⟩

theorem tracelessIfFails_record (o : Options) (s : Store) (mf : Manifest) :
    Action.TracelessIfFails (record o s mf) := by
  rw [record_eq]
  have hmake : Action.Traceless (s.makeEntry mf.hash) :=
    (Action.traceless_ask (r := .makeDirectories _) id).bind fun made =>
      (Action.only_orFail made _).bind fun _ => Action.only_pure _
  refine hmake.bind_ifFails fun dir => (traceless_refresh s dir mf).bind_ifFails fun refreshed => ?_
  refine (looks_reusable o dir mf refreshed).traceless.bind_ifFails fun found => ?_
  cases found with
  | none => exact tracelessIfFails_resolve o dir mf
  | some r =>
    refine Action.Traceless.ifFails ?_
    exact (Action.traceless_ask (r := .log _) id).bind fun _ => Action.only_pure _

/-- A run that fails leaves neither a record nor a marker. -/
theorem tracelessIfFails_prepare (homes : Homes) (o : Options) (s : Store)
    (source : Script.Source) : Action.TracelessIfFails (prepare homes o s source) := by
  refine (looks_scan homes source).traceless.bind_ifFails fun scanned => ?_
  dsimp only
  split
  · refine Action.Traceless.ifFails ?_
    exact (Action.traceless_ask (r := .log _) id).bind fun _ => Action.only_pure _
  · refine (tracelessIfFails_record o s _).bind_of_succeeds fun r h m => ?_
    split
    · obtain ⟨m', hmark, _⟩ := run_writeMarker s (source.identity scanned.1.hash)
        (manifestFor o scanned.1.dependencies).hash h m
      exact ⟨_, _, Action.run_bind_ok hmark⟩
    · exact ⟨_, _, rfl⟩

/-! ## Section 5: Results -/

/-- A run that asks the toolchain has scanned its script, and its record is
    that of the dependencies found. -/
theorem exists_scan_of_asks (hasks : (prepare homes o s source).asksToolchain h m = true) :
    ∃ scanned content m₁, (scan homes source).run h m = (.ok (scanned, content), m₁) ∧
      (scanned.dependencies.isEmpty && o.skipPackage) = false ∧
      (record o s (manifestFor o scanned.dependencies)).asksToolchain h m₁ = true := by
  rcases hscan : (scan homes source).run h m with ⟨f | ⟨scanned, content⟩, m₁⟩
  · unfold prepare at hasks
    rw [Action.asksToolchain_bind_error hscan, (looks_scan homes source).alone.asksToolchain]
      at hasks
    cases hasks
  · cases hidle : scanned.dependencies.isEmpty && o.skipPackage with
    | true =>
      rw [(run_prepare_idle hscan hidle).2] at hasks
      cases hasks
    | false =>
      rw [asksToolchain_prepare hscan hidle] at hasks
      exact ⟨scanned, content, m₁, rfl, hidle, hasks⟩

/-- A run that asks the toolchain fails as the toolchain says, and has a
    result if the toolchain has one. -/
theorem result_of_shows (hshows : h.Shows es)
    (hasks : (prepare homes o s source).asksToolchain h m = true) :
    match ((Capture.run es).result o.swift.display).1 with
    | .error f => ((prepare homes o s source).run h m).1 = .error f
    | .ok _ => ∃ p, ((prepare homes o s source).run h m).1 = .ok p := by
  obtain ⟨scanned, content, m₁, hscan, hbusy, hasks⟩ := exists_scan_of_asks hasks
  obtain ⟨refreshed, m₂, hready⟩ := exists_ready_of_asks hasks
  have hreuse : reuse? o m₂.files h.cwd (s.entry (manifestFor o scanned.dependencies).hash)
      (manifestFor o scanned.dependencies).hash refreshed = none := by
    rw [Option.eq_none_iff_forall_ne_some]
    intro r hr
    rw [(run_record_reused hready hr).2] at hasks
    cases hasks
  -- The toolchain is called on some files, and on all of them it shows `es`.
  have hresolved := resolved_of_ready hready hreuse
  rcases hrecord : (record o s (manifestFor o scanned.dependencies)).run h m₁ with ⟨x, m₃⟩
  rw [hrecord] at hresolved
  dsimp only at hresolved
  generalize m₃.files = fs at hresolved
  cases hresolved with
  | notStarted hcall =>
    obtain ⟨fs', hshown⟩ := hshows (Resolve.call _ o.resolve) m₂.files
    cases hcall.symm.trans hshown
  | failed hcall hresult =>
    obtain ⟨fs', hshown⟩ := hshows (Resolve.call _ o.resolve) m₂.files
    cases hcall.symm.trans hshown
    rw [hresult]
    dsimp only
    rw [run_prepare_error hscan hbusy hrecord]
  | recorded hcall hresult =>
    obtain ⟨fs', hshown⟩ := hshows (Resolve.call _ o.resolve) m₂.files
    cases hcall.symm.trans hshown
    rw [hresult]
    dsimp only
    obtain ⟨m₄, hprepare, _⟩ := run_prepare_ok hscan hbusy hrecord
    exact ⟨_, by rw [hprepare]⟩

theorem prepare_interrupted_iff (hshows : h.Shows es)
    (hasks : (prepare homes o s source).asksToolchain h m = true) (n : Int) :
    ((prepare homes o s source).run h m).1 = .error (.interrupted n) ↔
      ∃ s, (Capture.heard es).getLast? = some s ∧ n = s.forwarded.number := by
  have hresult := result_of_shows hshows hasks
  have hiff := Capture.result_interrupted_iff (Capture.run es) o.swift.display n
  rw [Capture.forwarded_run, List.getLast?_map] at hiff
  have hlast : (∃ s, ((Capture.heard es).getLast?.map Signal.forwarded) = some s ∧ n = s.number) ↔
      ∃ s, (Capture.heard es).getLast? = some s ∧ n = s.forwarded.number := by
    cases (Capture.heard es).getLast? <;> simp
  rw [← hlast, ← hiff]
  cases hshown : ((Capture.run es).result o.swift.display).1 with
  | error f =>
    rw [hshown] at hresult
    rw [hresult]
    simp
  | ok shown =>
    rw [hshown] at hresult
    obtain ⟨p, hp⟩ := hresult
    rw [hp]
    simp

/-- A signal counts if and only if it arrives while a stream is open: what is
    heard is passed on, and the last of it ends the run, which then leaves
    neither a record nor a marker.  Everything that arrives before the end of
    the toolchain is heard, unless it comes after the streams. -/
theorem signals_count_while_open (hshows : h.Shows es)
    (hasks : (prepare homes o s source).asksToolchain h m = true) :
    (Capture.run es).forwarded = (Capture.heard es).map Signal.forwarded ∧
      Capture.heard es <+: es.filterMap Capture.Event.signal? ∧
      (Capture.signalsBeforeExit es <+: Capture.heard es ↔ ¬ Capture.LosesSignal es) ∧
      (∀ n, ((prepare homes o s source).run h m).1 = .error (.interrupted n) ↔
        ∃ s, (Capture.heard es).getLast? = some s ∧ n = s.forwarded.number) ∧
      (Capture.heard es ≠ [] → ∀ r ∈ (prepare homes o s source).requests h m, ¬ r.LeavesResult) := by
  have hinterrupted := prepare_interrupted_iff hshows hasks
  refine ⟨Capture.forwarded_run es, Capture.isPrefix_heard es, Capture.heard_all_iff, hinterrupted,
    fun hheard => ?_⟩
  have hrun := (hinterrupted _).2 ⟨_, List.getLast?_eq_some_getLast hheard, rfl⟩
  exact tracelessIfFails_prepare homes o s source h m _ _ (Prod.ext hrun rfl)

/-! ## Section 6: A small run -/

/-- A host that gives a small script, with a toolchain that shows `es` and
    leaves no files. -/
def shownHost (es : List Capture.Event) : Host :=
  { Scripted.bare 0 [] smallScript "/t" [] with capture := fun _ fs => .ok (fs, es) }

theorem shows_shownHost (es : List Capture.Event) : (shownHost es).Shows es :=
  fun _ fs => ⟨fs, rfl⟩

theorem asks_shownHost (es : List Capture.Event) :
    (prepare smallHomes smallOptions smallStore (.ofStdin "/")).asksToolchain (shownHost es)
      ⟨.empty, []⟩ = true := by
  obtain ⟨m₁, hscan⟩ := run_scan_ofStdin smallHomes "/" (shownHost es) ⟨.empty, []⟩
  have hfiles : m₁.files = .empty := (run_scan hscan).2
  have hplain := isPlainCache_empty smallTop smallManifest
  have hlocated := located_small
  rw [← hfiles] at hplain hlocated
  rw [asksToolchain_prepare hscan smallScan_busy]
  refine asks_without_record (h := shownHost es) hlocated isRoomy_small hplain ?_ ?_
  · rw [hfiles, at?_empty]
    simp
  · unfold recordAt?
    rw [hfiles, at?_empty]

/-- An interrupt while the terminal is still open ends the run as a request to
    terminate does. -/
theorem signals_count_while_open_interrupt :
    ((prepare smallHomes smallOptions smallStore (.ofStdin "/")).run
      (shownHost [.errorsEnd, .signal .interrupt, .terminalEnd, .exited (.signaled 15)])
      ⟨.empty, []⟩).1 = .error (.interrupted 15) :=
  ((signals_count_while_open (shows_shownHost _) (asks_shownHost _)).2.2.2.1 15).2
    ⟨.interrupt, by decide, by decide⟩

/-- The streams end, a signal arrives, and the toolchain ends well. -/
def lateSignal : List Capture.Event :=
  [.terminal (Utf8.encode "x: repl -I/a\n".toList), .terminalEnd, .errorsEnd, .signal .terminate,
    .exited (.exited 0)]

/-- The signal arrives before the toolchain has ended, but is not passed on,
    and the run has a result. -/
theorem late_signal_lost :
    Capture.signalsBeforeExit lateSignal = [.terminate] ∧
      (Capture.run lateSignal).forwarded = [] ∧
      (prepare smallHomes smallOptions smallStore (.ofStdin "/")).asksToolchain
        (shownHost lateSignal) ⟨.empty, []⟩ = true ∧
      ∃ p, ((prepare smallHomes smallOptions smallStore (.ofStdin "/")).run
        (shownHost lateSignal) ⟨.empty, []⟩).1 = .ok p := by
  have hresult := result_of_shows (shows_shownHost lateSignal) (asks_shownHost lateSignal)
  have hshown : ((Capture.run lateSignal).result smallOptions.swift.display).1 =
      .ok ["-I/a".toList] := by decide +kernel
  rw [hshown] at hresult
  refine ⟨by decide +kernel, ?_, asks_shownHost lateSignal, hresult⟩
  rw [Capture.forwarded_run]
  decide +kernel

end Prepare
end ScriptDeps
