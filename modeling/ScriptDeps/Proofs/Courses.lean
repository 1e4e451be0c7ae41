import ScriptDeps.Proofs.FileSystem.Losing
import ScriptDeps.Proofs.Run

/-! # Courses of programs

    A run answers every request as the files say.  In a course a request may
    fail although the files would allow it, and a tree may be removed, or a
    file written, only in part (`Service.faulty`).  What a program keeps to in
    all its courses is told by `Program.Always`, step by step, and so it holds
    at every moment of every course (`Always.of_reaches`), the end of a run
    among them (`reaches_run`). -/

namespace ScriptDeps

open FileSystem

/-! ## Section 1: Model -/

/-- What may come of a request on files: its answer, and the files after it.  To
    look around changes nothing. -/
structure Service where
  may   : FileSystem → (r : Request) → r.Answer → FileSystem → Prop
  looks : ∀ {fs r x fs'}, may fs r x fs' → r.looks = true → fs' = fs

/-- The answer to a request that fails, if it is one that can. -/
def Request.refusal? (e : IoError) : (r : Request) → Option r.Answer
  | .read _ | .standardInput | .status .. | .readLink _ | .list _ => some (.error e)
  | .write .. | .makeDirectories _ | .removeFile _ | .removeTree _ | .link .. => some (.error e)
  | .setMode .. | .workingDirectory => some (.error e)
  | .temporary .. | .capture _ | .execute .. => some (.error e)
  -- What cannot be looked at counts as missing.
  | .isPresent _ | .isDirectory _ => some false
  | .walk _ => some []
  | .now | .log _ | .say _ | .complain _ | .progress _ => none

/-- `Served h F fs r x fs'`: a request `r` on the files `fs` may be answered with
    `x`, which leaves `fs'`.  Requests that `F` allows may fail. -/
inductive Served (h : Host) (F : Request → Prop) (fs : FileSystem) :
    (r : Request) → r.Answer → FileSystem → Prop
  | well (r : Request) :
      Served h F fs r (Machine.respond h ⟨fs, []⟩ r).1 (Machine.respond h ⟨fs, []⟩ r).2.files
  | refused {r : Request} {e : IoError} {x : r.Answer} (hfail : F r)
      (hx : r.refusal? e = some x) : Served h F fs r x fs
  | removedInPart {p : Path} {loc : Location} {struck : List Location} (e : IoError)
      (hfail : F (.removeTree p)) (hfound : fs.findNode h.cwd false p = .ok (loc, .directory))
      (hbelow : ∀ l ∈ struck, loc <+: l) :
      Served h F fs (.removeTree p) (.error e) (fs.without struck)
  | writtenInPart {p : Path} {content front : Bytes} {fs' : FileSystem} (e : IoError)
      (hfail : F (.write p content)) (hfront : front <+: content)
      (hwrite : fs.write h.cwd h.now p front = .ok fs') :
      Served h F fs (.write p content) (.error e) fs'

namespace Service

/-- Requests are answered as the files say, and those that `F` allows may fail. -/
def faulty (h : Host) (F : Request → Prop) : Service where
  may := Served h F
  looks := by
    intro fs r x fs' hserved hr
    cases hserved with
    | well => exact Request.files_respond_of_looks hr h ⟨fs, []⟩
    | refused => rfl
    | removedInPart => cases hr
    | writtenInPart => cases hr

/-- Requests are made only on files of which `G` holds. -/
def within (S : Service) (G : FileSystem → Prop) : Service where
  may := fun fs r x fs' => G fs ∧ S.may fs r x fs'
  looks := fun hserved hr => S.looks hserved.2 hr

end Service

namespace Program

variable {α β : Type}

/-- Some course of `p` from `fs` leads to the files `fs'`, and `p'` is what then is
    left to do. -/
inductive Reaches (S : Service) (p : Program α) (fs : FileSystem) :
    Program α → FileSystem → Prop
  | start : Reaches S p fs p fs
  | step {r : Request} {next : r.Answer → Program α} {fs' fs'' : FileSystem} {x : r.Answer}
      (hreach : Reaches S p fs (.ask r next) fs') (hserved : S.may fs' r x fs'') :
      Reaches S p fs (next x) fs''

/-- In every course of `p` from `fs`, `I` holds of each request and the files it is
    made on, and `Q` of the result and the files at the end. -/
def Always (S : Service) (I : Request → FileSystem → Prop) (Q : α → FileSystem → Prop) :
    Program α → FileSystem → Prop
  | done a, fs => Q a fs
  | ask r next, fs => I r fs ∧ ∀ x fs', S.may fs r x fs' → (next x).Always S I Q fs'

/-- In every course `p` keeps `J`, and its result is one that `R` allows. -/
def Keeps (S : Service) (J : FileSystem → Prop) (R : α → Prop) (p : Program α) : Prop :=
  ∀ fs, J fs → p.Always S (fun _ => J) (fun a fs' => J fs' ∧ R a) fs

end Program

/-! ## Section 2: Answers and files -/

section
variable {P : FileSystem → Prop} {h : Host} {F : Request → Prop} {fs fs' : FileSystem}
  {r : Request} {x : r.Answer}

namespace Machine

/-- A change of files that fails leaves them as they are. -/
theorem files_change_cases (fs : FileSystem) (result : Except IoError FileSystem) :
    (change ⟨fs, []⟩ result).2.files = fs ∨ result = .ok (change ⟨fs, []⟩ result).2.files := by
  cases result with
  | error e => exact .inl rfl
  | ok fs' => exact .inr rfl

theorem files_change {result : Except IoError FileSystem} (hfs : P fs)
    (hresult : ∀ fs', result = .ok fs' → P fs') : P (change ⟨fs, []⟩ result).2.files := by
  rcases files_change_cases fs result with hsame | hok
  · rw [hsame]
    exact hfs
  · exact hresult _ hok

theorem files_capture {call : Call} (hfs : P fs)
    (hcapture : ∀ fs' events, h.capture call fs = .ok (fs', events) → P fs') :
    P (respond h ⟨fs, []⟩ (.capture call)).2.files := by
  unfold respond
  dsimp only
  split
  · next hok => exact hcapture _ _ hok
  · exact hfs

theorem files_execute {call : Call} {input : Input} (hfs : P fs)
    (hexecute : ∀ bytes performance, h.execute call bytes fs = .ok performance →
      P performance.files) : P (respond h ⟨fs, []⟩ (.execute call input)).2.files := by
  unfold respond
  dsimp only
  split
  · next hok => exact hexecute _ _ hok
  · exact hfs

end Machine

/-- A request that cannot be done in part is done, or changes nothing. -/
theorem Served.whole (hserved : Served h F fs r x fs') (hfs : P fs)
    (hwell : P (Machine.respond h ⟨fs, []⟩ r).2.files) (hwrite : ∀ p content, r ≠ .write p content)
    (hremove : ∀ p, r ≠ .removeTree p) : P fs' := by
  cases hserved with
  | well => exact hwell
  | refused => exact hfs
  | removedInPart => exact absurd rfl (hremove _)
  | writtenInPart => exact absurd rfl (hwrite _ _)

end

/-- Whatever is found at the path of a removal is lost, or a part of it, or nothing. -/
theorem Served.strips {h : Host} {F : Request → Prop} {fs fs' : FileSystem} {r : Request}
    {x : r.Answer} (hserved : Served h F fs r x fs') {p : Path}
    (hr : r = .removeFile p ∨ r = .removeTree p) :
    fs' = fs ∨ ∃ loc node, fs.findNode h.cwd false p = .ok (loc, node) ∧
      Strips fs loc node fs' := by
  cases hserved with
  | well =>
    rcases hr with rfl | rfl
    · exact (Machine.files_change_cases fs _).imp_right exists_strips_of_removeFile
    · exact (Machine.files_change_cases fs _).imp_right exists_strips_of_removeTree
  | refused => exact .inl rfl
  | removedInPart e _ hfound hbelow =>
    obtain hr | hr := hr
    · cases hr
    · cases hr
      exact .inr ⟨_, _, hfound, strips_without hbelow⟩
  | writtenInPart => rcases hr with hr | hr <;> cases hr

/-! ## Section 3: Courses -/

variable {S : Service} {G : FileSystem → Prop} {fs fs' fs'' : FileSystem} {r : Request}

namespace Program

variable {α β : Type} {p p' : Program α} {f : α → Program β} {I I' : Request → FileSystem → Prop}
  {Q Q' : α → FileSystem → Prop} {J : FileSystem → Prop} {R : α → Prop}

/-- What holds in all courses goes on to hold in the rest of each. -/
theorem Always.of_reaches (hp : p.Always S I Q fs) (hreach : p.Reaches S fs p' fs') :
    p'.Always S I Q fs' := by
  induction hreach with
  | start => exact hp
  | step _ hserved ih => exact ih.2 _ _ hserved

theorem Always.mono (hp : p.Always S I Q fs) (hI : ∀ r fs, I r fs → I' r fs)
    (hQ : ∀ a fs, Q a fs → Q' a fs) : p.Always S I' Q' fs := by
  induction p generalizing fs with
  | done a => exact hQ a fs hp
  | ask r next ih => exact ⟨hI r fs hp.1, fun x fs' hserved => ih x (hp.2 x fs' hserved)⟩

theorem Always.bind {Q' : β → FileSystem → Prop} (hp : p.Always S I Q fs)
    (hf : ∀ a fs, Q a fs → (f a).Always S I Q' fs) : (p.bind f).Always S I Q' fs := by
  induction p generalizing fs with
  | done a => exact hf a fs hp
  | ask r next ih => exact ⟨hp.1, fun x fs' hserved => ih x (hp.2 x fs' hserved)⟩

theorem Keeps.bind {R' : β → Prop} (hp : p.Keeps S J R) (hf : ∀ a, R a → (f a).Keeps S J R') :
    (p.bind f).Keeps S J R' :=
  fun fs hfs => (hp fs hfs).bind fun a fs' ⟨hfs', ha⟩ => hf a ha fs' hfs'

/-- What every request keeps is kept at every moment. -/
theorem Keeps.of_reaches (hp : p.Keeps S J R) (hfs : J fs) (hreach : p.Reaches S fs p' fs') :
    J fs' := by
  have hafter := (hp fs hfs).of_reaches hreach
  cases p' with
  | done a => exact hafter.1
  | ask r next => exact hafter.1

theorem keeps_request {R : r.Answer → Prop}
    (hr : ∀ fs x fs', J fs → S.may fs r x fs' → J fs' ∧ R x) : (request r).Keeps S J R :=
  fun fs hfs => ⟨hfs, fun x fs' hserved => hr fs x fs' hfs hserved⟩

theorem Always.gives (hp : p.Always S I Q fs) (hresult : p.Gives R) :
    p.Always S I (fun a fs' => Q a fs' ∧ R a) fs := by
  induction p generalizing fs with
  | done a => exact ⟨hp, hresult⟩
  | ask r next ih => exact ⟨hp.1, fun x fs' hserved => ih x (hp.2 x fs' hserved) (hresult x)⟩

/-- What every result is allowed by goes on to allow the results of the rest. -/
theorem Gives.of_reaches (hp : p.Gives R) (hreach : p.Reaches S fs p' fs') : p'.Gives R := by
  induction hreach with
  | start => exact hp
  | step _ _ ih => exact ih _

/-- A program makes all its requests, and ends, while `J` holds, if each of them keeps
    `J`. -/
theorem Only.always {P : Request → Prop} (hp : p.Only P) (hI : ∀ r fs, P r → J fs → I r fs)
    (hP : ∀ r fs x fs', P r → J fs → S.may fs r x fs' → J fs') (hfs : J fs) :
    p.Always S I (fun _ => J) fs := by
  induction p generalizing fs with
  | done a => exact hfs
  | ask r next ih =>
    exact ⟨hI r fs hp.1 hfs, fun x fs' hserved => ih x (hp.2 x) (hP r fs x fs' hp.1 hfs hserved)⟩

/-- A program that makes only requests which keep `J` keeps it. -/
theorem Only.keeps {P : Request → Prop} (hp : p.Only P)
    (hP : ∀ r fs x fs', P r → J fs → S.may fs r x fs' → J fs') : p.Keeps S J fun _ => True :=
  fun _ hfs => (hp.always (fun _ _ _ hfs => hfs) hP hfs).mono (fun _ _ hfs => hfs)
    fun _ _ hfs => ⟨hfs, trivial⟩

/-- A course of what is left is the end of one of the whole. -/
theorem Reaches.trans {p'' : Program α} (hp : p.Reaches S fs p' fs')
    (hp' : p'.Reaches S fs' p'' fs'') : p.Reaches S fs p'' fs'' := by
  induction hp' with
  | start => exact hp
  | step _ hserved ih => exact ih.step hserved

/-- Where `G` holds at every moment, requests are made only while it does. -/
theorem Reaches.within (hG : ∀ p' fs', p.Reaches S fs p' fs' → G fs')
    (hreach : p.Reaches S fs p' fs') : p.Reaches (S.within G) fs p' fs' := by
  induction hreach with
  | start => exact .start
  | step hreach hserved ih => exact ih.step ⟨hG _ _ hreach, hserved⟩

/-- To be answered as the files say is a step of a course. -/
theorem reaches_respond (h : Host) (F : Request → Prop) (r : Request)
    (next : r.Answer → Program α) (m : Machine) :
    (ask r next).Reaches (.faulty h F) m.files (next (m.respond h r).1)
      (m.respond h r).2.files := by
  have hsame : m.files = (⟨m.files, []⟩ : Machine).files := rfl
  obtain ⟨hanswer, hfiles⟩ := Machine.respond_congr hsame h r
  rw [hanswer, hfiles]
  exact Reaches.start.step (.well r)

/-- A run is a course without faults. -/
theorem reaches_run (h : Host) (F : Request → Prop) (p : Program α) (m : Machine) :
    p.Reaches (.faulty h F) m.files (.done (p.run h m).1) (p.run h m).2.files := by
  induction p generalizing m with
  | done a => exact .start
  | ask r next ih => exact (reaches_respond h F r next m).trans (ih _ _)

/-- A run comes to each of its requests. -/
theorem exists_reaches_of_mem_requests (h : Host) (F : Request → Prop) (p : Program α) (m : Machine)
    (hr : r ∈ p.requests h m) :
    ∃ next fs', p.Reaches (.faulty h F) m.files (.ask r next) fs' := by
  induction p generalizing m with
  | done a => exact absurd hr List.not_mem_nil
  | ask r' next ih =>
    rcases List.mem_cons.1 hr with rfl | hr
    · exact ⟨next, m.files, .start⟩
    · obtain ⟨next', fs', hreach⟩ := ih _ _ hr
      exact ⟨next', fs', (reaches_respond h F r' next m).trans hreach⟩

end Program

/-! ## Section 4: Courses of actions -/

namespace Action

variable {α β : Type} {a : Action α} {f : α → Action β} {J : FileSystem → Prop} {R : α → Prop}

/-- In every course `a` keeps `J`, and its result, if it has one, is one that `R`
    allows. -/
def Keeps (S : Service) (J : FileSystem → Prop) (R : α → Prop) (a : Action α) : Prop :=
  Program.Keeps S J (fun x => ∀ y, x = .ok y → R y) (ExceptT.run a)

theorem keeps_pure {x : α} (hx : R x) : (pure x : Action α).Keeps S J R := by
  refine fun fs hfs => ⟨hfs, fun y hy => ?_⟩
  cases hy
  exact hx

theorem keeps_throw (f : Failure) : (throw f : Action α).Keeps S J R :=
  fun _ hfs => ⟨hfs, nofun⟩

theorem Keeps.mono {R' : α → Prop} (ha : a.Keeps S J R) (hR : ∀ x, R x → R' x) :
    a.Keeps S J R' :=
  fun fs hfs => (ha fs hfs).mono (fun _ _ hfs => hfs) fun _ _ ⟨hfs, hx⟩ =>
    ⟨hfs, fun y hy => hR y (hx y hy)⟩

theorem Keeps.bind {R' : β → Prop} (ha : a.Keeps S J R) (hf : ∀ x, R x → (f x).Keeps S J R') :
    (a >>= f).Keeps S J R' := by
  refine Program.Keeps.bind ha fun x hx => ?_
  cases x with
  | ok x => exact hf x (hx x rfl)
  | error e => exact fun fs hfs => ⟨hfs, nofun⟩

theorem keeps_ask {R : r.Answer → Prop}
    (hr : ∀ fs x fs', J fs → S.may fs r x fs' → J fs' ∧ R x) : (ask r).Keeps S J R := by
  refine Program.Keeps.bind (Program.keeps_request hr) fun x hx => ?_
  exact fun fs hfs => ⟨hfs, fun y hy => Except.ok.inj hy ▸ hx⟩

/-- A look keeps everything. -/
theorem keeps_look (hr : r.looks = true) : (ask r).Keeps S J fun _ => True :=
  keeps_ask fun _ _ _ hfs hserved => ⟨S.looks hserved hr ▸ hfs, trivial⟩

theorem Looks.keeps (ha : Looks a) : a.Keeps S J fun _ => True := by
  have hp := Program.Only.keeps (S := S) (J := J) ha
    fun _ _ _ _ hr hfs hserved => S.looks hserved hr ▸ hfs
  exact fun fs hfs => (hp fs hfs).mono (fun _ _ hfs => hfs) fun _ _ ⟨hfs, _⟩ =>
    ⟨hfs, fun _ _ => trivial⟩

theorem keeps_orFail (x : Except IoError α) (f : IoError → Failure) :
    (orFail x f).Keeps S J fun y => x = .ok y := by
  cases x with
  | ok x => exact keeps_pure rfl
  | error e => exact keeps_throw _

/-- What is made of a list is kept to for each of its members. -/
theorem keeps_mapM {xs : List α} {R' : β → Prop} (hf : ∀ x ∈ xs, (f x).Keeps S J R') :
    (xs.mapM f).Keeps S J fun ys => ∀ y ∈ ys, R' y := by
  induction xs with
  | nil => exact keeps_pure nofun
  | cons x xs ih =>
    rw [List.mapM_cons]
    refine (hf x (List.mem_cons_self ..)).bind fun y hy => ?_
    refine (ih fun x hx => hf x (List.mem_cons_of_mem _ hx)).bind fun ys hys => ?_
    exact keeps_pure fun z hz => (List.mem_cons.1 hz).elim (· ▸ hy) (hys z)

/-! ## Section 5: Moments of actions -/

variable {I : Request → FileSystem → Prop} {Q : α → FileSystem → Prop} {E : FileSystem → Prop}

/-- In every course of `a` from `fs`, `I` holds of each request and the files it is made
    on.  `Q` holds of the result and the files at the end, and `E` of the files where
    there is no result. -/
def Always (S : Service) (I : Request → FileSystem → Prop) (Q : α → FileSystem → Prop)
    (E : FileSystem → Prop) (a : Action α) (fs : FileSystem) : Prop :=
  Program.Always S I (fun x fs' => (∀ y, x = .ok y → Q y fs') ∧ (∀ f, x = .error f → E fs'))
    (ExceptT.run a) fs

theorem always_pure {x : α} (hx : Q x fs) : (pure x : Action α).Always S I Q E fs :=
  ⟨fun _ hy => Except.ok.inj hy ▸ hx, nofun⟩

theorem always_throw (f : Failure) (hfs : E fs) : (throw f : Action α).Always S I Q E fs :=
  ⟨nofun, fun _ _ => hfs⟩

theorem Always.bind {Q' : β → FileSystem → Prop} (ha : a.Always S I Q E fs)
    (hf : ∀ x fs', Q x fs' → (f x).Always S I Q' E fs') : (a >>= f).Always S I Q' E fs := by
  refine Program.Always.bind ha fun x fs' ⟨hresult, hfailure⟩ => ?_
  cases x with
  | ok x => exact hf x fs' (hresult x rfl)
  | error e => exact always_throw e (hfailure e rfl)

theorem Always.mono {Q' : α → FileSystem → Prop} (ha : a.Always S I Q E fs)
    (hQ : ∀ x fs', Q x fs' → Q' x fs') : a.Always S I Q' E fs :=
  Program.Always.mono ha (fun _ _ h => h) fun _ fs' ⟨hok, herror⟩ =>
    ⟨fun y hy => hQ y fs' (hok y hy), herror⟩

theorem always_ask {Q : r.Answer → FileSystem → Prop} (hr : I r fs)
    (hserved : ∀ x fs', S.may fs r x fs' → Q x fs') : (ask r).Always S I Q E fs :=
  ⟨hr, fun x fs' hmay => always_pure (hserved x fs' hmay)⟩

theorem always_orFail {x : Except IoError α} {f : IoError → Failure}
    (hok : ∀ y, x = .ok y → Q y fs) (herror : ∀ e, x = .error e → E fs) :
    (orFail x f).Always S I Q E fs := by
  cases x with
  | ok y => exact always_pure (hok y rfl)
  | error e => exact always_throw _ (herror e rfl)

theorem Only.always {P : Request → Prop} (ha : a.Only P) (hI : ∀ r fs, P r → J fs → I r fs)
    (hP : ∀ r fs x fs', P r → J fs → S.may fs r x fs' → J fs') (hfs : J fs) :
    a.Always S I (fun _ => J) J fs :=
  (Program.Only.always ha hI hP hfs).mono (fun _ _ h => h) fun _ _ hfs =>
    ⟨fun _ _ => hfs, fun _ _ => hfs⟩

/-- What only looks around leaves the files as they are. -/
theorem Looks.always (ha : Looks a) (hI : ∀ r, r.looks = true → I r fs) :
    a.Always S I (fun _ fs' => fs' = fs) (· = fs) fs :=
  Only.always ha (fun r _ hr hfs => hfs ▸ hI r hr)
    (fun _ _ _ _ hr hfs hserved => (S.looks hserved hr).trans hfs) rfl

theorem Always.gives (ha : a.Always S I Q E fs) (hresult : a.Gives R) :
    a.Always S I (fun x fs' => Q x fs' ∧ R x) E fs :=
  (Program.Always.gives ha hresult).mono (fun _ _ h => h) fun _ _ ⟨⟨hok, herror⟩, hR⟩ =>
    ⟨fun y hy => ⟨hok y hy, hR y hy⟩, herror⟩

/-- Where an action has failed, what undoes it leads from `E` to `E'`. -/
theorem Always.orUndo {E' : FileSystem → Prop} {cleanup : Program PUnit}
    (ha : a.Always S I Q E fs)
    (hcleanup : ∀ fs', E fs' → cleanup.Always S I (fun _ => E') fs') :
    (a.orUndo cleanup).Always S I Q E' fs := by
  refine Program.Always.bind ha fun x fs' ⟨hok, herror⟩ => ?_
  cases x with
  | ok x => exact ⟨hok, nofun⟩
  | error e =>
    exact Program.Always.bind (hcleanup fs' (herror e rfl)) fun _ _ hend =>
      ⟨nofun, fun _ _ => hend⟩

/-- What follows an action, whether it has failed or not, leads from `E` to `E'`. -/
theorem Always.thenAlways {E' : FileSystem → Prop} {cleanup : Program PUnit}
    (ha : a.Always S I (fun _ => E) E fs)
    (hcleanup : ∀ fs', E fs' → cleanup.Always S I (fun _ => E') fs') :
    (a.thenAlways cleanup).Always S I (fun _ => E') E' fs := by
  refine Program.Always.bind ha fun x fs' ⟨hok, herror⟩ => ?_
  -- The cleanup is run whatever the result is, and does not see it.
  have hfs' : E fs' := by
    cases x with
    | ok x => exact hok x rfl
    | error e => exact herror e rfl
  exact Program.Always.bind (hcleanup fs' hfs') fun _ _ hend => ⟨fun _ _ => hend, fun _ _ => hend⟩

end Action
end ScriptDeps
