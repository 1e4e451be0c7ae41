import ScriptDeps.Machine

/-! # Runs of actions

    An action is run part by part, and what a run asks for is the list of its
    requests.  Programs that make only certain requests, whatever the answers
    are, are told by `Only`: a program that only looks around leaves all files
    as they are. -/

namespace ScriptDeps

/-! ## Section 1: Requests of a run -/

instance : LawfulMonad Program :=
  LawfulMonad.mk' Program Program.bind_done (fun _ _ => rfl) Program.bind_assoc

namespace Program

variable {α β : Type}

/-- The requests that a run makes, in order. -/
def requests (h : Host) : Program α → Machine → List Request
  | done _, _ => []
  | ask r next, m => r :: (next (m.respond h r).1).requests h (m.respond h r).2

theorem requests_bind (h : Host) (p : Program α) (f : α → Program β) (m : Machine) :
    (p.bind f).requests h m = p.requests h m ++ (f (p.run h m).1).requests h (p.run h m).2 := by
  induction p generalizing m with
  | done a => rfl
  | ask r next ih => simp [requests, ih]

/-- Whatever the answers are, `p` makes only requests that `P` allows. -/
def Only (P : Request → Prop) : Program α → Prop
  | done _ => True
  | ask r next => P r ∧ ∀ x, (next x).Only P

theorem Only.bind {P : Request → Prop} {p : Program α} {f : α → Program β} (hp : p.Only P)
    (hf : ∀ a, (f a).Only P) : (p.bind f).Only P := by
  induction p with
  | done a => exact hf a
  | ask r next ih => exact ⟨hp.1, fun x => ih x (hp.2 x)⟩

theorem Only.mono {P Q : Request → Prop} {p : Program α} (hp : p.Only P)
    (hPQ : ∀ r, P r → Q r) : p.Only Q := by
  induction p with
  | done a => trivial
  | ask r next ih => exact ⟨hPQ r hp.1, fun x => ih x (hp.2 x)⟩

/-- Whatever the answers are, the result of `p` is one that `R` allows. -/
def Gives (R : α → Prop) : Program α → Prop
  | done a => R a
  | ask _ next => ∀ x, (next x).Gives R

theorem gives_of_forall {R : α → Prop} (hR : ∀ a, R a) (p : Program α) : p.Gives R := by
  induction p with
  | done a => exact hR a
  | ask r next ih => exact ih

theorem Gives.bind {R : α → Prop} {S : β → Prop} {p : Program α} {f : α → Program β}
    (hp : p.Gives R) (hf : ∀ a, R a → (f a).Gives S) : (p.bind f).Gives S := by
  induction p with
  | done a => exact hf a hp
  | ask r next ih => exact fun x => ih x (hp x)

/-- What follows only has to be looked at for results that `p` has. -/
theorem Only.bind_of_gives {P : Request → Prop} {R : α → Prop} {p : Program α}
    {f : α → Program β} (hp : p.Only P) (hresult : p.Gives R) (hf : ∀ a, R a → (f a).Only P) :
    (p.bind f).Only P := by
  induction p with
  | done a => exact hf a hresult
  | ask r next ih => exact ⟨hp.1, fun x => ih x (hp.2 x) (hresult x)⟩

theorem Gives.run {R : α → Prop} {p : Program α} (hp : p.Gives R) (h : Host) (m : Machine) :
    R (p.run h m).1 := by
  induction p generalizing m with
  | done a => exact hp
  | ask r next ih => exact ih _ (hp _) _

theorem Only.requests {P : Request → Prop} {p : Program α} (hp : p.Only P) (h : Host)
    (m : Machine) : ∀ r ∈ p.requests h m, P r := by
  induction p generalizing m with
  | done a =>
    intro r hr
    exact absurd hr List.not_mem_nil
  | ask r next ih =>
    intro r' hr'
    rcases List.mem_cons.1 hr' with rfl | hr'
    · exact hp.1
    · exact ih _ (hp.2 _) _ r' hr'

end Program

namespace Request

/-- Whether the toolchain is asked. -/
def isCapture : Request → Bool
  | capture _ => true
  | _ => false

/-- The call of the toolchain, if there is one, with the files it is made on. -/
def call? (fs : FileSystem) : Request → Option (Call × FileSystem)
  | capture call => some (call, fs)
  | _ => none

theorem call?_of_not_capture {r : Request} (h : r.isCapture = false) (fs : FileSystem) :
    r.call? fs = none := by
  cases r <;> first | rfl | cases h

/-- Whether a request leaves all files as they are. -/
def looks : Request → Bool
  | write .. | makeDirectories _ | removeFile _ | removeTree _ | link .. | temporary ..
  | setMode .. | capture _ | execute .. => false
  | _ => true

theorem isCapture_of_looks {r : Request} (h : r.looks = true) : r.isCapture = false := by
  cases r <;> first | rfl | cases h

theorem files_respond_of_looks {r : Request} (hr : r.looks = true) (h : Host) (m : Machine) :
    (m.respond h r).2.files = m.files := by
  cases r <;> first | rfl | cases hr

end Request

/-- What a machine has seen has no part in its answers. -/
theorem Machine.respond_congr {m m' : Machine} (hfiles : m.files = m'.files) (h : Host)
    (r : Request) :
    (m.respond h r).1 = (m'.respond h r).1 ∧
      (m.respond h r).2.files = (m'.respond h r).2.files := by
  obtain ⟨fs, seen⟩ := m
  obtain ⟨fs', seen'⟩ := m'
  obtain rfl : fs = fs' := hfiles
  have hchange : ∀ result : Except IoError FileSystem,
      (change ⟨fs, seen⟩ result).1 = (change ⟨fs, seen'⟩ result).1 ∧
        (change ⟨fs, seen⟩ result).2.files = (change ⟨fs, seen'⟩ result).2.files := by
    intro result
    cases result <;> exact ⟨rfl, rfl⟩
  cases r
  case write | makeDirectories | removeFile | removeTree | link | setMode => exact hchange _
  case temporary | capture | execute =>
    simp only [respond]
    split <;> exact ⟨rfl, rfl⟩
  all_goals exact ⟨rfl, rfl⟩

namespace Program

variable {α β : Type}

/-- What a machine has seen has no part in a run. -/
theorem run_congr {m m' : Machine} (hfiles : m.files = m'.files) (h : Host) (p : Program α) :
    (p.run h m).1 = (p.run h m').1 ∧ (p.run h m).2.files = (p.run h m').2.files := by
  induction p generalizing m m' with
  | done a => exact ⟨rfl, hfiles⟩
  | ask r next ih =>
    obtain ⟨hanswer, hafter⟩ := Machine.respond_congr hfiles h r
    rw [run_ask, run_ask, hanswer]
    exact ih _ hafter

/-- The calls of the toolchain that a run makes, in order, each with the files
    it is made on. -/
def calls (h : Host) : Program α → Machine → List (Call × FileSystem)
  | done _, _ => []
  | ask r next, m =>
      (r.call? m.files).toList ++ (next (m.respond h r).1).calls h (m.respond h r).2

theorem calls_bind (h : Host) (p : Program α) (f : α → Program β) (m : Machine) :
    (p.bind f).calls h m = p.calls h m ++ (f (p.run h m).1).calls h (p.run h m).2 := by
  induction p generalizing m with
  | done a => rfl
  | ask r next ih => simp [calls, ih]

/-- The toolchain is asked where there are calls. -/
theorem any_isCapture_requests (h : Host) (p : Program α) (m : Machine) :
    (p.requests h m).any Request.isCapture = !(p.calls h m).isEmpty := by
  induction p generalizing m with
  | done a => rfl
  | ask r next ih =>
    show (r.isCapture || _) = _
    rw [ih, calls]
    cases hr : r.isCapture with
    | false =>
      rw [Request.call?_of_not_capture hr, Bool.false_or, Option.toList_none, List.nil_append]
    | true =>
      cases r with
      | capture call => rfl
      | _ => cases hr

end Program

/-- A program that only looks around leaves all files as they are. -/
theorem Program.Only.files_run {α : Type} {p : Program α} (hp : p.Only (·.looks = true))
    (h : Host) (m : Machine) : (p.run h m).2.files = m.files := by
  induction p generalizing m with
  | done a => rfl
  | ask r next ih =>
    rw [run_ask, ih _ (hp.2 _), Request.files_respond_of_looks hp.1]

/-! ## Section 2: Runs of actions -/

/-- A program that may fail is run up to its first failure. -/
theorem Program.run_except_bind {ε α β : Type} (a : ExceptT ε Program α)
    (f : α → ExceptT ε Program β) (h : Host) (m : Machine) :
    Program.run h (ExceptT.run (a >>= f)) m =
      match Program.run h (ExceptT.run a) m with
      | (.ok x, m') => Program.run h (ExceptT.run (f x)) m'
      | (.error e, m') => (.error e, m') := by
  show Program.run h (Program.bind (ExceptT.run a) (ExceptT.bindCont f)) m = _
  rw [Program.run_bind]
  rcases Program.run h (ExceptT.run a) m with ⟨x, m'⟩
  cases x <;> rfl

namespace Action

variable {α β : Type} {a : Action α} {f : α → Action β} {h : Host} {m m' : Machine}

/-- The requests that a run of an action makes, in order. -/
def requests (a : Action α) (h : Host) (m : Machine) : List Request :=
  Program.requests h (ExceptT.run a) m

/-- Whether a run asks the toolchain. -/
def asksToolchain (a : Action α) (h : Host) (m : Machine) : Bool :=
  (a.requests h m).any Request.isCapture

@[simp] theorem run_pure (x : α) (h : Host) (m : Machine) :
    (pure x : Action α).run h m = (.ok x, m) := rfl

@[simp] theorem run_throw (f : Failure) (h : Host) (m : Machine) :
    (throw f : Action α).run h m = (.error f, m) := rfl

@[simp] theorem run_ask (r : Request) (h : Host) (m : Machine) :
    (ask r).run h m = (.ok (m.respond h r).1, (m.respond h r).2) := rfl

theorem run_status (p : Path) (follow : Bool) (h : Host) (m : Machine) :
    (ask (.status p follow)).run h m =
      (.ok ((m.files.findNode h.cwd follow p).map fun found => Machine.statusOf found.2), m) := rfl

theorem run_bind (a : Action α) (f : α → Action β) (h : Host) (m : Machine) :
    (a >>= f).run h m =
      match a.run h m with
      | (.ok x, m') => (f x).run h m'
      | (.error e, m') => (.error e, m') := by
  unfold Action.run
  rw [Program.run_except_bind]
  rcases Program.run h (ExceptT.run a) m with ⟨x, m'⟩
  cases x <;> rfl

theorem run_bind_ok {x : α} (ha : a.run h m = (.ok x, m')) :
    (a >>= f).run h m = (f x).run h m' := by
  rw [run_bind, ha]

theorem run_bind_error {e : Failure} (ha : a.run h m = (.error e, m')) :
    (a >>= f).run h m = (.error e, m') := by
  rw [run_bind, ha]

/-- What an action that succeeds has gone through. -/
theorem exists_of_run_bind {y : β} (hab : (a >>= f).run h m = (.ok y, m')) :
    ∃ x m₁, a.run h m = (.ok x, m₁) ∧ (f x).run h m₁ = (.ok y, m') := by
  rcases ha : a.run h m with ⟨e | x, m₁⟩
  · rw [run_bind_error ha] at hab
    cases hab
  · rw [run_bind_ok ha] at hab
    exact ⟨x, m₁, rfl, hab⟩

theorem run_lift (p : Program α) (h : Host) (m : Machine) :
    Action.run (ExceptT.lift p : Action α) h m = (.ok (p.run h m).1, (p.run h m).2) := by
  show Program.run h (p.bind fun a => Program.done (Except.ok (ε := Failure) a)) m = _
  rw [Program.run_bind]
  rfl

theorem requests_bind_ok {x : α} (ha : a.run h m = (.ok x, m')) :
    (a >>= f).requests h m = a.requests h m ++ (f x).requests h m' := by
  show Program.requests h (Program.bind (ExceptT.run a) (ExceptT.bindCont f)) m = _
  unfold Action.run at ha
  rw [Program.requests_bind, ha]
  rfl

theorem requests_bind_error {e : Failure} (ha : a.run h m = (.error e, m')) :
    (a >>= f).requests h m = a.requests h m := by
  show Program.requests h (Program.bind (ExceptT.run a) (ExceptT.bindCont f)) m = _
  unfold Action.run at ha
  rw [Program.requests_bind, ha]
  exact List.append_nil _

/-- The requests of two parts are those of the first one and those of the one
    that follows it. -/
theorem mem_requests_bind {r : Request} (hr : r ∈ (a >>= f).requests h m) :
    r ∈ a.requests h m ∨ ∃ x m', a.run h m = (.ok x, m') ∧ r ∈ (f x).requests h m' := by
  rcases hrun : a.run h m with ⟨e | x, m'⟩
  · rw [requests_bind_error hrun] at hr
    exact .inl hr
  · rw [requests_bind_ok hrun] at hr
    exact (List.mem_append.1 hr).imp_right fun hr => ⟨x, m', rfl, hr⟩

/-- A clean-up changes nothing about the outcome. -/
theorem run_thenAlways (a : Action α) (cleanup : Program PUnit) (h : Host) (m : Machine) :
    (a.thenAlways cleanup).run h m =
      ((a.run h m).1, (cleanup.run h (a.run h m).2).2) := by
  show Program.run h
    (Program.bind (ExceptT.run a) fun x => cleanup.bind fun _ => .done x) m = _
  rw [Program.run_bind, Program.run_bind]
  rfl

/-- What succeeds is not undone. -/
theorem run_orUndo_ok {x : α} (ha : a.run h m = (.ok x, m')) (cleanup : Program PUnit) :
    (a.orUndo cleanup).run h m = (.ok x, m') := by
  unfold Action.run at ha
  show Program.run h (Program.bind (ExceptT.run a) _) m = _
  rw [Program.run_bind, ha]
  rfl

theorem requests_thenAlways (a : Action α) (cleanup : Program PUnit) (h : Host) (m : Machine) :
    (a.thenAlways cleanup).requests h m =
      a.requests h m ++ cleanup.requests h (a.run h m).2 := by
  show Program.requests h
    (Program.bind (ExceptT.run a) fun x => cleanup.bind fun _ => .done x) m = _
  rw [Program.requests_bind, Program.requests_bind]
  exact congrArg (_ ++ ·) (List.append_nil _)

theorem asksToolchain_bind_ok {x : α} (ha : a.run h m = (.ok x, m')) :
    (a >>= f).asksToolchain h m = (a.asksToolchain h m || (f x).asksToolchain h m') := by
  unfold asksToolchain
  rw [requests_bind_ok ha, List.any_append]

theorem asksToolchain_bind_error {e : Failure} (ha : a.run h m = (.error e, m')) :
    (a >>= f).asksToolchain h m = a.asksToolchain h m := by
  unfold asksToolchain
  rw [requests_bind_error ha]

/-- The calls of the toolchain that a run of an action makes. -/
def calls (a : Action α) (h : Host) (m : Machine) : List (Call × FileSystem) :=
  Program.calls h (ExceptT.run a) m

theorem asksToolchain_eq (a : Action α) (h : Host) (m : Machine) :
    a.asksToolchain h m = !(a.calls h m).isEmpty :=
  Program.any_isCapture_requests h _ m

theorem calls_of_not_asked (ha : a.asksToolchain h m = false) : a.calls h m = [] := by
  rw [asksToolchain_eq, Bool.not_eq_false'] at ha
  exact List.isEmpty_iff.1 ha

theorem calls_bind_ok {x : α} (ha : a.run h m = (.ok x, m')) :
    (a >>= f).calls h m = a.calls h m ++ (f x).calls h m' := by
  show Program.calls h (Program.bind (ExceptT.run a) (ExceptT.bindCont f)) m = _
  unfold Action.run at ha
  rw [Program.calls_bind, ha]
  rfl

theorem calls_bind_error {e : Failure} (ha : a.run h m = (.error e, m')) :
    (a >>= f).calls h m = a.calls h m := by
  show Program.calls h (Program.bind (ExceptT.run a) (ExceptT.bindCont f)) m = _
  unfold Action.run at ha
  rw [Program.calls_bind, ha]
  exact List.append_nil _

/-! ## Section 3: Actions that make only certain requests -/

/-- Whatever the answers are, `a` makes only requests that `P` allows. -/
def Only (P : Request → Prop) (a : Action α) : Prop := Program.Only P (ExceptT.run a)

/-- An action that changes no files and does not ask the toolchain. -/
abbrev Looks (a : Action α) : Prop := Only (·.looks = true) a

/-- An action that does not ask the toolchain. -/
abbrev Alone (a : Action α) : Prop := Only (·.isCapture = false) a

variable {P : Request → Prop}

theorem only_pure (x : α) : Only P (pure x : Action α) := trivial

theorem only_throw (f : Failure) : Only P (throw f : Action α) := trivial

theorem looks_ask {r : Request} (hr : r.looks = true) : Looks (ask r) := ⟨hr, fun _ => trivial⟩

theorem alone_ask {r : Request} (hr : r.isCapture = false) : Alone (ask r) :=
  ⟨hr, fun _ => trivial⟩

theorem Only.bind (ha : Only P a) (hf : ∀ x, Only P (f x)) : Only P (a >>= f) := by
  refine Program.Only.bind ha fun x => ?_
  cases x with
  | ok x => exact hf x
  | error e => trivial

theorem Only.orUndo {cleanup : Program PUnit} (ha : Only P a) (hcleanup : cleanup.Only P) :
    Only P (a.orUndo cleanup) := by
  refine Program.Only.bind ha fun x => ?_
  cases x with
  | ok x => trivial
  | error e => exact hcleanup.bind fun _ => trivial

/-- Whatever the answers are, the result of `a`, if it has one, is one that `R`
    allows. -/
def Gives (R : α → Prop) (a : Action α) : Prop :=
  Program.Gives (fun x => ∀ y, x = .ok y → R y) (ExceptT.run a)

theorem Only.bind_of_gives {R : α → Prop} (ha : Only P a) (hresult : a.Gives R)
    (hf : ∀ x, R x → Only P (f x)) : Only P (a >>= f) := by
  refine Program.Only.bind_of_gives ha hresult fun x hx => ?_
  cases x with
  | ok x => exact hf x (hx x rfl)
  | error e => trivial

theorem Gives.of_run {R : α → Prop} {x : α} (ha : a.Gives R) (hrun : a.run h m = (.ok x, m')) :
    R x := by
  have hresult := Program.Gives.run ha h m
  unfold Action.run at hrun
  rw [hrun] at hresult
  exact hresult x rfl

theorem gives_pure {R : α → Prop} {x : α} (hx : R x) : Gives R (pure x : Action α) := by
  intro y hy
  cases hy
  exact hx

theorem gives_throw {R : α → Prop} (f : Failure) : Gives R (throw f : Action α) := nofun

theorem Gives.bind {R : α → Prop} {S : β → Prop} (ha : a.Gives R) (hf : ∀ x, R x → (f x).Gives S) :
    (a >>= f).Gives S := by
  refine Program.Gives.bind ha fun x hx => ?_
  cases x with
  | ok x => exact hf x (hx x rfl)
  | error e => exact nofun

theorem gives_any (a : Action α) : a.Gives fun _ => True :=
  Program.gives_of_forall (fun _ _ _ => trivial) _

theorem Gives.of_bind {R : β → Prop} (hf : ∀ x, Gives R (f x)) : Gives R (a >>= f) :=
  a.gives_any.bind fun x _ => hf x

theorem gives_orFail (x : Except IoError α) (f : IoError → Failure) :
    (orFail x f).Gives fun y => x = .ok y := by
  cases x with
  | ok x => exact gives_pure rfl
  | error e => exact gives_throw _

theorem only_orFail (x : Except IoError α) (f : IoError → Failure) : Only P (orFail x f) := by
  cases x with
  | ok x => exact only_pure x
  | error e => exact only_throw _

theorem only_lift {p : Program α} (hp : p.Only P) : Only P (ExceptT.lift p) :=
  hp.bind fun _ => trivial

theorem looks_logAll (es : List Log.Event) : Looks (logAll es) := by
  induction es with
  | nil => exact only_pure _
  | cons e es ih => exact (looks_ask rfl).bind fun _ => ih

/-- To log events is to see them, in order. -/
theorem run_logAll_eq (es : List Log.Event) (h : Host) (m : Machine) :
    (logAll es).run h m = (.ok (), { m with seen := m.seen ++ es.map Sight.logged }) := by
  induction es generalizing m with
  | nil => simp [logAll]
  | cons e es ih =>
    rw [logAll, run_bind_ok (run_ask _ h m), ih]
    simp [Machine.respond, Machine.see]

/-- Logging is no failure. -/
theorem run_logAll (es : List Log.Event) (h : Host) (m : Machine) :
    ∃ m', (logAll es).run h m = (.ok (), m') ∧ m'.files = m.files :=
  ⟨_, run_logAll_eq es h m, rfl⟩

theorem Looks.files (ha : Looks a) (h : Host) (m : Machine) : (a.run h m).2.files = m.files :=
  Program.Only.files_run ha h m

theorem Looks.alone (ha : Looks a) : Alone a :=
  Program.Only.mono ha fun _ => Request.isCapture_of_looks

theorem Alone.asksToolchain (ha : Alone a) (h : Host) (m : Machine) :
    a.asksToolchain h m = false := by
  unfold Action.asksToolchain
  rw [List.any_eq_false]
  intro r hr
  rw [Program.Only.requests ha h m r hr]
  exact Bool.false_ne_true

/-- What is done alone before a part makes no calls. -/
theorem Alone.calls_bind {x : α} (ha : Alone a) (hrun : a.run h m = (.ok x, m')) :
    (a >>= f).calls h m = (f x).calls h m' := by
  rw [calls_bind_ok hrun, calls_of_not_asked (ha.asksToolchain h m), List.nil_append]

/-- What is done alone after a part makes none either. -/
theorem calls_bind_alone (hf : ∀ x, Alone (f x)) : (a >>= f).calls h m = a.calls h m := by
  rcases hrun : a.run h m with ⟨e | x, m'⟩
  · exact calls_bind_error hrun
  · rw [calls_bind_ok hrun, calls_of_not_asked ((hf x).asksToolchain h m'), List.append_nil]

end Action
end ScriptDeps
