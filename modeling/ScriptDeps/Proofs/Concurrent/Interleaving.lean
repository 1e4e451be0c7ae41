import Mathlib.Data.Fintype.Basic
import ScriptDeps.Proofs.Run

/-! # Runs at the same time

    Several programs run on the same files, one request at a time, in any
    order.  What one of them can count on is told by a `Discipline` that all of
    them keep to: an invariant of the world, and what may happen to the world
    from one moment to a later one.  A program withstands the others if it
    comes to its end well although, before each of its requests, anything may
    have happened that the discipline allows; programs that withstand each
    other do so in every interleaving (`Runs.Reaches.withstands`). -/

namespace ScriptDeps

variable {ι : Type}

/-! ## Section 1: Model -/

/-- One step of a run: what it asks for, of which files, and the answer. -/
structure Step (ι : Type) where
  who     : ι
  files   : FileSystem
  request : Request
  answer  : request.Answer

/-- The files, and all steps so far. -/
structure World (ι : Type) where
  files : FileSystem
  steps : List (Step ι) := []

namespace World

/-- The answer to a request that a host gives. -/
def answer (w : World ι) (h : Host) (r : Request) : r.Answer :=
  (Machine.respond h ⟨w.files, []⟩ r).1

/-- The world after the run `i` has made a request. -/
def after (w : World ι) (i : ι) (h : Host) (r : Request) : World ι where
  files := (Machine.respond h ⟨w.files, []⟩ r).2.files
  steps := w.steps ++ [⟨i, w.files, r, w.answer h r⟩]

/-- The steps of the run `i`. -/
def own [DecidableEq ι] (w : World ι) (i : ι) : List (Step ι) := w.steps.filter (·.who = i)

end World

/-- Programs that run at the same time, each as far as it has come. -/
structure Runs (ι ρ : Type) where
  programs : ι → Program ρ
  world    : World ι

namespace Runs

variable [DecidableEq ι] {ρ : Type}

/-- The run `i` makes its next request, if it is not done. -/
def move (c : Runs ι ρ) (i : ι) (h : Host) : Runs ι ρ :=
  match c.programs i with
  | .done _ => c
  | .ask r next =>
      ⟨Function.update c.programs i (next (c.world.answer h r)), c.world.after i h r⟩

/-- Some interleaving leads from `c` to `c'`, the run `i` having made each of
    its requests in surroundings that `may i` allows.  In between the files may
    change on their own as `drift` allows. -/
inductive Reaches (may : ι → Host → Prop) (drift : FileSystem → FileSystem → Prop)
    (c : Runs ι ρ) : Runs ι ρ → Prop
  | refl : Reaches may drift c c
  | move {c' : Runs ι ρ} (hreach : Reaches may drift c c') (i : ι) (h : Host) (hmay : may i h) :
      Reaches may drift c (c'.move i h)
  | drift {c' : Runs ι ρ} (hreach : Reaches may drift c c') {fs : FileSystem}
      (hdrift : drift c'.world.files fs) :
      Reaches may drift c ⟨c'.programs, ⟨fs, c'.world.steps⟩⟩

end Runs

/-- What all runs keep to: an invariant of the world, and how one world may
    become another.  To look around is always allowed. -/
structure Discipline (ι : Type) where
  Sound   : World ι → Prop
  Evolves : World ι → World ι → Prop
  refl    : ∀ w, Evolves w w
  trans   : ∀ {w₁ w₂ w₃}, Evolves w₁ w₂ → Evolves w₂ w₃ → Evolves w₁ w₃
  looks   : ∀ w i h r, r.looks = true → Sound w →
    Sound (w.after i h r) ∧ Evolves w (w.after i h r)

variable [DecidableEq ι] {D : Discipline ι} {i j : ι} {w w' w₁ w₂ : World ι} {h : Host}
  {r : Request} {ok : Host → Prop}

/-- What may have happened since the last step of the run `i`. -/
structure Discipline.Meanwhile (D : Discipline ι) (i : ι) (w w' : World ι) : Prop where
  sound   : D.Sound w'
  evolves : D.Evolves w w'
  own     : w'.own i = w.own i

/-- Once `P` holds it goes on to do so, whatever happens. -/
def Discipline.Lasts (D : Discipline ι) (P : World ι → Prop) : Prop :=
  ∀ ⦃w w'⦄, P w → D.Evolves w w' → P w'

/-- What `drift` may do to the files keeps to the discipline. -/
def Discipline.Allows (D : Discipline ι) (drift : FileSystem → FileSystem → Prop) : Prop :=
  ∀ w fs, D.Sound w → drift w.files fs →
    D.Sound ⟨fs, w.steps⟩ ∧ D.Evolves w ⟨fs, w.steps⟩

/-- A request of the run `i` keeps to the discipline. -/
structure Discipline.Keeps (D : Discipline ι) (w : World ι) (i : ι) (h : Host) (r : Request) :
    Prop where
  sound   : D.Sound (w.after i h r)
  evolves : D.Evolves w (w.after i h r)

namespace Program

variable {α β : Type}

/-- As a program of the run `i`, and whatever happens between its steps, `p`
    keeps to the discipline and ends with a result of which `Q` holds from
    then on. -/
def Withstands (D : Discipline ι) (i : ι) (ok : Host → Prop) (Q : α → World ι → Prop) :
    Program α → World ι → Prop
  | done a, w => ∀ w', D.Meanwhile i w w' → Q a w'
  | ask r next, w => ∀ w', D.Meanwhile i w w' → ∀ h, ok h →
      D.Keeps w' i h r ∧ (next (w'.answer h r)).Withstands D i ok Q (w'.after i h r)

/-- With the answers that the steps `steps` had, `p` makes these steps and
    ends with `a`. -/
inductive Follows : Program α → List (Step ι) → α → Prop
  | done (a : α) : Follows (done a) [] a
  | ask {r : Request} {next : r.Answer → Program α} {i : ι} {fs : FileSystem} {x : r.Answer}
      {steps : List (Step ι)} {a : α} (hnext : Follows (next x) steps a) :
      Follows (ask r next) (⟨i, fs, r, x⟩ :: steps) a

end Program

/-! ## Section 2: Steps -/

theorem World.own_after_self (w : World ι) (i : ι) (h : Host) (r : Request) :
    (w.after i h r).own i = w.own i ++ [⟨i, w.files, r, w.answer h r⟩] := by
  simp [own, after]

theorem World.own_after_other (w : World ι) (hij : i ≠ j) (h : Host) (r : Request) :
    (w.after j h r).own i = w.own i := by
  simp [own, after, hij.symm]

omit [DecidableEq ι] in
theorem World.after_of_respond {w : World ι} {fs : FileSystem} {x : r.Answer} (i : ι)
    (hrespond : Machine.respond h ⟨w.files, []⟩ r = (x, ⟨fs, []⟩)) :
    w.answer h r = x ∧ (w.after i h r).files = fs := by
  rw [answer, after, hrespond]
  exact ⟨rfl, rfl⟩

/-- A move is a step of the program that makes it. -/
theorem Runs.move_eq_step {ρ : Type} (c : Runs ι ρ) (i : ι) (h : Host) :
    (c.move i h).programs i = (Program.step h (c.programs i, ⟨c.world.files, []⟩)).1 ∧
      (c.move i h).world.files = (Program.step h (c.programs i, ⟨c.world.files, []⟩)).2.files ∧
      ∀ j, j ≠ i → (c.move i h).programs j = c.programs j := by
  unfold move
  cases hi : c.programs i with
  | done a => exact ⟨hi, rfl, fun _ _ => rfl⟩
  | ask r next =>
    exact ⟨Function.update_self .., rfl, fun j hj => Function.update_of_ne hj ..⟩

theorem Discipline.Meanwhile.refl (hsound : D.Sound w) : D.Meanwhile i w w :=
  ⟨hsound, D.refl w, rfl⟩

theorem Discipline.Meanwhile.trans (h : D.Meanwhile i w w₁) (h' : D.Meanwhile i w₁ w₂) :
    D.Meanwhile i w w₂ := ⟨h'.sound, D.trans h.evolves h'.evolves, h'.own.trans h.own⟩

omit [DecidableEq ι] in
theorem Discipline.keeps_of_looks (hr : r.looks = true) (hsound : D.Sound w) : D.Keeps w i h r :=
  ⟨(D.looks w i h r hr hsound).1, (D.looks w i h r hr hsound).2⟩

omit [DecidableEq ι] in
theorem Discipline.lasts_const (D : Discipline ι) (p : Prop) : D.Lasts fun _ => p :=
  fun _ _ hp _ => hp

omit [DecidableEq ι] in
theorem Discipline.Lasts.and {P Q : World ι → Prop} (hP : D.Lasts P) (hQ : D.Lasts Q) :
    D.Lasts fun w => P w ∧ Q w :=
  fun _ _ hw hevolves => ⟨hP hw.1 hevolves, hQ hw.2 hevolves⟩

/-- To the others a step is something that happens meanwhile. -/
theorem Discipline.Keeps.meanwhile (h' : D.Keeps w j h r) (hij : i ≠ j) :
    D.Meanwhile i w (w.after j h r) := ⟨h'.sound, h'.evolves, w.own_after_other hij h r⟩

namespace Program

variable {α β : Type} {p : Program α} {f : α → Program β} {Q R : α → World ι → Prop}
  {S : β → World ι → Prop}

/-! ## Section 3: Programs that withstand the others -/

theorem Withstands.meanwhile (hp : p.Withstands D i ok Q w) (hw : D.Meanwhile i w w') :
    p.Withstands D i ok Q w' := by
  cases p with
  | done a => exact fun w'' hw' => hp w'' (hw.trans hw')
  | ask r next => exact fun w'' hw' => hp w'' (hw.trans hw')

theorem Withstands.mono (hp : p.Withstands D i ok Q w) (hQR : ∀ a w', Q a w' → R a w') :
    p.Withstands D i ok R w := by
  induction p generalizing w with
  | done a => exact fun w' hw => hQR a w' (hp w' hw)
  | ask r next ih =>
    intro w' hw h hok
    obtain ⟨hkeeps, hnext⟩ := hp w' hw h hok
    exact ⟨hkeeps, ih _ hnext⟩

/-- What holds after `p` is what `f` can start from. -/
theorem Withstands.bind (hsound : D.Sound w) (hp : p.Withstands D i ok Q w)
    (hf : ∀ a w', D.Sound w' → Q a w' → (f a).Withstands D i ok S w') :
    (p.bind f).Withstands D i ok S w := by
  induction p generalizing w with
  | done a => exact hf a w hsound (hp w (.refl hsound))
  | ask r next ih =>
    intro w' hw h hok
    obtain ⟨hkeeps, hnext⟩ := hp w' hw h hok
    exact ⟨hkeeps, ih _ hkeeps.sound hnext⟩

/-- A program that only looks around takes nothing away of what lasts. -/
theorem withstands_of_looks {P : World ι → Prop} (hp : p.Only (·.looks = true))
    (hP : D.Lasts P) (hw : P w) : p.Withstands D i ok (fun _ w' => P w') w := by
  induction p generalizing w with
  | done a => exact fun w' hw' => hP hw hw'.evolves
  | ask r next ih =>
    intro w' hw' h hok
    have hkeeps := D.keeps_of_looks (i := i) (h := h) hp.1 hw'.sound
    exact ⟨hkeeps, ih _ (hp.2 _) (hP hw (D.trans hw'.evolves hkeeps.evolves))⟩

/-- A request withstands what happens if, whenever it is made, it keeps to the
    discipline and has an answer that goes on to be right. -/
theorem withstands_request {Q : r.Answer → World ι → Prop} (hQ : ∀ x, D.Lasts (Q x))
    (hstep : ∀ w' h, D.Meanwhile i w w' → ok h →
      D.Keeps w' i h r ∧ Q (w'.answer h r) (w'.after i h r)) :
    (request r).Withstands D i ok Q w := by
  intro w' hw h hok
  obtain ⟨hkeeps, hanswer⟩ := hstep w' h hw hok
  exact ⟨hkeeps, fun w'' hw' => hQ _ hanswer hw'.evolves⟩

/-- The steps that a program adds to its own are those that it makes with
    their answers, each at a moment after `w`. -/
theorem Withstands.follows (hp : p.Withstands D i ok Q w) :
    p.Withstands D i ok (fun a w' => Q a w' ∧ ∃ steps, w'.own i = w.own i ++ steps ∧
      p.Follows steps a ∧ ∀ s ∈ steps, ∃ w₁, D.Evolves w w₁ ∧ s.files = w₁.files) w := by
  induction p generalizing w with
  | done a =>
    intro w' hw
    exact ⟨hp w' hw, [], by rw [hw.own, List.append_nil], .done a, nofun⟩
  | ask r next ih =>
    intro w' hw h hok
    obtain ⟨hkeeps, hnext⟩ := hp w' hw h hok
    refine ⟨hkeeps, (ih _ hnext).mono ?_⟩
    rintro a w'' ⟨hQ, steps, hown, hfollows, hfiles⟩
    refine ⟨hQ, ⟨i, w'.files, r, w'.answer h r⟩ :: steps, ?_, .ask hfollows, fun s hs => ?_⟩
    · rw [hown, World.own_after_self, hw.own, List.append_assoc]
      rfl
    · rcases List.mem_cons.1 hs with rfl | hs
      · exact ⟨w', hw.evolves, rfl⟩
      · obtain ⟨w₁, hw₁, heq⟩ := hfiles s hs
        exact ⟨w₁, D.trans hw.evolves (D.trans hkeeps.evolves hw₁), heq⟩

end Program

/-! ## Section 4: Interleavings -/

namespace Runs

variable {ρ : Type} {c c' c'' : Runs ι ρ} {may : ι → Host → Prop}
  {drift : FileSystem → FileSystem → Prop} {Q : ι → ρ → World ι → Prop}

theorem Reaches.trans (hreach : c.Reaches may drift c') (hreach' : c'.Reaches may drift c'') :
    c.Reaches may drift c'' := by
  induction hreach' with
  | refl => exact hreach
  | move _ i h hmay ih => exact ih.move i h hmay
  | drift _ hdrift ih => exact ih.drift hdrift

/-- Programs that withstand each other do so in every interleaving. -/
theorem Reaches.withstands (hreach : c.Reaches may drift c') (hallows : D.Allows drift)
    (hsound : D.Sound c.world)
    (hall : ∀ i, (c.programs i).Withstands D i (may i) (Q i) c.world) :
    D.Sound c'.world ∧ D.Evolves c.world c'.world ∧
      ∀ i, (c'.programs i).Withstands D i (may i) (Q i) c'.world := by
  -- The one that moves is where it has to be after its step; for all others the step is
  -- one that others make, and those they withstand.
  induction hreach with
  | refl => exact ⟨hsound, D.refl _, hall⟩
  | drift _ hdrift ih =>
    obtain ⟨hsound', hevolves, hall'⟩ := ih
    obtain ⟨hsound₁, hevolves₁⟩ := hallows _ _ hsound' hdrift
    exact ⟨hsound₁, D.trans hevolves hevolves₁,
      fun i => (hall' i).meanwhile ⟨hsound₁, hevolves₁, rfl⟩⟩
  | @move c' _ i h hmay ih =>
    obtain ⟨hsound', hevolves, hall'⟩ := ih
    have hi := hall' i
    unfold Runs.move
    cases hprogram : c'.programs i with
    | done a => exact ⟨hsound', hevolves, hall'⟩
    | ask r next =>
      rw [hprogram] at hi
      obtain ⟨hkeeps, hnext⟩ := hi c'.world (.refl hsound') h hmay
      refine ⟨hkeeps.sound, D.trans hevolves hkeeps.evolves, fun j => ?_⟩
      dsimp only
      by_cases hj : j = i
      · subst hj
        rw [Function.update_self]
        exact hnext
      · rw [Function.update_of_ne hj]
        exact (hall' j).meanwhile (hkeeps.meanwhile hj)

/-- What a run has ended with is what it was to end with. -/
theorem Reaches.result (hreach : c.Reaches may drift c') (hallows : D.Allows drift)
    (hsound : D.Sound c.world)
    (hall : ∀ i, (c.programs i).Withstands D i (may i) (Q i) c.world) {a : ρ}
    (hdone : c'.programs i = .done a) : Q i a c'.world := by
  obtain ⟨hsound', _, hall'⟩ := hreach.withstands hallows hsound hall
  have hi := hall' i
  rw [hdone] at hi
  exact hi _ (.refl hsound')

/-- Every run can be brought to its end, however far the others are. -/
theorem exists_done (c : Runs ι ρ) {i : ι} (hok : may i h) :
    ∃ c' a, c.Reaches may drift c' ∧ c'.programs i = .done a ∧
      ∀ j, j ≠ i → c'.programs j = c.programs j := by
  generalize hp : c.programs i = p
  induction p generalizing c with
  | done a => exact ⟨c, a, .refl, hp, fun _ _ => rfl⟩
  | ask r next ih =>
    have hmove : (c.move i h).programs i = next (c.world.answer h r) := by
      unfold move
      rw [hp]
      exact Function.update_self ..
    obtain ⟨c', a, hreach, hdone, hother⟩ := ih _ (c.move i h) hmove
    refine ⟨c', a, (Reaches.refl.move i h hok).trans hreach, hdone, fun j hj => ?_⟩
    rw [hother j hj, (move_eq_step c i h).2.2 j hj]

/-- So all of them can. -/
theorem exists_all_done [Fintype ι] (c : Runs ι ρ) (hmay : ∀ i, ∃ h, may i h) :
    ∃ c', c.Reaches may drift c' ∧ ∀ i, ∃ a, c'.programs i = .done a := by
  have hlist : ∀ is : List ι,
      ∃ c', c.Reaches may drift c' ∧ ∀ i ∈ is, ∃ a, c'.programs i = .done a := by
    intro is
    induction is with
    | nil => exact ⟨c, .refl, nofun⟩
    | cons i is ih =>
      obtain ⟨c', hreach, hdone⟩ := ih
      obtain ⟨h, hok⟩ := hmay i
      obtain ⟨c'', a, hreach', hi, hother⟩ := c'.exists_done hok
      refine ⟨c'', hreach.trans hreach', fun j hj => ?_⟩
      by_cases hji : j = i
      · exact hji ▸ ⟨a, hi⟩
      · rw [hother j hji]
        exact hdone j ((List.mem_cons.1 hj).resolve_left hji)
  obtain ⟨c', hreach, hdone⟩ := hlist Finset.univ.toList
  exact ⟨c', hreach, fun i => hdone i (Finset.mem_toList.2 (Finset.mem_univ i))⟩

end Runs

/-! ## Section 5: Actions -/

namespace Action

variable {α β : Type} {a : Action α} {f : α → Action β} {Q R : α → World ι → Prop}
  {S : β → World ι → Prop}

/-- Whatever happens between its steps, an action succeeds. -/
def Withstands (D : Discipline ι) (i : ι) (ok : Host → Prop) (Q : α → World ι → Prop)
    (a : Action α) (w : World ι) : Prop :=
  Program.Withstands D i ok (fun x w' => ∃ v, x = .ok v ∧ Q v w') (ExceptT.run a) w

/-- After an action that succeeds, one may come that does not. -/
theorem Withstands.run_bind {R : Except Failure β → World ι → Prop} (hsound : D.Sound w)
    (ha : a.Withstands D i ok Q w)
    (hf : ∀ v w', D.Sound w' → Q v w' → Program.Withstands D i ok R (ExceptT.run (f v)) w') :
    Program.Withstands D i ok R (ExceptT.run (a >>= f)) w := by
  refine Program.Withstands.bind hsound ha ?_
  rintro _ w' hsound' ⟨v, rfl, hv⟩
  exact hf v w' hsound' hv

theorem Withstands.bind (hsound : D.Sound w) (ha : a.Withstands D i ok Q w)
    (hf : ∀ v w', D.Sound w' → Q v w' → (f v).Withstands D i ok S w') :
    (a >>= f).Withstands D i ok S w := ha.run_bind hsound hf

theorem withstands_pure {v : α} (hQ : D.Lasts (Q v)) (hw : Q v w) :
    (pure v : Action α).Withstands D i ok Q w :=
  fun _ hw' => ⟨v, rfl, hQ hw hw'.evolves⟩

theorem withstands_ask {Q : r.Answer → World ι → Prop} (hQ : ∀ x, D.Lasts (Q x))
    (hstep : ∀ w' h, D.Meanwhile i w w' → ok h →
      D.Keeps w' i h r ∧ Q (w'.answer h r) (w'.after i h r)) :
    (ask r).Withstands D i ok Q w := by
  intro w' hw h hok
  obtain ⟨hkeeps, hnext⟩ := Program.withstands_request hQ hstep w' hw h hok
  exact ⟨hkeeps, fun w'' hw' => ⟨_, rfl, hnext w'' hw'⟩⟩

theorem withstands_look {Q : r.Answer → World ι → Prop} (hr : r.looks = true)
    (hQ : ∀ x, D.Lasts (Q x))
    (hstep : ∀ w' h, D.Meanwhile i w w' → ok h → Q (w'.answer h r) w') :
    (ask r).Withstands D i ok Q w := by
  refine withstands_ask hQ fun w' h hw hok => ?_
  have hkeeps := D.keeps_of_looks (i := i) (h := h) hr hw.sound
  exact ⟨hkeeps, hQ _ (hstep w' h hw hok) hkeeps.evolves⟩

/-- A program that cannot fail, as an action. -/
theorem withstands_lift {p : Program α} (hsound : D.Sound w) (hp : p.Withstands D i ok Q w)
    (hQ : ∀ v, D.Lasts (Q v)) : Action.Withstands D i ok Q (ExceptT.lift p) w :=
  Program.Withstands.bind hsound hp fun v _ _ hv _ hw => ⟨v, rfl, hQ v hv hw.evolves⟩

variable {P : World ι → Prop}

theorem withstands_orFail {v : α} {fail : IoError → Failure} (hP : D.Lasts P) (hw : P w) :
    (orFail (.ok v) fail).Withstands D i ok (fun _ w' => P w') w := withstands_pure hP hw

/-- To look around takes nothing away of what lasts. -/
theorem withstands_look_on (hr : r.looks = true) (hP : D.Lasts P) (hw : P w) :
    (ask r).Withstands D i ok (fun _ w' => P w') w :=
  withstands_look hr (fun _ => hP) fun _ _ hw' _ => hP hw hw'.evolves

theorem withstands_logAll (hsound : D.Sound w) (hP : D.Lasts P) (hw : P w)
    (es : List Log.Event) : (logAll es).Withstands D i ok (fun _ w' => P w') w := by
  induction es generalizing w with
  | nil => exact withstands_pure hP hw
  | cons e es ih =>
    exact (withstands_look_on rfl hP hw).bind hsound fun _ w' hsound' hw' => ih hsound' hw'

end Action
end ScriptDeps
