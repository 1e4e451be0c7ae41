import ScriptDeps.Proofs.Run
import ScriptDeps.Tool.Session

/-! # Uses of the tool

    Once its command line is read, a use of the tool loads the settings and
    does the command.  If they are loaded, its exit code and its files are
    those of the command (`run_session_ok`); if not, the command is not done
    (`run_session_error`). -/

namespace ScriptDeps

/-- Showing what is logged changes nothing else. -/
theorem Program.run_showingLogs {α : Type} (d : Log.Display) (p : Program α) (h : Host)
    {m m' : Machine} (hfiles : m.files = m'.files) :
    ((p.showingLogs d).run h m).1 = (p.run h m').1 ∧
      ((p.showingLogs d).run h m).2.files = (p.run h m').2.files := by
  induction p generalizing m m' with
  | done a => exact ⟨rfl, hfiles⟩
  | ask r next ih =>
    obtain ⟨hanswer, hafter⟩ := Machine.respond_congr hfiles h r
    have hshown : ((ask r fun x => (next x).showingLogs d).run h m).1 =
        ((ask r next).run h m').1 ∧ ((ask r fun x => (next x).showingLogs d).run h m).2.files =
          ((ask r next).run h m').2.files := by
      rw [run_ask, run_ask, ← hanswer]
      exact ih _ hafter
    cases r
    case log e =>
      rw [showingLogs]
      cases d.line? e with
      | some line => exact ih () hfiles
      | none => exact ih () hfiles
    all_goals exact hshown

namespace Tool

open CommandLine (Argument Order readNormal)

variable {e : Environment} {args : List Argument} {o : Order} {s : Settings} {f : Failure}
  {h : Host} {m m' : Machine}

/-- The exit code for what comes of a command. -/
def outcomeCode : Except Failure Nat → Nat
  | .ok code => code
  | .error f => f.exitCode

theorem run_report (f : Failure) (h : Host) (m : Machine) :
    ((report f).run h m).1 = f.exitCode ∧ ((report f).run h m).2.files = m.files := by
  unfold report
  cases f.hint? with
  | none => exact ⟨rfl, rfl⟩
  | some hint => exact ⟨rfl, rfl⟩

/-- An order for anything but completions is obeyed. -/
theorem run_session (hread : readNormal e.settings? args = .ok o)
    (hcommand : ∀ shell, o.command ≠ .completions shell) (h : Host) (m : Machine) :
    ((session e args).run h m).1 = outcomeCode ((obey e o).run h m).1 ∧
      ((session e args).run h m).2.files = ((obey e o).run h m).2.files := by
  have hsession : session e args = (obey e o).bind fun
      | .ok code => .done code
      | .error f => report f := by
    unfold session
    rw [hread]
    obtain ⟨verbose, named, command⟩ := o
    cases command with
    | completions shell => exact absurd rfl (hcommand shell)
    | _ => rfl
  rw [hsession, Program.run_bind]
  cases ((obey e o).run h m).1 with
  | ok code => exact ⟨rfl, rfl⟩
  | error f => exact run_report f h _

theorem run_session_ok (hread : readNormal e.settings? args = .ok o)
    (hcommand : ∀ shell, o.command ≠ .completions shell)
    (hload : (Settings.load (Settings.locate e.places o.settings)).run h m = (.ok s, m')) :
    ((session e args).run h m).1 =
        outcomeCode ((perform e s (Settings.locate e.places o.settings) o.command).run h m').1 ∧
      ((session e args).run h m).2.files =
        ((perform e s (Settings.locate e.places o.settings) o.command).run h m').2.files := by
  obtain ⟨hcode, hfiles⟩ := run_session hread hcommand h m
  have hobey : (obey e o).run h m = Program.run h ((ExceptT.run (perform e s
      (Settings.locate e.places o.settings) o.command)).showingLogs
        (display e o.verbose (.ok s))) m' := by
    unfold Action.run at hload
    unfold obey
    dsimp only [Program.bind_eq]
    rw [Program.run_bind, hload]
  obtain ⟨hresult, hafter⟩ := Program.run_showingLogs (display e o.verbose (.ok s))
    (ExceptT.run (perform e s (Settings.locate e.places o.settings) o.command)) h (m := m') rfl
  rw [hobey] at hcode hfiles
  exact ⟨hcode.trans (congrArg outcomeCode hresult), hfiles.trans hafter⟩

theorem run_session_error (hread : readNormal e.settings? args = .ok o)
    (hcommand : ∀ shell, o.command ≠ .completions shell)
    (hload : (Settings.load (Settings.locate e.places o.settings)).run h m = (.error f, m')) :
    ((session e args).run h m).1 = f.exitCode ∧
      ((session e args).run h m).2.files = m'.files := by
  obtain ⟨hcode, hfiles⟩ := run_session hread hcommand h m
  have hobey : (obey e o).run h m = (.error f, m') := by
    unfold Action.run at hload
    unfold obey
    dsimp only [Program.bind_eq]
    rw [Program.run_bind, hload]
    rfl
  rw [hobey] at hcode hfiles
  exact ⟨hcode, hfiles⟩

end Tool
end ScriptDeps
